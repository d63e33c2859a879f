import CommittedChoice.Position

set_option autoImplicit false

/-! # Configuration

How positions are counted in text. A configuration is usable if tabs have a width and both
coordinates start at one or later. -/

namespace CommittedChoice

/-- How positions are counted in text. -/
structure Config where
  tabWidth : Nat := 4
  resetColumnOnNewline : Bool := false
  firstLine : Nat := 1
  firstColumn : Nat := 1
deriving DecidableEq

/-- Why a configuration is refused. -/
inductive ConfigError where
  /-- The text is not a configuration. -/
  | unreadable
  /-- A tab has no width. -/
  | tabWidth
  /-- A coordinate starts before one. -/
  | firstPosition
deriving DecidableEq

/-- The text of a refusal. -/
def ConfigError.message : ConfigError → String
  | unreadable => "Failed to parse parser config: "
  | tabWidth => "Invalid parser config: tab_width must be at least 1"
  | firstPosition => "Invalid parser config: first_line and first_column are 1-based"

namespace Config

/-- Accepts a usable configuration. -/
def validate (config : Config) : Except ConfigError Unit :=
  if config.tabWidth = 0 then .error .tabWidth
  else if config.firstLine = 0 ∨ config.firstColumn = 0 then .error .firstPosition
  else .ok ()

/-- The position at which a text starts. -/
def start (config : Config) : Position := ⟨config.firstLine, config.firstColumn⟩

/-- How characters move the position. -/
def layout (config : Config) : TextLayout :=
  ⟨config.tabWidth, config.resetColumnOnNewline, config.firstColumn⟩

/-- The configuration as compact JSON text. -/
def toJson (config : Config) : String :=
  "\x7b\"tab_width\":" ++ config.tabWidth.repr
    ++ ",\"reset_column_on_newline\":" ++ (if config.resetColumnOnNewline then "true" else "false")
    ++ ",\"first_line\":" ++ config.firstLine.repr
    ++ ",\"first_column\":" ++ config.firstColumn.repr ++ "\x7d"

theorem validate_eq_ok_iff (config : Config) :
    config.validate = .ok () ↔
      0 < config.tabWidth ∧ 0 < config.firstLine ∧ 0 < config.firstColumn := by
  unfold validate
  split
  · simp; omega
  · split
    · simp; omega
    · simp; omega

end Config

end CommittedChoice
