import CommittedChoice.Parser.Derived

set_option autoImplicit false

/-! # Parsing expressions

A `Peg` is a parsing expression over tokens. Its meaning knows nothing of states, flags or
bookmarks: `Peg.Derives e s result` is the big-step relation that says what `e` makes of the tokens
`s`, a failure or a match that leaves some of them. It has at most one result
(`Peg.Derives.unique`) and none where a repetition comes to a body that matches nothing, because
that body would match nothing again. `Peg.Loops e s` says that this happens on the way, and it
excludes a result (`Peg.Loops.not_derives`).

`Peg.translate` writes an expression as a parser: whatever may fail where something else is tried
next is made safe. -/

namespace CommittedChoice

variable {τ : Type}

/-- A parsing expression. -/
inductive Peg (τ : Type) where
  /-- Nothing. -/
  | empty
  /-- One given token. -/
  | token (t : τ)
  /-- One expression and then another. -/
  | seq (a b : Peg τ)
  /-- The first expression, or the second one where the first one fails. -/
  | choice (a b : Peg τ)
  /-- An expression as often as it matches. -/
  | star (a : Peg τ)
  /-- An expression or nothing. -/
  | opt (a : Peg τ)
  /-- Matches nothing where the expression matches. -/
  | ahead (a : Peg τ)
  /-- Matches nothing where the expression fails. -/
  | absent (a : Peg τ)

namespace Peg

/-! ## Matching and failing -/

/-- What an expression makes of the tokens `s`: `none` is a failure, and `some s'` a match that
    leaves `s'`. -/
inductive Derives : Peg τ → List τ → Option (List τ) → Prop where
  | empty {s : List τ} : Derives .empty s (some s)
  | token {t : τ} {s : List τ} : Derives (.token t) (t :: s) (some s)
  | token_end {t : τ} : Derives (.token t) [] none
  | token_other {t u : τ} {s : List τ} (hne : u ≠ t) : Derives (.token t) (u :: s) none
  | seq {a b : Peg τ} {s s' : List τ} {result : Option (List τ)} (ha : Derives a s (some s'))
      (hb : Derives b s' result) : Derives (.seq a b) s result
  | seq_fails {a b : Peg τ} {s : List τ} (ha : Derives a s none) : Derives (.seq a b) s none
  | choice_first {a b : Peg τ} {s s' : List τ} (ha : Derives a s (some s')) :
      Derives (.choice a b) s (some s')
  | choice_second {a b : Peg τ} {s : List τ} {result : Option (List τ)} (ha : Derives a s none)
      (hb : Derives b s result) : Derives (.choice a b) s result
  | star_done {a : Peg τ} {s : List τ} (ha : Derives a s none) : Derives (.star a) s (some s)
  | star_more {a : Peg τ} {s s' s'' : List τ} (ha : Derives a s (some s'))
      (hrest : Derives (.star a) s' (some s'')) : Derives (.star a) s (some s'')
  | opt_some {a : Peg τ} {s s' : List τ} (ha : Derives a s (some s')) :
      Derives (.opt a) s (some s')
  | opt_none {a : Peg τ} {s : List τ} (ha : Derives a s none) : Derives (.opt a) s (some s)
  | ahead {a : Peg τ} {s s' : List τ} (ha : Derives a s (some s')) : Derives (.ahead a) s (some s)
  | ahead_fails {a : Peg τ} {s : List τ} (ha : Derives a s none) : Derives (.ahead a) s none
  | absent {a : Peg τ} {s : List τ} (ha : Derives a s none) : Derives (.absent a) s (some s)
  | absent_fails {a : Peg τ} {s s' : List τ} (ha : Derives a s (some s')) :
      Derives (.absent a) s none

/-- The evaluation of the expression comes to a repetition whose body matches nothing. -/
inductive Loops : Peg τ → List τ → Prop where
  | star {a : Peg τ} {s : List τ} (ha : a.Derives s (some s)) : Loops (.star a) s
  | star_body {a : Peg τ} {s : List τ} (ha : Loops a s) : Loops (.star a) s
  | star_more {a : Peg τ} {s s' : List τ} (ha : a.Derives s (some s'))
      (hrest : Loops (.star a) s') : Loops (.star a) s
  | seq_first {a b : Peg τ} {s : List τ} (ha : Loops a s) : Loops (.seq a b) s
  | seq_second {a b : Peg τ} {s s' : List τ} (ha : a.Derives s (some s')) (hb : Loops b s') :
      Loops (.seq a b) s
  | choice_first {a b : Peg τ} {s : List τ} (ha : Loops a s) : Loops (.choice a b) s
  | choice_second {a b : Peg τ} {s : List τ} (ha : a.Derives s none) (hb : Loops b s) :
      Loops (.choice a b) s
  | opt {a : Peg τ} {s : List τ} (ha : Loops a s) : Loops (.opt a) s
  | ahead {a : Peg τ} {s : List τ} (ha : Loops a s) : Loops (.ahead a) s
  | absent {a : Peg τ} {s : List τ} (ha : Loops a s) : Loops (.absent a) s

variable {a e : Peg τ} {s : List τ} {result result' : Option (List τ)}

namespace Derives

/-- An expression has at most one result. -/
theorem unique (h : e.Derives s result) (h' : e.Derives s result') : result = result' := by
  induction h generalizing result' with
  | empty | token_end =>
      cases h'
      rfl
  | token =>
      cases h' with
      | token => rfl
      | token_other hne => exact absurd rfl hne
  | token_other hne =>
      cases h' with
      | token => exact absurd rfl hne
      | token_other => rfl
  | seq _ _ iha ihb =>
      cases h' with
      | seq ha' hb' =>
          obtain rfl := Option.some.inj (iha ha')
          exact ihb hb'
      | seq_fails ha' => cases iha ha'
  | seq_fails _ iha =>
      cases h' with
      | seq ha' _ => cases iha ha'
      | seq_fails => rfl
  | choice_first _ iha =>
      cases h' with
      | choice_first ha' => exact iha ha'
      | choice_second ha' _ => cases iha ha'
  | choice_second _ _ iha ihb =>
      cases h' with
      | choice_first ha' => cases iha ha'
      | choice_second _ hb' => exact ihb hb'
  | star_done _ iha =>
      cases h' with
      | star_done => rfl
      | star_more ha' _ => cases iha ha'
  | star_more _ _ iha ihrest =>
      cases h' with
      | star_done ha' => cases iha ha'
      | star_more ha' hrest' =>
          obtain rfl := Option.some.inj (iha ha')
          exact ihrest hrest'
  | opt_some _ iha =>
      cases h' with
      | opt_some ha' => exact iha ha'
      | opt_none ha' => cases iha ha'
  | opt_none _ iha =>
      cases h' with
      | opt_some ha' => cases iha ha'
      | opt_none => rfl
  | ahead _ iha =>
      cases h' with
      | ahead => rfl
      | ahead_fails ha' => cases iha ha'
  | ahead_fails _ iha =>
      cases h' with
      | ahead ha' => cases iha ha'
      | ahead_fails => rfl
  | absent _ iha =>
      cases h' with
      | absent => rfl
      | absent_fails ha' => cases iha ha'
  | absent_fails _ iha =>
      cases h' with
      | absent ha' => cases iha ha'
      | absent_fails => rfl

theorem iff_eq (h : e.Derives s result) : e.Derives s result' ↔ result' = result := by
  constructor
  · intro h'
    exact h'.unique h
  · rintro rfl
    exact h

/-- A repetition whose body matches nothing has no result. -/
theorem not_star (ha : a.Derives s (some s)) : ¬ (Peg.star a).Derives s result := by
  intro h
  -- a derivation would have to contain one of the same kind
  generalize he : Peg.star a = e at h
  induction h with
  | star_done hnone =>
      cases he
      cases hnone.unique ha
  | star_more hsome _ _ ihrest =>
      cases he
      obtain rfl := Option.some.inj (hsome.unique ha)
      exact ihrest ha rfl
  | _ => cases he

/-! ## Repetitions and options as choices -/

/-- A repetition is one round and a repetition, or nothing. -/
theorem star_of_choice (h : (Peg.choice (.seq a (.star a)) .empty).Derives s result) :
    (Peg.star a).Derives s result := by
  cases h with
  | choice_first h =>
      cases h with
      | seq ha hrest => exact .star_more ha hrest
  | choice_second h hempty =>
      cases hempty
      cases h with
      | seq ha hrest => cases hrest
      | seq_fails ha => exact .star_done ha

/-- An option is the expression or nothing. -/
theorem opt_of_choice (h : (Peg.choice a .empty).Derives s result) :
    (Peg.opt a).Derives s result := by
  cases h with
  | choice_first ha => exact .opt_some ha
  | choice_second ha hempty =>
      cases hempty
      exact .opt_none ha

end Derives

namespace Loops

theorem star_of_choice (h : (Peg.choice (.seq a (.star a)) .empty).Loops s) :
    (Peg.star a).Loops s := by
  cases h with
  | choice_first h =>
      cases h with
      | seq_first ha => exact .star_body ha
      | seq_second ha hrest => exact .star_more ha hrest
  | choice_second _ hempty => cases hempty

theorem opt_of_choice (h : (Peg.choice a .empty).Loops s) : (Peg.opt a).Loops s := by
  cases h with
  | choice_first ha => exact .opt ha
  | choice_second _ hempty => cases hempty

/-- Where an expression loops, it has no result. -/
theorem not_derives (h : e.Loops s) : ¬ e.Derives s result := by
  induction h generalizing result with
  | star ha => exact ha.not_star
  | star_body _ iha =>
      intro h
      cases h with
      | star_done ha' => exact iha ha'
      | star_more ha' _ => exact iha ha'
  | star_more ha _ ihrest =>
      intro h
      cases h with
      | star_done ha' => cases ha.unique ha'
      | star_more ha' hrest' =>
          obtain rfl := Option.some.inj (ha.unique ha')
          exact ihrest hrest'
  | seq_first _ iha =>
      intro h
      cases h with
      | seq ha' _ => exact iha ha'
      | seq_fails ha' => exact iha ha'
  | seq_second ha _ ihb =>
      intro h
      cases h with
      | seq ha' hb' =>
          obtain rfl := Option.some.inj (ha.unique ha')
          exact ihb hb'
      | seq_fails ha' => cases ha.unique ha'
  | choice_first _ iha =>
      intro h
      cases h with
      | choice_first ha' => exact iha ha'
      | choice_second ha' _ => exact iha ha'
  | choice_second ha _ ihb =>
      intro h
      cases h with
      | choice_first ha' => cases ha.unique ha'
      | choice_second _ hb' => exact ihb hb'
  | opt _ iha =>
      intro h
      cases h with
      | opt_some ha' => exact iha ha'
      | opt_none ha' => exact iha ha'
  | ahead _ iha =>
      intro h
      cases h with
      | ahead ha' => exact iha ha'
      | ahead_fails ha' => exact iha ha'
  | absent _ iha =>
      intro h
      cases h with
      | absent ha' => exact iha ha'
      | absent_fails ha' => exact iha ha'

end Loops

/-! ## Expressions as parsers -/

/-- The values that the parsers of expressions make. -/
structure Values (τ α : Type) where
  nothing : α
  token : τ → α
  pair : α → α → α
  list : List α → α
  option : Option α → α

/-- The parser of an expression. `name` gives the names by which faults call the bodies of
    repetitions. -/
def translate {α ω : Type} {ρ : Type → Type} [DecidableEq τ] [TokenText τ] (values : Values τ α)
    (name : Peg τ → String) : Peg τ → Parser τ ρ ω α
  | empty => .adapt (fun _ => values.nothing) Parser.unit
  | token t => .adapt values.token (Parser.token t)
  | seq a b => .map2 values.pair (a.translate values name) (b.translate values name)
  | choice a b =>
      Parser.orElse (.safe (a.translate values name)) (.safe (b.translate values name))
  | star a => .adapt values.list (Parser.many (name a) (.safe (a.translate values name)))
  | opt a => .adapt values.option (Parser.optional (.safe (a.translate values name)))
  | ahead a => .lookahead (a.translate values name)
  | absent a =>
      .adapt (fun _ => values.nothing) (Parser.notThere (.safe (a.translate values name)))

end Peg

end CommittedChoice
