import CommittedChoice.ParseError
import CommittedChoice.Parser.Derived
import CommittedChoice.Run

set_option autoImplicit false

/-! # Grammars that are alike

Much of what a grammar says is not meant to steer the parse: labels and other expectations, remarks,
the names by which faults call the body of a loop, the messages of negations, and whether references
to a rule share one copy of it. A `Likeness` says which of these two grammars have in common, and
`Parser.Alike` relates parsers that differ in nothing else. It has one rule for each way to build a
parser and, where reports need not be the same, rules that put a reporting wrapper around either of
the two parsers, so that wrappers may be put in and left out anywhere, in any number.

`Likeness.Answers` and `Likeness.Errors` say what the parses of such grammars then have in common. -/

namespace CommittedChoice

/-- What two grammars have in common, besides the steps of the parse. -/
structure Likeness where
  /-- References have the same index and share their copy or not in the same way. -/
  sharing : Prop
  /-- The same is expected and remarked, and loops call their bodies by the same names. -/
  reports : Prop
  /-- Negations have the same messages. -/
  messages : Prop

namespace Likeness

/-- Nothing differs. -/
def same : Likeness := ⟨True, True, True⟩

/-- References may be resolved in other ways, and all else is the same. -/
def upToSharing : Likeness := ⟨False, True, True⟩

/-- Reports may differ, and so may the messages of negations unless `messages` holds. -/
def upToReports (messages : Prop) : Likeness := ⟨True, False, messages⟩

/-! ## Parses of grammars that are alike -/

/-- Parses that stop for the same reason, up to the name of the body of a loop. -/
inductive Stops (like : Likeness) : Stop → Stop → Prop where
  | same (reason : Stop) : Stops like reason reason
  | fault (loop : Loop) {name name' : String} (h : like.reports → name = name') :
      Stops like (.fault (loop.fault name)) (.fault (loop.fault name'))

/-- Answers that are the same, up to the name in a fault. -/
inductive Answers (like : Likeness) {α : Type} : Except Stop α → Except Stop α → Prop where
  | ok (a : α) : Answers like (.ok a) (.ok a)
  | error {reason reason' : Stop} (h : like.Stops reason reason') :
      Answers like (.error reason) (.error reason')

/-- Errors with the same cause, and with the same expectations and the same message where these are
    in common. -/
structure Errors (like : Likeness) {τ : Type} (e e' : ParseError τ) : Prop where
  cause : e.cause = e'.cause
  expected : like.reports → e.expected = e'.expected
  message : like.messages → e.message = e'.message

variable {like : Likeness}

theorem Stops.eq (hreports : like.reports) {reason reason' : Stop}
    (h : like.Stops reason reason') : reason = reason' := by
  cases h with
  | same => rfl
  | fault loop hname => rw [hname hreports]

theorem Answers.eq (hreports : like.reports) {α : Type} {r r' : Except Stop α}
    (h : like.Answers r r') : r = r' := by
  cases h with
  | ok => rfl
  | error hstops => rw [hstops.eq hreports]

namespace Errors

variable {τ : Type} {e e' : ParseError τ}

theorem refl (like : Likeness) (e : ParseError τ) : like.Errors e e :=
  ⟨rfl, fun _ => rfl, fun _ => rfl⟩

theorem position (h : like.Errors e e') : e.position = e'.position :=
  congrArg Cause.position h.cause

theorem eq (hreports : like.reports) (hmessages : like.messages) (h : like.Errors e e') :
    e = e' := by
  obtain ⟨cause, expected, message⟩ := e
  obtain ⟨cause', expected', message'⟩ := e'
  obtain ⟨hcause, hexpected, hmessage⟩ := h
  simp only at hcause hexpected hmessage
  rw [hcause, hexpected hreports, hmessage hmessages]

theorem withExpected (h : like.Errors e e') {expected expected' : List (Expected τ)}
    (hexpected : like.reports → expected = expected') :
    like.Errors (e.withExpected expected) (e'.withExpected expected') :=
  ⟨h.cause, hexpected, h.message⟩

end Errors

end Likeness

/-! ## Parsers that are alike -/

namespace Parser

variable {τ ω : Type} {ρ : Type → Type}

/-- Parsers that differ only in what `like` leaves open. -/
inductive Alike (like : Likeness) : {α : Type} → Parser τ ρ ω α → Parser τ ρ ω α → Prop where
  | satisfy (accepts : τ → Bool) (expected : List (Expected τ)) :
      Alike like (satisfy accepts expected) (satisfy accepts expected)
  | spelled (tests : List (τ → Bool)) (expected : List (Expected τ)) :
      Alike like (spelled tests expected) (spelled tests expected)
  | endOfInput : Alike like endOfInput endOfInput
  | fail {α : Type} (message : String) :
      Alike like (fail message : Parser τ ρ ω α) (fail message)
  | value {α : Type} (v : α) : Alike like (value v) (value v)
  | position : Alike like position position
  | recursive {α : Type} {index index' : Nat} {sharing sharing' : Sharing} (rule : ρ α)
      (h : like.sharing → index = index' ∧ sharing = sharing') :
      Alike like (recursive index sharing rule) (recursive index' sharing' rule)
  | shared {α : Type} {p p' : Parser τ ρ ω α} (hp : Alike like p p') :
      Alike like (shared p) (shared p')
  | adapt {α β : Type} (f : α → β) {p p' : Parser τ ρ ω α} (hp : Alike like p p') :
      Alike like (adapt f p) (adapt f p')
  | map {α β : Type} (f : α → β) {p p' : Parser τ ρ ω α} (hp : Alike like p p') :
      Alike like (map f p) (map f p')
  | observe {α : Type} (remark : α → Remark ω) {p p' : Parser τ ρ ω α} (hp : Alike like p p') :
      Alike like (observe remark p) (observe remark p')
  | map2 {α β γ : Type} (f : α → β → γ) {p p' : Parser τ ρ ω α} {q q' : Parser τ ρ ω β}
      (hp : Alike like p p') (hq : Alike like q q') : Alike like (map2 f p q) (map2 f p' q')
  | map3 {α β γ δ : Type} (f : α → β → γ → δ) {p p' : Parser τ ρ ω α} {q q' : Parser τ ρ ω β}
      {r r' : Parser τ ρ ω γ} (hp : Alike like p p') (hq : Alike like q q')
      (hr : Alike like r r') : Alike like (map3 f p q r) (map3 f p' q' r')
  | map4 {α β γ δ ε : Type} (f : α → β → γ → δ → ε) {p p' : Parser τ ρ ω α}
      {q q' : Parser τ ρ ω β} {r r' : Parser τ ρ ω γ} {s s' : Parser τ ρ ω δ}
      (hp : Alike like p p') (hq : Alike like q q') (hr : Alike like r r')
      (hs : Alike like s s') : Alike like (map4 f p q r s) (map4 f p' q' r' s')
  | all {α : Type} {n : Nat} {ps ps' : Fin n → Parser τ ρ ω α}
      (hps : ∀ i, Alike like (ps i) (ps' i)) : Alike like (all n ps) (all n ps')
  | bind {α β γ : Type} (f : α → β → γ) {p p' : Parser τ ρ ω α} {next next' : α → Parser τ ρ ω β}
      (hp : Alike like p p') (hnext : ∀ v, Alike like (next v) (next' v)) :
      Alike like (bind f p next) (bind f p' next')
  | choice {α : Type} {n : Nat} {ps ps' : Fin n → Parser τ ρ ω α}
      (hps : ∀ i, Alike like (ps i) (ps' i)) : Alike like (choice n ps) (choice n ps')
  | negate {α : Type} {message message' : String} {p p' : Parser τ ρ ω α}
      (h : like.messages → message = message') (hp : Alike like p p') :
      Alike like (negate message p) (negate message' p')
  | check {α : Type} (accepts : α → Bool) (message : α → String) {p p' : Parser τ ρ ω α}
      (hp : Alike like p p') : Alike like (check accepts message p) (check accepts message p')
  | withExpected {α : Type} (expected : List (Expected τ)) {p p' : Parser τ ρ ω α}
      (hp : Alike like p p') : Alike like (withExpected expected p) (withExpected expected p')
  | lookahead {α : Type} {p p' : Parser τ ρ ω α} (hp : Alike like p p') :
      Alike like (lookahead p) (lookahead p')
  | safe {α : Type} {p p' : Parser τ ρ ω α} (hp : Alike like p p') :
      Alike like (safe p) (safe p')
  | chain {α β : Type} {name name' : String} (seed : β) (combine : β → α → β)
      {p p' : Parser τ ρ ω α} (h : like.reports → name = name') (hp : Alike like p p') :
      Alike like (chain name seed combine p) (chain name' seed combine p')
  | separated {α β : Type} {name name' : String} {p p' : Parser τ ρ ω α}
      {separator separator' : Parser τ ρ ω β} (h : like.reports → name = name')
      (hp : Alike like p p') (hseparator : Alike like separator separator') :
      Alike like (separated name p separator) (separated name' p' separator')
  | optionallyTerminated {α β : Type} {name name' : String} {p p' : Parser τ ρ ω α}
      {separator separator' : Parser τ ρ ω β} (h : like.reports → name = name')
      (hp : Alike like p p') (hseparator : Alike like separator separator') :
      Alike like (optionallyTerminated name p separator)
        (optionallyTerminated name' p' separator')
  /-- Other expectations on the left: `labelled` is such a wrapper. -/
  | withExpected_left {α : Type} (expected : List (Expected τ)) {p p' : Parser τ ρ ω α}
      (h : ¬ like.reports) (hp : Alike like p p') : Alike like (withExpected expected p) p'
  | withExpected_right {α : Type} (expected : List (Expected τ)) {p p' : Parser τ ρ ω α}
      (h : ¬ like.reports) (hp : Alike like p p') : Alike like p (withExpected expected p')
  /-- A remark on the left: `tap`, `trace`, `traceWith` and `traceValue` are such wrappers. -/
  | observe_left {α : Type} (remark : α → Remark ω) {p p' : Parser τ ρ ω α}
      (h : ¬ like.reports) (hp : Alike like p p') : Alike like (observe remark p) p'
  | observe_right {α : Type} (remark : α → Remark ω) {p p' : Parser τ ρ ω α}
      (h : ¬ like.reports) (hp : Alike like p p') : Alike like p (observe remark p')
  /-- A map on the left that changes nothing but the expectations. -/
  | map_id_left {α : Type} {p p' : Parser τ ρ ω α} (h : ¬ like.reports) (hp : Alike like p p') :
      Alike like (map id p) p'
  | map_id_right {α : Type} {p p' : Parser τ ρ ω α} (h : ¬ like.reports) (hp : Alike like p p') :
      Alike like p (map id p')

namespace Alike

variable {like : Likeness} {α : Type}

protected theorem refl (like : Likeness) (p : Parser τ ρ ω α) : p.Alike like p := by
  induction p with
  | satisfy accepts expected => exact .satisfy accepts expected
  | spelled tests expected => exact .spelled tests expected
  | endOfInput => exact .endOfInput
  | fail message => exact .fail message
  | value v => exact .value v
  | position => exact .position
  | recursive index sharing rule => exact .recursive rule fun _ => ⟨rfl, rfl⟩
  | shared p ih => exact .shared ih
  | adapt f p ih => exact .adapt f ih
  | map f p ih => exact .map f ih
  | observe remark p ih => exact .observe remark ih
  | map2 f p q ihp ihq => exact .map2 f ihp ihq
  | map3 f p q r ihp ihq ihr => exact .map3 f ihp ihq ihr
  | map4 f p q r s ihp ihq ihr ihs => exact .map4 f ihp ihq ihr ihs
  | all n ps ih => exact .all ih
  | bind f p next ihp ihnext => exact .bind f ihp ihnext
  | choice n ps ih => exact .choice ih
  | negate message p ih => exact .negate (fun _ => rfl) ih
  | check accepts message p ih => exact .check accepts message ih
  | withExpected expected p ih => exact .withExpected expected ih
  | lookahead p ih => exact .lookahead ih
  | safe p ih => exact .safe ih
  | chain name seed combine p ih => exact .chain seed combine (fun _ => rfl) ih
  | separated name p separator ihp ihseparator => exact .separated (fun _ => rfl) ihp ihseparator
  | optionallyTerminated name p separator ihp ihseparator =>
      exact .optionallyTerminated (fun _ => rfl) ihp ihseparator

theorem orElse {p p' q q' : Parser τ ρ ω α} (hp : p.Alike like p') (hq : q.Alike like q') :
    (orElse p q).Alike like (orElse p' q') := by
  refine Alike.choice ?_
  rintro ⟨_ | _ | _, hi⟩
  · exact hp
  · exact hq
  · exact absurd hi (by simp)

/-- Where reports are in common, the same is expected. -/
theorem expected_eq {p p' : Parser τ ρ ω α} (h : p.Alike like p') (hreports : like.reports) :
    p.expected = p'.expected := by
  induction h with
  | satisfy | spelled | endOfInput | fail | value | position | recursive | withExpected => rfl
  | shared _ ih | adapt _ _ ih | lookahead _ ih | safe _ ih | chain _ _ _ _ ih => exact ih
  | separated _ _ _ ih | optionallyTerminated _ _ _ ih => exact ih
  | bind _ _ _ ih => exact ih
  | map _ _ ih | observe _ _ ih => simp [ih]
  | map2 _ _ _ ihp ihq => simp [ihp, ihq]
  | map3 _ _ _ _ ihp ihq ihr => simp [ihp, ihq, ihr]
  | map4 _ _ _ _ _ ihp ihq ihr ihs => simp [ihp, ihq, ihr, ihs]
  | all _ ih | choice _ ih => simp [ih]
  | negate _ _ ih | check _ _ _ ih => simp [ih]
  | withExpected_left _ h | withExpected_right _ h => exact absurd hreports h
  | observe_left _ h | observe_right _ h => exact absurd hreports h
  | map_id_left h | map_id_right h => exact absurd hreports h

end Alike

end Parser

end CommittedChoice
