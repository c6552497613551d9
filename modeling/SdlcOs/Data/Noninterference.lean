/-
Two runs of a system, seen by one of its parties.

The runs share the party's events, up to a relation; anyone else's may
come in either run or in both, anywhere. The unwinding conditions say
what one step does: another's event does not change what the party can
come to see, and the party's own event, where it is admissible, shows the
same and leaves what it can come to see the same. Then the party sees the
same in both runs (`observed_eq`).
-/
import Mathlib.Init

namespace SdlcOs.Data

variable {S E O : Type}

/-- What the party's events show, in order. -/
def observed (own : E → Bool) (step : S → E → S × O) : S → List E → List O
  | _, [] => []
  | s, e :: es =>
    if own e then (step s e).2 :: observed own step (step s e).1 es
    else observed own step (step s e).1 es

/-- Two runs have the same events of the party's. -/
inductive Purged (own : E → Bool) (same : E → E → Prop) :
    List E → List E → Prop where
  | nil : Purged own same [] []
  | left {e : E} {es es' : List E} : own e = false →
      Purged own same es es' → Purged own same (e :: es) es'
  | right {e' : E} {es es' : List E} : own e' = false →
      Purged own same es es' → Purged own same es (e' :: es')
  | both {e e' : E} {es es' : List E} : own e = true → own e' = true →
      same e e' → Purged own same es es' →
      Purged own same (e :: es) (e' :: es')

/-- Every event of the party's is admissible where it comes. -/
def Along (own : E → Bool) (ok : S → E → Prop) (step : S → E → S × O) :
    S → List E → Prop
  | _, [] => True
  | s, e :: es =>
    (own e = true → ok s e) ∧ Along own ok step (step s e).1 es

/-- The unwinding conditions, for a relation between the two runs'
states. -/
structure Unwinding (own : E → Bool) (same : E → E → Prop)
    (ok : S → E → Prop) (step step' : S → E → S × O) (R : S → S → Prop) :
    Prop where
  left : ∀ s s' e, own e = false → R s s' → R (step s e).1 s'
  right : ∀ s s' e', own e' = false → R s s' → R s (step' s' e').1
  both : ∀ s s' e e', own e = true → own e' = true → same e e' → ok s e →
    R s s' → R (step s e).1 (step' s' e').1 ∧
      (step s e).2 = (step' s' e').2

/-- The party sees the same in both runs. -/
theorem observed_eq {own : E → Bool} {same : E → E → Prop}
    {ok : S → E → Prop} {step step' : S → E → S × O} {R : S → S → Prop}
    (hu : Unwinding own same ok step step' R) {es es' : List E}
    (hp : Purged own same es es') : ∀ {s s' : S}, R s s' →
      Along own ok step s es →
      observed own step s es = observed own step' s' es' := by
  induction hp with
  | nil =>
    intro s s' _ _
    rfl
  | @left e es es' hown _ ih =>
    intro s s' hR hok
    rw [observed, if_neg (by rw [hown]; decide)]
    exact ih (hu.left s s' e hown hR) hok.2
  | @right e' es es' hown _ ih =>
    intro s s' hR hok
    rw [ih (hu.right s s' e' hown hR) hok, observed,
      if_neg (by rw [hown]; decide)]
  | @both e e' es es' hown hown' hsame _ ih =>
    intro s s' hR hok
    obtain ⟨hR', hout⟩ :=
      hu.both s s' e e' hown hown' hsame (hok.1 hown) hR
    rw [observed, observed, if_pos hown, if_pos hown', hout, ih hR' hok.2]

end SdlcOs.Data
