import EfiApps.Lib.Records

/-!
# Outcomes of runs

A run ends with a value, or halts for a reason.  What holds of both is shown step by step.
-/

namespace EfiApps

variable {α β ε : Type _} {P : α → Prop} {Q : β → Prop} {R : ε → Prop}

/-- `P` holds of the value with which the run ends, or `R` of the reason for which it halts. -/
def Outcome (P : α → Prop) (R : ε → Prop) : Except ε α → Prop
  | .ok a => P a
  | .error e => R e

theorem Outcome.bind {m : Except ε α} {f : α → Except ε β} (h : Outcome P R m)
    (hf : ∀ a, P a → Outcome Q R (f a)) : Outcome Q R (m >>= f) := by
  cases m with
  | ok a => exact hf a h
  | error e => exact h

theorem Outcome.mono {P' : α → Prop} {m : Except ε α} (h : Outcome P R m)
    (hP : ∀ a, P a → P' a) : Outcome P' R m := by
  cases m with
  | ok a => exact hP a h
  | error e => exact h

/-- A search halts because it goes on for too long, or where a step of it does. -/
theorem outcome_skipUntil {stop : Nat → Except ε Bool} {next : Nat → Except ε Nat} {outOfFuel : ε}
    (hfuel : R outOfFuel) (hstop : ∀ p, Outcome (fun _ => True) R (stop p))
    (hnext : ∀ p, Outcome (fun _ => True) R (next p)) (fuel p : Nat) :
    Outcome (fun _ => True) R (skipUntil stop next outOfFuel fuel p) := by
  induction fuel generalizing p with
  | zero => exact hfuel
  | succ fuel ih =>
      rw [skipUntil]
      refine (hstop p).bind fun found _ => ?_
      split_ifs
      · exact trivial
      · exact (hnext p).bind fun q _ => ih q

end EfiApps
