import EfiApps.Lib.Linked

/-!
# Sequences of calls that stay safe

A component is called again and again, and each call may fail to return or may do
something unsafe.  If an invariant tells for every call exactly when it is safe, then a
sequence of calls is safe exactly if each of its calls meets that condition in the state
it is made in.

The calls and the states are arbitrary types; `call` is what a call does.
-/

namespace EfiApps

section SafeRun

variable {κ σ : Type _} (call : κ → σ → Run σ) (Safe : κ → σ → σ → Prop) (Meets : κ → σ → Prop)

/-- Every call of the sequence returns, and what it does is safe. -/
def SafeFrom : σ → List κ → Prop
  | _, [] => True
  | s, c :: cs => ∃ s', call c s = .ok s' ∧ Safe c s s' ∧ SafeFrom s' cs

/-- Every call of the sequence meets the condition in the state before it. -/
def MeetFrom : σ → List κ → Prop
  | _, [] => True
  | s, c :: cs => Meets c s ∧ ∀ s', call c s = .ok s' → MeetFrom s' cs

variable {call Safe Meets}

/-- The invariant carries the condition of one call over to a sequence of them. -/
theorem safeFrom_iff {Inv : σ → Prop}
    (hstep : ∀ c s, Inv s → ((∃ s', call c s = .ok s' ∧ Safe c s s') ↔ Meets c s))
    (hinv : ∀ c s s', Inv s → Meets c s → call c s = .ok s' → Inv s')
    {s : σ} (hs : Inv s) (cs : List κ) : SafeFrom call Safe s cs ↔ MeetFrom call Meets s cs := by
  induction cs generalizing s with
  | nil => exact Iff.rfl
  | cons c cs ih =>
      constructor
      · rintro ⟨s', hcall, hsafe, hrest⟩
        have hmeets := (hstep c s hs).mp ⟨s', hcall, hsafe⟩
        refine ⟨hmeets, fun t ht => ?_⟩
        obtain rfl : s' = t := Except.ok.inj (hcall.symm.trans ht)
        exact (ih (hinv c s s' hs hmeets hcall)).mp hrest
      · rintro ⟨hmeets, hrest⟩
        obtain ⟨s', hcall, hsafe⟩ := (hstep c s hs).mpr hmeets
        exact ⟨s', hcall, hsafe, (ih (hinv c s s' hs hmeets hcall)).mpr (hrest s' hcall)⟩

end SafeRun

end EfiApps
