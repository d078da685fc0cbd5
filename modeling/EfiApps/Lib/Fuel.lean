import EfiApps.Lib.Linked

/-!
# More fuel

A loop that returns with some fuel returns the same with more.  `ExtendedBy` compares two
outcomes of a function in this way, and goes through the ways of putting functions
together.
-/

namespace EfiApps

namespace Run

variable {α β : Type _}

/-- If the first outcome is a return then the second is the same return. -/
def ExtendedBy (r r' : Run α) : Prop := ∀ a, r = .ok a → r' = .ok a

theorem ExtendedBy.refl (r : Run α) : r.ExtendedBy r := fun _ h => h

theorem extendedBy_error (e : Halt) (r : Run α) : ExtendedBy (.error e) r := nofun

theorem ExtendedBy.bind {x x' : Run α} {f f' : α → Run β} (hx : x.ExtendedBy x')
    (hf : ∀ a, (f a).ExtendedBy (f' a)) : (x >>= f).ExtendedBy (x' >>= f') := by
  intro b h
  rw [bind_eq_ok] at h ⊢
  obtain ⟨a, ha, h⟩ := h
  exact ⟨a, hx a ha, hf a b h⟩

theorem ExtendedBy.ite {p : Prop} [Decidable p] {r r' s s' : Run α} (hr : r.ExtendedBy r')
    (hs : s.ExtendedBy s') : (if p then r else s).ExtendedBy (if p then r' else s') := by
  split
  · exact hr
  · exact hs

end Run

variable {α σ : Type _} {next : σ → α → Option α} {body body' : α → σ → Run σ}

/-- A loop with more fuel, for itself and for its body. -/
theorem forEach_extendedBy (hbody : ∀ a s, (body a s).ExtendedBy (body' a s)) {fuel fuel' : Nat}
    (hfuel : fuel ≤ fuel') (p : Option α) (s : σ) :
    (forEach next body fuel p s).ExtendedBy (forEach next body' fuel' p s) := by
  induction fuel generalizing fuel' p s with
  | zero =>
      cases p with
      | none => cases fuel' <;> exact .refl _
      | some a => exact Run.extendedBy_error _ _
  | succ fuel ih =>
      obtain ⟨fuel', rfl⟩ : ∃ k, fuel' = k + 1 := ⟨fuel' - 1, by omega⟩
      cases p with
      | none => exact .refl _
      | some a => exact (hbody a s).bind fun s₁ => ih (by omega) (next s₁ a) s₁

end EfiApps
