import EfiApps.Lib.Linked
import Mathlib.Data.List.Forall2

/-!
# Lists that are related element by element
-/

namespace EfiApps

section Forall₂

variable {α β : Type _} {R : α → β → Prop} {l : List α} {l' : List β}

/-- If each element is related to one, the list is related to one. -/
theorem exists_forall₂ (h : ∀ a ∈ l, ∃ b, R a b) : ∃ l', List.Forall₂ R l l' := by
  induction l with
  | nil => exact ⟨[], .nil⟩
  | cons a l ih =>
      obtain ⟨b, hb⟩ := h a List.mem_cons_self
      obtain ⟨l', hl'⟩ := ih fun c hc => h c (List.mem_cons_of_mem a hc)
      exact ⟨b :: l', .cons hb hl'⟩

/-- Each element of the second list has its partner in the first one. -/
theorem exists_of_mem_right (h : List.Forall₂ R l l') {b : β} (hb : b ∈ l') : ∃ a ∈ l, R a b := by
  obtain ⟨i, hi, rfl⟩ := List.getElem_of_mem hb
  have hi' : i < l.length := h.length_eq ▸ hi
  exact ⟨l[i], List.getElem_mem hi', h.get hi' hi⟩

theorem exists_of_mem_left (h : List.Forall₂ R l l') {a : α} (ha : a ∈ l) : ∃ b ∈ l', R a b :=
  exists_of_mem_right h.flip ha

end Forall₂

section Renaming

variable {α β : Type _} [DecidableEq α] [Inhabited β] {l : List α} {l' : List β}

/-- A list without repetitions can be renamed to any other one of its length. -/
theorem exists_map_eq (hnodup : l.Nodup) (hlength : l.length = l'.length) :
    ∃ f : α → β, l.map f = l' := by
  induction l generalizing l' with
  | nil =>
      obtain rfl := List.length_eq_zero_iff.mp hlength.symm
      exact ⟨fun _ => default, rfl⟩
  | cons a l ih =>
      obtain ⟨ha, hnodup⟩ := List.nodup_cons.mp hnodup
      cases l' with
      | nil => cases hlength
      | cons b l' =>
          obtain ⟨f, hf⟩ := ih hnodup (Nat.succ.inj hlength)
          refine ⟨Function.update f a b, ?_⟩
          have hrest : l.map (Function.update f a b) = l.map f := by
            refine List.map_congr_left fun c hc => Function.update_of_ne ?_ b f
            rintro rfl
            exact ha hc
          rw [List.map_cons, Function.update_self, hrest, hf]

end Renaming

end EfiApps
