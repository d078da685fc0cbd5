import Mathlib.Order.Lattice
import Mathlib.Order.Nat

/-!
# Binary search

The half-open window between two indices is halved until the key is at its midpoint
or the window is empty.  What is found always has the key; a key in a strictly
ascending window is always found, at its only index.
-/

namespace EfiApps
namespace BinarySearch

variable {α : Type*} [LinearOrder α] {a : Nat → α} {x : α} {lo hi i : Nat}

/-- An index of the key in the window `[lo, hi)`. -/
def search (a : Nat → α) (x : α) (lo hi : Nat) : Option Nat :=
  if lo < hi then
    if a ((hi + lo) / 2) = x then some ((hi + lo) / 2)
    else if a ((hi + lo) / 2) < x then search a x ((hi + lo) / 2 + 1) hi
    else search a x lo ((hi + lo) / 2)
  else none
termination_by hi - lo
decreasing_by all_goals omega

/-- The values in the window ascend. -/
def AscendsBetween (a : Nat → α) (lo hi : Nat) : Prop :=
  ∀ i j, lo ≤ i → i < j → j < hi → a i < a j

theorem AscendsBetween.mono (h : AscendsBetween a lo hi) {lo' hi' : Nat} (hlo : lo ≤ lo')
    (hhi : hi' ≤ hi) : AscendsBetween a lo' hi' :=
  fun i j hloi hij hj => h i j (hlo.trans hloi) hij (lt_of_lt_of_le hj hhi)

theorem AscendsBetween.index_unique (h : AscendsBetween a lo hi) {j : Nat}
    (hbi : lo ≤ i ∧ i < hi) (hbj : lo ≤ j ∧ j < hi) (heq : a i = a j) : i = j := by
  rcases Nat.lt_trichotomy i j with hlt | rfl | hgt
  · exact absurd heq (ne_of_lt (h i j hbi.1 hlt hbj.2))
  · rfl
  · exact absurd heq.symm (ne_of_lt (h j i hbj.1 hgt hbi.2))

/-- What is found is in the window and has the key. -/
theorem search_sound (h : search a x lo hi = some i) : lo ≤ i ∧ i < hi ∧ a i = x := by
  fun_induction search a x lo hi with
  | case1 lo hi hlt heq =>
      obtain rfl := Option.some.inj h
      exact ⟨by omega, by omega, heq⟩
  | case2 lo hi hlt hne hless ih =>
      obtain ⟨hlo, hhi, heq⟩ := ih h
      exact ⟨by omega, hhi, heq⟩
  | case3 lo hi hlt hne hmore ih =>
      obtain ⟨hlo, hhi, heq⟩ := ih h
      exact ⟨hlo, by omega, heq⟩
  | case4 => cases h

/-- A key in an ascending window is found. -/
theorem search_complete (hasc : AscendsBetween a lo hi) (hlo : lo ≤ i) (hhi : i < hi)
    (heq : a i = x) : search a x lo hi = some i := by
  fun_induction search a x lo hi with
  | case1 lo hi hlt hmid =>
      have hindex : i = (hi + lo) / 2 :=
        hasc.index_unique ⟨hlo, hhi⟩ ⟨by omega, by omega⟩ (heq.trans hmid.symm)
      rw [hindex]
  | case2 lo hi hlt hne hless ih =>
      -- The key is above the midpoint, so its index is to the right of it.
      have hright : (hi + lo) / 2 < i := by
        by_contra hle
        rcases Nat.lt_or_eq_of_le (Nat.le_of_not_lt hle) with hlt' | rfl
        · exact absurd (heq ▸ hasc i _ hlo hlt' (by omega)) (not_lt_of_gt hless)
        · exact hne heq
      exact ih (hasc.mono (by omega) le_rfl) hright hhi
  | case3 lo hi hlt hne hmore ih =>
      have hleft : i < (hi + lo) / 2 := by
        by_contra hle
        rcases Nat.lt_or_eq_of_le (Nat.le_of_not_lt hle) with hlt' | hindex
        · exact absurd (heq ▸ hasc _ i (by omega) hlt' hhi) hmore
        · exact hne (hindex ▸ heq)
      exact ih (hasc.mono le_rfl (by omega)) hlo hleft
  | case4 => omega

/-- The search fails exactly on keys that are not in the window. -/
theorem search_eq_none_iff (hasc : AscendsBetween a lo hi) :
    search a x lo hi = none ↔ ∀ i, lo ≤ i → i < hi → a i ≠ x := by
  constructor
  · intro hnone i hlo hhi heq
    rw [search_complete hasc hlo hhi heq] at hnone
    cases hnone
  · intro habsent
    cases hfound : search a x lo hi with
    | none => rfl
    | some i =>
        obtain ⟨hlo, hhi, heq⟩ := search_sound hfound
        exact absurd heq (habsent i hlo hhi)

end BinarySearch
end EfiApps
