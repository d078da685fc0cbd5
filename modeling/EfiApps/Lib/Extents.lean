import Mathlib.Data.List.Pairwise
import Mathlib.Order.Disjoint
import Mathlib.Data.Set.Lattice
import Mathlib.Order.CompletePartialOrder

/-!
# What a list of disjoint regions covers

An allocator records what is in use; its clients hold regions.  The two agree if the regions
are disjoint and cover what is in use.
-/

namespace EfiApps

variable {α ι : Type*}

instance symm_region (region : ι → Set α) :
    Std.Symm fun i j => Disjoint (region i) (region j) where
  symm _ _ h := h.symm

/-- The regions of `live` are disjoint, and `used` is what they cover. -/
structure Tracks (region : ι → Set α) (used : Set α) (live : List ι) : Prop where
  covered : ∀ a, a ∈ used ↔ ∃ i ∈ live, a ∈ region i
  disjoint : live.Pairwise fun i j => Disjoint (region i) (region j)
  nonempty : ∀ i ∈ live, (region i).Nonempty

namespace Tracks

variable {region : ι → Set α} {used : Set α} {live : List ι} {i j : ι}

theorem nil : Tracks region ∅ [] where
  covered a := by simp
  disjoint := List.Pairwise.nil
  nonempty i hi := absurd hi List.not_mem_nil

theorem subset (h : Tracks region used live) (hi : i ∈ live) : region i ⊆ used :=
  fun a ha => (h.covered a).mpr ⟨i, hi, ha⟩

/-- A region of free units may be given to a client. -/
theorem alloc (h : Tracks region used live) (hnonempty : (region i).Nonempty)
    (hfree : Disjoint (region i) used) : Tracks region (region i ∪ used) (i :: live) where
  covered a := by simp [h.covered a]
  disjoint := by
    refine List.pairwise_cons.mpr ⟨fun j hj => ?_, h.disjoint⟩
    exact hfree.mono_right (h.subset hj)
  nonempty j hj := by
    rcases List.mem_cons.mp hj with rfl | hj
    · exact hnonempty
    · exact h.nonempty j hj

/-- The order of the clients does not matter. -/
theorem perm {live' : List ι} (h : Tracks region used live) (hperm : live.Perm live') :
    Tracks region used live' where
  covered a := by
    rw [h.covered a]
    constructor
    · rintro ⟨i, hi, ha⟩
      exact ⟨i, hperm.mem_iff.mp hi, ha⟩
    · rintro ⟨i, hi, ha⟩
      exact ⟨i, hperm.mem_iff.mpr hi, ha⟩
  disjoint := hperm.pairwise h.disjoint fun hdisjoint => hdisjoint.symm
  nonempty i hi := h.nonempty i (hperm.mem_iff.mpr hi)

/-- A client gives its region back. -/
theorem free_cons (h : Tracks region used (i :: live)) :
    Tracks region (used \ region i) live where
  covered a := by
    rw [Set.mem_sdiff, h.covered a]
    constructor
    · rintro ⟨⟨j, hj, ha⟩, hnot⟩
      rcases List.mem_cons.mp hj with rfl | hj
      · exact absurd ha hnot
      · exact ⟨j, hj, ha⟩
    · rintro ⟨j, hj, ha⟩
      refine ⟨⟨j, List.mem_cons_of_mem i hj, ha⟩, fun hi => ?_⟩
      exact Set.disjoint_left.mp ((List.pairwise_cons.mp h.disjoint).1 j hj) hi ha
  disjoint := (List.pairwise_cons.mp h.disjoint).2
  nonempty j hj := h.nonempty j (List.mem_cons_of_mem i hj)

theorem free [DecidableEq ι] (h : Tracks region used live) (hi : i ∈ live) :
    Tracks region (used \ region i) (live.erase i) :=
  (h.perm (List.perm_cons_erase hi)).free_cons

theorem congr {used' : Set α} (h : Tracks region used live) (hsame : ∀ a, a ∈ used' ↔ a ∈ used) :
    Tracks region used' live where
  covered a := (hsame a).trans (h.covered a)
  disjoint := h.disjoint
  nonempty := h.nonempty

end Tracks

end EfiApps
