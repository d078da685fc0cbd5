import Mathlib.Data.List.Infix
import Mathlib.Logic.Function.Basic

/-!
# Nodes at the places of a tree

A node is at the place that a list of turns leads to from the root.  The root is no node
itself.  No two nodes are at one place, and where a node is, there is one at every place on
the way to it.

Nodes and turns are arbitrary types.  Subtrees are pruned, and nodes are added.
-/

namespace EfiApps

variable {ι α : Type _}

/-- Which nodes are where. -/
@[ext]
structure PlaceTree (ι α : Type _) where
  place : ι → Option (List α)
  nonempty : ∀ i, place i ≠ some []
  unique : ∀ {i j l}, place i = some l → place j = some l → i = j
  parent : ∀ {i l a}, place i = some (l ++ [a]) → l ≠ [] → ∃ j, place j = some l

namespace PlaceTree

/-- No nodes. -/
def empty : PlaceTree ι α where
  place _ := none
  nonempty _ h := by cases h
  unique h := by cases h
  parent h := by cases h

/-- There is a node at every place on the way to a node. -/
theorem exists_prefix (t : PlaceTree ι α) {i : ι} {l m : List α} (h : t.place i = some m)
    (hl : l ≠ []) (hpre : l <+: m) : ∃ j, t.place j = some l := by
  induction m using List.reverseRecOn generalizing i with
  | nil => exact absurd (List.prefix_nil.mp hpre) hl
  | append_singleton m a ih =>
      rcases List.prefix_concat_iff.mp hpre with rfl | hshort
      · exact ⟨i, h⟩
      · have hm : m ≠ [] := by
          rintro rfl
          exact hl (List.prefix_nil.mp hshort)
        obtain ⟨j, hj⟩ := t.parent h hm
        exact ih hj hshort

section Prune

variable (t : PlaceTree ι α) (U : List α → Prop) (hu : ∀ l m, U l → l <+: m → U m)

open Classical in
/-- Without the nodes at the places of `U`, which are whole subtrees. -/
noncomputable def prune : PlaceTree ι α where
  place i := if ∃ l, t.place i = some l ∧ U l then none else t.place i
  nonempty i h := by
    split_ifs at h
    exact t.nonempty i h
  unique h h' := by
    split_ifs at h h'
    exact t.unique h h'
  parent {i l a} h hl := by
    split_ifs at h with hgone
    obtain ⟨j, hj⟩ := t.parent h hl
    refine ⟨j, ?_⟩
    rw [if_neg, hj]
    rintro ⟨m, hm, hin⟩
    rw [hj] at hm
    cases hm
    exact hgone ⟨_, h, hu _ _ hin (List.prefix_append _ _)⟩

theorem prune_place {i : ι} {l : List α} :
    (t.prune U hu).place i = some l ↔ t.place i = some l ∧ ¬ U l := by
  unfold prune
  simp only
  split_ifs with hgone
  · obtain ⟨m, hm, hin⟩ := hgone
    constructor
    · intro h
      cases h
    · rintro ⟨h, hout⟩
      rw [hm] at h
      cases h
      exact absurd hin hout
  · constructor
    · intro h
      exact ⟨h, fun hin => hgone ⟨l, h, hin⟩⟩
    · exact fun h => h.1

theorem prune_place_iff {i : ι} {U : List α → Prop} {hu : ∀ l m, U l → l <+: m → U m} :
    (∃ l, (t.prune U hu).place i = some l) ↔ ∃ l, t.place i = some l ∧ ¬ U l := by
  simp only [prune_place]

/-- Only the places of nodes matter. -/
theorem prune_congr {U V : List α → Prop} {hu : ∀ l m, U l → l <+: m → U m}
    (hv : ∀ l m, V l → l <+: m → V m) (h : ∀ i l, t.place i = some l → (U l ↔ V l)) :
    t.prune U hu = t.prune V hv := by
  ext i l
  rw [prune_place, prune_place]
  constructor
  · rintro ⟨hplace, hout⟩
    exact ⟨hplace, fun hin => hout ((h i l hplace).mpr hin)⟩
  · rintro ⟨hplace, hout⟩
    exact ⟨hplace, fun hin => hout ((h i l hplace).mp hin)⟩

theorem prune_prune {U V : List α → Prop} {hu : ∀ l m, U l → l <+: m → U m}
    {hv : ∀ l m, V l → l <+: m → V m} {W : List α → Prop} (hw : ∀ l m, W l → l <+: m → W m)
    (h : ∀ i l, t.place i = some l → (W l ↔ U l ∨ V l)) :
    (t.prune U hu).prune V hv = t.prune W hw := by
  ext i l
  rw [prune_place, prune_place, prune_place]
  constructor
  · rintro ⟨⟨hplace, hout⟩, hout'⟩
    exact ⟨hplace, fun hin => ((h i l hplace).mp hin).elim hout hout'⟩
  · rintro ⟨hplace, hout⟩
    exact ⟨⟨hplace, fun hin => hout ((h i l hplace).mpr (.inl hin))⟩,
      fun hin => hout ((h i l hplace).mpr (.inr hin))⟩

/-- Nothing is pruned where no node is. -/
theorem prune_eq_self {U : List α → Prop} {hu : ∀ l m, U l → l <+: m → U m}
    (h : ∀ i l, t.place i = some l → ¬ U l) : t.prune U hu = t := by
  ext i l
  rw [prune_place]
  exact ⟨fun hplace => hplace.1, fun hplace => ⟨hplace, h i l hplace⟩⟩

end Prune

section Graft

variable [DecidableEq ι] (t : PlaceTree ι α) (i : ι) (l : List α)

/-- With one more node. -/
def graft (hnode : t.place i = none) (hfree : ∀ j, t.place j ≠ some l) (hl : l ≠ [])
    (hparent : ∀ m a, l = m ++ [a] → m ≠ [] → ∃ j, t.place j = some m) : PlaceTree ι α where
  place := Function.update t.place i (some l)
  nonempty j h := by
    by_cases hj : j = i
    · subst hj
      rw [Function.update_self, Option.some.injEq] at h
      exact hl h
    · rw [Function.update_of_ne hj] at h
      exact t.nonempty j h
  unique {j k m} h h' := by
    by_cases hj : j = i <;> by_cases hk : k = i
    · rw [hj, hk]
    · subst hj
      rw [Function.update_self] at h
      rw [Function.update_of_ne hk, ← h] at h'
      exact absurd h' (hfree k)
    · subst hk
      rw [Function.update_self] at h'
      rw [Function.update_of_ne hj, ← h'] at h
      exact absurd h (hfree j)
    · rw [Function.update_of_ne hj] at h
      rw [Function.update_of_ne hk] at h'
      exact t.unique h h'
  parent {j m a} h hm := by
    have hold : ∃ k, t.place k = some m := by
      by_cases hj : j = i
      · subst hj
        rw [Function.update_self, Option.some.injEq] at h
        exact hparent m a h hm
      · rw [Function.update_of_ne hj] at h
        exact t.parent h hm
    obtain ⟨k, hk⟩ := hold
    have hne : k ≠ i := by
      rintro rfl
      rw [hnode] at hk
      cases hk
    exact ⟨k, by rw [Function.update_of_ne hne, hk]⟩

end Graft

end PlaceTree

end EfiApps
