import Mathlib.Data.Fintype.EquivFin
import Mathlib.Data.Set.Finite.Basic
import Mathlib.Logic.Relation
import Mathlib.Order.WellFounded
import EfiApps.Lib.Linked

/-!
# Following parent pointers to a root

A parent pointer per node makes a functional graph.  On a finite set of nodes
whose parents are again nodes, or the root, the walk from every node reaches the
root exactly when the graph has no ring.
-/

namespace EfiApps

open Relation

variable {α : Type _}

/-- One step up. -/
def ParentStep (parent : α → Option α) (a b : α) : Prop := parent a = some b

/-- Following the parent pointers comes back to the node it started from. -/
def OnRing (parent : α → Option α) (a : α) : Prop := TransGen (ParentStep parent) a a

/-- Following the parent pointers from `a` ends at the root: the pointers form a
NULL-terminated list whose last cell is the root. -/
def ClimbsTo (parent : α → Option α) (root a : α) : Prop :=
  ∃ l, Linked parent (some a) (l ++ [root])

theorem climbsTo_self {parent : α → Option α} {root : α} (hroot : parent root = none) :
    ClimbsTo parent root root :=
  ⟨[], by simp [hroot]⟩

theorem ClimbsTo.of_parent {parent : α → Option α} {root a b : α}
    (hab : parent a = some b) (hb : ClimbsTo parent root b) : ClimbsTo parent root a := by
  obtain ⟨l, hl⟩ := hb
  exact ⟨a :: l, rfl, by rwa [hab]⟩

/-- The next node of a ring is on the ring. -/
theorem OnRing.parent {parent : α → Option α} {a b : α} (h : OnRing parent a)
    (hab : parent a = some b) : OnRing parent b := by
  obtain ⟨c, hac, hca⟩ := TransGen.head'_iff.mp h
  obtain rfl : c = b := Option.some.inj (Eq.trans (Eq.symm hac) hab)
  exact TransGen.tail' hca hab

/-- A walk that ends at the root never meets a ring. -/
theorem ClimbsTo.not_onRing {parent : α → Option α} {root a : α}
    (hroot : parent root = none) (h : ClimbsTo parent root a) : ¬ OnRing parent a := by
  obtain ⟨l, hl⟩ := h
  induction l generalizing a with
  | nil =>
      obtain rfl : a = root := Option.some.inj hl.1
      intro hring
      obtain ⟨c, hac, -⟩ := TransGen.head'_iff.mp hring
      rw [ParentStep, hroot] at hac
      cases hac
  | cons b l ih =>
      obtain ⟨hb, htail⟩ := hl
      obtain rfl : a = b := Option.some.inj hb
      intro hring
      cases hp : parent a with
      | none => cases l <;> simp [hp] at htail
      | some c =>
          rw [hp] at htail
          exact ih htail (hring.parent hp)

/-- On a finite set of nodes closed under parents, up to the root, every walk
reaches the root if and only if no node is on a ring. -/
theorem forall_climbsTo_iff (parent : α → Option α) {root : α} {s : Set α}
    (hfinite : s.Finite) (hroot : parent root = none)
    (hclosed : ∀ a ∈ s, ∃ b, parent a = some b ∧ (b = root ∨ b ∈ s)) :
    (∀ a ∈ s, ClimbsTo parent root a) ↔ ∀ a ∈ s, ¬ OnRing parent a := by
  constructor
  · exact fun h a ha => (h a ha).not_onRing hroot
  · intro hring
    -- Without rings "is a proper ancestor of" is a strict order on a finite set, so it is
    -- well founded and the walks can be built by induction from the root down.
    have : Finite s := hfinite
    let above : s → s → Prop := fun x y => ParentStep parent y x
    have hlift : ∀ x y : s, TransGen above x y → TransGen (ParentStep parent) y.1 x.1 := by
      intro x y hxy
      induction hxy with
      | single h => exact .single h
      | tail _ h ih => exact .head h ih
    have : IsTrans s (TransGen above) := ⟨fun _ _ _ => TransGen.trans⟩
    have : Std.Irrefl (TransGen above) := ⟨fun x hx => hring x.1 x.2 (hlift x x hx)⟩
    have hwf : WellFounded (TransGen above) := Finite.wellFounded_of_trans_of_irrefl _
    intro a ha
    induction hx : (⟨a, ha⟩ : s) using hwf.induction generalizing a with
    | _ x ih =>
      subst hx
      obtain ⟨b, hab, hb⟩ := hclosed a ha
      rcases hb with rfl | hb
      · exact (climbsTo_self hroot).of_parent hab
      · exact (ih ⟨b, hb⟩ (.single hab) b hb rfl).of_parent hab

end EfiApps
