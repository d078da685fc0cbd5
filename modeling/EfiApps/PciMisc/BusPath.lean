import EfiApps.PciMisc.Attach
import EfiApps.PciMisc.MoveBuses

/-!
# Paths of bridges

`RenumberBuses` and `WriteBuses` recurse on `Parent` until they meet a root
bridge.  `BridgePath` is the list of bridges they pass; a tree bounds its length
and the length of every child list, so the number of used addresses bounds all
the loops of a move.
-/

namespace EfiApps
namespace PciMisc

/-- The bridges from `a` up to, and without, a root bridge of the tree. -/
def BridgePath (heap : Heap) : List Addr → Addr → Prop
  | [], a => (heap a).isSegment = true ∧ (heap a).parent ≠ none
  | b :: path, a => a = b ∧ (heap b).isSegment = false ∧ (heap b).pciType1 = true ∧
      ∃ p, (heap b).parent = some p ∧ BridgePath heap path p

namespace BridgePath

variable {heap heap' : Heap} {path : List Addr} {a b p : Addr}

/-- The path depends only on the records on it and their root bridge. -/
theorem congr (h : BridgePath heap path a)
    (hparent : ∀ b, (heap b).parent ≠ none → (heap' b).parent = (heap b).parent)
    (hsegment : ∀ b, (heap b).parent ≠ none → (heap' b).isSegment = (heap b).isSegment)
    (htype : ∀ b, (heap b).parent ≠ none → (heap' b).pciType1 = (heap b).pciType1) :
    BridgePath heap' path a := by
  induction path generalizing a with
  | nil =>
      obtain ⟨hroot, htree⟩ := h
      exact ⟨(hsegment a htree).trans hroot, by rwa [hparent a htree]⟩
  | cons b path ih =>
      obtain ⟨rfl, hb, hbridge, p, hp, h⟩ := h
      have htree : (heap a).parent ≠ none := by simp [hp]
      exact ⟨rfl, (hsegment a htree).trans hb, (htype a htree).trans hbridge, p,
        (hparent a htree).trans hp, ih h⟩

theorem sameButBuses (h : BridgePath heap path a) (hsame : SameButBuses heap heap') :
    BridgePath heap' path a :=
  h.congr (fun b _ => hsame.parent b) (fun b _ => hsame.isSegment b) fun b _ => hsame.pciType1 b

/-- The path as a linked list that ends with its root bridge. -/
theorem exists_linked (h : BridgePath heap path a) :
    ∃ root, (heap root).isSegment = true ∧
      Linked (fun b => if (heap b).isSegment then none else (heap b).parent) (some a)
        (path ++ [root]) := by
  induction path generalizing a with
  | nil => exact ⟨a, h.1, rfl, by simp [h.1]⟩
  | cons b path ih =>
      obtain ⟨rfl, hb, -, p, hp, h⟩ := h
      obtain ⟨root, hroot, hlinked⟩ := ih h
      exact ⟨root, hroot, rfl, by simpa [hb, hp] using hlinked⟩

theorem nodup (h : BridgePath heap path a) : path.Nodup := by
  obtain ⟨root, -, hlinked⟩ := h.exists_linked
  exact (List.nodup_append.mp hlinked.nodup).1

theorem isSegment_of_mem (h : BridgePath heap path a) (hb : b ∈ path) :
    (heap b).isSegment = false := by
  induction path generalizing a with
  | nil => simp at hb
  | cons c path ih =>
      obtain ⟨-, hc, -, p, -, h⟩ := h
      rcases List.mem_cons.mp hb with rfl | hb
      · exact hc
      · exact ih h hb

theorem pciType1_of_mem (h : BridgePath heap path a) (hb : b ∈ path) :
    (heap b).pciType1 = true := by
  induction path generalizing a with
  | nil => simp at hb
  | cons c path ih =>
      obtain ⟨-, -, hc, p, -, h⟩ := h
      rcases List.mem_cons.mp hb with rfl | hb
      · exact hc
      · exact ih h hb

/-- A bridge that is no root bridge is on its own path. -/
theorem self_mem (h : BridgePath heap path a) (hsegment : (heap a).isSegment = false) :
    a ∈ path := by
  cases path with
  | nil =>
      have hroot := h.1
      rw [hsegment] at hroot
      cases hroot
  | cons b path =>
      obtain rfl := h.1
      exact List.mem_cons_self

theorem self_mem_of_ne_nil (h : BridgePath heap path a) (hbelow : path ≠ []) : a ∈ path := by
  cases path with
  | nil => exact absurd rfl hbelow
  | cons b path =>
      obtain rfl := h.1
      exact List.mem_cons_self

/-- The parent of a bridge of the path is on the path or is the root bridge. -/
theorem parent_mem (h : BridgePath heap path a) (hb : b ∈ path) (hp : (heap b).parent = some p) :
    p ∈ path ∨ (heap p).isSegment = true ∧ (heap p).parent ≠ none := by
  induction path generalizing a with
  | nil => simp at hb
  | cons c path ih =>
      obtain ⟨-, -, -, q, hq, h⟩ := h
      rcases List.mem_cons.mp hb with rfl | hb
      · obtain rfl : q = p := Option.some.inj (hq.symm.trans hp)
        cases path with
        | nil => exact .inr h
        | cons d path =>
            have hmem := h.self_mem_of_ne_nil (List.cons_ne_nil d path)
            exact .inl (List.mem_cons_of_mem b hmem)
      · rcases ih h hb with hmem | hroot
        · exact .inl (List.mem_cons_of_mem _ hmem)
        · exact .inr hroot

/-- A bridge of the path is in the tree. -/
theorem parent_ne_none (h : BridgePath heap path a) (hb : b ∈ path) : (heap b).parent ≠ none := by
  induction path generalizing a with
  | nil => simp at hb
  | cons c path ih =>
      obtain ⟨-, -, -, q, hq, h⟩ := h
      rcases List.mem_cons.mp hb with rfl | hb
      · simp [hq]
      · exact ih h hb

/-- The first bridge of a path is no parent of a later one. -/
theorem parent_ne (h : BridgePath heap (b :: path) a) (hc : c ∈ path) :
    (heap c).parent ≠ some b := by
  intro hp
  have hnodup := List.nodup_cons.mp h.nodup
  obtain ⟨-, hb, -, q, -, h⟩ := h
  rcases h.parent_mem hc hp with hmem | hroot
  · exact hnodup.1 hmem
  · rw [hb] at hroot
    cases hroot.1

end BridgePath

namespace TreeLinks

variable {heap heap' : Heap} {bridges : List Addr} {children : Addr → List Addr} {brk : Addr}

theorem sameButBuses (h : TreeLinks heap bridges children brk) (hsame : SameButBuses heap heap') :
    TreeLinks heap' bridges children brk :=
  h.congr hsame.chain (hsame.lastBridge hostBridge) hsame.parent hsame.firstChild hsame.lastChild
    hsame.nextSibling hsame.pciType1 hsame.pciDeviceID (hsame.nextPciDeviceID hostBridge)

theorem mem_children_iff (h : TreeLinks heap bridges children brk) {a p : Addr} :
    a ∈ children p ↔ (heap a).parent = some p :=
  ⟨h.lists.owner p a, h.parent a p⟩

theorem lt_of_parent (h : TreeLinks heap bridges children brk) {a : Addr}
    (ha : (heap a).parent ≠ none) : a < brk := by
  obtain ⟨p, hp⟩ := Option.ne_none_iff_exists'.mp ha
  exact h.used a (.inr ⟨p, h.parent a p hp⟩)

/-- Lists of distinct used addresses are no longer than the memory in use. -/
theorem length_le {l : List Addr} (hnodup : l.Nodup) (hused : ∀ a ∈ l, a < brk) :
    l.length ≤ brk := by
  have hsub : l ⊆ List.range brk := fun a ha => List.mem_range.mpr (hused a ha)
  simpa using (hnodup.subperm hsub).length_le

theorem length_children_le (h : TreeLinks heap bridges children brk) (b : Addr) :
    (children b).length ≤ brk :=
  length_le (h.lists.linked b).nodup fun a ha => h.used a (.inr ⟨b, ha⟩)

theorem length_path_le (h : TreeLinks heap bridges children brk) {path : List Addr} {a : Addr}
    (hpath : BridgePath heap path a) : path.length ≤ brk :=
  length_le hpath.nodup fun _ hb => h.lt_of_parent (hpath.parent_ne_none hb)

end TreeLinks

/-- Changing the records of a list one after the other. -/
theorem foldl_modify {heap : Heap} {f : PciIoDevice → PciIoDevice} {l : List Addr}
    (hnodup : l.Nodup) (a : Addr) :
    l.foldl (fun heap c => heap.modify c f) heap a = if a ∈ l then f (heap a) else heap a := by
  induction l generalizing heap with
  | nil => rfl
  | cons c l ih =>
      obtain ⟨hc, hnodup⟩ := List.nodup_cons.mp hnodup
      rw [List.foldl_cons, ih hnodup, Heap.modify_apply]
      by_cases hac : a = c
      · subst hac
        simp [hc]
      · simp [hac]

/-- The loop over the children of a bridge changes exactly the records whose
parent it is. -/
theorem forChildren_eq_of_nextSibling {heap : Heap} {bridges : List Addr}
    {children : Addr → List Addr} {brk : Addr} (h : TreeLinks heap bridges children brk) (b : Addr)
    {f : PciIoDevice → PciIoDevice} (hf : ∀ d, (f d).nextSibling = d.nextSibling) {fuel : Nat}
    (hfuel : brk ≤ fuel) :
    forChildren fuel b f heap =
      .ok fun a => if (heap a).parent = some b then f (heap a) else heap a := by
  have hloop : forEach (fun (heap : Heap) c => (heap c).nextSibling)
      (fun c heap => .ok (heap.modify c f)) fuel (heap b).firstChild heap =
        .ok ((children b).foldl (fun heap c => heap.modify c f) heap) :=
    forEach_linked (fun (heap : Heap) c => (heap c).nextSibling)
      (fun (heap : Heap) c => heap.modify c f) (fun _ => True) (fun _ _ _ _ => rfl)
      (fun _ _ _ _ => trivial)
      (fun a _ heap _ c _ => Heap.modify_field PciIoDevice.nextSibling heap a c hf) trivial
      (h.lists.linked b) ((h.length_children_le b).trans hfuel)
  rw [forChildren, hloop]
  congr 1
  funext a
  rw [foldl_modify (h.lists.linked b).nodup]
  simp only [h.mem_children_iff]

/-- The same for a change of the bus fields. -/
theorem forChildren_eq {heap : Heap} {bridges : List Addr} {children : Addr → List Addr}
    {brk : Addr} (h : TreeLinks heap bridges children brk) (b : Addr)
    {f : PciIoDevice → PciIoDevice} (hf : ∀ d, (f d).eraseBuses = d.eraseBuses) {fuel : Nat}
    (hfuel : brk ≤ fuel) :
    forChildren fuel b f heap =
      .ok fun a => if (heap a).parent = some b then f (heap a) else heap a := by
  have hnext : ∀ d, (f d).nextSibling = d.nextSibling := fun d =>
    (congrArg PciIoDevice.nextSibling (hf d) :)
  exact forChildren_eq_of_nextSibling h b hnext hfuel

end PciMisc
end EfiApps
