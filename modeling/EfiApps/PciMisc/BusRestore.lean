import EfiApps.PciMisc.BusWrites

/-!
# Moving the buses and restoring them

`RenumberBuses` and `UnrenumberBuses` only choose what `WriteBuses` writes: new
buses behind each other, or the `Save` copies.  So `UnmoveBuses` undoes
`MoveBuses` on a tree at rest, and functions attached in between stay at rest
too.
-/

namespace EfiApps
namespace PciMisc

/-! ## Renumbering -/

/-- The record without its `New` fields. -/
def eraseNew (d : PciIoDevice) : PciIoDevice :=
  { d with newBusNumber := 0, newPrimaryBus := 0, newSecondaryBus := 0, newSubordinateBus := 0 }

@[simp] theorem eraseNew_setNewBuses (d : PciIoDevice) (primary secondary subordinate : UInt8) :
    eraseNew (d.setNewBuses primary secondary subordinate) = eraseNew d := rfl

@[simp] theorem eraseNew_setNewBusNumber (d : PciIoDevice) (bus : UInt8) :
    eraseNew (d.setNewBusNumber bus) = eraseNew d := rfl

/-- Two heaps agree on everything but the `New` fields. -/
def SameButNew (heap heap' : Heap) : Prop := ∀ a, eraseNew (heap' a) = eraseNew (heap a)

namespace SameButNew

variable {heap heap₁ heap₂ : Heap}

theorem refl (heap : Heap) : SameButNew heap heap := fun _ => rfl

theorem trans (h : SameButNew heap heap₁) (h' : SameButNew heap₁ heap₂) :
    SameButNew heap heap₂ :=
  fun a => (h' a).trans (h a)

theorem sameButBuses (h : SameButNew heap heap₁) : SameButBuses heap heap₁ :=
  fun a => (congrArg PciIoDevice.eraseBuses (h a) :)

theorem busNumber (h : SameButNew heap heap₁) (a : Addr) :
    (heap₁ a).busNumber = (heap a).busNumber := (congrArg PciIoDevice.busNumber (h a) :)

theorem pciIo (h : SameButNew heap heap₁) (a : Addr) :
    (heap₁ a).pciIo = (heap a).pciIo := (congrArg PciIoDevice.pciIo (h a) :)

theorem bridgeBus (h : SameButNew heap heap₁) (a : Addr) (r : BusRegister) :
    (heap₁ a).bridgeBus r = (heap a).bridgeBus r := by
  have hpci : (heap₁ a).pci = (heap a).pci := (congrArg PciIoDevice.pci (h a) :)
  cases r
  · exact (congrArg PciHeader.primaryBus hpci :)
  · exact (congrArg PciHeader.secondaryBus hpci :)
  · exact (congrArg PciHeader.subordinateBus hpci :)

theorem modify (h : SameButNew heap heap₁) (a : Addr) {f : PciIoDevice → PciIoDevice}
    (hf : ∀ d, eraseNew (f d) = eraseNew d) : SameButNew heap (heap₁.modify a f) :=
  fun b => (Heap.modify_field _ heap₁ a b hf).trans (h b)

end SameButNew

/-- The children of `b` change their `NewBusNumber`. -/
theorem forChildren_new {heap : Heap} {bridges : List Addr} {children : Addr → List Addr}
    {brk : Addr} (htree : TreeLinks heap bridges children brk) (b : Addr)
    (bus : PciIoDevice → UInt8) {fuel : Nat} (hfuel : brk ≤ fuel) :
    ∃ heap', forChildren fuel b (fun d => d.setNewBusNumber (bus d)) heap = .ok heap' ∧
      SameButNew heap heap' ∧ (∀ a r, (heap' a).newBus r = (heap a).newBus r) ∧
      ∀ a, (heap' a).newBusNumber =
        if (heap a).parent = some b then bus (heap a) else (heap a).newBusNumber := by
  refine ⟨_, forChildren_eq htree b (fun _ => by simp) hfuel, fun a => ?_, fun a r => ?_, fun a => ?_⟩
  · dsimp only
    split <;> rfl
  · split <;> cases r <;> rfl
  · split <;> rfl

/-- The `New` fields of a bridge follow those of its parent, or the unused range of its root
bridge. -/
structure NumberedFrom (heap : Heap) (b p : Addr) : Prop where
  root : (heap p).isSegment = true →
    (heap b).newSecondaryBus = (heap p).bigUnusedStart ∧
      (heap b).newSubordinateBus = (heap p).bigUnusedEnd
  bridge : (heap p).isSegment = false →
    (heap b).newPrimaryBus = (heap p).newSecondaryBus ∧
      (heap b).newSecondaryBus = (if (heap p).newSecondaryBus < pciMaxBus then
        (heap p).newSecondaryBus + 1 else pciMaxBus) ∧
      (heap b).newSubordinateBus = (heap p).newSubordinateBus

theorem NumberedFrom.congr {heap heap' : Heap} {b p : Addr} (h : NumberedFrom heap b p)
    (hsame : SameButNew heap heap') (hb : ∀ r, (heap' b).newBus r = (heap b).newBus r)
    (hp : ∀ r, (heap' p).newBus r = (heap p).newBus r) : NumberedFrom heap' b p := by
  have hstart : (heap' p).bigUnusedStart = (heap p).bigUnusedStart :=
    (congrArg PciIoDevice.bigUnusedStart (hsame p) :)
  have hend : (heap' p).bigUnusedEnd = (heap p).bigUnusedEnd :=
    (congrArg PciIoDevice.bigUnusedEnd (hsame p) :)
  have hsegment := hsame.sameButBuses.isSegment p
  have hprimary : (heap' b).newPrimaryBus = (heap b).newPrimaryBus := hb .primary
  have hsecondary : (heap' b).newSecondaryBus = (heap b).newSecondaryBus := hb .secondary
  have hsubordinate : (heap' b).newSubordinateBus = (heap b).newSubordinateBus := hb .subordinate
  have hsecondary' : (heap' p).newSecondaryBus = (heap p).newSecondaryBus := hp .secondary
  have hsubordinate' : (heap' p).newSubordinateBus = (heap p).newSubordinateBus := hp .subordinate
  constructor
  · rw [hsegment, hsecondary, hsubordinate, hstart, hend]
    exact h.root
  · rw [hsegment, hprimary, hsecondary, hsubordinate, hsecondary', hsubordinate']
    exact h.bridge

theorem renumberBridge_spec {heap : Heap} {b p : Addr} (hbp : p ≠ b)
    (hbridge : (heap b).pciType1 = true) :
    ∃ f, renumberBridge heap b p = .ok (heap.modify b f) ∧ (∀ d, eraseNew (f d) = eraseNew d) ∧
      ((heap p).isSegment = false → ∀ d, (f d).newBusNumber = d.newBusNumber) ∧
      NumberedFrom (heap.modify b f) b p := by
  unfold renumberBridge
  cases hsegment : (heap p).isSegment with
  | true =>
      refine ⟨_, by rw [if_pos rfl, if_neg (by simp [hbridge])], by simp, by simp, ?_⟩
      constructor
      · rw [Heap.modify_self, Heap.modify_of_ne _ _ hbp]
        exact fun _ => ⟨rfl, rfl⟩
      · rw [Heap.modify_of_ne _ _ hbp, hsegment]
        nofun
  | false =>
      refine ⟨.setNewBuses (heap p).newSecondaryBus
        (if (heap p).newSecondaryBus < pciMaxBus then (heap p).newSecondaryBus + 1 else pciMaxBus)
        (heap p).newSubordinateBus, ?_, by simp, fun _ _ => rfl, ?_⟩
      · rw [if_neg (by simp)]
      · constructor
        · rw [Heap.modify_of_ne _ _ hbp, hsegment]
          nofun
        · rw [Heap.modify_self, Heap.modify_of_ne _ _ hbp]
          exact fun _ => ⟨rfl, rfl, rfl⟩

/-- After `RenumberBuses` every bridge of the path is meant to get bus numbers behind those
of its parent, and every child of such a bridge to move to the new bus behind it. -/
theorem renumberBuses_spec {heap : Heap} {bridges : List Addr} {children : Addr → List Addr}
    {brk fuel n : Nat} {path : List Addr} {a : Addr}
    (htree : TreeLinks heap bridges children brk) (hfuel : brk ≤ fuel) (hn : path.length ≤ n)
    (hpath : BridgePath heap path a) :
    ∃ heap', renumberBuses fuel n a heap = .ok heap' ∧ SameButNew heap heap' ∧
      (∀ p ∈ path, ∀ c, (heap c).parent = some p →
        (heap' c).newBusNumber = (heap' p).newSecondaryBus) ∧
      ∀ b ∈ path, ∀ p, (heap b).parent = some p → NumberedFrom heap' b p := by
  induction path generalizing a n with
  | nil =>
      refine ⟨heap, ?_, fun _ => rfl, by simp, by simp⟩
      unfold renumberBuses
      rw [if_pos hpath.1]
  | cons b path ih =>
      have hb := (List.nodup_cons.mp hpath.nodup).1
      have hchild := fun c hc => hpath.parent_ne (c := c) hc
      obtain ⟨rfl, hsegment, hbridge, p, hp, hrest⟩ := hpath
      obtain ⟨n, rfl⟩ : ∃ k, n = k + 1 := ⟨n - 1, by simp at hn; omega⟩
      obtain ⟨heap₁, hrun₁, hsame₁, hnew₁, hnumbers₁⟩ := ih (by simpa using hn) hrest
      have hpa : p ≠ a := by
        rintro rfl
        exact hb (hrest.self_mem hsegment)
      obtain ⟨f, hrun₂, hf, hkeep, hnumber₂⟩ := renumberBridge_spec hpa
        ((hsame₁.sameButBuses.pciType1 a).trans hbridge)
      have hsame₂ := hsame₁.modify a hf
      obtain ⟨heap₃, hrun₃, hsame₃, hbus₃, hnumber₃⟩ := forChildren_new
        (htree.sameButBuses hsame₂.sameButBuses) a
        (fun _ => (heap₁.modify a f a).newSecondaryBus) hfuel
      refine ⟨heap₃, ?_, hsame₂.trans hsame₃, ?_, ?_⟩
      · unfold renumberBuses
        rw [if_neg (by simp [hsegment])]
        simp only [hp, Run.deref_some, Run.ok_bind, hrun₁, hrun₂]
        exact hrun₃
      · intro q hq c hc
        rw [hnumber₃, hsame₂.sameButBuses.parent]
        rcases List.mem_cons.mp hq with rfl | hq
        · rw [if_pos hc]
          exact (hbus₃ q .secondary).symm
        · -- The children of `a` and those of the bridges above it are different records.
          have hca : (heap c).parent ≠ some a := fun heq =>
            hb (Option.some.inj (hc.symm.trans heq) ▸ hq)
          have hqa : q ≠ a := fun heq => hb (heq ▸ hq)
          have hsecondary : (heap₃ q).newSecondaryBus = (heap₁ q).newSecondaryBus := by
            refine (hbus₃ q .secondary).trans ?_
            rw [Heap.modify_of_ne _ _ hqa]
            rfl
          rw [if_neg hca, hsecondary, ← hnew₁ q hq c hc, Heap.modify_apply]
          split
          · rename_i heq
            rw [heq, hp] at hc
            obtain rfl := Option.some.inj hc
            refine hkeep ?_ _
            rw [hsame₁.sameButBuses.isSegment]
            exact hrest.isSegment_of_mem hq
          · rfl
      · intro c hc q hq
        rcases List.mem_cons.mp hc with rfl | hc
        · obtain rfl := Option.some.inj (hp.symm.trans hq)
          exact hnumber₂.congr hsame₃ (hbus₃ c) (hbus₃ p)
        · -- The bridges above `a` keep their numbers, and neither they nor their parents are `a`.
          have hca : c ≠ a := fun heq => hb (heq ▸ hc)
          have hqa : q ≠ a := fun heq => hchild c hc (heq ▸ hq)
          have hsame : SameButNew heap₁ heap₃ := ((SameButNew.refl heap₁).modify a hf).trans hsame₃
          have hkept : ∀ d, d ≠ a → ∀ r, (heap₃ d).newBus r = (heap₁ d).newBus r := by
            intro d hda r
            rw [hbus₃, Heap.modify_of_ne _ _ hda]
          exact (hnumbers₁ c hc q hq).congr hsame (hkept c hca) (hkept q hqa)

/-- After `UnrenumberBuses` the bridges of the path and their children are meant
to go back to their `Save` copies. -/
theorem unrenumberBuses_spec {heap : Heap} {bridges : List Addr} {children : Addr → List Addr}
    {brk fuel n : Nat} {path : List Addr} {a : Addr}
    (htree : TreeLinks heap bridges children brk) (hfuel : brk ≤ fuel) (hn : path.length ≤ n)
    (hpath : BridgePath heap path a) :
    ∃ heap', unrenumberBuses fuel n a heap = .ok heap' ∧ SameButNew heap heap' ∧
      ∀ p ∈ path, (∀ r, (heap' p).newBus r = (heap p).savedBus r) ∧
        ∀ c, (heap c).parent = some p → (heap' c).newBusNumber = (heap c).saveBusNumber := by
  induction path generalizing a n with
  | nil =>
      refine ⟨heap, ?_, fun _ => rfl, by simp⟩
      unfold unrenumberBuses
      rw [if_pos hpath.1]
  | cons b path ih =>
      have hb := (List.nodup_cons.mp hpath.nodup).1
      have hchild := fun c hc => hpath.parent_ne (c := c) hc
      obtain ⟨rfl, hsegment, -, p, hp, hrest⟩ := hpath
      obtain ⟨n, rfl⟩ : ∃ k, n = k + 1 := ⟨n - 1, by simp at hn; omega⟩
      obtain ⟨heap₁, hrun₁, hsame₁, hnew₁⟩ := ih (by simpa using hn) hrest
      have hsame₂ := hsame₁.modify a (f := fun d => (d.setNewBusNumber d.saveBusNumber).setNewBuses
        d.savePrimaryBus d.saveSecondaryBus d.saveSubordinateBus) fun _ => rfl
      obtain ⟨heap₃, hrun₃, hsame₃, hbus₃, hnumber₃⟩ := forChildren_new
        (htree.sameButBuses hsame₂.sameButBuses) a PciIoDevice.saveBusNumber hfuel
      refine ⟨heap₃, ?_, hsame₂.trans hsame₃, ?_⟩
      · unfold unrenumberBuses
        rw [if_neg (by simp [hsegment])]
        simp only [hp, Run.deref_some, Run.ok_bind, hrun₁]
        exact hrun₃
      · intro q hq
        refine ⟨fun r => ?_, fun c hc => ?_⟩
        · rw [hbus₃ q r]
          rcases List.mem_cons.mp hq with rfl | hq
          · rw [Heap.modify_self, ← hsame₁.sameButBuses.savedBus]
            cases r <;> rfl
          · rw [Heap.modify_of_ne _ _ fun heq : q = a => hb (heq ▸ hq)]
            exact (hnew₁ q hq).1 r
        · rw [hnumber₃, hsame₂.sameButBuses.parent, hsame₂.sameButBuses.saveBusNumber]
          rcases List.mem_cons.mp hq with rfl | hq
          · rw [if_pos hc]
          · split
            · rfl
            · rw [Heap.modify_apply]
              split
              · rw [← hsame₁.sameButBuses.saveBusNumber]
                rfl
              · exact (hnew₁ q hq).2 c hc

/-! ## What moving there and back does -/

/-- Between the heaps only bus numbers on the path and behind it differ. -/
structure MovedPath (heap : Heap) (path : List Addr) (heap' : Heap) : Prop where
  same : SameButBuses heap heap'
  busNumber : ∀ c, (∀ p ∈ path, (heap c).parent ≠ some p) →
    (heap' c).busNumber = (heap c).busNumber
  bridgeBus : ∀ c, c ∉ path → ∀ r, (heap' c).bridgeBus r = (heap c).bridgeBus r

theorem movedPath_rewritten {heap heap₁ : Heap} (hsame : SameButNew heap heap₁) (restore : Bool)
    (path : List Addr) : MovedPath heap path (rewritten restore path heap₁) := by
  refine ⟨hsame.sameButBuses.trans (rewritten_same restore path heap₁), fun c hc => ?_,
    fun c hc r => ?_⟩
  · rw [rewritten_busNumber, if_neg, hsame.busNumber]
    rintro ⟨p, hp, hparent⟩
    exact hc p hp ((hsame.sameButBuses.parent c).symm.trans hparent)
  · rw [rewritten_bridgeBus, if_neg hc, hsame.bridgeBus]

/-- The path and what is behind it have the bus numbers of their `Save` copies. -/
structure MovedBack (heap : Heap) (path : List Addr) (heap' : Heap) : Prop where
  same : SameButBuses heap heap'
  busNumber : ∀ c, (heap' c).busNumber = if ∃ p ∈ path, (heap c).parent = some p then
    (heap c).saveBusNumber else (heap c).busNumber
  bridgeBus : ∀ c r, (heap' c).bridgeBus r = if c ∈ path then
    (heap c).savedBus r else (heap c).bridgeBus r

/-- After the writes the records of the path and behind it are back at their `Save` copies. -/
theorem movedBack_rewritten {heap heap₁ : Heap} {path : List Addr} (hsame : SameButNew heap heap₁)
    (hnew : ∀ p ∈ path, (∀ r, (heap₁ p).newBus r = (heap p).savedBus r) ∧
      ∀ c, (heap c).parent = some p → (heap₁ c).newBusNumber = (heap c).saveBusNumber) :
    MovedBack heap path (rewritten true path heap₁) := by
  refine ⟨hsame.sameButBuses.trans (rewritten_same true path heap₁), fun c => ?_, fun c r => ?_⟩
  · rw [rewritten_busNumber]
    simp only [hsame.sameButBuses.parent]
    split
    · rename_i hkid
      obtain ⟨p, hp, hparent⟩ := hkid
      exact (hnew p hp).2 c hparent
    · exact hsame.busNumber c
  · rw [rewritten_bridgeBus]
    split
    · rename_i hc
      exact (hnew c hc).1 r
    · exact hsame.bridgeBus c r

/-! ## Trees at rest -/

/-- The record agrees with its `Save` copies, and so do the registers of a bridge. -/
structure PciIoDevice.AtRest (d : PciIoDevice) (regs : BusRegister → UInt8) : Prop where
  busNumber : d.saveBusNumber = d.busNumber
  pciIo : d.savePciIo = d.pciIo
  bridge : d.pciType1 = true → d.isSegment = false → ∀ r,
    d.savedBus r = d.bridgeBus r ∧ regs r = d.bridgeBus r

/-- Whether a record is at rest does not depend on its links. -/
theorem PciIoDevice.AtRest.congr {d d' : PciIoDevice} {regs : BusRegister → UInt8}
    (h : d.AtRest regs) (hsame : d'.eraseLinks = d.eraseLinks) : d'.AtRest regs where
  busNumber := by
    have hrest : d.eraseLinks.saveBusNumber = d.eraseLinks.busNumber := h.busNumber
    rwa [← hsame] at hrest
  pciIo := by
    have hrest : d.eraseLinks.savePciIo = d.eraseLinks.pciIo := h.pciIo
    rwa [← hsame] at hrest
  bridge htype hsegment r := by
    have htype' : d'.pciType1 = d.pciType1 := (congrArg PciIoDevice.pciType1 hsame :)
    have hsegment' : d'.isSegment = d.isSegment := (congrArg PciIoDevice.isSegment hsame :)
    rw [PciIoDevice.savedBus_of_eraseLinks r hsame, PciIoDevice.bridgeBus_of_eraseLinks r hsame]
    exact h.bridge (htype' ▸ htype) (hsegment' ▸ hsegment) r

/-- Functions at rest are attached to `b`, one after the other, at addresses that
were not in use. -/
inductive Attaches (regs : Addr → BusRegister → UInt8) (b : Addr) :
    Heap → Addr → Heap → Addr → Prop
  | done (heap : Heap) (brk : Addr) : Attaches regs b heap brk heap brk
  | function {heap heap₁ heap₂ : Heap} {brk brk₂ c : Addr} {d : PciIoDevice}
      (hc : brk ≤ c) (hunlinked : d.Unlinked)
      (hid : d.pciDeviceID = (heap hostBridge).nextPciDeviceID)
      (hsegment : d.isSegment = false) (hrest : d.AtRest (regs c))
      (hattach : attach heap b c d = .ok heap₁)
      (hmore : Attaches regs b heap₁ (c + 1) heap₂ brk₂) : Attaches regs b heap brk heap₂ brk₂

/-- The records that were there before have kept their place and everything but links. -/
def KeepsRecords (heap heap' : Heap) (brk : Addr) : Prop :=
  ∀ a < brk, (heap' a).eraseLinks = (heap a).eraseLinks ∧ (heap' a).parent = (heap a).parent

/-- The records that were there are kept, and the new ones are at rest. -/
theorem Attaches.spec {regs : Addr → BusRegister → UInt8} {b : Addr} {heap heap₂ : Heap}
    {brk brk₂ : Addr} (h : Attaches regs b heap brk heap₂ brk₂) {bridges : List Addr}
    {children : Addr → List Addr} (htree : TreeLinks heap bridges children brk)
    (hb : InTree children b) :
    (∃ bridges₂ children₂, TreeLinks heap₂ bridges₂ children₂ brk₂) ∧
      KeepsRecords heap heap₂ brk ∧
      ∀ a ≥ brk, (heap₂ a).parent ≠ none → (heap₂ a).AtRest (regs a) := by
  induction h generalizing bridges children with
  | done heap brk =>
      refine ⟨⟨bridges, children, htree⟩, fun _ _ => ⟨rfl, rfl⟩, fun a ha hparent => ?_⟩
      exact absurd (htree.lt_of_parent hparent) (not_lt.mpr ha)
  | @function heap heap₁ heap₂ brk brk₂ c d hc hunlinked hid hsegment hrest hattach hmore ih =>
      have hgrown := htree.grow hc
      have hbc : b ≠ c := ne_of_lt (hgrown.used b hb)
      rw [attach_eq d hbc (htree.lists.endsAgree b)] at hattach
      obtain rfl := Except.ok.inj hattach
      obtain ⟨htree₂, hold, hnew⟩ := ih (hgrown.attached hb hunlinked hid)
        (TreeLinks.inTree_update_iff.mpr (.inl hb))
      have hregisters := sameRegisters_attached heap b c d
      refine ⟨htree₂, fun a ha => ?_, fun a ha hparent => ?_⟩
      · have hlt : a < c := lt_of_lt_of_le ha hc
        have hac : a ≠ c := ne_of_lt hlt
        obtain ⟨hlinks, hparent⟩ := hold a (Nat.lt_succ_of_lt hlt)
        rw [hlinks, hregisters a, Function.update_of_ne hac, hparent, attached_parent, if_neg hac]
        exact ⟨rfl, rfl⟩
      · rcases Nat.lt_or_ge c a with hca | hac
        · exact hnew a hca hparent
        · obtain ⟨hlinks, hsame⟩ := hold a (Nat.lt_succ_of_le hac)
          rcases Nat.lt_or_ge a c with hlt | hge
          · rw [hsame, attached_parent, if_neg (ne_of_lt hlt)] at hparent
            exact absurd (htree.lt_of_parent hparent) (not_lt.mpr ha)
          · obtain rfl : a = c := le_antisymm hac hge
            refine hrest.congr (hlinks.trans ((hregisters a).trans ?_))
            rw [Function.update_self]

/-- A bridge on a path to a root bridge is in the tree. -/
theorem TreeLinks.inTree_of_path {heap : Heap} {bridges : List Addr}
    {children : Addr → List Addr} {brk : Addr} (h : TreeLinks heap bridges children brk)
    {path : List Addr} {b : Addr} (hpath : BridgePath heap path b) : InTree children b := by
  have htree : (heap b).parent ≠ none := by
    cases path with
    | nil => exact hpath.2
    | cons c path =>
        obtain ⟨rfl, -, -, p, hp, -⟩ := hpath
        simp [hp]
  obtain ⟨p, hp⟩ := Option.ne_none_iff_exists'.mp htree
  exact .inr ⟨p, h.parent b p hp⟩

section Restore

variable {regs : Addr → BusRegister → UInt8} {heap : Heap} {bridges : List Addr}
  {children : Addr → List Addr} {brk : Addr} {path : List Addr} {b : Addr}

/-- What a successful `MoveBuses` leaves behind. -/
structure Moved (regs : Addr → BusRegister → UInt8) (heap : Heap) (path : List Addr)
    (st : BusState) : Prop where
  same : SameButBuses heap st.heap
  inStep : ∀ c ∈ path, InStep regs st c
  behind : ∀ c ∈ path, ∀ p ∈ path, (heap c).parent = some p →
    (st.heap c).busNumber = (st.heap p).bridgeBus .secondary
  pciIo : ∀ c, (st.heap c).pciIo = if c ∈ path then none else (heap c).pciIo
  busNumber : ∀ c, (∀ p ∈ path, (heap c).parent ≠ some p) →
    (st.heap c).busNumber = (heap c).busNumber
  bridgeBus : ∀ c, c ∉ path → ∀ r, (st.heap c).bridgeBus r = (heap c).bridgeBus r
  others : ∀ c, c ∉ path → ∀ r, registersAfter regs st.writes c r = regs c r
  addressed : AddressedBehindParent heap regs st.writes

/-- What `MoveBuses` does: it chooses new numbers for the path, and writes them unless there
are not enough buses for the last bridge. -/
theorem moveBuses_spec (htree : TreeLinks heap bridges children brk)
    (hpath : BridgePath heap path b)
    (hregs : ∀ c ∈ path, ∀ r, regs c r = (heap c).bridgeBus r)
    (hio : ∀ c ∈ path, ∃ io, (heap c).pciRootBridgeIo = some io) {fuel : Nat}
    (hfuel : brk ≤ fuel) :
    ∃ heap₁, SameButNew heap heap₁ ∧
      (∀ p ∈ path, ∀ c, (heap c).parent = some p →
        (heap₁ c).newBusNumber = (heap₁ p).newSecondaryBus) ∧
      (∀ c ∈ path, ∀ p, (heap c).parent = some p → NumberedFrom heap₁ c p) ∧
      (if (heap₁ b).newSecondaryBus = pciMaxBus ∨
          (heap₁ b).newSubordinateBus < (heap₁ b).newSecondaryBus then
        moveBuses fuel b ⟨heap, []⟩ = .ok (.outOfResources, ⟨heap₁, []⟩)
      else ∃ st, moveBuses fuel b ⟨heap, []⟩ = .ok (.success, st) ∧
        Written regs heap false path ⟨heap₁, []⟩ st) := by
  obtain ⟨heap₁, hrun₁, hsame₁, hnew₁, hnumbers₁⟩ := renumberBuses_spec htree hfuel
    ((htree.length_path_le hpath).trans hfuel) hpath
  refine ⟨heap₁, hsame₁, hnew₁, hnumbers₁, ?_⟩
  unfold moveBuses
  simp only [hrun₁, Run.ok_bind]
  split
  · rfl
  · have hbuses₁ := hsame₁.sameButBuses
    have hwritable : Writable regs heap path ⟨heap₁, []⟩ := by
      constructor
      · exact fun c _ => (hbuses₁.parent c).symm
      · exact fun c _ p _ => (hbuses₁.isSegment p).symm
      · intro c hc
        obtain ⟨io, hio⟩ := hio c hc
        exact ⟨io, (hbuses₁.pciRootBridgeIo c).trans hio⟩
      · exact fun c hc r => (hregs c hc r).trans (hsame₁.bridgeBus c r).symm
    obtain ⟨st, hrun, hwritten⟩ := writeBuses_move (htree.sameButBuses hbuses₁) hfuel
      ((htree.length_path_le hpath).trans hfuel) (hpath.sameButBuses hbuses₁) hwritable
      (fun p hp c hc => hnew₁ p hp c ((hbuses₁.parent c).symm.trans hc))
      (show AddressedBehindParent heap regs [] from fun before w after h => by simp at h)
    exact ⟨st, by rw [hrun]; rfl, hwritten⟩

/-- What the records and registers are after a move. -/
theorem Written.moved {heap₁ : Heap} {st : BusState}
    (hwritten : Written regs heap false path ⟨heap₁, []⟩ st) (hsame₁ : SameButNew heap heap₁)
    (hnew₁ : ∀ p ∈ path, ∀ c, (heap c).parent = some p →
      (heap₁ c).newBusNumber = (heap₁ p).newSecondaryBus) : Moved regs heap path st := by
  have hpath : MovedPath heap path st.heap := by
    rw [hwritten.heap]
    exact movedPath_rewritten hsame₁ false path
  refine ⟨hpath.same, hwritten.inStep, ?_, ?_, hpath.busNumber, hpath.bridgeBus, hwritten.others,
    hwritten.addressed⟩
  · intro c hc p hp hparent
    rw [hwritten.heap, rewritten_busNumber, rewritten_bridgeBus, if_pos hp,
      hsame₁.sameButBuses.parent, if_pos ⟨p, hp, hparent⟩]
    exact hnew₁ p hp c hparent
  · intro c
    rw [hwritten.heap, rewritten_pciIo, hsame₁.pciIo]
    rfl

/-- `MoveBuses` returns on every tree at rest, and a success moves the buses. -/
theorem moveBuses_moved (htree : TreeLinks heap bridges children brk)
    (hrest : ∀ a, (heap a).parent ≠ none → (heap a).AtRest (regs a))
    (hpath : BridgePath heap path b)
    (hio : ∀ c ∈ path, ∃ io, (heap c).pciRootBridgeIo = some io) {fuel : Nat}
    (hfuel : brk ≤ fuel) :
    ∃ status st, moveBuses fuel b ⟨heap, []⟩ = .ok (status, st) ∧
      (status = .success → Moved regs heap path st) := by
  have hregs : ∀ c ∈ path, ∀ r, regs c r = (heap c).bridgeBus r := fun c hc r =>
    ((hrest c (hpath.parent_ne_none hc)).bridge (hpath.pciType1_of_mem hc)
      (hpath.isSegment_of_mem hc) r).2
  obtain ⟨heap₁, hsame₁, hnew₁, -, hmove⟩ := moveBuses_spec htree hpath hregs hio hfuel
  split at hmove
  · exact ⟨_, _, hmove, by intro h; cases h⟩
  · obtain ⟨st, hrun, hwritten⟩ := hmove
    exact ⟨_, st, hrun, fun _ => hwritten.moved hsame₁ hnew₁⟩

/-- The state after `UnmoveBuses`: every record that was there before has its bus
numbers back, the registers hold the original values, the tree is at rest, and
all writes so far went to where the bridges were. -/
structure Restored (regs : Addr → BusRegister → UInt8) (heap : Heap) (brk : Addr)
    (st : BusState) : Prop where
  busNumber : ∀ a < brk, (st.heap a).busNumber = (heap a).busNumber
  pciIo : ∀ a < brk, (st.heap a).pciIo = (heap a).pciIo
  bridgeBus : ∀ a < brk, ∀ r, (st.heap a).bridgeBus r = (heap a).bridgeBus r
  registers : ∀ a r, registersAfter regs st.writes a r = regs a r
  atRest : ∀ a, (st.heap a).parent ≠ none → (st.heap a).AtRest (regs a)
  addressed : AddressedBehindParent heap regs st.writes

section back

variable {heap₂ : Heap} {moved st : BusState} {a : Addr}

theorem KeepsRecords.field (hold : KeepsRecords heap heap₂ brk) (ha : a < brk) {β : Type}
    (f : PciIoDevice → β) (hlinks : ∀ d, f d.eraseLinks = f d) : f (heap₂ a) = f (heap a) :=
  (hlinks _).symm.trans ((congrArg f (hold a ha).1).trans (hlinks _))

theorem Moved.parent_old (hmoved : Moved regs heap path moved)
    (hold : KeepsRecords moved.heap heap₂ brk) (ha : a < brk) :
    (heap₂ a).parent = (heap a).parent :=
  (hold a ha).2.trans (hmoved.same.parent a)

/-- What neither the links nor the bus numbers are part of is still the same. -/
theorem Moved.field_old (hmoved : Moved regs heap path moved)
    (hold : KeepsRecords moved.heap heap₂ brk) (ha : a < brk) {β : Type} (f : PciIoDevice → β)
    (hlinks : ∀ d, f d.eraseLinks = f d) (hbuses : ∀ d, f d.eraseBuses = f d) :
    f (heap₂ a) = f (heap a) :=
  (hold.field ha f hlinks).trans
    ((hbuses _).symm.trans ((congrArg f (hmoved.same a)).trans (hbuses _)))

theorem Moved.savedBus_old (hmoved : Moved regs heap path moved)
    (hold : KeepsRecords moved.heap heap₂ brk) (ha : a < brk) (r : BusRegister) :
    (heap₂ a).savedBus r = (heap a).savedBus r := by
  have hlinks : ∀ d : PciIoDevice, d.eraseLinks.savedBus r = d.savedBus r := fun d =>
    d.savedBus_eraseLinks r
  refine hmoved.field_old hold ha (·.savedBus r) hlinks fun d => ?_
  cases r <;> rfl

/-- The path is still a path. -/
theorem Moved.path_old (hmoved : Moved regs heap path moved)
    (hold : KeepsRecords moved.heap heap₂ brk) (htree : TreeLinks heap bridges children brk)
    (hpath : BridgePath heap path b) : BridgePath heap₂ path b :=
  hpath.congr (fun _ hc => hmoved.parent_old hold (htree.lt_of_parent hc))
    (fun _ hc => hmoved.field_old hold (htree.lt_of_parent hc) PciIoDevice.isSegment
      (fun _ => rfl) fun _ => rfl)
    fun _ hc => hmoved.field_old hold (htree.lt_of_parent hc) PciIoDevice.pciType1
      (fun _ => rfl) fun _ => rfl

/-- The writes on the way back find what they rely on. -/
theorem Moved.writable_back (hmoved : Moved regs heap path moved)
    (hold : KeepsRecords moved.heap heap₂ brk) (htree : TreeLinks heap bridges children brk)
    (hpath : BridgePath heap path b)
    (hio : ∀ c ∈ path, ∃ io, (heap c).pciRootBridgeIo = some io) {heap₃ : Heap}
    (hsame₃ : SameButNew heap₂ heap₃) : Writable regs heap path ⟨heap₃, moved.writes⟩ := by
  have hbuses₃ := hsame₃.sameButBuses
  have hmem : ∀ c ∈ path, c < brk := fun c hc => htree.lt_of_parent (hpath.parent_ne_none hc)
  constructor
  · intro c hc
    exact ((hbuses₃.parent c).trans (hmoved.parent_old hold (hmem c hc))).symm
  · intro c hc p hp
    have hp' : (heap c).parent = some p :=
      (hmoved.parent_old hold (hmem c hc)).symm.trans ((hbuses₃.parent c).symm.trans hp)
    have hlt : p < brk := by
      rcases hpath.parent_mem hc hp' with hmem' | hroot
      · exact hmem p hmem'
      · exact htree.lt_of_parent hroot.2
    exact ((hbuses₃.isSegment p).trans (hmoved.field_old hold hlt PciIoDevice.isSegment
      (fun _ => rfl) fun _ => rfl)).symm
  · intro c hc
    obtain ⟨io, hio⟩ := hio c hc
    refine ⟨io, (hbuses₃.pciRootBridgeIo c).trans ?_⟩
    rw [hmoved.field_old hold (hmem c hc) PciIoDevice.pciRootBridgeIo (fun _ => rfl) fun _ => rfl]
    exact hio
  · intro c hc r
    have hbus : (heap₂ c).bridgeBus r = (moved.heap c).bridgeBus r :=
      hold.field (hmem c hc) (·.bridgeBus r) fun d => d.bridgeBus_eraseLinks r
    exact (hmoved.inStep c hc r).trans ((hsame₃.bridgeBus c r).trans hbus).symm

/-- `UnmoveBuses` returns, and moves the path and what is behind it back. -/
theorem Moved.unmoveBuses (hmoved : Moved regs heap path moved)
    (hold : KeepsRecords moved.heap heap₂ brk) (htree : TreeLinks heap bridges children brk)
    (hpath : BridgePath heap path b)
    (hio : ∀ c ∈ path, ∃ io, (heap c).pciRootBridgeIo = some io) {bridges₂ : List Addr}
    {children₂ : Addr → List Addr} {brk₂ : Addr}
    (htree₂ : TreeLinks heap₂ bridges₂ children₂ brk₂) {fuel : Nat} (hfuel : brk₂ ≤ fuel) :
    ∃ st heap₃, PciMisc.unmoveBuses fuel b ⟨heap₂, moved.writes⟩ = .ok (.success, st) ∧
      Written regs heap true path ⟨heap₃, moved.writes⟩ st ∧ MovedBack heap₂ path st.heap ∧
      ∀ a, (st.heap a).pciIo = if a ∈ path then (heap₂ a).savePciIo else (heap₂ a).pciIo := by
  have hmem : ∀ c ∈ path, c < brk := fun c hc => htree.lt_of_parent (hpath.parent_ne_none hc)
  have hpath₂ := hmoved.path_old hold htree hpath
  have hn : path.length ≤ fuel := (htree₂.length_path_le hpath₂).trans hfuel
  obtain ⟨heap₃, hrun₃, hsame₃, hnew₃⟩ := unrenumberBuses_spec htree₂ hfuel hn hpath₂
  have hbuses₃ := hsame₃.sameButBuses
  obtain ⟨st, hrun, hwritten⟩ := writeBuses_restore (htree₂.sameButBuses hbuses₃) hfuel hn
    (hpath₂.sameButBuses hbuses₃) (hmoved.writable_back hold htree hpath hio hsame₃)
    (by
      intro c hc
      have hpciIo := hold.field (hmem c hc) PciIoDevice.pciIo fun _ => rfl
      rw [hsame₃.pciIo, hpciIo, hmoved.pciIo, if_pos hc])
    (by
      intro c hc p hp hparent
      have hparent' : (heap c).parent = some p :=
        (hmoved.parent_old hold (hmem c hc)).symm.trans ((hbuses₃.parent c).symm.trans hparent)
      calc (heap₃ c).busNumber = (heap₂ c).busNumber := hsame₃.busNumber c
        _ = (moved.heap c).busNumber := hold.field (hmem c hc) PciIoDevice.busNumber fun _ => rfl
        _ = (moved.heap p).bridgeBus .secondary := hmoved.behind c hc p hp hparent'
        _ = (heap₂ p).bridgeBus .secondary :=
          (hold.field (hmem p hp) (·.bridgeBus .secondary) fun _ => rfl).symm
        _ = (heap₃ p).bridgeBus .secondary := (hsame₃.bridgeBus p .secondary).symm)
    hmoved.addressed
  refine ⟨st, heap₃, ?_, hwritten, ?_, fun a => ?_⟩
  · unfold PciMisc.unmoveBuses
    simp only [hrun₃, Run.ok_bind, hrun]
  · rw [hwritten.heap]
    exact movedBack_rewritten hsame₃ hnew₃
  · rw [hwritten.heap, rewritten_pciIo, hsame₃.pciIo, hbuses₃.savePciIo]
    rfl

/-- The records that were there before the move are as they were then. -/
structure BackInPlace (heap : Heap) (brk : Addr) (heap' : Heap) : Prop where
  busNumber : ∀ a < brk, (heap' a).busNumber = (heap a).busNumber
  pciIo : ∀ a < brk, (heap' a).pciIo = (heap a).pciIo
  bridgeBus : ∀ a < brk, ∀ r, (heap' a).bridgeBus r = (heap a).bridgeBus r

theorem Moved.backInPlace (hmoved : Moved regs heap path moved)
    (hold : KeepsRecords moved.heap heap₂ brk)
    (hrest : ∀ a, (heap a).parent ≠ none → (heap a).AtRest (regs a))
    (hpath : BridgePath heap path b) (hback : MovedBack heap₂ path st.heap)
    (hpciIo : ∀ a, (st.heap a).pciIo =
      if a ∈ path then (heap₂ a).savePciIo else (heap₂ a).pciIo) :
    BackInPlace heap brk st.heap := by
  refine ⟨fun a ha => ?_, fun a ha => ?_, fun a ha r => ?_⟩
  · rw [hback.busNumber, hmoved.parent_old hold ha]
    split
    · rename_i hkid
      obtain ⟨p, -, hp⟩ := hkid
      rw [hmoved.field_old hold ha PciIoDevice.saveBusNumber (fun _ => rfl) fun _ => rfl]
      exact (hrest a (by simp [hp])).busNumber
    · rename_i hkid
      rw [hold.field ha PciIoDevice.busNumber fun _ => rfl]
      exact hmoved.busNumber a fun p hp hparent => hkid ⟨p, hp, hparent⟩
  · rw [hpciIo]
    split
    · rename_i hin
      rw [hmoved.field_old hold ha PciIoDevice.savePciIo (fun _ => rfl) fun _ => rfl]
      exact (hrest a (hpath.parent_ne_none hin)).pciIo
    · rename_i hout
      rw [hold.field ha PciIoDevice.pciIo fun _ => rfl, hmoved.pciIo, if_neg hout]
  · rw [hback.bridgeBus]
    split
    · rename_i hin
      rw [hmoved.savedBus_old hold ha]
      exact ((hrest a (hpath.parent_ne_none hin)).bridge (hpath.pciType1_of_mem hin)
        (hpath.isSegment_of_mem hin) r).1
    · rename_i hout
      rw [← hmoved.bridgeBus a hout r]
      exact hold.field ha (·.bridgeBus r) fun d => d.bridgeBus_eraseLinks r

/-- A record that was there is at rest again. -/
theorem Moved.atRest_old (hmoved : Moved regs heap path moved)
    (hold : KeepsRecords moved.heap heap₂ brk) (hback : MovedBack heap₂ path st.heap)
    (hplace : BackInPlace heap brk st.heap) (ha : a < brk) (hrest : (heap a).AtRest (regs a)) :
    (st.heap a).AtRest (regs a) := by
  have hsame := hback.same
  refine ⟨?_, ?_, fun htype hsegment r => ?_⟩
  · rw [hsame.saveBusNumber, hplace.busNumber a ha,
      hmoved.field_old hold ha PciIoDevice.saveBusNumber (fun _ => rfl) fun _ => rfl]
    exact hrest.busNumber
  · rw [hsame.savePciIo, hplace.pciIo a ha,
      hmoved.field_old hold ha PciIoDevice.savePciIo (fun _ => rfl) fun _ => rfl]
    exact hrest.pciIo
  · rw [hsame.pciType1,
      hmoved.field_old hold ha PciIoDevice.pciType1 (fun _ => rfl) fun _ => rfl] at htype
    rw [hsame.isSegment,
      hmoved.field_old hold ha PciIoDevice.isSegment (fun _ => rfl) fun _ => rfl] at hsegment
    rw [hsame.savedBus, hmoved.savedBus_old hold ha, hplace.bridgeBus a ha]
    exact hrest.bridge htype hsegment r

/-- An attached record is on no path, and goes to its own copy. -/
theorem MovedBack.atRest_new (hback : MovedBack heap₂ path st.heap) (hout : a ∉ path)
    (hpciIo : (st.heap a).pciIo = (heap₂ a).pciIo) (hrest : (heap₂ a).AtRest (regs a)) :
    (st.heap a).AtRest (regs a) := by
  have hsame := hback.same
  refine ⟨?_, ?_, fun htype hsegment r => ?_⟩
  · rw [hsame.saveBusNumber, hback.busNumber]
    split
    · rfl
    · exact hrest.busNumber
  · rw [hsame.savePciIo, hpciIo]
    exact hrest.pciIo
  · rw [hsame.pciType1] at htype
    rw [hsame.isSegment] at hsegment
    rw [hsame.savedBus, hback.bridgeBus, if_neg hout]
    exact hrest.bridge htype hsegment r

end back

/-- `UnmoveBuses`, after `MoveBuses` and any attachments, restores the tree. -/
theorem unmoveBuses_restored (htree : TreeLinks heap bridges children brk)
    (hrest : ∀ a, (heap a).parent ≠ none → (heap a).AtRest (regs a))
    (hpath : BridgePath heap path b)
    (hio : ∀ c ∈ path, ∃ io, (heap c).pciRootBridgeIo = some io) {moved : BusState}
    (hmoved : Moved regs heap path moved) {heap₂ : Heap} {brk₂ : Addr}
    (hattach : Attaches regs b moved.heap brk heap₂ brk₂) {fuel : Nat} (hfuel : brk₂ ≤ fuel) :
    ∃ st, unmoveBuses fuel b ⟨heap₂, moved.writes⟩ = .ok (.success, st) ∧
      Restored regs heap brk st := by
  have hmem : ∀ c ∈ path, c < brk := fun c hc => htree.lt_of_parent (hpath.parent_ne_none hc)
  obtain ⟨⟨bridges₂, children₂, htree₂⟩, hold, hnew⟩ :=
    hattach.spec (htree.sameButBuses hmoved.same) (htree.inTree_of_path hpath)
  obtain ⟨st, heap₃, hrun, hwritten, hback, hpciIo⟩ :=
    hmoved.unmoveBuses hold htree hpath hio htree₂ hfuel
  have hplace := hmoved.backInPlace hold hrest hpath hback hpciIo
  refine ⟨st, hrun, hplace.busNumber, hplace.pciIo, hplace.bridgeBus, fun a r => ?_,
    fun a hparent => ?_, hwritten.addressed⟩
  · by_cases ha : a ∈ path
    · have hregister := ((hrest a (hpath.parent_ne_none ha)).bridge (hpath.pciType1_of_mem ha)
        (hpath.isSegment_of_mem ha) r).2
      rw [hwritten.inStep a ha r, hplace.bridgeBus a (hmem a ha), hregister]
    · exact (hwritten.others a ha r).trans (hmoved.others a ha r)
  · rw [hback.same.parent] at hparent
    rcases Nat.lt_or_ge a brk with ha | ha
    · rw [hmoved.parent_old hold ha] at hparent
      exact hmoved.atRest_old hold hback hplace ha (hrest a hparent)
    · have hout : a ∉ path := fun hin => absurd (hmem a hin) (not_lt.mpr ha)
      have hown : (st.heap a).pciIo = (heap₂ a).pciIo := by
        rw [hpciIo, if_neg hout]
      exact hback.atRest_new hout hown (hnew a ha hparent)

/-- On a tree at rest, for a bridge below a root bridge: if `MoveBuses` succeeds,
then, whatever functions at rest are attached to the bridge in between,
`UnmoveBuses` puts the tree back at rest. -/
theorem unmoveBuses_restores (htree : TreeLinks heap bridges children brk)
    (hrest : ∀ a, (heap a).parent ≠ none → (heap a).AtRest (regs a))
    (hpath : BridgePath heap path b)
    (hio : ∀ c ∈ path, ∃ io, (heap c).pciRootBridgeIo = some io) :
    ∃ fuel₁, ∀ fuel ≥ fuel₁, ∃ status moved, moveBuses fuel b ⟨heap, []⟩ = .ok (status, moved) ∧
      (status = .success → ∀ heap₂ brk₂, Attaches regs b moved.heap brk heap₂ brk₂ →
        ∃ fuel₂, ∀ fuel ≥ fuel₂, ∃ st,
          unmoveBuses fuel b ⟨heap₂, moved.writes⟩ = .ok (.success, st) ∧
            Restored regs heap brk st) := by
  refine ⟨brk, fun fuel hfuel => ?_⟩
  obtain ⟨status, moved, hrun, hmoved⟩ := moveBuses_moved htree hrest hpath hio hfuel
  refine ⟨status, moved, hrun, fun hstatus heap₂ brk₂ hattach => ⟨brk₂, fun fuel hfuel => ?_⟩⟩
  exact unmoveBuses_restored htree hrest hpath hio (hmoved hstatus) hattach hfuel

end Restore

/-- A root bridge with ten unused buses and one bridge below it, at rest. -/
def oneBridge : Heap
  | 0 =>
      { pciType1 := true, chain := some 1, lastBridge := 2, nextPciDeviceID := 3
        firstChild := some 1, lastChild := some 1 }
  | 1 =>
      { parent := some hostBridge, isSegment := true, pciType1 := true, pciDeviceID := 1
        chain := some 2, firstChild := some 2, lastChild := some 2
        bigUnusedStart := 2, bigUnusedEnd := 11 }
  | 2 =>
      { parent := some 1, pciType1 := true, pciDeviceID := 2
        pciRootBridgeIo := some ⟨7, 0⟩
        pci := { headerType := 1, secondaryBus := 1, subordinateBus := 1 }
        saveSecondaryBus := 1, saveSubordinateBus := 1 }
  | _ => {}

/-- The child lists of `oneBridge`. -/
def oneBridgeChildren : Addr → List Addr
  | 0 => [1]
  | 1 => [2]
  | _ => []

theorem treeLinks_oneBridge : TreeLinks oneBridge [1, 2] oneBridgeChildren 3 := by
  refine .of_cells ⟨⟨rfl, rfl, rfl, rfl⟩, rfl⟩ (by decide) ?_ (by decide) (by decide +kernel)
  rintro (_ | _ | _ | a) ha
  all_goals first | exact ⟨rfl, rfl⟩ | exact absurd ha (by decide)

/-- A root bridge with ten unused buses, a bridge below it and one behind that, at rest.  The
inner bridge has no bus number. -/
def nestedBridges : Heap
  | 0 =>
      { pciType1 := true, chain := some 1, lastBridge := 3, nextPciDeviceID := 4
        firstChild := some 1, lastChild := some 1 }
  | 1 =>
      { parent := some hostBridge, isSegment := true, pciType1 := true, pciDeviceID := 1
        chain := some 2, firstChild := some 2, lastChild := some 2
        bigUnusedStart := 2, bigUnusedEnd := 11 }
  | 2 =>
      { parent := some 1, pciType1 := true, pciDeviceID := 2
        chain := some 3, firstChild := some 3, lastChild := some 3
        pciRootBridgeIo := some ⟨7, 0⟩
        pci := { headerType := 1, secondaryBus := 1, subordinateBus := 1 }
        saveSecondaryBus := 1, saveSubordinateBus := 1 }
  | 3 =>
      { parent := some 2, pciType1 := true, pciDeviceID := 3, pciIo := some 20, savePciIo := some 20
        pciRootBridgeIo := some ⟨7, 0⟩, busNumber := 1, saveBusNumber := 1
        pci := { headerType := 1 } }
  | _ => {}

/-- The child lists of two bridges behind each other. -/
def nestedChildren : Addr → List Addr
  | 0 => [1]
  | 1 => [2]
  | 2 => [3]
  | _ => []

/-- The registers of `nestedBridges` hold what the records say. -/
def nestedBridgesRegs (a : Addr) (r : BusRegister) : UInt8 := (nestedBridges a).bridgeBus r

theorem treeLinks_nestedBridges : TreeLinks nestedBridges [1, 2, 3] nestedChildren 4 := by
  refine .of_cells ⟨⟨rfl, rfl, rfl, rfl, rfl⟩, rfl⟩ (by decide) ?_ (by decide) (by decide +kernel)
  rintro (_ | _ | _ | _ | a) ha
  all_goals first | exact ⟨rfl, rfl⟩ | exact absurd ha (by decide)

theorem bridgePath_nestedBridges : BridgePath nestedBridges [3, 2] 3 :=
  ⟨rfl, rfl, rfl, 2, rfl, rfl, rfl, rfl, 1, rfl, rfl, by simp [nestedBridges]⟩

theorem atRest_nestedBridges {a : Addr} (ha : (nestedBridges a).parent ≠ none) :
    (nestedBridges a).AtRest (nestedBridgesRegs a) := by
  obtain _ | _ | _ | _ | a := a
  · exact absurd rfl ha
  · exact ⟨rfl, rfl, fun _ hsegment => by cases hsegment⟩
  · refine ⟨rfl, rfl, fun _ _ r => ⟨?_, rfl⟩⟩
    cases r <;> rfl
  · refine ⟨rfl, rfl, fun _ _ r => ⟨?_, rfl⟩⟩
    cases r <;> rfl
  · exact absurd rfl ha

theorem pciRootBridgeIo_nestedBridges {c : Addr} (hc : c ∈ [3, 2]) :
    ∃ io, (nestedBridges c).pciRootBridgeIo = some io := by
  rcases List.mem_pair.mp hc with rfl | rfl <;> exact ⟨⟨7, 0⟩, rfl⟩

/-- The inner bridge is moved, gets a function, and is moved back. -/
theorem unmoveBuses_restores_nestedBridges :
    ∃ fuel₁, ∀ fuel ≥ fuel₁, ∃ moved heap₂,
      moveBuses fuel 3 ⟨nestedBridges, []⟩ = .ok (.success, moved) ∧
        attach moved.heap 3 4 { pciDeviceID := 4, busNumber := 3, saveBusNumber := 3 } = .ok heap₂ ∧
        ∃ fuel₂, ∀ fuel ≥ fuel₂, ∃ st,
          unmoveBuses fuel 3 ⟨heap₂, moved.writes⟩ = .ok (.success, st) ∧
            Restored nestedBridgesRegs nestedBridges 4 st := by
  obtain ⟨fuel₁, hmove⟩ := unmoveBuses_restores treeLinks_nestedBridges
    (fun a ha => atRest_nestedBridges ha) bridgePath_nestedBridges fun c hc =>
      pciRootBridgeIo_nestedBridges hc
  refine ⟨max fuel₁ 4, fun fuel hfuel => ?_⟩
  obtain ⟨status, moved, hrun, hback⟩ := hmove fuel (le_trans (le_max_left _ _) hfuel)
  obtain ⟨moved₄, heap₂, hrun₄, hid, hattach⟩ : ∃ moved₄ heap₂,
      moveBuses 4 3 ⟨nestedBridges, []⟩ = .ok (.success, moved₄) ∧
        (moved₄.heap hostBridge).nextPciDeviceID = 4 ∧
        attach moved₄.heap 3 4 { pciDeviceID := 4, busNumber := 3, saveBusNumber := 3 } =
          .ok heap₂ := ⟨_, _, rfl, rfl, rfl⟩
  have hsame := moveBuses_extendedBy (le_trans (le_max_right _ _) hfuel) 3 ⟨nestedBridges, []⟩ _ hrun₄
  obtain ⟨rfl, rfl⟩ := Prod.mk.inj (Except.ok.inj (hrun.symm.trans hsame))
  refine ⟨moved, heap₂, hrun, hattach, hback rfl heap₂ 5 ?_⟩
  exact .function le_rfl ⟨rfl, rfl, rfl, rfl, rfl⟩ hid.symm rfl
    ⟨rfl, rfl, fun htype => by cases htype⟩ hattach (.done heap₂ 5)

end PciMisc
end EfiApps
