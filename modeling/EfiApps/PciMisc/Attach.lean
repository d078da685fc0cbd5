import EfiApps.PciMisc.BridgeTree

/-!
# Attaching a hidden function

`SearchForHiddenDevices` appends a function it found to the list of bridges, if
it is a bridge, and to the child list of the bridge it was found behind.
`TreeLinks` is the invariant of all those lists and of the device numbering;
attaching a new record keeps it.
-/

namespace EfiApps
namespace PciMisc

/-- The record `d`, allocated at `c`, becomes a child of the bridge `b`: the
stores that follow a successful `FillInPciIoDevice`. -/
def attach (heap : Heap) (b c : Addr) (d : PciIoDevice) : Run Heap := do
  let heap := Function.update heap c d
  let heap := if d.pciType1 then linkBridge heap c else heap
  let heap := heap.modify c (.setParent (some b))
  let heap ← match (heap b).firstChild with
    | none => .ok (heap.modify b (.setFirstChild (some c)))
    | some _ => do
        let last ← Run.deref (heap b).lastChild
        .ok (heap.modify last (.setNextSibling (some c)))
  let heap := heap.modify b (.setLastChild (some c))
  .ok (heap.modify hostBridge
    (.setNextPciDeviceID ((heap hostBridge).nextPciDeviceID + 1)))

/-- The stores of `attach`, in terms of those of the bridge tree. -/
def attached (heap : Heap) (b c : Addr) (d : PciIoDevice) : Heap :=
  let heap := Function.update heap c d
  let heap := if d.pciType1 then linkBridge heap c else heap
  let heap := adoptChild heap b c
  heap.modify hostBridge (.setNextPciDeviceID ((heap hostBridge).nextPciDeviceID + 1))

/-- A bridge has a first child exactly if it has a last child. -/
def EndsAgree (heap : Heap) (b : Addr) : Prop :=
  (heap b).firstChild = none ↔ (heap b).lastChild = none

theorem ChildLists.endsAgree {heap : Heap} {children : Addr → List Addr}
    (h : ChildLists heap children) (b : Addr) : EndsAgree heap b := by
  rw [EndsAgree, h.firstChild, h.last]
  simp

/-- The two ways of appending to a child list are the same where the ends agree. -/
theorem attach_eq {heap : Heap} {b c : Addr} (d : PciIoDevice) (hbc : b ≠ c)
    (hends : EndsAgree heap b) : attach heap b c d = .ok (attached heap b c d) := by
  have hfirst : ((if d.pciType1 then linkBridge (Function.update heap c d) c
      else Function.update heap c d) b).firstChild = (heap b).firstChild := by
    split
    · rw [linkBridge_field PciIoDevice.firstChild _ _ _ (fun _ _ => rfl) (fun _ _ => rfl),
        Function.update_of_ne hbc]
    · rw [Function.update_of_ne hbc]
  have hlast : ((if d.pciType1 then linkBridge (Function.update heap c d) c
      else Function.update heap c d) b).lastChild = (heap b).lastChild := by
    split
    · rw [linkBridge_field PciIoDevice.lastChild _ _ _ (fun _ _ => rfl) (fun _ _ => rfl),
        Function.update_of_ne hbc]
    · rw [Function.update_of_ne hbc]
  unfold attach attached
  dsimp only
  generalize (if d.pciType1 then linkBridge (Function.update heap c d) c
    else Function.update heap c d) = heap₁ at hfirst hlast ⊢
  have hfirst₁ : (heap₁.modify c (.setParent (some b)) b).firstChild = (heap b).firstChild := by
    rw [Heap.modify_of_ne _ _ hbc, hfirst]
  have hlast₁ : (heap₁.modify c (.setParent (some b)) b).lastChild = (heap b).lastChild := by
    rw [Heap.modify_of_ne _ _ hbc, hlast]
  cases hf : (heap b).firstChild with
  | none =>
      have hl : (heap b).lastChild = none := hends.mp hf
      simp only [hfirst₁, hf, Run.ok_bind, adoptChild, Option.isNone_none, if_true,
        Heap.modify_self, PciIoDevice.lastChild_setFirstChild, hlast₁, hl]
  | some f =>
      obtain ⟨l, hl⟩ : ∃ l, (heap b).lastChild = some l := by
        rw [← Option.isSome_iff_exists, Option.isSome_iff_ne_none]
        intro hl
        rw [hends.mpr hl] at hf
        cases hf
      simp only [hfirst₁, hf, Run.ok_bind, Run.deref_some, adoptChild, Option.isNone_some,
        Bool.false_eq_true, if_false, hlast₁, hl]

/-! ## What attaching leaves alone -/

section attached

variable (heap : Heap) (b c : Addr) (d : PciIoDevice)

/-- Nothing but links change once the record is in place. -/
theorem sameRegisters_attached :
    SameRegisters (Function.update heap c d) (attached heap b c d) := by
  have hlink : SameRegisters (Function.update heap c d)
      (if d.pciType1 then linkBridge (Function.update heap c d) c
        else Function.update heap c d) := by
    split
    · exact sameRegisters_linkBridge _ _
    · exact .refl _
  exact (hlink.trans (sameRegisters_adoptChild _ b c)).modify _ (by simp)

/-- The parent of a record after another one has been attached. -/
theorem attached_parent (a : Addr) :
    (attached heap b c d a).parent = if a = c then some b else (heap a).parent := by
  unfold attached
  rw [Heap.modify_field PciIoDevice.parent _ _ _ (by simp), adoptChild_parent]
  split
  · rfl
  · rename_i hac
    split
    · rw [linkBridge_field PciIoDevice.parent _ _ _ (fun _ _ => rfl) (fun _ _ => rfl),
        Function.update_of_ne hac]
    · rw [Function.update_of_ne hac]

theorem attached_nextPciDeviceID (hc : hostBridge ≠ c) :
    (attached heap b c d hostBridge).nextPciDeviceID = (heap hostBridge).nextPciDeviceID + 1 := by
  unfold attached
  rw [Heap.modify_self]
  refine congrArg (· + 1) ?_
  rw [adoptChild_nextPciDeviceID]
  split
  · rw [linkBridge_field PciIoDevice.nextPciDeviceID _ _ _ (fun _ _ => rfl) (fun _ _ => rfl),
      Function.update_of_ne hc]
  · rw [Function.update_of_ne hc]

end attached

/-! ## The invariant of the lists -/

/-- The lists are not affected by a record that is in none of them. -/
theorem ChildLists.update {heap : Heap} {children : Addr → List Addr}
    (h : ChildLists heap children) {c : Addr} {d : PciIoDevice} (hc : ∀ q, c ∉ children q)
    (hnil : children c = []) (hd : d.Unlinked) :
    ChildLists (Function.update heap c d) children := by
  refine ⟨fun q => ?_, fun q => ?_, fun q a ha => ?_⟩
  · by_cases hq : q = c
    · subst hq
      rw [hnil, Function.update_self, hd.firstChild]
      rfl
    · rw [Function.update_of_ne hq]
      refine (h.linked q).congr fun a ha => ?_
      rw [Function.update_of_ne fun hac : a = c => hc q (hac ▸ ha)]
  · by_cases hq : q = c
    · subst hq
      rw [hnil, Function.update_self, hd.lastChild]
      rfl
    · rw [Function.update_of_ne hq, h.last]
  · rw [Function.update_of_ne fun hac : a = c => hc q (hac ▸ ha), h.owner q a ha]

theorem BridgeChain.update {heap : Heap} {bridges : List Addr} (h : BridgeChain heap bridges)
    {c : Addr} {d : PciIoDevice} (hc : c ∉ hostBridge :: bridges) :
    BridgeChain (Function.update heap c d) bridges where
  linked := h.linked.congr fun a ha => by
    rw [Function.update_of_ne fun hac : a = c => hc (hac ▸ ha)]
  last := by
    rw [Function.update_of_ne fun hhost : hostBridge = c => hc (hhost ▸ List.mem_cons_self)]
    exact h.last

/-- A change that keeps `Chain` and `LastBridge` keeps the list of bridges. -/
theorem BridgeChain.congr {heap heap' : Heap} {bridges : List Addr} (h : BridgeChain heap bridges)
    (hchain : ∀ a, (heap' a).chain = (heap a).chain)
    (hlast : (heap' hostBridge).lastBridge = (heap hostBridge).lastBridge) :
    BridgeChain heap' bridges :=
  ⟨h.linked.congr fun a _ => hchain a, hlast ▸ h.last⟩

/-- A change that keeps the tree links keeps the child lists. -/
theorem ChildLists.congr {heap heap' : Heap} {children : Addr → List Addr}
    (h : ChildLists heap children) (hparent : ∀ a, (heap' a).parent = (heap a).parent)
    (hfirst : ∀ a, (heap' a).firstChild = (heap a).firstChild)
    (hlast : ∀ a, (heap' a).lastChild = (heap a).lastChild)
    (hnext : ∀ a, (heap' a).nextSibling = (heap a).nextSibling) :
    ChildLists heap' children where
  linked p := by
    rw [hfirst]
    exact (h.linked p).congr fun a _ => hnext a
  last p := (hlast p).trans (h.last p)
  owner p b hb := (hparent b).trans (h.owner p b hb)

/-- A bridge that is attached is the last one of the list. -/
theorem BridgeChain.attached {heap : Heap} {bridges : List Addr} (h : BridgeChain heap bridges)
    {b c : Addr} {d : PciIoDevice} (hc : c ∉ hostBridge :: bridges) (hd : d.Unlinked) :
    BridgeChain (attached heap b c d) (if d.pciType1 then bridges ++ [c] else bridges) := by
  have hupdate := h.update (d := d) hc
  unfold PciMisc.attached
  refine BridgeChain.congr ?_ (Heap.modify_field PciIoDevice.chain _ _ · (fun _ => rfl))
    (Heap.modify_field PciIoDevice.lastBridge _ _ _ fun _ => rfl)
  refine BridgeChain.adoptChild ?_ b c
  split
  · exact hupdate.linkBridge hc (by rw [Function.update_self]; exact hd.chain)
  · exact hupdate

/-- A record that is attached is the last child of its bridge. -/
theorem ChildLists.attached {heap : Heap} {children : Addr → List Addr}
    (h : ChildLists heap children) {b c : Addr} {d : PciIoDevice} (hc : ∀ q, c ∉ children q)
    (hnil : children c = []) (hd : d.Unlinked) :
    ChildLists (attached heap b c d) (Function.update children b (children b ++ [c])) := by
  have hupdate := h.update (d := d) hc hnil hd
  unfold PciMisc.attached
  refine ChildLists.congr ?_ (Heap.modify_field PciIoDevice.parent _ _ · (fun _ => rfl))
    (Heap.modify_field PciIoDevice.firstChild _ _ · (fun _ => rfl))
    (Heap.modify_field PciIoDevice.lastChild _ _ · (fun _ => rfl))
    (Heap.modify_field PciIoDevice.nextSibling _ _ · (fun _ => rfl))
  split
  · refine ChildLists.adoptChild (hupdate.congr ?_ ?_ ?_ ?_) hc ?_
    · exact (linkBridge_field PciIoDevice.parent _ _ · (fun _ _ => rfl) (fun _ _ => rfl))
    · exact (linkBridge_field PciIoDevice.firstChild _ _ · (fun _ _ => rfl) (fun _ _ => rfl))
    · exact (linkBridge_field PciIoDevice.lastChild _ _ · (fun _ _ => rfl) (fun _ _ => rfl))
    · exact (linkBridge_field PciIoDevice.nextSibling _ _ · (fun _ _ => rfl) (fun _ _ => rfl))
    · rw [linkBridge_field PciIoDevice.nextSibling _ _ _ (fun _ _ => rfl) (fun _ _ => rfl),
        Function.update_self]
      exact hd.nextSibling
  · exact hupdate.adoptChild hc (by rw [Function.update_self]; exact hd.nextSibling)

/-- A record is the host bridge or in a child list. -/
def InTree (children : Addr → List Addr) (a : Addr) : Prop :=
  a = hostBridge ∨ ∃ p, a ∈ children p

/-- The structural invariant: the list of bridges holds every bridge of the tree
once, every attached record is in the child list of its parent, the device
numbers differ and are below `NextPciDeviceID`, and addresses from `brk` on are
unused. -/
structure TreeLinks (heap : Heap) (bridges : List Addr) (children : Addr → List Addr)
    (brk : Addr) : Prop where
  chain : BridgeChain heap bridges
  lists : ChildLists heap children
  parent : ∀ a p, (heap a).parent = some p → a ∈ children p
  bridge : ∀ a, a ∈ bridges ↔ (∃ p, a ∈ children p) ∧ (heap a).pciType1 = true
  host : ∀ p, hostBridge ∉ children p
  idLt : ∀ a, InTree children a → (heap a).pciDeviceID < (heap hostBridge).nextPciDeviceID
  idInj : ∀ a b, InTree children a → InTree children b →
    (heap a).pciDeviceID = (heap b).pciDeviceID → a = b
  used : ∀ a, InTree children a → a < brk
  unused : ∀ a, brk ≤ a → children a = []

namespace TreeLinks

variable {heap heap' : Heap} {bridges : List Addr} {children : Addr → List Addr} {brk : Addr}

theorem not_mem (h : TreeLinks heap bridges children brk) {c : Addr} (hc : brk ≤ c) (q : Addr) :
    c ∉ children q :=
  fun hmem => absurd (h.used c (.inr ⟨q, hmem⟩)) (not_lt.mpr hc)

theorem hostBridge_lt (h : TreeLinks heap bridges children brk) : hostBridge < brk :=
  h.used hostBridge (.inl rfl)

/-- A bridge of the list is a record of the tree. -/
theorem inTree_of_mem_bridges (h : TreeLinks heap bridges children brk) {b : Addr}
    (hb : b ∈ bridges) : InTree children b :=
  .inr ((h.bridge b).mp hb).1

theorem lt_of_mem_bridges (h : TreeLinks heap bridges children brk) {b : Addr}
    (hb : b ∈ bridges) : b < brk :=
  h.used b (h.inTree_of_mem_bridges hb)

/-- More memory in use. -/
theorem grow (h : TreeLinks heap bridges children brk) {brk' : Addr} (hbrk : brk ≤ brk') :
    TreeLinks heap bridges children brk' :=
  { h with
    used := fun a ha => lt_of_lt_of_le (h.used a ha) hbrk
    unused := fun a ha => h.unused a (hbrk.trans ha) }

/-- A change of fields that no list goes through. -/
theorem congr (h : TreeLinks heap bridges children brk)
    (hchain : ∀ a, (heap' a).chain = (heap a).chain)
    (hlastBridge : (heap' hostBridge).lastBridge = (heap hostBridge).lastBridge)
    (hparent : ∀ a, (heap' a).parent = (heap a).parent)
    (hfirst : ∀ a, (heap' a).firstChild = (heap a).firstChild)
    (hlast : ∀ a, (heap' a).lastChild = (heap a).lastChild)
    (hnext : ∀ a, (heap' a).nextSibling = (heap a).nextSibling)
    (htype : ∀ a, (heap' a).pciType1 = (heap a).pciType1)
    (hid : ∀ a, (heap' a).pciDeviceID = (heap a).pciDeviceID)
    (hnextID : (heap' hostBridge).nextPciDeviceID = (heap hostBridge).nextPciDeviceID) :
    TreeLinks heap' bridges children brk where
  chain := h.chain.congr hchain hlastBridge
  lists := h.lists.congr hparent hfirst hlast hnext
  parent a p hp := h.parent a p ((hparent a).symm.trans hp)
  bridge a := by rw [htype]; exact h.bridge a
  host := h.host
  idLt a ha := by rw [hid, hnextID]; exact h.idLt a ha
  idInj a b ha hb hab := h.idInj a b ha hb (by rwa [hid, hid] at hab)
  used := h.used
  unused := h.unused

/-- The lists after `b` got the new child `brk`. -/
theorem mem_update_children {b a : Addr} :
    (∃ p, a ∈ Function.update children b (children b ++ [brk]) p) ↔
      (∃ p, a ∈ children p) ∨ a = brk := by
  constructor
  · rintro ⟨p, hp⟩
    by_cases hpb : p = b
    · subst hpb
      rw [Function.update_self] at hp
      rcases List.mem_append.mp hp with hold | hnew
      · exact .inl ⟨p, hold⟩
      · exact .inr (by simpa using hnew)
    · rw [Function.update_of_ne hpb] at hp
      exact .inl ⟨p, hp⟩
  · rintro (⟨p, hp⟩ | rfl)
    · by_cases hpb : p = b
      · subst hpb
        exact ⟨p, by simp [hp]⟩
      · exact ⟨p, by rwa [Function.update_of_ne hpb]⟩
    · exact ⟨b, by simp⟩

theorem inTree_update_iff {b a : Addr} :
    InTree (Function.update children b (children b ++ [brk])) a ↔
      InTree children a ∨ a = brk := by
  rw [InTree, InTree, mem_update_children]
  tauto

/-- Attaching a new record, numbered with `NextPciDeviceID`, keeps the invariant. -/
theorem attached (h : TreeLinks heap bridges children brk) {b : Addr} (hb : InTree children b)
    {d : PciIoDevice} (hd : d.Unlinked)
    (hid : d.pciDeviceID = (heap hostBridge).nextPciDeviceID) :
    TreeLinks (attached heap b brk d) (if d.pciType1 then bridges ++ [brk] else bridges)
      (Function.update children b (children b ++ [brk])) (brk + 1) := by
  have hfree : ∀ q, brk ∉ children q := h.not_mem le_rfl
  have hbbrk : b ≠ brk := ne_of_lt (h.used b hb)
  have hhost : hostBridge ≠ brk := ne_of_lt h.hostBridge_lt
  have hnotBridge : brk ∉ hostBridge :: bridges := by
    intro hmem
    rcases List.mem_cons.mp hmem with heq | hmem
    · exact hhost heq.symm
    · exact absurd (h.used brk (h.inTree_of_mem_bridges hmem)) (lt_irrefl _)
  have hregisters := sameRegisters_attached heap b brk d
  have hnew : ∀ {β : Type} (field : PciIoDevice → β), field (Function.update heap brk d brk) =
      field d := fun field => by rw [Function.update_self]
  have hold : ∀ {a}, InTree children a → Function.update heap brk d a = heap a := fun {a} ha =>
    Function.update_of_ne (ne_of_lt (h.used a ha)) _ _
  have hnext : (PciMisc.attached heap b brk d hostBridge).nextPciDeviceID =
      (heap hostBridge).nextPciDeviceID + 1 := attached_nextPciDeviceID heap b brk d hhost
  constructor
  · exact h.chain.attached hnotBridge hd
  · exact h.lists.attached hfree (h.unused brk le_rfl) hd
  · intro a p hp
    rw [attached_parent] at hp
    split at hp
    · rename_i ha
      obtain rfl := Option.some.inj hp
      simp [ha]
    · have hmem := h.parent a p hp
      by_cases hpb : p = b
      · subst hpb
        simp [hmem]
      · rwa [Function.update_of_ne hpb]
  · intro a
    rw [hregisters.pciType1, mem_update_children]
    by_cases ha : a = brk
    · subst ha
      rw [hnew PciIoDevice.pciType1]
      have hnot : a ∉ bridges := fun hmem => hnotBridge (List.mem_cons_of_mem _ hmem)
      cases d.pciType1 <;> simp [hnot]
    · rw [Function.update_of_ne ha]
      have hiff := h.bridge a
      split <;> simp [ha, hiff]
  · intro p hmem
    rcases mem_update_children.mp ⟨p, hmem⟩ with ⟨q, hq⟩ | heq
    · exact h.host q hq
    · exact hhost heq
  · intro a ha
    rw [hregisters.pciDeviceID, hnext]
    rcases inTree_update_iff.mp ha with ha | rfl
    · rw [hold ha]
      exact Nat.lt_succ_of_lt (h.idLt a ha)
    · rw [hnew PciIoDevice.pciDeviceID, hid]
      exact Nat.lt_succ_self _
  · intro a a' ha ha' hab
    rw [hregisters.pciDeviceID, hregisters.pciDeviceID] at hab
    -- The number of the new record is not among those given out before.
    rcases inTree_update_iff.mp ha with hin | hbrk <;>
      rcases inTree_update_iff.mp ha' with hin' | hbrk'
    · rw [hold hin, hold hin'] at hab
      exact h.idInj a a' hin hin' hab
    · rw [hold hin, hbrk', hnew PciIoDevice.pciDeviceID, hid] at hab
      exact absurd hab (ne_of_lt (h.idLt a hin))
    · rw [hold hin', hbrk, hnew PciIoDevice.pciDeviceID, hid] at hab
      exact absurd hab.symm (ne_of_lt (h.idLt a' hin'))
    · rw [hbrk, hbrk']
  · intro a ha
    rcases inTree_update_iff.mp ha with ha | rfl
    · exact Nat.lt_succ_of_lt (h.used a ha)
    · exact Nat.lt_succ_self _
  · intro a ha
    rw [Function.update_of_ne fun hab : a = b =>
      absurd (h.used b hb) (not_lt.mpr (hab ▸ Nat.le_of_succ_le ha))]
    exact h.unused a (Nat.le_of_succ_le ha)

end TreeLinks

/-! ## Trees given record by record -/

section cells

variable {heap : Heap} {bridges : List Addr} {children : Addr → List Addr} {brk : Addr}

/-- What `TreeLinks` asks of the record at `a`, for heaps whose records are all below `brk`. -/
structure CellInPlace (heap : Heap) (bridges : List Addr) (children : Addr → List Addr)
    (brk a : Addr) : Prop where
  linked : Linked (fun a => (heap a).nextSibling) (heap a).firstChild (children a)
  last : (heap a).lastChild = (children a).getLast?
  owner : ∀ b ∈ children a, (heap b).parent = some a ∧ b < brk ∧ b ≠ hostBridge
  parent : ∀ p ∈ (heap a).parent, a ∈ children p
  bridge : a ∈ bridges ↔ (heap a).parent ≠ none ∧ (heap a).pciType1 = true
  idLt : (heap a).pciDeviceID < (heap hostBridge).nextPciDeviceID
  idInj : ∀ b < brk, (heap b).pciDeviceID = (heap a).pciDeviceID → b = a

instance (heap : Heap) (bridges : List Addr) (children : Addr → List Addr) (brk a : Addr) :
    Decidable (CellInPlace heap bridges children brk a) :=
  decidable_of_iff (_ ∧ _ ∧ _ ∧ _ ∧ _ ∧ _ ∧ _)
    ⟨fun ⟨h₁, h₂, h₃, h₄, h₅, h₆, h₇⟩ => ⟨h₁, h₂, h₃, h₄, h₅, h₆, h₇⟩,
      fun ⟨h₁, h₂, h₃, h₄, h₅, h₆, h₇⟩ => ⟨h₁, h₂, h₃, h₄, h₅, h₆, h₇⟩⟩

/-- A tree whose records are all below `brk` is in order if each of them is. -/
theorem TreeLinks.of_cells (hchain : BridgeChain heap bridges) (hhost : hostBridge < brk)
    (hempty : ∀ a, brk ≤ a → heap a = {} ∧ children a = []) (hbridges : ∀ a ∈ bridges, a < brk)
    (hcells : ∀ a < brk, CellInPlace heap bridges children brk a) :
    TreeLinks heap bridges children brk := by
  have hchild : ∀ p, ∀ b ∈ children p, (heap b).parent = some p ∧ b < brk ∧ b ≠ hostBridge := by
    intro p b hb
    rcases Nat.lt_or_ge p brk with hp | hp
    · exact (hcells p hp).owner b hb
    · rw [(hempty p hp).2] at hb
      cases hb
  have hused : ∀ a, InTree children a → a < brk := by
    rintro a (rfl | ⟨p, hp⟩)
    · exact hhost
    · exact (hchild p a hp).2.1
  have hparent : ∀ a p, (heap a).parent = some p → a ∈ children p := by
    intro a p hp
    rcases Nat.lt_or_ge a brk with ha | ha
    · exact (hcells a ha).parent p hp
    · rw [(hempty a ha).1] at hp
      cases hp
  refine ⟨hchain, ⟨fun p => ?_, fun p => ?_, fun p b hb => (hchild p b hb).1⟩, hparent, fun a => ?_,
    fun p hp => (hchild p _ hp).2.2 rfl, fun a ha => (hcells a (hused a ha)).idLt,
    fun a b ha hb hab => ((hcells b (hused b hb)).idInj a (hused a ha) hab), hused,
    fun a ha => (hempty a ha).2⟩
  · rcases Nat.lt_or_ge p brk with hp | hp
    · exact (hcells p hp).linked
    · rw [(hempty p hp).1, (hempty p hp).2]
      rfl
  · rcases Nat.lt_or_ge p brk with hp | hp
    · exact (hcells p hp).last
    · rw [(hempty p hp).1, (hempty p hp).2]
      rfl
  · have hattached : (heap a).parent ≠ none ↔ ∃ p, a ∈ children p := by
      rw [Option.ne_none_iff_exists']
      exact ⟨fun ⟨p, hp⟩ => ⟨p, hparent a p hp⟩, fun ⟨p, hp⟩ => ⟨p, (hchild p a hp).1⟩⟩
    rw [← hattached]
    rcases Nat.lt_or_ge a brk with ha | ha
    · exact (hcells a ha).bridge
    · refine iff_of_false (fun hmem => absurd (hbridges a hmem) (not_lt.mpr ha)) fun h => ?_
      rw [(hempty a ha).1] at h
      exact h.1 rfl

end cells

end PciMisc
end EfiApps
