import EfiApps.PciMisc.BusPath

/-!
# The register writes of a move

On the path from a root bridge to a bridge, `WriteBuses` gives every bridge its
`New` bus numbers and every child of such a bridge its `NewBusNumber`, whatever
these are.  On the way down a bridge is reached at the secondary bus its parent
was just given; on the way back a bridge is written before its parent is.
-/

namespace EfiApps
namespace PciMisc

/-! ## The register writes -/

/-- The bus number registers after the writes. -/
def registersAfter (regs : Addr → BusRegister → UInt8) (writes : List BusWrite) (a : Addr)
    (r : BusRegister) : UInt8 :=
  writes.foldl (fun bus w => if w.bridge = a ∧ w.register = r then w.value else bus) (regs a r)

/-- Every write to a bridge below the first level goes to the bus number that
the secondary bus register of its parent holds at that moment. -/
def AddressedBehindParent (heap : Heap) (regs : Addr → BusRegister → UInt8)
    (writes : List BusWrite) : Prop :=
  ∀ before w after, writes = before ++ w :: after → ∀ p, (heap w.bridge).parent = some p →
    (heap p).isSegment = false → ∃ io device function,
      w.path = .rootBridgeIo io (registersAfter regs before p .secondary) device function

section Writes

variable {regs : Addr → BusRegister → UInt8} {heap₀ : Heap}

/-- Writes to other bridges do not change a register. -/
theorem registersAfter_append_of_ne {writes more : List BusWrite} {a : Addr}
    (hmore : ∀ w ∈ more, w.bridge ≠ a) (r : BusRegister) :
    registersAfter regs (writes ++ more) a r = registersAfter regs writes a r := by
  rw [registersAfter, List.foldl_append, ← registersAfter]
  generalize registersAfter regs writes a r = bus
  induction more with
  | nil => rfl
  | cons w more ih =>
      rw [List.foldl_cons, if_neg fun hw => hmore w (by simp) hw.1]
      exact ih fun w' hw' => hmore w' (by simp [hw'])

/-- More writes to one bridge, all to the secondary bus of its parent. -/
theorem AddressedBehindParent.append {writes more : List BusWrite} {b : Addr}
    (h : AddressedBehindParent heap₀ regs writes) (hmore : ∀ w ∈ more, w.bridge = b)
    (hpath : ∀ p, (heap₀ b).parent = some p → (heap₀ p).isSegment = false → p ≠ b ∧
      ∀ w ∈ more, ∃ io device function,
        w.path = .rootBridgeIo io (registersAfter regs writes p .secondary) device function) :
    AddressedBehindParent heap₀ regs (writes ++ more) := by
  intro before w after hsplit p hp hroot
  rcases List.append_eq_append_iff.mp hsplit with ⟨l, hbefore, hmore'⟩ | ⟨l, hwrites, hafter⟩
  · -- The write is one of the new ones.
    have hw : w ∈ more := by simp [hmore']
    rw [hmore w hw] at hp
    obtain ⟨hpb, hpath⟩ := hpath p hp hroot
    rw [hbefore, registersAfter_append_of_ne]
    · exact hpath w hw
    · intro w' hw'
      rw [hmore w' (by simp [hmore', hw'])]
      exact hpb.symm
  · cases l with
    | nil =>
        have hw : w ∈ more := by
          simp only [List.nil_append] at hafter
          simp [← hafter]
        rw [hmore w hw] at hp
        obtain ⟨hpb, hpath⟩ := hpath p hp hroot
        obtain rfl : writes = before := by simpa using hwrites
        exact hpath w hw
    | cons w' l =>
        simp only [List.cons_append, List.cons.injEq] at hafter
        obtain ⟨rfl, -⟩ := hafter
        exact h before w l hwrites p hp hroot

/-- The registers of a bridge hold what its record says. -/
def InStep (regs : Addr → BusRegister → UInt8) (st : BusState) (b : Addr) : Prop :=
  ∀ r, registersAfter regs st.writes b r = (st.heap b).bridgeBus r

@[simp] theorem bridgeBus_setBridgeBus (d : PciIoDevice) (r r' : BusRegister) (bus : UInt8) :
    (d.setBridgeBus r bus).bridgeBus r' = if r' = r then bus else d.bridgeBus r' := by
  cases r <;> cases r' <;> rfl

@[simp] theorem newBus_setBridgeBus (d : PciIoDevice) (r r' : BusRegister) (bus : UInt8) :
    (d.setBridgeBus r bus).newBus r' = d.newBus r' := by
  cases r <;> cases r' <;> rfl

@[simp] theorem configPath_setBridgeBus (d : PciIoDevice) (r : BusRegister) (bus : UInt8) :
    (d.setBridgeBus r bus).configPath = d.configPath := by
  cases r <;> rfl

/-- `BusChange` adds at most writes to its own bridge, through the bridge's path. -/
theorem busChange_writes (regs : Addr → BusRegister → UInt8) {b : Addr} (r : BusRegister)
    {st : BusState} {path : ConfigPath} (hpath : (st.heap b).configPath = some path) :
    ∃ more, (busChange b r st).writes = st.writes ++ more ∧
      (∀ w ∈ more, w.bridge = b ∧ w.path = path) ∧
      (InStep regs st b → InStep regs (busChange b r st) b) := by
  by_cases hchange : (st.heap b).newBus r = (st.heap b).bridgeBus r
  · refine ⟨[], ?_, by simp, fun h r' => ?_⟩
    · simp [busChange, hchange]
    · rw [busChange_heap, Heap.modify_self, bridgeBus_setBridgeBus, hchange]
      simp only [busChange, hchange, ne_eq, not_true_eq_false, if_false]
      split
      · rename_i hr
        rw [h r', hr]
      · exact h r'
  · have hwrites : (busChange b r st).writes =
        st.writes ++ [⟨b, r, path, (st.heap b).newBus r⟩] := by
      simp [busChange, hchange, hpath, BusState.modify]
    refine ⟨_, hwrites, by simp, fun h r' => ?_⟩
    rw [busChange_heap, Heap.modify_self, bridgeBus_setBridgeBus, hwrites, registersAfter,
      List.foldl_append, ← registersAfter, h r']
    simp only [List.foldl_cons, List.foldl_nil, true_and, eq_comm (a := r)]

/-- A bridge with its `New` bus numbers in the registers. -/
def takeNewBuses (d : PciIoDevice) : PciIoDevice :=
  ((d.setBridgeBus .primary (d.newBus .primary)).setBridgeBus .secondary
    (d.newBus .secondary)).setBridgeBus .subordinate (d.newBus .subordinate)

/-- A function that moved to its `NewBusNumber`. -/
def takeNewBusNumber (d : PciIoDevice) : PciIoDevice := d.setBusNumber d.newBusNumber

@[simp] theorem bridgeBus_takeNewBuses (d : PciIoDevice) (r : BusRegister) :
    (takeNewBuses d).bridgeBus r = d.newBus r := by
  cases r <;> rfl

/-- The records after the registers of `b` and the bus numbers of its children
have been changed. -/
def writtenBridge (b : Addr) (heap : Heap) : Heap := fun a =>
  let d := if a = b then takeNewBuses (heap a) else heap a
  if (heap a).parent = some b then takeNewBusNumber d else d

theorem writtenBridge_bridgeBus (b : Addr) (heap : Heap) (a : Addr) (r : BusRegister) :
    (writtenBridge b heap a).bridgeBus r =
      if a = b then (heap a).newBus r else (heap a).bridgeBus r := by
  unfold writtenBridge
  split_ifs <;> cases r <;> rfl

theorem writtenBridge_busNumber (b : Addr) (heap : Heap) (a : Addr) :
    (writtenBridge b heap a).busNumber =
      if (heap a).parent = some b then (heap a).newBusNumber else (heap a).busNumber := by
  unfold writtenBridge
  split_ifs <;> rfl

theorem writtenBridge_pciIo (b : Addr) (heap : Heap) (a : Addr) :
    (writtenBridge b heap a).pciIo = (heap a).pciIo := by
  unfold writtenBridge
  split_ifs <;> rfl

/-- The three calls of `BusChange` give the bridge its `New` bus numbers. -/
theorem busChanges_heap (b : Addr) (st : BusState) :
    (busChange b .subordinate (busChange b .secondary (busChange b .primary st))).heap =
      st.heap.modify b takeNewBuses := by
  simp only [busChange_heap]
  funext a
  by_cases ha : a = b
  · subst ha
    simp [takeNewBuses]
  · simp only [Heap.modify_of_ne _ _ ha]

/-- What they write. -/
theorem busChanges_spec {b : Addr} {st : BusState} {path : ConfigPath}
    (hpath : (st.heap b).configPath = some path) (hstep : InStep regs st b) :
    ∃ more, (busChange b .subordinate (busChange b .secondary (busChange b .primary st))).writes =
        st.writes ++ more ∧ (∀ w ∈ more, w.bridge = b ∧ w.path = path) ∧
      InStep regs (busChange b .subordinate (busChange b .secondary (busChange b .primary st)))
        b := by
  have hkeep : ∀ (r : BusRegister) (st : BusState),
      ((busChange b r st).heap b).configPath = (st.heap b).configPath := by
    intro r st
    rw [busChange_heap, Heap.modify_self, configPath_setBridgeBus]
  obtain ⟨w₁, hw₁, hmore₁, hstep₁⟩ := busChange_writes regs .primary hpath
  obtain ⟨w₂, hw₂, hmore₂, hstep₂⟩ := busChange_writes regs .secondary
    ((hkeep .primary st).trans hpath)
  obtain ⟨w₃, hw₃, hmore₃, hstep₃⟩ := busChange_writes regs .subordinate
    ((hkeep .secondary _).trans ((hkeep .primary st).trans hpath))
  refine ⟨w₁ ++ (w₂ ++ w₃), ?_, ?_, hstep₃ (hstep₂ (hstep₁ hstep))⟩
  · rw [hw₃, hw₂, hw₁]
    simp only [List.append_assoc]
  · intro w hw
    simp only [List.mem_append] at hw
    rcases hw with hw | hw | hw
    · exact hmore₁ w hw
    · exact hmore₂ w hw
    · exact hmore₃ w hw

theorem eraseBuses_takeNewBuses (d : PciIoDevice) :
    (takeNewBuses d).eraseBuses = d.eraseBuses := by
  simp [takeNewBuses]

/-- `WriteBridge` writes what the three calls of `BusChange` do. -/
theorem writeBridge_eq {st : BusState} {bridges : List Addr} {children : Addr → List Addr}
    {brk fuel : Nat} {b : Addr} (htree : TreeLinks st.heap bridges children brk)
    (hfuel : brk ≤ fuel) (hbridge : (st.heap b).pciType1 = true) :
    writeBridge fuel b st = .ok ⟨writtenBridge b st.heap,
      (busChange b .subordinate (busChange b .secondary (busChange b .primary st))).writes⟩ := by
  have hsame : SameButBuses st.heap (st.heap.modify b takeNewBuses) :=
    (SameButBuses.refl _).modify b eraseBuses_takeNewBuses
  have hchildren := forChildren_eq (htree.sameButBuses hsame) b
    (f := fun c => c.setBusNumber c.newBusNumber) (fun _ => rfl) hfuel
  unfold writeBridge
  rw [if_neg (by simp [hbridge])]
  dsimp only
  rw [busChanges_heap, hchildren]
  refine congrArg (fun heap => Except.ok (BusState.mk heap _)) ?_
  funext a
  rw [hsame.parent a, Heap.modify_apply]
  rfl

theorem writeBridge_spec {st : BusState} {bridges : List Addr} {children : Addr → List Addr}
    {brk fuel : Nat} {b : Addr} {io : RootBridgeIo}
    (htree : TreeLinks st.heap bridges children brk) (hfuel : brk ≤ fuel)
    (hbridge : (st.heap b).pciType1 = true) (hpciIo : (st.heap b).pciIo = none)
    (hio : (st.heap b).pciRootBridgeIo = some io) (hstep : InStep regs st b)
    (haddress : ∀ p, (heap₀ b).parent = some p → (heap₀ p).isSegment = false → p ≠ b ∧
      (st.heap b).busNumber = registersAfter regs st.writes p .secondary)
    (hlog : AddressedBehindParent heap₀ regs st.writes) :
    ∃ st', writeBridge fuel b st = .ok st' ∧ st'.heap = writtenBridge b st.heap ∧
      InStep regs st' b ∧
      (∀ a ≠ b, ∀ r, registersAfter regs st'.writes a r = registersAfter regs st.writes a r) ∧
      AddressedBehindParent heap₀ regs st'.writes := by
  have hpath : (st.heap b).configPath = some (.rootBridgeIo io (st.heap b).busNumber
      (st.heap b).deviceNumber (st.heap b).functionNumber) := by
    simp [PciIoDevice.configPath, hpciIo, hio]
  obtain ⟨more, hwrites, hmore, hstep'⟩ := busChanges_spec hpath hstep
  refine ⟨_, writeBridge_eq htree hfuel hbridge, rfl, ?_, ?_, ?_⟩
  · intro r
    have hb := hstep' r
    rw [busChanges_heap, Heap.modify_self, bridgeBus_takeNewBuses] at hb
    dsimp only
    rw [hb, writtenBridge_bridgeBus, if_pos rfl]
  · intro a ha r
    dsimp only
    rw [hwrites, registersAfter_append_of_ne]
    intro w hw
    rw [(hmore w hw).1]
    exact ha.symm
  · dsimp only
    rw [hwrites]
    refine hlog.append (fun w hw => (hmore w hw).1) fun p hp hroot => ?_
    obtain ⟨hpb, hbus⟩ := haddress p hp hroot
    refine ⟨hpb, fun w hw => ⟨io, (st.heap b).deviceNumber, (st.heap b).functionNumber, ?_⟩⟩
    rw [(hmore w hw).2, hbus]

/-! ## The whole path -/

/-- The records after `WriteBuses` on a path: the bridges of the path have their
`New` bus numbers, and the children of these bridges have moved. -/
def rewritten (restore : Bool) (path : List Addr) (heap : Heap) : Heap := fun a =>
  let d := if a ∈ path then
      (takeNewBuses (heap a)).setPciIo (if restore then (heap a).savePciIo else none)
    else heap a
  if ∃ p ∈ path, (heap a).parent = some p then takeNewBusNumber d else d

@[simp] theorem parent_takeNewBuses (d : PciIoDevice) :
    (takeNewBuses d).parent = d.parent := rfl

@[simp] theorem parent_takeNewBusNumber (d : PciIoDevice) :
    (takeNewBusNumber d).parent = d.parent := rfl

@[simp] theorem parent_setPciIo (d : PciIoDevice) (pciIo : Option Nat) :
    (d.setPciIo pciIo).parent = d.parent := rfl

@[simp] theorem savePciIo_takeNewBuses (d : PciIoDevice) :
    (takeNewBuses d).savePciIo = d.savePciIo := rfl

@[simp] theorem savePciIo_takeNewBusNumber (d : PciIoDevice) :
    (takeNewBusNumber d).savePciIo = d.savePciIo := rfl

theorem takeNewBuses_setPciIo (d : PciIoDevice) (pciIo : Option Nat) :
    takeNewBuses (d.setPciIo pciIo) = (takeNewBuses d).setPciIo pciIo := rfl

theorem takeNewBusNumber_setPciIo (d : PciIoDevice) (pciIo : Option Nat) :
    takeNewBusNumber (d.setPciIo pciIo) = (takeNewBusNumber d).setPciIo pciIo := rfl

theorem takeNewBuses_takeNewBusNumber (d : PciIoDevice) :
    takeNewBuses (takeNewBusNumber d) = takeNewBusNumber (takeNewBuses d) := rfl

theorem eraseBuses_takeNewBusNumber (d : PciIoDevice) :
    (takeNewBusNumber d).eraseBuses = d.eraseBuses := rfl

theorem writtenBridge_same (b : Addr) (heap : Heap) : SameButBuses heap (writtenBridge b heap) := by
  intro a
  unfold writtenBridge
  split_ifs <;> simp [eraseBuses_takeNewBuses, eraseBuses_takeNewBusNumber]

theorem rewritten_same (restore : Bool) (path : List Addr) (heap : Heap) :
    SameButBuses heap (rewritten restore path heap) := by
  intro a
  unfold rewritten
  split_ifs <;> simp [eraseBuses_takeNewBuses, eraseBuses_takeNewBusNumber]

theorem rewritten_nil (restore : Bool) (heap : Heap) : rewritten restore [] heap = heap := by
  funext a
  simp [rewritten]

/-- No record is a child both of `b` and of a bridge of the rest of the path. -/
theorem parent_ne_of_kid {heap : Heap} {b a : Addr} {path : List Addr} (hb : b ∉ path)
    (hkid : ∃ p ∈ path, (heap a).parent = some p) : (heap a).parent ≠ some b := by
  intro heq
  obtain ⟨p, hp, hparent⟩ := hkid
  obtain rfl : b = p := Option.some.inj (heq.symm.trans hparent)
  exact hb hp

/-- On the way down the parent comes first. -/
theorem rewritten_false_cons {b : Addr} {path : List Addr} (hb : b ∉ path) (heap : Heap) :
    rewritten false (b :: path) heap =
      writtenBridge b ((rewritten false path heap).modify b (.setPciIo none)) := by
  funext a
  simp only [writtenBridge, Heap.modify_apply, rewritten, List.mem_cons, exists_eq_or_imp]
  by_cases hkid : ∃ p ∈ path, (heap a).parent = some p
  · have hne := parent_ne_of_kid hb hkid
    by_cases hab : a = b
    · subst hab
      simp [hb, hkid, hne, takeNewBuses_setPciIo, takeNewBuses_takeNewBusNumber,
        takeNewBusNumber_setPciIo]
    · by_cases hmem : a ∈ path <;> simp [hab, hkid, hne, hmem]
  · by_cases hab : a = b
    · subst hab
      simp [hb, hkid, takeNewBuses_setPciIo]
    · by_cases hmem : a ∈ path <;> simp [hab, hkid, hmem]

/-- On the way back the parent comes last. -/
theorem rewritten_true_cons {b : Addr} {path : List Addr} (hb : b ∉ path) (heap : Heap) :
    rewritten true (b :: path) heap =
      (rewritten true path (writtenBridge b heap)).modify b fun d => d.setPciIo d.savePciIo := by
  have hparent := (writtenBridge_same b heap).parent
  funext a
  simp only [Heap.modify_apply, rewritten, hparent, List.mem_cons, exists_eq_or_imp]
  by_cases hkid : ∃ p ∈ path, (heap a).parent = some p
  · have hne := parent_ne_of_kid hb hkid
    by_cases hab : a = b
    · subst hab
      simp [writtenBridge, hb, hkid, hne, takeNewBusNumber_setPciIo]
    · by_cases hmem : a ∈ path <;> simp [writtenBridge, hab, hkid, hne, hmem]
  · by_cases hab : a = b
    · subst hab
      by_cases hself : (heap a).parent = some a <;>
        simp [writtenBridge, hb, hkid, hself, takeNewBusNumber_setPciIo]
    · by_cases hchild : (heap a).parent = some b <;> by_cases hmem : a ∈ path <;>
        simp [writtenBridge, hb, hab, hkid, hchild, hmem, takeNewBuses_takeNewBusNumber,
          takeNewBusNumber_setPciIo]

theorem rewritten_bridgeBus (restore : Bool) (path : List Addr) (heap : Heap) (a : Addr)
    (r : BusRegister) :
    (rewritten restore path heap a).bridgeBus r =
      if a ∈ path then (heap a).newBus r else (heap a).bridgeBus r := by
  unfold rewritten
  split_ifs <;> cases r <;> rfl

theorem rewritten_busNumber (restore : Bool) (path : List Addr) (heap : Heap) (a : Addr) :
    (rewritten restore path heap a).busNumber =
      if ∃ p ∈ path, (heap a).parent = some p then (heap a).newBusNumber
      else (heap a).busNumber := by
  unfold rewritten
  split_ifs <;> rfl

theorem rewritten_pciIo (restore : Bool) (path : List Addr) (heap : Heap) (a : Addr) :
    (rewritten restore path heap a).pciIo =
      if a ∈ path then (if restore then (heap a).savePciIo else none) else (heap a).pciIo := by
  unfold rewritten
  split_ifs <;> rfl

/-- What the writes to the bridges of a path rely on: the links are those of
`heap₀`, the bridges can be reached through the root bridge, and their registers
are in step with the records. -/
structure Writable (regs : Addr → BusRegister → UInt8) (heap₀ : Heap) (path : List Addr)
    (st : BusState) : Prop where
  parent : ∀ b ∈ path, (heap₀ b).parent = (st.heap b).parent
  isSegment : ∀ b ∈ path, ∀ p, (st.heap b).parent = some p →
    (heap₀ p).isSegment = (st.heap p).isSegment
  io : ∀ b ∈ path, ∃ io, (st.heap b).pciRootBridgeIo = some io
  inStep : ∀ b ∈ path, InStep regs st b

theorem Writable.tail {b : Addr} {path : List Addr} {st : BusState}
    (h : Writable regs heap₀ (b :: path) st) : Writable regs heap₀ path st where
  parent c hc := h.parent c (List.mem_cons_of_mem _ hc)
  isSegment c hc := h.isSegment c (List.mem_cons_of_mem _ hc)
  io c hc := h.io c (List.mem_cons_of_mem _ hc)
  inStep c hc := h.inStep c (List.mem_cons_of_mem _ hc)

/-- What `WriteBuses` does to the records and registers of a path. -/
structure Written (regs : Addr → BusRegister → UInt8) (heap₀ : Heap) (restore : Bool)
    (path : List Addr) (st st' : BusState) : Prop where
  heap : st'.heap = rewritten restore path st.heap
  inStep : ∀ b ∈ path, InStep regs st' b
  others : ∀ b, b ∉ path → ∀ r,
    registersAfter regs st'.writes b r = registersAfter regs st.writes b r
  addressed : AddressedBehindParent heap₀ regs st'.writes

/-- `WriteBuses` on the way down: every moving child knows the new bus behind
its parent. -/
theorem writeBuses_move {st : BusState} {bridges : List Addr} {children : Addr → List Addr}
    {brk fuel n : Nat} {path : List Addr} {a : Addr}
    (htree : TreeLinks st.heap bridges children brk) (hfuel : brk ≤ fuel) (hn : path.length ≤ n)
    (hpath : BridgePath st.heap path a) (hwritable : Writable regs heap₀ path st)
    (hnew : ∀ p ∈ path, ∀ c, (st.heap c).parent = some p →
      (st.heap c).newBusNumber = (st.heap p).newSecondaryBus)
    (hlog : AddressedBehindParent heap₀ regs st.writes) :
    ∃ st', writeBuses fuel false n a st = .ok st' ∧ Written regs heap₀ false path st st' := by
  induction path generalizing a n with
  | nil =>
      refine ⟨st, ?_, ⟨(rewritten_nil false st.heap).symm, by simp, fun _ _ _ => rfl, hlog⟩⟩
      unfold writeBuses
      rw [if_pos hpath.1]
  | cons b path ih =>
      have hb := (List.nodup_cons.mp hpath.nodup).1
      obtain ⟨rfl, hsegment, hbridge, p, hp, hrest⟩ := hpath
      obtain ⟨n, rfl⟩ : ∃ k, n = k + 1 := ⟨n - 1, by simp at hn; omega⟩
      obtain ⟨st₁, hrun₁, h₁⟩ := ih (by simpa using hn) hrest hwritable.tail
        fun q hq => hnew q (List.mem_cons_of_mem _ hq)
      have hsame₁ : SameButBuses st.heap (st₁.modify a (.setPciIo none)).heap := by
        rw [BusState.modify, h₁.heap]
        exact (rewritten_same false path st.heap).modify a (by simp)
      have hrecord : (st₁.modify a (.setPciIo none)).heap a =
          (rewritten false path st.heap a).setPciIo none := by
        rw [BusState.modify, h₁.heap]
        exact Heap.modify_self _ _ _
      obtain ⟨io, hio⟩ := hwritable.io a List.mem_cons_self
      obtain ⟨st', hrun', hheap', hstep', hothers', hlog'⟩ := writeBridge_spec
        (htree.sameButBuses hsame₁) hfuel ((hsame₁.pciType1 a).trans hbridge)
        (by rw [hrecord]; rfl) ((hsame₁.pciRootBridgeIo a).trans hio)
        (show InStep regs (st₁.modify a (.setPciIo none)) a by
          intro r
          rw [hrecord]
          have hbus := rewritten_bridgeBus false path st.heap a r
          rw [if_neg hb] at hbus
          exact (h₁.others a hb r).trans ((hwritable.inStep a List.mem_cons_self r).trans hbus.symm))
        (by
          intro q hq hroot
          rw [hwritable.parent a List.mem_cons_self, hp] at hq
          obtain rfl := Option.some.inj hq
          rw [hwritable.isSegment a List.mem_cons_self p hp] at hroot
          -- The parent is no root bridge, so it is the next bridge of the path.
          have hmem : p ∈ path := hrest.self_mem hroot
          refine ⟨fun hpa => hb (hpa ▸ hmem), ?_⟩
          have hbus := rewritten_busNumber false path st.heap a
          rw [if_pos ⟨p, hmem, hp⟩] at hbus
          have hregister := h₁.inStep p hmem .secondary
          rw [h₁.heap, rewritten_bridgeBus, if_pos hmem] at hregister
          rw [hrecord]
          exact (hbus.trans (hnew p (List.mem_cons_of_mem _ hmem) a hp)).trans hregister.symm)
        h₁.addressed
      have hheap : st'.heap = rewritten false (a :: path) st.heap := by
        rw [hheap', rewritten_false_cons hb, BusState.modify, h₁.heap]
      refine ⟨st', ?_, hheap, ?_, ?_, hlog'⟩
      · unfold writeBuses
        rw [if_neg (by simp [hsegment])]
        simp only [Bool.false_eq_true, if_false, hp, Run.deref_some, Run.ok_bind, hrun₁]
        exact hrun'
      · intro c hc r
        rcases List.mem_cons.mp hc with rfl | hc
        · exact hstep' r
        · have hca : c ≠ a := fun hca => hb (hca ▸ hc)
          have hregister := h₁.inStep c hc r
          rw [h₁.heap, rewritten_bridgeBus, if_pos hc] at hregister
          rw [hothers' c hca r, hheap, rewritten_bridgeBus, if_pos (List.mem_cons_of_mem _ hc)]
          exact hregister
      · intro c hc r
        have hca : c ≠ a := fun hca => hc (hca ▸ List.mem_cons_self)
        exact (hothers' c hca r).trans (h₁.others c (fun hmem => hc (List.mem_cons_of_mem _ hmem)) r)

/-- `WriteBuses` on the way back: every bridge is at the bus behind its parent,
which is written later. -/
theorem writeBuses_restore {st : BusState} {bridges : List Addr} {children : Addr → List Addr}
    {brk fuel n : Nat} {path : List Addr} {a : Addr}
    (htree : TreeLinks st.heap bridges children brk) (hfuel : brk ≤ fuel) (hn : path.length ≤ n)
    (hpath : BridgePath st.heap path a) (hwritable : Writable regs heap₀ path st)
    (hpciIo : ∀ b ∈ path, (st.heap b).pciIo = none)
    (hbehind : ∀ b ∈ path, ∀ p ∈ path, (st.heap b).parent = some p →
      (st.heap b).busNumber = (st.heap p).bridgeBus .secondary)
    (hlog : AddressedBehindParent heap₀ regs st.writes) :
    ∃ st', writeBuses fuel true n a st = .ok st' ∧ Written regs heap₀ true path st st' := by
  induction path generalizing a n st with
  | nil =>
      refine ⟨st, ?_, ⟨(rewritten_nil true st.heap).symm, by simp, fun _ _ _ => rfl, hlog⟩⟩
      unfold writeBuses
      rw [if_pos hpath.1]
  | cons b path ih =>
      have hb := (List.nodup_cons.mp hpath.nodup).1
      have hchild := fun c hc => hpath.parent_ne (c := c) hc
      obtain ⟨rfl, hsegment, hbridge, p, hp, hrest⟩ := hpath
      obtain ⟨n, rfl⟩ : ∃ k, n = k + 1 := ⟨n - 1, by simp at hn; omega⟩
      obtain ⟨io, hio⟩ := hwritable.io a List.mem_cons_self
      -- The bridge is written first, at the bus behind its parent.
      obtain ⟨st₁, hrun₁, hheap₁, hstep₁, hothers₁, hlog₁⟩ := writeBridge_spec htree hfuel hbridge
        (hpciIo a List.mem_cons_self) hio (hwritable.inStep a List.mem_cons_self)
        (by
          intro q hq hroot
          rw [hwritable.parent a List.mem_cons_self, hp] at hq
          obtain rfl := Option.some.inj hq
          rw [hwritable.isSegment a List.mem_cons_self p hp] at hroot
          have hmem : p ∈ path := hrest.self_mem hroot
          refine ⟨fun hpa => hb (hpa ▸ hmem), ?_⟩
          rw [hwritable.inStep p (List.mem_cons_of_mem _ hmem)]
          exact hbehind a List.mem_cons_self p (List.mem_cons_of_mem _ hmem) hp)
        hlog
      have hsame₁ : SameButBuses st.heap st₁.heap := by
        rw [hheap₁]
        exact writtenBridge_same a st.heap
      have hne : ∀ c ∈ path, c ≠ a := fun c hc hca => hb (hca ▸ hc)
      have hregister : ∀ c ∈ path, ∀ r, (st₁.heap c).bridgeBus r = (st.heap c).bridgeBus r := by
        intro c hc r
        rw [hheap₁, writtenBridge_bridgeBus, if_neg (hne c hc)]
      -- The bridges above it have not changed, so the induction goes on with them.
      have hwritable₁ : Writable regs heap₀ path st₁ := by
        constructor
        · intro c hc
          rw [hsame₁.parent]
          exact hwritable.tail.parent c hc
        · intro c hc q hq
          rw [hsame₁.parent] at hq
          rw [hsame₁.isSegment]
          exact hwritable.tail.isSegment c hc q hq
        · intro c hc
          rw [hsame₁.pciRootBridgeIo]
          exact hwritable.tail.io c hc
        · intro c hc r
          rw [hothers₁ c (hne c hc) r, hregister c hc r]
          exact hwritable.tail.inStep c hc r
      obtain ⟨st₂, hrun₂, h₂⟩ := ih (htree.sameButBuses hsame₁) (by simpa using hn)
        (hrest.sameButBuses hsame₁) hwritable₁
        (by
          intro c hc
          rw [hheap₁, writtenBridge_pciIo]
          exact hpciIo c (List.mem_cons_of_mem _ hc))
        (by
          intro c hc q hq hparent
          rw [hsame₁.parent] at hparent
          rw [hregister q hq, hheap₁, writtenBridge_busNumber, if_neg (hchild c hc)]
          exact hbehind c (List.mem_cons_of_mem _ hc) q (List.mem_cons_of_mem _ hq) hparent)
        hlog₁
      have hheap : (st₂.modify a fun d => d.setPciIo d.savePciIo).heap =
          rewritten true (a :: path) st.heap := by
        rw [BusState.modify, h₂.heap, hheap₁, rewritten_true_cons hb]
      refine ⟨st₂.modify a fun d => d.setPciIo d.savePciIo, ?_, hheap, ?_, ?_, h₂.addressed⟩
      · unfold writeBuses
        rw [if_neg (by simp [hsegment])]
        simp only [if_true, hrun₁, Run.ok_bind, hsame₁.parent, hp, Run.deref_some, hrun₂]
      · intro c hc r
        rw [hheap, rewritten_bridgeBus, if_pos hc]
        rcases List.mem_cons.mp hc with rfl | hc
        · refine (h₂.others c hb r).trans ((hstep₁ r).trans ?_)
          rw [hheap₁, writtenBridge_bridgeBus, if_pos rfl]
        · have hstep := h₂.inStep c hc r
          rw [h₂.heap, rewritten_bridgeBus, if_pos hc] at hstep
          refine hstep.trans ?_
          rw [hheap₁, writtenBridge, if_neg (hne c hc)]
          split <;> cases r <;> rfl
      · intro c hc r
        have hca : c ≠ a := fun hca => hc (hca ▸ List.mem_cons_self)
        exact (h₂.others c (fun hmem => hc (List.mem_cons_of_mem _ hmem)) r).trans
          (hothers₁ c hca r)

end Writes

end PciMisc
end EfiApps
