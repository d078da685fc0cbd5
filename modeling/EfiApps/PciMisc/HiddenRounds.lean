import EfiApps.PciMisc.BestParent
import EfiApps.PciMisc.HiddenDevices
import EfiApps.PciMisc.SegmentDevices
import EfiApps.PciMisc.Topology

/-!
# The lists stay consistent

Every step of the hidden device rounds keeps `TreeLinks` for some lists, which
only grow: in particular the bridge that is being searched stays on the list of
bridges while devices found behind it are appended.  A run of the rounds is a
sequence of such steps.  It starts with the bridge tree that `GetPciDevices` has
built, after every record has got its root bridge and every root bridge its unused
range.
-/

namespace EfiApps
namespace PciMisc

open Relation

/-- The candidate is rejected: there is no memory for it, no function answers,
or its registers cannot be read. -/
def Rejected (env : HiddenEnv) (fuel : Nat) (b : Addr) (deviceNumber functionNumber : UInt8)
    (s : Search) : Prop :=
  let d := candidate s.bus.heap b deviceNumber functionNumber
  let read := pciRead env.reader s.time d 16 pciCommandOffset
  env.pool s.allocations = false ∨ read.1.toUInt16 = 0xffff ∨
    ∃ status d' time, status.isError = true ∧
      fillInPciIoDevice env.reader fuel { d with pci := { d.pci with command := read.1.toUInt16 } }
        read.2 = .ok (status, d', time)

/-- A rejected candidate changes no record. -/
theorem tryFunction_rejected {env : HiddenEnv} {fuel : Nat} {b : Addr}
    {deviceNumber functionNumber : UInt8} {s s' : Search} {stop : Bool}
    (hreject : Rejected env fuel b deviceNumber functionNumber s)
    (h : tryFunction env fuel b deviceNumber functionNumber s = .ok (s', stop)) :
    s'.bus = s.bus ∧ s'.pciDeviceCount = s.pciDeviceCount := by
  unfold tryFunction at h
  unfold Rejected at hreject
  split at h
  · simp only [Except.ok.injEq, Prod.mk.injEq] at h
    obtain ⟨rfl, -⟩ := h
    exact ⟨rfl, rfl⟩
  · rename_i hpool
    split at h
    · cases h
    · dsimp only at h hreject
      split at h
      · simp only [Except.ok.injEq, Prod.mk.injEq] at h
        obtain ⟨rfl, -⟩ := h
        exact ⟨rfl, rfl⟩
      · rename_i hanswer
        obtain ⟨status, d', time, hstatus, hfill⟩ :=
          (hreject.resolve_left hpool).resolve_left hanswer
        rw [hfill, Run.ok_bind] at h
        dsimp only at h
        rw [if_pos hstatus] at h
        simp only [Except.ok.injEq, Prod.mk.injEq] at h
        obtain ⟨rfl, -⟩ := h
        exact ⟨rfl, rfl⟩

/-! ## One step -/

/-- The lists of the state satisfy the structural invariant. -/
def Search.Consistent (s : Search) : Prop :=
  ∃ bridges children, TreeLinks s.bus.heap bridges children s.brk

variable {env : HiddenEnv} {s s' : Search} {bridges : List Addr} {children : Addr → List Addr}

/-- The list of bridges is determined by the records. -/
theorem TreeLinks.onChain_iff {heap : Heap} {brk : Addr}
    (h : TreeLinks heap bridges children brk) {b : Addr} : OnChain heap b ↔ b ∈ bridges := by
  refine ⟨?_, fun hb => ⟨bridges, h.chain.linked.2, hb⟩⟩
  rintro ⟨bridges', hlinked, hb⟩
  rwa [h.chain.linked.2.unique hlinked]

/-- After a bridge of the list comes another one or the end. -/
theorem OnChain.chain {heap : Heap} {b c : Addr} (hb : OnChain heap b)
    (hc : (heap b).chain = some c) : OnChain heap c := by
  obtain ⟨bridges, hlinked, hmem⟩ := hb
  obtain ⟨l, l', rfl⟩ := List.append_of_mem hmem
  have hrest := hlinked.drop
  cases l' with
  | nil =>
      rw [hc] at hrest
      cases hrest
  | cons a l' =>
      obtain rfl : c = a := Option.some.inj (hc.symm.trans hrest.1)
      exact ⟨_, hlinked, by simp⟩

/-- A step keeps the invariant and takes no bridge off the list. -/
theorem SearchStep.treeLinks (h : SearchStep env s s')
    (htree : TreeLinks s.bus.heap bridges children s.brk) :
    ∃ more children', TreeLinks s'.bus.heap (bridges ++ more) children' s'.brk := by
  have hsame : ∀ {heap' : Heap}, SameButBuses s.bus.heap heap' →
      ∃ more children', TreeLinks heap' (bridges ++ more) children' s.brk := fun hbuses =>
    ⟨[], children, by rw [List.append_nil]; exact htree.sameButBuses hbuses⟩
  cases h with
  | start => exact hsame (.refl _)
  | verify hb h => exact hsame (verifyBuses_same h)
  | unmove hb h => exact hsame (unmoveBuses_same h)
  | finish =>
      rw [htree.chain.endBridges]
      exact hsame (.refl _)
  | probe hb h =>
      rename_i b _ _ _
      have hb := htree.inTree_of_mem_bridges (htree.onChain_iff.mp hb)
      rcases tryFunction_cases h with ⟨hbus, hbrk, -⟩ | ⟨d, heap, hd, hid, hattach, hbus, hbrk, -⟩
      · refine ⟨[], children, ?_⟩
        rw [hbus, List.append_nil]
        exact htree.grow hbrk.1
      · have hfresh : b ≠ s.brk := ne_of_lt (htree.used b hb)
        rw [attach_eq d hfresh (htree.lists.endsAgree b)] at hattach
        obtain rfl := Except.ok.inj hattach
        rw [hbus, hbrk]
        have hnew := htree.attached hb hd hid
        cases htype : d.pciType1 with
        | true =>
            rw [htype, if_pos rfl] at hnew
            exact ⟨[s.brk], _, hnew⟩
        | false =>
            rw [htype, if_neg Bool.false_ne_true] at hnew
            exact ⟨[], _, by rwa [List.append_nil]⟩

/-- Any number of steps keeps the invariant and takes no bridge off the list. -/
theorem searchSteps_treeLinks (h : ReflTransGen (SearchStep env) s s')
    (htree : TreeLinks s.bus.heap bridges children s.brk) :
    ∃ more children', TreeLinks s'.bus.heap (bridges ++ more) children' s'.brk := by
  induction h with
  | refl => exact ⟨[], children, by rwa [List.append_nil]⟩
  | tail _ hstep ih =>
      obtain ⟨more, children₁, htree₁⟩ := ih
      obtain ⟨more', children₂, htree₂⟩ := hstep.treeLinks htree₁
      exact ⟨more ++ more', children₂, by rwa [← List.append_assoc]⟩

/-! ## A run is a sequence of steps -/

/-- The state a run has reached from a consistent one by steps. -/
structure Reached (env : HiddenEnv) (s₀ s : Search) : Prop where
  steps : ReflTransGen (SearchStep env) s₀ s
  consistent : s.Consistent

namespace Reached

variable {s₀ : Search} {b : Addr}

theorem refl (h : s.Consistent) : Reached env s s := ⟨.refl, h⟩

theorem step (h : Reached env s₀ s) (hstep : SearchStep env s s') : Reached env s₀ s' := by
  obtain ⟨hsteps, bridges, children, htree⟩ := h
  obtain ⟨more, children', htree'⟩ := hstep.treeLinks htree
  exact ⟨hsteps.tail hstep, _, _, htree'⟩

theorem trans (h : Reached env s₀ s) (h' : Reached env s s') : Reached env s₀ s' :=
  ⟨h.steps.trans h'.steps, h'.consistent⟩

/-- A bridge of the list stays on it. -/
theorem onChain (h : Reached env s s') (hs : s.Consistent) (hb : OnChain s.bus.heap b) :
    OnChain s'.bus.heap b := by
  obtain ⟨bridges, children, htree⟩ := hs
  obtain ⟨more, children', htree'⟩ := searchSteps_treeLinks h.steps htree
  exact htree'.onChain_iff.mpr (List.mem_append_left _ (htree.onChain_iff.mp hb))

end Reached

section runs

variable {fuel : Nat} {b : Addr}

theorem searchFunctions_reached {deviceNumber : UInt8} {functions : List UInt8}
    (hs : s.Consistent) (hb : OnChain s.bus.heap b)
    (h : searchFunctions env fuel b deviceNumber functions s = .ok s') : Reached env s s' := by
  induction functions generalizing s with
  | nil =>
      obtain rfl := Except.ok.inj h
      exact .refl hs
  | cons functionNumber functions ih =>
      rw [searchFunctions, Run.bind_eq_ok] at h
      obtain ⟨⟨s₁, stop⟩, htry, h⟩ := h
      have hfirst : Reached env s s₁ := (Reached.refl hs).step (.probe hb htry)
      dsimp only at h
      split at h
      · obtain rfl := Except.ok.inj h
        exact hfirst
      · exact hfirst.trans (ih hfirst.consistent (hfirst.onChain hs hb) h)

theorem searchDevices_reached (hs : s.Consistent) (hb : OnChain s.bus.heap b)
    (h : searchDevices env fuel b s = .ok s') : Reached env s s' := by
  unfold searchDevices at h
  generalize deviceNumbers = devices at h
  induction devices generalizing s with
  | nil =>
      obtain rfl := Except.ok.inj h
      exact .refl hs
  | cons deviceNumber rest ih =>
      rw [List.foldlM_cons, Run.bind_eq_ok] at h
      obtain ⟨s₁, hfunctions, h⟩ := h
      have hfirst := searchFunctions_reached hs hb hfunctions
      exact hfirst.trans (ih hfirst.consistent (hfirst.onChain hs hb) h)

theorem searchBridge_reached (hs : s.Consistent) (hb : OnChain s.bus.heap b)
    (h : searchBridge env fuel b s = .ok s') : Reached env s s' := by
  unfold searchBridge at h
  split at h
  · obtain rfl := Except.ok.inj h
    exact .refl hs
  · rw [Run.bind_eq_ok] at h
    obtain ⟨⟨status, movedBuses, bus⟩, hverify, h⟩ := h
    have hfirst : Reached env s { s with bus := bus } := (Reached.refl hs).step (.verify hb hverify)
    dsimp only at h
    split at h
    · obtain rfl := Except.ok.inj h
      exact hfirst
    · rw [Run.bind_eq_ok] at h
      obtain ⟨s₁, hdevices, h⟩ := h
      have hb₁ := hfirst.onChain hs hb
      have hsecond := searchDevices_reached hfirst.consistent hb₁ hdevices
      have hboth := hfirst.trans hsecond
      split at h
      · rw [Run.bind_eq_ok] at h
        obtain ⟨⟨status', bus'⟩, hunmove, h⟩ := h
        obtain rfl := Except.ok.inj h
        exact hboth.step (.unmove (hboth.onChain hs hb) hunmove)
      · obtain rfl := Except.ok.inj h
        exact hboth

theorem searchForHiddenDevices_reached (hs : s.Consistent)
    (h : searchForHiddenDevices env fuel s = .ok s') : Reached env s s' := by
  unfold searchForHiddenDevices at h
  rw [Run.bind_eq_ok] at h
  obtain ⟨s₁, hloop, h⟩ := h
  have hstart : Reached env s { s with pciDeviceCount := 0 } :=
    (Reached.refl hs).step (.start s)
  -- The loop is at a bridge of the list, or past its end.
  have hend := forEach_invariant
    (I := fun p t => Reached env s t ∧ ∀ b, p = some b → OnChain t.bus.heap b) ?_ ?_ hloop
  · obtain rfl := Except.ok.inj h
    exact hend.1.step (.finish s₁)
  · rintro b t t' ⟨ht, hb⟩ hbody
    have hb := hb b rfl
    have hbridge := searchBridge_reached ht.consistent hb hbody
    exact ⟨ht.trans hbridge, fun c hc => (hbridge.onChain ht.consistent hb).chain hc⟩
  · refine ⟨hstart, fun b hb => ?_⟩
    obtain ⟨bridges, children, htree⟩ := hs
    have hlinked : Linked _ (s.bus.heap hostBridge).chain bridges := htree.chain.linked.2
    replace hb : (s.bus.heap hostBridge).chain = some b := hb
    rw [hb] at hlinked
    cases bridges with
    | nil => cases hlinked
    | cons a bridges =>
        obtain rfl : b = a := Option.some.inj hlinked.1
        exact htree.onChain_iff.mpr (by simp)

theorem hiddenDeviceRounds_reached {n : Nat} (hs : s.Consistent)
    (h : hiddenDeviceRounds env fuel n s = .ok s') : Reached env s s' := by
  induction n generalizing s with
  | zero => cases h
  | succ n ih =>
      rw [hiddenDeviceRounds, Run.bind_eq_ok] at h
      obtain ⟨s₁, hsearch, h⟩ := h
      have hfirst := searchForHiddenDevices_reached hs hsearch
      split at h
      · obtain rfl := Except.ok.inj h
        exact hfirst
      · exact hfirst.trans (ih hfirst.consistent h)

end runs

/-! ## The rounds of `GetPciDevices` -/

/-- The bridge tree satisfies the structural invariant. -/
theorem Built.treeLinks {s : Collect} {array : List Addr} {heap : Heap} (h : Built s array heap)
    (hs : Collected s) :
    TreeLinks heap (array.filter fun a => (s.heap a).pciType1)
      (childrenOf s.heap (array.filter fun a => (s.heap a).pciType1) array) s.brk := by
  have hmem : ∀ a, (∃ p, a ∈ childrenOf s.heap (array.filter fun a => (s.heap a).pciType1) array p) ↔
      a ∈ array := by
    intro a
    refine ⟨fun ⟨p, hp⟩ => (List.mem_filter.mp hp).1, fun ha => ?_⟩
    obtain ⟨p, hp, -⟩ := h.mem_childrenOf ha
    exact ⟨p, hp⟩
  have hin : ∀ {a}, InTree (childrenOf s.heap (array.filter fun a => (s.heap a).pciType1) array) a →
      a = hostBridge ∨ a ∈ s.pciDeviceArray := fun ha =>
    ha.imp_right fun hp => h.perm.mem_iff.mp ((hmem _).mp hp)
  have hlt : ∀ {a}, a = hostBridge ∨ a ∈ s.pciDeviceArray → a < s.brk := by
    rintro a (rfl | ha)
    · exact hs.brk
    · exact (hs.mem a ha).2
  constructor
  · exact h.chain
  · exact h.children
  · intro a p hp
    by_cases ha : a ∈ array
    · obtain ⟨q, hq, hparent, -⟩ := h.mem_childrenOf ha
      obtain rfl : q = p := Option.some.inj (hparent.symm.trans hp)
      exact hq
    · rw [h.unlisted a ha] at hp
      cases hp
  · intro a
    rw [hmem, h.registers.pciType1, List.mem_filter]
  · intro p hp
    have hhost := (hs.mem hostBridge (h.perm.mem_iff.mp ((hmem _).mp ⟨p, hp⟩))).1
    exact lt_irrefl _ hhost
  · intro a ha
    rw [h.registers.pciDeviceID, h.nextID]
    rcases hin ha with rfl | ha
    · rw [hs.hostID]
      exact hs.nextPos
    · exact hs.idLt a ha
  · intro a c ha hc hid
    rw [h.registers.pciDeviceID, h.registers.pciDeviceID] at hid
    rcases hin ha with rfl | ha <;> rcases hin hc with rfl | hc
    · rfl
    · rw [hs.hostID] at hid
      exact absurd hid (ne_of_lt (hs.idPos c hc))
    · rw [hs.hostID] at hid
      exact absurd hid.symm (ne_of_lt (hs.idPos a ha))
    · exact hs.idInj a ha c hc hid
  · exact fun a ha => hlt (hin ha)
  · -- Only the host bridge and bridges of the array have children.
    intro a ha
    refine List.eq_nil_iff_forall_not_mem.mpr fun c hc => ?_
    obtain ⟨q, -, hq, hbest⟩ := h.mem_childrenOf (List.mem_filter.mp hc).1
    have hparent := h.children.owner a c hc
    obtain rfl : q = a := Option.some.inj (hq.symm.trans hparent)
    refine absurd (hlt ?_) (not_lt.mpr ha)
    refine (List.mem_cons.mp hbest.mem).imp_right fun hbridge => ?_
    exact h.perm.mem_iff.mp (List.mem_filter.mp hbridge).1

/-- `GetPciDevices` between the collecting loops and the rounds: the bridge tree, the root of
each device, and the biggest unused range of each root bridge. -/
def prepareRounds (performQuickSort : PerformQuickSort) (fuel : Nat) (c : Collect) : Run Heap := do
  let (heap, array) ← buildTree performQuickSort fuel c
  let heap ← getRootOfEachDevice fuel heap array
  findMaxUnusedRanges fuel heap

/-- The records that are prepared satisfy the structural invariant. -/
theorem prepareRounds_treeLinks {performQuickSort : PerformQuickSort} {fuel : Nat} {c : Collect}
    {heap : Heap} (hcollected : Collected c)
    (hperm : (performQuickSort c.compare c.pciDeviceArray).Perm c.pciDeviceArray)
    (hfuel : c.pciDeviceArray.length < fuel)
    (h : prepareRounds performQuickSort fuel c = .ok heap) :
    ∃ bridges children, TreeLinks heap bridges children c.brk := by
  unfold prepareRounds at h
  obtain ⟨heap₁, hrun, hbuilt⟩ := buildTree_built hcollected hperm hfuel
  rw [hrun, Run.ok_bind, Run.bind_eq_ok] at h
  obtain ⟨heap₂, hroots, h⟩ := h
  have htree := (getRootOfEachDevice_same hroots).treeLinks (hbuilt.treeLinks hcollected)
  exact ⟨_, _, findMaxUnusedRanges_treeLinks htree h⟩

/-- The state of the search before the first round with these records: no register has been
written, and the reads and the allocations are counted from here. -/
def startRounds (heap : Heap) (brk : Addr) : Search := ⟨⟨heap, []⟩, brk, 0, 0, 0⟩

/-- For every collection and for the records that `GetPciDevices` prepares from it, whatever
the hardware answers and whichever allocations fail: every state of the rounds satisfies the
structural invariant, and a rejected candidate changes no record. -/
theorem hiddenDeviceRounds_consistent {fuel₀ fuel₁ : Nat} {roots : List RootHandle}
    {handles : List PciIoHandle} {c : Collect} (hc : collect fuel₀ roots handles = .ok c)
    {performQuickSort : PerformQuickSort}
    (hperm : (performQuickSort c.compare c.pciDeviceArray).Perm c.pciDeviceArray)
    {heap : Heap} (hfuel : c.pciDeviceArray.length < fuel₁)
    (hprepare : prepareRounds performQuickSort fuel₁ c = .ok heap) (env : HiddenEnv) :
    (∀ s, ReflTransGen (SearchStep env) (startRounds heap c.brk) s → s.Consistent) ∧
    (∀ fuel n s, hiddenDeviceRounds env fuel n (startRounds heap c.brk) = .ok s →
      ReflTransGen (SearchStep env) (startRounds heap c.brk) s) ∧
    ∀ fuel b deviceNumber functionNumber s s' stop,
      Rejected env fuel b deviceNumber functionNumber s →
      tryFunction env fuel b deviceNumber functionNumber s = .ok (s', stop) →
      s'.bus = s.bus := by
  obtain ⟨bridges, children, hstart⟩ :=
    prepareRounds_treeLinks (collected_collect hc) hperm hfuel hprepare
  refine ⟨fun s hs => ?_, fun fuel n s hs => ?_, ?_⟩
  · obtain ⟨more, children', htree'⟩ := searchSteps_treeLinks hs hstart
    exact ⟨_, _, htree'⟩
  · exact (hiddenDeviceRounds_reached ⟨_, _, hstart⟩ hs).steps
  · exact fun fuel b deviceNumber functionNumber s s' stop hreject htry =>
      (tryFunction_rejected hreject htry).1

/-- A root bridge, and a bridge to bus 1. -/
def bridgeMachine : Collect :=
  match collect 0 [goodRoot 7 0] [quietHandle 0 3 [0, 0, 0, 0x10000, 0, 0, 0x10100]] with
  | .ok s => s
  | .error _ => .init

/-- Device 0 of bus 1 has a function that the handles do not show. -/
def hiddenFunctionEnv : HiddenEnv where
  reader := fun _ r =>
    (.success, if r.path = .rootBridgeIo ⟨7, 0⟩ 1 0 0 then [0x12348086, 0] else [0xffffffff])
  pool := fun _ => true

/-- The first probe finds the function, through the root bridge that the bridge has got. -/
theorem tryFunction_bridgeMachine {heap : Heap}
    (h : prepareRounds sortByInsertion 3 bridgeMachine = .ok heap) :
    OnChain heap 2 ∧
      ∃ s, tryFunction hiddenFunctionEnv 0 2 0 0 (startRounds heap bridgeMachine.brk) =
          .ok (s, true) ∧
        (s.bus.heap 2).firstChild = some 3 := by
  obtain rfl := Except.ok.inj h
  exact ⟨⟨[1, 2], ⟨rfl, rfl, rfl⟩, by simp⟩, _, rfl, rfl⟩

theorem hiddenDeviceRounds_consistent_hiddenFunction :
    ∃ heap s, prepareRounds sortByInsertion 3 bridgeMachine = .ok heap ∧
      ReflTransGen (SearchStep hiddenFunctionEnv) (startRounds heap bridgeMachine.brk) s ∧
      (s.bus.heap 2).firstChild = some 3 ∧ s.Consistent := by
  obtain ⟨heap, hprepare⟩ : ∃ heap, prepareRounds sortByInsertion 3 bridgeMachine = .ok heap :=
    ⟨_, rfl⟩
  obtain ⟨hchain, s, hprobe, hattached⟩ := tryFunction_bridgeMachine hprepare
  have hsteps : ReflTransGen (SearchStep hiddenFunctionEnv) (startRounds heap bridgeMachine.brk) s :=
    .single (.probe hchain hprobe)
  have hconsistent := hiddenDeviceRounds_consistent
    (show collect 0 [goodRoot 7 0] [quietHandle 0 3 [0, 0, 0, 0x10000, 0, 0, 0x10100]] =
      .ok bridgeMachine from rfl)
    (sortByInsertion_perm _ _) (show [1, 2].length < 3 by decide) hprepare hiddenFunctionEnv
  exact ⟨heap, s, hprepare, hsteps, hattached, hconsistent.1 s hsteps⟩

end PciMisc
end EfiApps
