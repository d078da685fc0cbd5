import EfiApps.PciMisc.BusRestore

/-!
# Where a move puts the bridges

`MoveBuses` puts the bridges from a root bridge down to a bridge behind each other in the
unused range of the root bridge, or fails before it has written anything.  `VerifyBuses`
moves the buses when the bridge itself cannot be reached; it does not look at the bridges
above it.
-/

namespace EfiApps
namespace PciMisc

/-- The path from `a` leads up to the root bridge `root`. -/
def LeadsTo (heap : Heap) (path : List Addr) (a root : Addr) : Prop :=
  Linked (fun b => if (heap b).isSegment then none else (heap b).parent) (some a) (path ++ [root])

section numbers

variable {heap heap₁ : Heap} {path : List Addr} {a root : Addr}

theorem LeadsTo.root_eq (hroot : LeadsTo heap [] a root) : a = root := Option.some.inj hroot.1

theorem LeadsTo.tail {b p : Addr} (hroot : LeadsTo heap (b :: path) a root)
    (hsegment : (heap b).isSegment = false) (hp : (heap b).parent = some p) :
    LeadsTo heap path p root := by
  have htail : Linked (fun b => if (heap b).isSegment then none else (heap b).parent)
      (if (heap b).isSegment then none else (heap b).parent) (path ++ [root]) := hroot.2
  rwa [hsegment, if_neg (by simp), hp] at htail

theorem BridgePath.isSegment_root (hpath : BridgePath heap path a)
    (hroot : LeadsTo heap path a root) : (heap root).isSegment = true := by
  induction path generalizing a with
  | nil =>
      obtain rfl := hroot.root_eq
      exact hpath.1
  | cons b path ih =>
      obtain ⟨rfl, hsegment, -, p, hp, hrest⟩ := hpath
      exact ih hrest (hroot.tail hsegment hp)

/-- The new numbers of a bridge: the secondary bus counts the bridges above it, but stays
at the last bus, and the subordinate bus is the end of the range. -/
theorem newNumbers (hsame : SameButNew heap heap₁)
    (hnumbers : ∀ c ∈ path, ∀ p, (heap c).parent = some p → NumberedFrom heap₁ c p)
    (hpath : BridgePath heap path a) (hroot : LeadsTo heap path a root) (hbelow : path ≠ []) :
    (heap₁ a).newSecondaryBus.toNat =
        min ((heap root).bigUnusedStart.toNat + (path.length - 1)) 255 ∧
      (heap₁ a).newSubordinateBus = (heap root).bigUnusedEnd := by
  have hmax : pciMaxBus.toNat = 255 := rfl
  induction path generalizing a with
  | nil => exact absurd rfl hbelow
  | cons b path ih =>
      obtain ⟨rfl, hsegment, -, p, hp, hrest⟩ := hpath
      have htail := hroot.tail hsegment hp
      have hnumber := hnumbers a List.mem_cons_self p hp
      cases path with
      | nil =>
          obtain rfl := htail.root_eq
          obtain ⟨hstart, hend⟩ :=
            hnumber.root ((hsame.sameButBuses.isSegment p).trans hrest.1)
          have hunused : (heap₁ p).bigUnusedStart = (heap p).bigUnusedStart :=
            (congrArg PciIoDevice.bigUnusedStart (hsame p) :)
          have hunused' : (heap₁ p).bigUnusedEnd = (heap p).bigUnusedEnd :=
            (congrArg PciIoDevice.bigUnusedEnd (hsame p) :)
          have hlt := (heap p).bigUnusedStart.toNat_lt
          rw [hstart, hend, hunused, hunused']
          refine ⟨?_, rfl⟩
          simp only [List.length_cons, List.length_nil]
          omega
      | cons c path =>
          obtain ⟨hsecondary, hsubordinate⟩ := ih
            (fun d hd => hnumbers d (List.mem_cons_of_mem _ hd)) hrest htail (by simp)
          have hpsegment : (heap₁ p).isSegment = false := by
            rw [hsame.sameButBuses.isSegment]
            exact hrest.isSegment_of_mem (hrest.1 ▸ List.mem_cons_self)
          obtain ⟨-, hnext, hlast⟩ := hnumber.bridge hpsegment
          refine ⟨?_, hlast.trans hsubordinate⟩
          simp only [List.length_cons] at hsecondary ⊢
          -- One more than the bridge above, unless that one is at the end of the range.
          rw [hnext]
          split
          · rename_i hlt
            rw [UInt8.lt_iff_toNat_lt] at hlt
            rw [UInt8.toNat_add, UInt8.toNat_one]
            omega
          · rename_i hge
            rw [UInt8.lt_iff_toNat_lt] at hge
            omega

/-- Every bridge of a path starts a path of its own. -/
theorem BridgePath.from_mem {c : Addr} (hpath : BridgePath heap path a)
    (hroot : LeadsTo heap path a root) (hc : c ∈ path) :
    ∃ l above, path = l ++ c :: above ∧ BridgePath heap (c :: above) c ∧
      LeadsTo heap (c :: above) c root := by
  induction path generalizing a with
  | nil => simp at hc
  | cons b path ih =>
      have hwhole := hpath
      obtain ⟨rfl, hsegment, -, p, hp, hrest⟩ := hpath
      rcases List.mem_cons.mp hc with rfl | hc
      · exact ⟨[], path, rfl, hwhole, hroot⟩
      · obtain ⟨l, above, rfl, habove⟩ := ih hrest (hroot.tail hsegment hp) hc
        exact ⟨a :: l, above, rfl, habove⟩

end numbers

section move

variable {regs : Addr → BusRegister → UInt8} {heap : Heap} {bridges : List Addr}
  {children : Addr → List Addr} {brk : Addr} {path : List Addr} {b root : Addr}

/-- The bridges of the path are behind each other in the unused range of the root bridge,
and what is behind them has moved with them. -/
structure MovedInto (regs : Addr → BusRegister → UInt8) (heap : Heap) (path : List Addr)
    (root : Addr) (st : BusState) : Prop where
  same : SameButBuses heap st.heap
  first : ∀ c ∈ path, (heap c).parent = some root →
    (st.heap c).bridgeBus .secondary = (heap root).bigUnusedStart
  further : ∀ c ∈ path, ∀ p ∈ path, (heap c).parent = some p →
    (st.heap c).bridgeBus .primary = (st.heap p).bridgeBus .secondary ∧
      ((st.heap c).bridgeBus .secondary).toNat = ((st.heap p).bridgeBus .secondary).toNat + 1
  last : ∀ c ∈ path, (st.heap c).bridgeBus .subordinate = (heap root).bigUnusedEnd ∧
    (st.heap c).bridgeBus .secondary ≤ (st.heap c).bridgeBus .subordinate
  children : ∀ p ∈ path, ∀ c, (heap c).parent = some p →
    (st.heap c).busNumber = (st.heap p).bridgeBus .secondary
  registers : ∀ c ∈ path, ∀ r, registersAfter regs st.writes c r = (st.heap c).bridgeBus r
  others : ∀ c, c ∉ path → ∀ r, (st.heap c).bridgeBus r = (heap c).bridgeBus r ∧
    registersAfter regs st.writes c r = regs c r

/-- The bus numbers for the path go beyond the unused range, or to the last bus. -/
def TooFewBuses (heap : Heap) (path : List Addr) (root : Addr) : Prop :=
  (heap root).bigUnusedStart.toNat + path.length - 1 > (heap root).bigUnusedEnd.toNat ∨
    (heap root).bigUnusedStart.toNat + path.length - 1 ≥ 255

instance (heap : Heap) (path : List Addr) (root : Addr) : Decidable (TooFewBuses heap path root) :=
  inferInstanceAs (Decidable (_ ∨ _))

theorem movedInto_of_written {heap₁ : Heap} {st : BusState}
    (hwritten : Written regs heap false path ⟨heap₁, []⟩ st) (hsame : SameButNew heap heap₁)
    (hnew : ∀ p ∈ path, ∀ c, (heap c).parent = some p →
      (heap₁ c).newBusNumber = (heap₁ p).newSecondaryBus)
    (hnumbers : ∀ c ∈ path, ∀ p, (heap c).parent = some p → NumberedFrom heap₁ c p)
    (hpath : BridgePath heap path b) (hroot : LeadsTo heap path b root)
    (henough : ¬ TooFewBuses heap path root) : MovedInto regs heap path root st := by
  have hmoved := hwritten.moved hsame hnew
  have hregister : ∀ c ∈ path, ∀ r, (st.heap c).bridgeBus r = (heap₁ c).newBus r := by
    intro c hc r
    rw [hwritten.heap, rewritten_bridgeBus, if_pos hc]
  -- The numbers of a bridge of the path; there are enough buses for them.
  have hnumber : ∀ c ∈ path, ∃ l above, path = l ++ c :: above ∧
      (heap₁ c).newSecondaryBus.toNat = (heap root).bigUnusedStart.toNat + above.length ∧
      (heap₁ c).newSecondaryBus.toNat < 255 ∧
      (heap₁ c).newSecondaryBus.toNat ≤ (heap root).bigUnusedEnd.toNat ∧
      (heap₁ c).newSubordinateBus = (heap root).bigUnusedEnd := by
    intro c hc
    obtain ⟨l, above, hsplit, hpath', hroot'⟩ := hpath.from_mem hroot hc
    have hin : ∀ d ∈ c :: above, d ∈ path := fun d hd => hsplit ▸ List.mem_append_right l hd
    obtain ⟨hsecondary, hsubordinate⟩ := newNumbers hsame (fun d hd => hnumbers d (hin d hd))
      hpath' hroot' (by simp)
    have hlength := congrArg List.length hsplit
    simp only [List.length_append, List.length_cons] at hlength hsecondary
    unfold TooFewBuses at henough
    exact ⟨l, above, hsplit, by omega, by omega, by omega, hsubordinate⟩
  refine ⟨hmoved.same, fun c hc hp => ?_, fun c hc p hp hparent => ?_, fun c hc => ?_,
    fun p hp c hc => ?_, hwritten.inStep, fun c hc r => ⟨hmoved.bridgeBus c hc r, hmoved.others c hc r⟩⟩
  · have hsegment := (hsame.sameButBuses.isSegment root).trans (hpath.isSegment_root hroot)
    have hunused : (heap₁ root).bigUnusedStart = (heap root).bigUnusedStart :=
      (congrArg PciIoDevice.bigUnusedStart (hsame root) :)
    rw [hregister c hc, ← hunused]
    exact ((hnumbers c hc root hp).root hsegment).1
  · obtain ⟨hprimary, hsecondary, -⟩ := (hnumbers c hc p hparent).bridge
      ((hsame.sameButBuses.isSegment p).trans (hpath.isSegment_of_mem hp))
    obtain ⟨-, -, -, -, hlt, -⟩ := hnumber p hp
    have hmax : pciMaxBus.toNat = 255 := rfl
    rw [hregister c hc, hregister c hc, hregister p hp]
    refine ⟨hprimary, ?_⟩
    rw [if_pos (by rw [UInt8.lt_iff_toNat_lt]; omega)] at hsecondary
    show (heap₁ c).newSecondaryBus.toNat = (heap₁ p).newSecondaryBus.toNat + 1
    rw [hsecondary, UInt8.toNat_add, UInt8.toNat_one]
    omega
  · obtain ⟨-, -, -, -, -, hle, hlast⟩ := hnumber c hc
    rw [hregister c hc, hregister c hc]
    refine ⟨hlast, ?_⟩
    show (heap₁ c).newSecondaryBus ≤ (heap₁ c).newSubordinateBus
    rwa [hlast, UInt8.le_iff_toNat_le]
  · rw [hregister p hp, hwritten.heap, rewritten_busNumber, if_pos]
    · exact hnew p hp c hc
    · exact ⟨p, hp, (hsame.sameButBuses.parent c).trans hc⟩

/-- The two outcomes of `MoveBuses`, and when it has which. -/
theorem moveBuses_outcome (htree : TreeLinks heap bridges children brk)
    (hpath : BridgePath heap path b) (hroot : LeadsTo heap path b root) (hbelow : path ≠ [])
    (hregs : ∀ c ∈ path, ∀ r, regs c r = (heap c).bridgeBus r)
    (hio : ∀ c ∈ path, ∃ io, (heap c).pciRootBridgeIo = some io) {fuel : Nat}
    (hfuel : brk ≤ fuel) :
    ∃ st, if TooFewBuses heap path root then
        moveBuses fuel b ⟨heap, []⟩ = .ok (.outOfResources, st) ∧ st.writes = [] ∧
          SameButNew heap st.heap
      else
        moveBuses fuel b ⟨heap, []⟩ = .ok (.success, st) ∧ MovedInto regs heap path root st := by
  obtain ⟨heap₁, hsame, hnew, hnumbers, hmove⟩ := moveBuses_spec htree hpath hregs hio hfuel
  obtain ⟨hsecondary, hsubordinate⟩ := newNumbers hsame hnumbers hpath hroot hbelow
  have hlength : 0 < path.length := List.length_pos_iff.mpr hbelow
  have hmax : pciMaxBus.toNat = 255 := rfl
  have htest : ((heap₁ b).newSecondaryBus = pciMaxBus ∨
      (heap₁ b).newSubordinateBus < (heap₁ b).newSecondaryBus) ↔ TooFewBuses heap path root := by
    unfold TooFewBuses
    have hend := (heap root).bigUnusedEnd.toNat_lt
    rw [← UInt8.toNat_inj, UInt8.lt_iff_toNat_lt, hsecondary, hsubordinate]
    omega
  split at hmove
  · rename_i hfail
    refine ⟨⟨heap₁, []⟩, ?_⟩
    rw [if_pos (htest.mp hfail)]
    exact ⟨hmove, rfl, hsame⟩
  · rename_i hfits
    rw [htest] at hfits
    obtain ⟨st, hrun, hwritten⟩ := hmove
    refine ⟨st, ?_⟩
    rw [if_neg hfits]
    exact ⟨hrun, movedInto_of_written hwritten hsame hnew hnumbers hpath hroot hfits⟩

/-- `MoveBuses` moves the path into the unused range of the root bridge, or fails and writes
nothing, which it does exactly if the range has too few buses. -/
theorem moveBuses_commits (htree : TreeLinks heap bridges children brk)
    (hpath : BridgePath heap path b) (hroot : LeadsTo heap path b root) (hbelow : path ≠ [])
    (hregs : ∀ c ∈ path, ∀ r, regs c r = (heap c).bridgeBus r)
    (hio : ∀ c ∈ path, ∃ io, (heap c).pciRootBridgeIo = some io) :
    ∃ fuel₁, ∀ fuel ≥ fuel₁, ∃ status st, moveBuses fuel b ⟨heap, []⟩ = .ok (status, st) ∧
      (status = .success ∧ MovedInto regs heap path root st ∨
        status = .outOfResources ∧ st.writes = [] ∧ SameButNew heap st.heap) ∧
      (status = .outOfResources ↔ TooFewBuses heap path root) := by
  refine ⟨brk, fun fuel hfuel => ?_⟩
  obtain ⟨st, houtcome⟩ := moveBuses_outcome htree hpath hroot hbelow hregs hio hfuel
  split at houtcome
  · rename_i hfew
    obtain ⟨hrun, hwrites, hsame⟩ := houtcome
    exact ⟨_, st, hrun, .inr ⟨rfl, hwrites, hsame⟩, iff_of_true rfl hfew⟩
  · rename_i henough
    obtain ⟨hrun, hmoved⟩ := houtcome
    exact ⟨_, st, hrun, .inl ⟨rfl, hmoved⟩, iff_of_false nofun henough⟩

theorem moveBuses_commits_nestedBridges :
    ∃ fuel₁, ∀ fuel ≥ fuel₁, ∃ st, moveBuses fuel 3 ⟨nestedBridges, []⟩ = .ok (.success, st) ∧
      MovedInto nestedBridgesRegs nestedBridges [3, 2] 1 st := by
  obtain ⟨fuel₁, hmove⟩ := moveBuses_commits treeLinks_nestedBridges bridgePath_nestedBridges
    (show LeadsTo nestedBridges [3, 2] 3 1 from ⟨rfl, rfl, rfl, rfl⟩) (by simp)
    (fun _ _ _ => rfl) fun c hc =>
      pciRootBridgeIo_nestedBridges hc
  refine ⟨fuel₁, fun fuel hfuel => ?_⟩
  obtain ⟨status, st, hrun, houtcome, hfew⟩ := hmove fuel hfuel
  have henough : ¬ TooFewBuses nestedBridges [3, 2] 1 := by
    unfold TooFewBuses
    decide
  rcases houtcome with ⟨rfl, hmoved⟩ | ⟨rfl, -⟩
  · exact ⟨st, hrun, hmoved⟩
  · exact absurd (hfew.mp rfl) henough

/-! ## The test of `VerifyBuses` -/

/-- The test that `VerifyBuses` makes of a bridge: the bridge has buses behind it, and its
parent passes on what is meant for the bus that it is on. -/
def BusReached (heap : Heap) (c : Addr) : Prop :=
  (heap c).pci.secondaryBus ≠ 0 ∧ (heap c).pci.subordinateBus ≠ 0 ∧
    ∃ p, (heap c).parent = some p ∧ (heap p).pci.secondaryBus ≤ (heap c).busNumber ∧
      (heap c).busNumber ≤ (heap p).pci.subordinateBus

theorem needToMoveBuses_eq {c p : Addr} (hsegment : (heap c).isSegment = false)
    (hbridge : (heap c).pciType1 = true) (hp : (heap c).parent = some p)
    (hparent : (heap p).pciType1 = true) :
    ∃ needed, needToMoveBuses heap c = .ok needed ∧ (needed = true ↔ ¬ BusReached heap c) := by
  unfold needToMoveBuses BusReached
  rw [hsegment, if_neg (by simp), if_neg (by simp [hbridge]), hp]
  split
  · rename_i hzero
    exact ⟨true, rfl, iff_of_true rfl fun h => hzero.elim h.1 h.2.1⟩
  · rename_i hnonzero
    rw [not_or] at hnonzero
    refine ⟨_, by rw [Run.deref_some, Run.ok_bind, if_neg (by simp [hparent])], ?_⟩
    simp [hnonzero, UInt8.not_le, Classical.or_iff_not_imp_left]

/-- Above a bridge of the path is another one, or the root bridge. -/
theorem BridgePath.exists_parent {c : Addr} (hpath : BridgePath heap path b)
    (hroot : LeadsTo heap path b root) (hc : c ∈ path) :
    ∃ p, (heap c).parent = some p ∧ (p ∈ path ∨ p = root) := by
  obtain ⟨l, above, rfl, ⟨-, hsegment, -, p, hp, hrest⟩, hroot'⟩ := hpath.from_mem hroot hc
  refine ⟨p, hp, ?_⟩
  cases above with
  | nil => exact .inr (hroot'.tail hsegment hp).root_eq
  | cons d above => exact .inl (by simp [hrest.1])

/-- After a move every bridge of the path passes the test. -/
theorem MovedInto.busReached {st : BusState} (h : MovedInto regs heap path root st)
    (hpath : BridgePath heap path b) (hroot : LeadsTo heap path b root)
    (hlow : (heap root).pci.secondaryBus = 0) (hhigh : (heap root).pci.subordinateBus = pciMaxBus)
    (hstart : (heap root).bigUnusedStart ≠ 0) {c : Addr} (hc : c ∈ path) :
    BusReached st.heap c := by
  obtain ⟨p, hp, hcases⟩ := hpath.exists_parent hroot hc
  obtain ⟨-, hle⟩ := h.last c hc
  have hsecondary : (st.heap c).pci.secondaryBus ≠ 0 := by
    rcases hcases with hmem | rfl
    · have hnext := (h.further c hc p hmem hp).2
      intro hzero
      rw [show (st.heap c).bridgeBus .secondary = 0 from hzero, UInt8.toNat_zero] at hnext
      omega
    · intro hzero
      exact hstart ((h.first c hc hp).symm.trans hzero)
  refine ⟨hsecondary, ?_, p, (h.same.parent c).trans hp, ?_⟩
  · intro hzero
    rw [show (st.heap c).bridgeBus .subordinate = 0 from hzero] at hle
    exact hsecondary (UInt8.le_zero_iff.mp hle)
  · rcases hcases with hmem | rfl
    · rw [h.children p hmem c hp]
      exact ⟨UInt8.le_refl _, (h.last p hmem).2⟩
    · have hnot : p ∉ path := by
        intro hmem
        have hsegment := hpath.isSegment_of_mem hmem
        rw [hpath.isSegment_root hroot] at hsegment
        cases hsegment
      have hlow' : (st.heap p).pci.secondaryBus = 0 := (h.others p hnot .secondary).1.trans hlow
      have hhigh' : (st.heap p).pci.subordinateBus = pciMaxBus :=
        (h.others p hnot .subordinate).1.trans hhigh
      rw [hlow', hhigh', UInt8.le_iff_toNat_le]
      exact ⟨UInt8.zero_le, Nat.lt_succ_iff.mp (st.heap c).busNumber.toNat_lt⟩

/-- `VerifyBuses` makes the bus behind a bridge reachable, and moves buses only if it has to,
exactly if the bridge itself fails the test or every bridge of the path passes it. -/
theorem verifyBuses_iff (htree : TreeLinks heap bridges children brk)
    (hpath : BridgePath heap path b) (hroot : LeadsTo heap path b root) (hbelow : path ≠ [])
    (hregs : ∀ c ∈ path, ∀ r, regs c r = (heap c).bridgeBus r)
    (hio : ∀ c ∈ path, ∃ io, (heap c).pciRootBridgeIo = some io)
    (htype : (heap root).pciType1 = true) (hlow : (heap root).pci.secondaryBus = 0)
    (hhigh : (heap root).pci.subordinateBus = pciMaxBus)
    (hunused : (heap root).bigUnusedStart ≠ 0 ∧
      (heap root).bigUnusedStart ≤ (heap root).bigUnusedEnd) :
    (∃ fuel₁, ∀ fuel ≥ fuel₁, ∃ status moved st,
      verifyBuses fuel b ⟨heap, []⟩ = .ok (status, moved, st) ∧
        (status.isError = false → ∀ c ∈ path, BusReached st.heap c) ∧
        (moved = true → ∃ c ∈ path, ¬ BusReached heap c)) ↔
    ¬ BusReached heap b ∨ ∀ c ∈ path, BusReached heap c := by
  have hb : b ∈ path := hpath.self_mem_of_ne_nil hbelow
  obtain ⟨p, hp, hcases⟩ := hpath.exists_parent hroot hb
  have hparent : (heap p).pciType1 = true := by
    rcases hcases with hmem | rfl
    · exact hpath.pciType1_of_mem hmem
    · exact htype
  obtain ⟨needed, hneeded, hiff⟩ := needToMoveBuses_eq (hpath.isSegment_of_mem hb)
    (hpath.pciType1_of_mem hb) hp hparent
  cases needed with
  | true =>
      have hfails := hiff.mp rfl
      refine iff_of_true ⟨brk, fun fuel hfuel => ?_⟩ (.inl hfails)
      obtain ⟨st, houtcome⟩ := moveBuses_outcome htree hpath hroot hbelow hregs hio hfuel
      unfold verifyBuses
      rw [hneeded, Run.ok_bind]
      split at houtcome
      · rw [houtcome.1]
        exact ⟨_, _, _, rfl, nofun, fun _ => ⟨b, hb, hfails⟩⟩
      · rw [houtcome.1]
        exact ⟨_, _, _, rfl, fun _ c hc => houtcome.2.busReached hpath hroot hlow hhigh hunused.1 hc,
          fun _ => ⟨b, hb, hfails⟩⟩
  | false =>
      -- The bridge passes the test, so the bridges above it are not looked at.
      have hpasses : BusReached heap b := by
        by_contra h
        cases hiff.mpr h
      have hrun : ∀ fuel, verifyBuses fuel b ⟨heap, []⟩ = .ok (.success, false, ⟨heap, []⟩) := by
        intro fuel
        unfold verifyBuses
        rw [hneeded]
        rfl
      constructor
      · rintro ⟨fuel, hverify⟩
        obtain ⟨status, moved, st, hok, hreached, -⟩ := hverify fuel (Nat.le_refl _)
        rw [hrun] at hok
        obtain ⟨rfl, rfl, rfl⟩ : EfiStatus.success = status ∧ false = moved ∧ _ = st := by
          simpa using hok
        exact .inr (hreached rfl)
      · intro hcond
        refine ⟨0, fun fuel _ => ⟨_, _, _, hrun fuel, fun _ => ?_, nofun⟩⟩
        exact hcond.resolve_left (not_not.mpr hpasses)

end move

/-- A root bridge and two bridges behind each other.  The upper one has no buses behind it, and
the lower one is on bus 0. -/
def twoBridges : Heap
  | 0 =>
      { pciType1 := true, chain := some 1, lastBridge := 3, nextPciDeviceID := 4
        firstChild := some 1, lastChild := some 1 }
  | 1 =>
      { parent := some hostBridge, isSegment := true, pciType1 := true, pciDeviceID := 1
        pci := { headerType := 1, subordinateBus := 255 }
        chain := some 2, firstChild := some 2, lastChild := some 2
        bigUnusedStart := 10, bigUnusedEnd := 20 }
  | 2 =>
      { parent := some 1, pciType1 := true, pciDeviceID := 2
        pciRootBridgeIo := some ⟨7, 0⟩, pci := { headerType := 1, subordinateBus := 5 }
        chain := some 3, firstChild := some 3, lastChild := some 3 }
  | 3 =>
      { parent := some 2, pciType1 := true, pciDeviceID := 3
        pciRootBridgeIo := some ⟨7, 0⟩
        pci := { headerType := 1, secondaryBus := 3, subordinateBus := 3 } }
  | _ => {}

theorem treeLinks_twoBridges : TreeLinks twoBridges [1, 2, 3] nestedChildren 4 := by
  refine .of_cells ⟨⟨rfl, rfl, rfl, rfl, rfl⟩, rfl⟩ (by decide) ?_ (by decide) (by decide +kernel)
  rintro (_ | _ | _ | _ | a) ha
  all_goals first | exact ⟨rfl, rfl⟩ | exact absurd ha (by decide)

theorem bridgePath_twoBridges : BridgePath twoBridges [3, 2] 3 :=
  ⟨rfl, rfl, rfl, 2, rfl, rfl, rfl, rfl, 1, rfl, rfl, by simp [twoBridges]⟩

theorem verifyBuses_iff_twoBridges :
    (∃ fuel₁, ∀ fuel ≥ fuel₁, ∃ status moved st,
      verifyBuses fuel 3 ⟨twoBridges, []⟩ = .ok (status, moved, st) ∧
        (status.isError = false → ∀ c ∈ [3, 2], BusReached st.heap c) ∧
        (moved = true → ∃ c ∈ [3, 2], ¬ BusReached twoBridges c)) ↔
    ¬ BusReached twoBridges 3 ∨ ∀ c ∈ [3, 2], BusReached twoBridges c := by
  refine verifyBuses_iff treeLinks_twoBridges bridgePath_twoBridges
    (show LeadsTo twoBridges [3, 2] 3 1 from ⟨rfl, rfl, rfl, rfl⟩) (by simp)
    (show ∀ c ∈ [3, 2], ∀ r, (fun a => (twoBridges a).bridgeBus) c r = (twoBridges c).bridgeBus r
      from fun _ _ _ => rfl) (fun c hc => ?_) rfl rfl rfl (by decide)
  have hc : c = 3 ∨ c = 2 := by simpa using hc
  rcases hc with rfl | rfl <;> exact ⟨⟨7, 0⟩, rfl⟩

/-- There `VerifyBuses` sees nothing wrong with the lower bridge, and leaves the upper one
without buses. -/
theorem verifyBuses_twoBridges :
    (∀ fuel, verifyBuses fuel 3 ⟨twoBridges, []⟩ = .ok (.success, false, ⟨twoBridges, []⟩)) ∧
      ¬ BusReached twoBridges 2 :=
  ⟨fun _ => rfl, fun h => h.1 rfl⟩

end PciMisc
end EfiApps
