import EfiApps.Lib.LongestRun
import EfiApps.PciMisc.BusPath
import Mathlib.Data.Nat.Bitwise

/-!
# The biggest unused range

`UsedBuses` has a bit for each bus of a segment.  `GetPciDevices` looks for the longest
run of clear bits and keeps it in `BigUnusedStart` and `BigUnusedEnd`, from where
`MoveBuses` takes bus numbers.
-/

namespace EfiApps
namespace PciMisc

/-! ## The bitmap -/

/-- The array `UsedBuses`. -/
abbrev UsedBuses := Vector UInt32 8

/-- `(UINT32)1 << (x % 32)`. -/
def busBit (x : Nat) : UInt32 := (1 : UInt32) <<< UInt32.ofNat (x % 32)

/-- `IsBus`. -/
def isBus (buses : UsedBuses) (x : Nat) : Bool := (buses[x / 32]?.getD 0 &&& busBit x) != 0

/-- `SetBus`. -/
def setBus (buses : UsedBuses) (x : Nat) : UsedBuses :=
  buses.setIfInBounds (x / 32) (buses[x / 32]?.getD 0 ||| busBit x)

theorem toNat_busBit (x : Nat) : (busBit x).toNat = 2 ^ (x % 32) := by
  have hbit : x % 32 < 32 := Nat.mod_lt _ (by omega)
  have hpow : 2 ^ (x % 32) < 2 ^ 32 := Nat.pow_lt_pow_right (by omega) hbit
  have hshift : (UInt32.ofNat (x % 32)).toNat = x % 32 := by
    rw [UInt32.toNat_ofNat', Nat.mod_eq_of_lt (by omega)]
  rw [busBit, UInt32.toNat_shiftLeft, hshift, UInt32.toNat_one, Nat.shiftLeft_eq, Nat.one_mul,
    Nat.mod_eq_of_lt hbit, Nat.mod_eq_of_lt hpow]

theorem isBus_eq_testBit (buses : UsedBuses) (x : Nat) :
    isBus buses x = (buses[x / 32]?.getD 0).toNat.testBit (x % 32) := by
  have hpow : 2 ^ (x % 32) ≠ 0 := (Nat.two_pow_pos _).ne'
  rw [isBus, bne, Bool.eq_iff_iff, Bool.not_eq_true', beq_eq_false_iff_ne, ne_eq,
    ← UInt32.toNat_inj, UInt32.toNat_and, toNat_busBit, Nat.and_two_pow, UInt32.toNat_zero]
  cases (buses[x / 32]?.getD 0).toNat.testBit (x % 32) <;> simp

theorem isBus_setBus (buses : UsedBuses) {x y : Nat} (hy : y < 256) :
    isBus (setBus buses x) y = (decide (x = y) || isBus buses y) := by
  rw [isBus_eq_testBit, isBus_eq_testBit, setBus, Vector.getElem?_setIfInBounds]
  have hword : y / 32 < 8 := by omega
  by_cases hsame : x / 32 = y / 32
  · rw [if_pos hsame, if_pos (by omega), hsame, Option.getD_some, UInt32.toNat_or,
      Nat.testBit_or, toNat_busBit, Nat.testBit_two_pow, Bool.or_comm]
    have hbit : x % 32 = y % 32 ↔ x = y := by omega
    rw [decide_eq_decide.mpr hbit]
  · rw [if_neg hsame]
    have hne : x ≠ y := by
      rintro rfl
      exact hsame rfl
    simp [hne]

/-- The pass has not found a used bus. -/
def unusedBus (buses : UsedBuses) (x : Nat) : Bool := !isBus buses x

/-! ## The scan -/

/-- Where a round of `Find max unused range` that starts at `bus` ends: behind the used
buses and the unused ones after them. -/
def unusedRound (buses : UsedBuses) (bus : Nat) : Nat × Nat :=
  let unusedStart := scanWhile (isBus buses) 256 bus
  (unusedStart, scanWhile (unusedBus buses) 256 unusedStart)

theorem lt_unusedRound (buses : UsedBuses) {bus : Nat} (h : bus < 256) :
    bus < (unusedRound buses bus).2 := by
  unfold unusedRound
  dsimp only
  cases hbus : isBus buses bus with
  | true =>
      have hused : bus + 1 ≤ scanWhile (isBus buses) 256 bus := by
        rw [scanWhile, if_pos ⟨h, hbus⟩]
        exact le_scanWhile _ _ _
      have hfree := le_scanWhile (unusedBus buses) 256 (scanWhile (isBus buses) 256 bus)
      omega
  | false =>
      have hused : scanWhile (isBus buses) 256 bus = bus := by
        rw [scanWhile, if_neg (by simp [hbus])]
      rw [hused, scanWhile, if_pos ⟨h, by simp [unusedBus, hbus]⟩]
      exact le_scanWhile _ _ _

/-- The loop of `Find max unused range`, with the values of its variables `Bus`,
`MaxUnusedStart` and `MaxUnusedLength`.  It gives the last values of the latter two. -/
def findMaxUnusedLoop (buses : UsedBuses) (bus maxUnusedStart maxUnusedLength : Nat) :
    Nat × Nat :=
  if h : bus < 256 then
    let unusedStart := (unusedRound buses bus).1
    let unusedLength := (unusedRound buses bus).2 - unusedStart
    have := lt_unusedRound buses h
    if unusedLength > maxUnusedLength then
      findMaxUnusedLoop buses (unusedRound buses bus).2 unusedStart unusedLength
    else
      findMaxUnusedLoop buses (unusedRound buses bus).2 maxUnusedStart maxUnusedLength
  else (maxUnusedStart, maxUnusedLength)
termination_by 256 - bus

/-- The body of `Find max unused range`: `BigUnusedStart` and `BigUnusedEnd`.  The last
bus is computed in `UINTN`, where it wraps around if there is no unused bus. -/
def findMaxUnused (buses : UsedBuses) : UInt8 × UInt8 :=
  let (maxUnusedStart, maxUnusedLength) := findMaxUnusedLoop buses 0 0 0
  let maxUnusedEnd := UInt64.ofNat maxUnusedStart + UInt64.ofNat maxUnusedLength - 1
  (if maxUnusedStart < pciMaxBus.toNat then .ofNat maxUnusedStart else pciMaxBus,
    if maxUnusedEnd < pciMaxBus.toUInt64 then maxUnusedEnd.toUInt8 else pciMaxBus)

def PciIoDevice.setBigUnused (range : UInt8 × UInt8) (d : PciIoDevice) : PciIoDevice :=
  { d with bigUnusedStart := range.1, bigUnusedEnd := range.2 }

/-- The body of `Find max unused range` on a record. -/
def findMaxUnusedRange (b : PciIoDevice) : PciIoDevice := b.setBigUnused (findMaxUnused b.usedBuses)

/-- The loop `Find max unused range`, over the children of the host bridge. -/
def findMaxUnusedRanges (fuel : Nat) (heap : Heap) : Run Heap :=
  forChildren fuel hostBridge findMaxUnusedRange heap

/-- Each child of the host bridge gets its range, and nothing else changes. -/
theorem findMaxUnusedRanges_eq {heap : Heap} {bridges : List Addr} {children : Addr → List Addr}
    {brk : Addr} (htree : TreeLinks heap bridges children brk) {fuel : Nat} (hfuel : brk ≤ fuel) :
    findMaxUnusedRanges fuel heap = .ok fun a =>
      if (heap a).parent = some hostBridge then findMaxUnusedRange (heap a) else heap a := by
  have hnext : ∀ d, (findMaxUnusedRange d).nextSibling = d.nextSibling := fun _ => rfl
  exact forChildren_eq_of_nextSibling htree hostBridge hnext hfuel

/-- The lists go through fields that the loop leaves alone. -/
theorem findMaxUnusedRanges_treeLinks {fuel : Nat} {heap heap' : Heap} {bridges : List Addr}
    {children : Addr → List Addr} {brk : Addr} (htree : TreeLinks heap bridges children brk)
    (h : findMaxUnusedRanges fuel heap = .ok heap') : TreeLinks heap' bridges children brk := by
  refine forEach_invariant (I := fun _ heap => TreeLinks heap bridges children brk) ?_ htree h
  intro c heap heap' htree hbody
  obtain rfl := Except.ok.inj hbody
  have hfield {β : Type} (field : PciIoDevice → β)
      (hf : ∀ d, field (findMaxUnusedRange d) = field d) (a : Addr) :
      field (heap.modify c findMaxUnusedRange a) = field (heap a) :=
    Heap.modify_field field heap c a hf
  exact htree.congr (hfield PciIoDevice.chain fun _ => rfl)
    (hfield PciIoDevice.lastBridge (fun _ => rfl) hostBridge)
    (hfield PciIoDevice.parent fun _ => rfl) (hfield PciIoDevice.firstChild fun _ => rfl)
    (hfield PciIoDevice.lastChild fun _ => rfl) (hfield PciIoDevice.nextSibling fun _ => rfl)
    (hfield PciIoDevice.pciType1 fun _ => rfl) (hfield PciIoDevice.pciDeviceID fun _ => rfl)
    (hfield PciIoDevice.nextPciDeviceID (fun _ => rfl) hostBridge)

/-! ## What the scan finds -/

/-- What the scan has found when it is at `bus`. -/
structure ScannedTo (buses : UsedBuses) (bus maxUnusedStart maxUnusedLength : Nat) : Prop where
  longest : LongestRun (unusedBus buses) bus maxUnusedStart maxUnusedLength
  runsEnd : bus < 256 → RunsEnd (unusedBus buses) bus
  none : maxUnusedLength = 0 → maxUnusedStart = 0

/-- One round of the scan. -/
theorem ScannedTo.round {buses : UsedBuses} {bus start length : Nat}
    (h : ScannedTo buses bus start length) (hbus : bus < 256) :
    let unusedStart := (unusedRound buses bus).1
    let bus' := (unusedRound buses bus).2
    ScannedTo buses bus' (if bus' - unusedStart > length then unusedStart else start)
      (if bus' - unusedStart > length then bus' - unusedStart else length) := by
  intro unusedStart bus'
  constructor
  · refine h.longest.extend (h.runsEnd hbus) (le_scanWhile _ _ _) (le_scanWhile _ _ _) ?_ ?_
    · intro j hj hj'
      have hused := scanWhile_passed (isBus buses) 256 bus hj hj'
      simp [unusedBus, hused]
    · intro j hj hj'
      exact scanWhile_passed (unusedBus buses) 256 unusedStart hj hj'
  · intro hlt
    exact .inr (scanWhile_stop (unusedBus buses) 256 unusedStart hlt)
  · split
    · omega
    · exact h.none

theorem unusedRound_le (buses : UsedBuses) {bus : Nat} (h : bus ≤ 256) :
    (unusedRound buses bus).2 ≤ 256 :=
  scanWhile_le _ _ _ (scanWhile_le _ _ _ h)

theorem findMaxUnusedLoop_spec {buses : UsedBuses} {bus start length : Nat}
    (h : ScannedTo buses bus start length) (hbus : bus ≤ 256) :
    ScannedTo buses 256 (findMaxUnusedLoop buses bus start length).1
      (findMaxUnusedLoop buses bus start length).2 := by
  fun_induction findMaxUnusedLoop buses bus start length with
  | case1 bus start length hlt unusedStart unusedLength _ hbetter ih =>
      have hround := h.round hlt
      dsimp only at hround
      rw [if_pos hbetter, if_pos hbetter] at hround
      exact ih hround (unusedRound_le buses hbus)
  | case2 bus start length hlt unusedStart unusedLength _ hworse ih =>
      have hround := h.round hlt
      dsimp only at hround
      rw [if_neg hworse, if_neg hworse] at hround
      exact ih hround (unusedRound_le buses hbus)
  | case3 bus start length hend =>
      obtain rfl : bus = 256 := by omega
      exact h

theorem scannedTo_zero (buses : UsedBuses) : ScannedTo buses 0 0 0 :=
  ⟨longestRun_zero, fun _ => .inl rfl, fun _ => rfl⟩

/-- The range from the first to the last bus of the longest run; and with no unused bus,
the range of all buses. -/
theorem findMaxUnused_spec (buses : UsedBuses) :
    ∃ start length, LongestRun (unusedBus buses) 256 start length ∧
      if length = 0 then findMaxUnused buses = (0, 255)
      else (findMaxUnused buses).1.toNat = start ∧
        (findMaxUnused buses).2.toNat = start + length - 1 := by
  have hscan := findMaxUnusedLoop_spec (scannedTo_zero buses) (Nat.zero_le _)
  unfold findMaxUnused
  generalize findMaxUnusedLoop buses 0 0 0 = found at hscan
  obtain ⟨start, length⟩ := found
  refine ⟨start, length, hscan.longest, ?_⟩
  have hinside := hscan.longest.run.inside
  dsimp only at hinside ⊢
  split
  · rename_i hlength
    obtain rfl : start = 0 := hscan.none hlength
    subst hlength
    rfl
  · have hmax : pciMaxBus.toNat = 255 := rfl
    have hlast : (UInt64.ofNat start + UInt64.ofNat length - 1).toNat = start + length - 1 := by
      rw [UInt64.toNat_sub, UInt64.toNat_add, UInt64.toNat_ofNat', UInt64.toNat_ofNat',
        UInt64.toNat_one]
      omega
    constructor
    · split
      · rw [UInt8.toNat_ofNat']
        omega
      · omega
    · split
      · rename_i hlt
        rw [UInt64.lt_iff_toNat_lt, hlast, UInt8.toNat_toUInt64] at hlt
        rw [UInt64.toNat_toUInt8, hlast]
        omega
      · rename_i hge
        rw [UInt64.lt_iff_toNat_lt, hlast, UInt8.toNat_toUInt64] at hge
        omega

/-- The range has no used bus, and no run of unused buses is longer; with no unused bus
it is empty. -/
structure IsBiggestUnused (buses : UsedBuses) (bigUnusedStart bigUnusedEnd : UInt8) : Prop where
  unused : ∀ bus : UInt8, bigUnusedStart ≤ bus → bus ≤ bigUnusedEnd → isBus buses bus.toNat = false
  longest : ∀ start length, FreeRun (unusedBus buses) 256 start length →
    length ≤ bigUnusedEnd.toNat + 1 - bigUnusedStart.toNat
  empty : (∀ bus : UInt8, isBus buses bus.toNat = true) → bigUnusedEnd < bigUnusedStart

/-- `Find max unused range` finds the biggest unused range exactly if there is an unused
bus. -/
theorem isBiggestUnused_findMaxUnused_iff (buses : UsedBuses) :
    IsBiggestUnused buses (findMaxUnused buses).1 (findMaxUnused buses).2 ↔
      ∃ bus : UInt8, isBus buses bus.toNat = false := by
  obtain ⟨start, length, hlongest, hfound⟩ := findMaxUnused_spec buses
  split at hfound
  · rename_i hlength
    -- A single unused bus would be a run of length one.
    have hfull : ∀ bus : UInt8, isBus buses bus.toNat = true := by
      intro bus
      by_contra hbus
      have hrun : FreeRun (unusedBus buses) 256 bus.toNat 1 := by
        refine ⟨by have := bus.toNat_lt; omega, fun i hi hi' => ?_⟩
        obtain rfl : i = bus.toNat := by omega
        simpa [unusedBus] using hbus
      have := hlongest.longest _ _ hrun
      omega
    rw [hfound]
    refine iff_of_false (fun h => ?_) fun ⟨bus, hbus⟩ => ?_
    · exact absurd (h.empty hfull) (by decide)
    · rw [hfull bus] at hbus
      cases hbus
  · rename_i hlength
    obtain ⟨hstart, hend⟩ := hfound
    have hinside := hlongest.run.inside
    have hunused : ∀ bus : UInt8, (findMaxUnused buses).1 ≤ bus → bus ≤ (findMaxUnused buses).2 →
        isBus buses bus.toNat = false := by
      intro bus hlow hhigh
      rw [UInt8.le_iff_toNat_le] at hlow hhigh
      have hfree := hlongest.run.free bus.toNat (by omega) (by omega)
      simpa [unusedBus] using hfree
    have hfirst : isBus buses (findMaxUnused buses).1.toNat = false := by
      refine hunused _ (UInt8.le_refl _) ?_
      rw [UInt8.le_iff_toNat_le]
      omega
    refine iff_of_true ⟨hunused, fun start' length' h => ?_, fun hfull => ?_⟩ ⟨_, hfirst⟩
    · have := hlongest.longest _ _ h
      omega
    · rw [hfull] at hfirst
      cases hfirst

/-- All buses are in use. -/
def fullBuses : UsedBuses := Vector.replicate 8 0xffffffff

/-- A root bridge with the range given, and one bridge below it. -/
def rangeHeap (range : UInt8 × UInt8) : Heap
  | 1 => { isSegment := true, pciType1 := true, bigUnusedStart := range.1, bigUnusedEnd := range.2 }
  | 2 => { parent := some 1, pciType1 := true, pciRootBridgeIo := some ⟨7, 0⟩ }
  | _ => {}

theorem isBus_fullBuses (bus : UInt8) : isBus fullBuses bus.toNat = true := by
  have hbus := bus.toNat_lt
  have hones : (4294967295 : UInt32).toNat = 2 ^ 32 - 1 := rfl
  rw [isBus_eq_testBit, fullBuses, Vector.getElem?_replicate, if_pos (by omega),
    Option.getD_some, hones, Nat.testBit_two_pow_sub_one, decide_eq_true (by omega)]

/-- With all buses in use the range is the whole segment, and `MoveBuses` takes bus
numbers from it. -/
theorem findMaxUnused_fullBuses :
    (∀ bus : UInt8, isBus fullBuses bus.toNat = true) ∧
      ¬ IsBiggestUnused fullBuses (findMaxUnused fullBuses).1 (findMaxUnused fullBuses).2 ∧
      ∃ moved, moveBuses 3 2 ⟨rangeHeap (findMaxUnused fullBuses), []⟩ = .ok (.success, moved) := by
  obtain ⟨start, length, hlongest, hfound⟩ := findMaxUnused_spec fullBuses
  have hlength : length = 0 := by
    by_contra hlength
    have hfree := hlongest.run.free start (Nat.le_refl _) (by omega)
    have hinside := hlongest.run.inside
    have hfull := isBus_fullBuses (.ofNat start)
    rw [UInt8.toNat_ofNat', Nat.mod_eq_of_lt (by omega)] at hfull
    simp [unusedBus, hfull] at hfree
  rw [if_pos hlength] at hfound
  rw [hfound]
  refine ⟨isBus_fullBuses, fun h => ?_, _, rfl⟩
  exact absurd (h.empty isBus_fullBuses) (by decide)

end PciMisc
end EfiApps
