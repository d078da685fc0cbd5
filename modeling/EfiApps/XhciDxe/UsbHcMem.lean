import Mathlib.Data.Finset.Basic
import Mathlib.Logic.Function.Basic
import Mathlib.Order.Interval.Finset.Nat
import EfiApps.Lib.FirstFit

/-!
# The memory pool

Rings, contexts and URB buffers come from a pool of memory blocks (`UsbHcMem.c`).  A block is
a buffer that is mapped for the controller, with one bit for each unit of it.  Allocations are
looked for in each block from its start on.

A function that has assertions returns `none` where one of them fails.  Addresses are natural
numbers.
-/

namespace EfiApps
namespace XhciDxe

def usbhcMemUnit : Nat := 64
def usbhcMemUnitMask : Nat := usbhcMemUnit - 1
def usbhcMemDefaultPages : Nat := 16
def efiPageSize : Nat := 4096

/-- `USBHC_MEM_ROUND`, of a 64-bit length. -/
def usbhcMemRound (len : Nat) : Nat :=
  (len + usbhcMemUnitMask) % 2 ^ 64 / usbhcMemUnit * usbhcMemUnit

/-- `EFI_PAGES_TO_SIZE`. -/
def efiPagesToSize (pages : Nat) : Nat := pages * efiPageSize

/-- `EFI_SIZE_TO_PAGES`. -/
def efiSizeToPages (size : Nat) : Nat :=
  size / efiPageSize + if size % efiPageSize = 0 then 0 else 1

/-! ## The bit array -/

/-- `USB_HC_BIT`. -/
def usbHcBit (bit : Nat) : BitVec 8 := 1#8 <<< bit

/-- `USB_HC_BIT_IS_SET`. -/
def usbHcBitIsSet (data : BitVec 8) (bit : Nat) : Bool := data &&& usbHcBit bit == usbHcBit bit

/-- `NEXT_BIT`. -/
def nextBit (byte bit : Nat) : Nat × Nat :=
  if bit + 1 > 7 then (byte + 1, 0) else (byte, bit + 1)

/-- The bit of a unit. -/
def unitBit (bits : Nat → BitVec 8) (u : Nat) : Bool := usbHcBitIsSet (bits (u / 8)) (u % 8)

theorem usbHcBitIsSet_eq (data : BitVec 8) {bit : Nat} (hbit : bit < 8) :
    usbHcBitIsSet data bit = data.getLsbD bit := by
  have htwoPow : usbHcBit bit = BitVec.twoPow 8 bit := rfl
  unfold usbHcBitIsSet
  rw [htwoPow, BitVec.and_twoPow]
  by_cases hset : data.getLsbD bit = true
  · simp [hset]
  · have hne : BitVec.twoPow 8 bit ≠ 0#8 := by
      intro hzero
      have hbitSet := congrArg (fun data => data.getLsbD bit) hzero
      simp [hbit] at hbitSet
    rw [if_neg hset, Bool.eq_false_iff.mpr hset, beq_eq_false_iff_ne]
    exact hne.symm

theorem getLsbD_usbHcBit {bit : Nat} (hbit : bit < 8) (i : Nat) :
    (usbHcBit bit).getLsbD i = decide (bit = i) := by
  have htwoPow : usbHcBit bit = BitVec.twoPow 8 bit := rfl
  rw [htwoPow, BitVec.getLsbD_twoPow, decide_eq_true hbit, Bool.true_and]

/-- `NEXT_BIT` goes to the bit of the next unit. -/
theorem nextBit_spec (byte : Nat) {bit : Nat} (hbit : bit < 8) :
    (nextBit byte bit).1 * 8 + (nextBit byte bit).2 = byte * 8 + bit + 1 ∧
      (nextBit byte bit).2 < 8 := by
  unfold nextBit
  split_ifs <;> simp only <;> omega

theorem unitBit_of_pos (bits : Nat → BitVec 8) (byte : Nat) {bit : Nat} (hbit : bit < 8) :
    unitBit bits (byte * 8 + bit) = usbHcBitIsSet (bits byte) bit := by
  unfold unitBit
  rw [show (byte * 8 + bit) / 8 = byte by omega, show (byte * 8 + bit) % 8 = bit by omega]

/-! ## One block -/

/-- The token that `Map` returns. -/
structure Mapping where
  host : Nat
  device : Nat
  bytes : Nat
  deriving DecidableEq, Repr

/-- `USBHC_MEM_BLOCK`; the blocks of a pool are a list. -/
structure UsbhcMemBlock where
  bits : Nat → BitVec 8
  bitsLen : Nat
  buf : Nat
  bufHost : Nat
  bufLen : Nat
  mapping : Mapping

/-- The first loop of `UsbHcAllocMemFromBlock`, for its `Byte`, `Bit`, `StartByte`, `StartBit`
and `Available`.  The last three are what it leaves. -/
def allocLoop (bits : Nat → BitVec 8) (bitsLen units : Nat)
    (byte bit startByte startBit available : Nat) : Nat × Nat × Nat :=
  if byte < bitsLen then
    if !usbHcBitIsSet (bits byte) bit then
      if available + 1 ≥ units then (startByte, startBit, available + 1)
      else
        allocLoop bits bitsLen units (nextBit byte bit).1 (nextBit byte bit).2 startByte startBit
          (available + 1)
    else
      allocLoop bits bitsLen units (nextBit byte bit).1 (nextBit byte bit).2 (nextBit byte bit).1
        (nextBit byte bit).2 0
  else (startByte, startBit, available)
termination_by (bitsLen - byte, 8 - bit)
decreasing_by all_goals
  unfold nextBit
  split_ifs
  · exact Prod.Lex.left _ _ (by omega)
  · exact Prod.Lex.right _ (by omega)

/-- A loop over the bits of `count` units from a byte and bit on, which asserts what each bit
is and changes it. -/
def bitsLoop (set : Bool) (change : BitVec 8 → BitVec 8 → BitVec 8) :
    Nat → Nat → Nat → (Nat → BitVec 8) → Option (Nat → BitVec 8)
  | 0, _, _, bits => some bits
  | count + 1, byte, bit, bits =>
      if usbHcBitIsSet (bits byte) bit = set then
        bitsLoop set change count (nextBit byte bit).1 (nextBit byte bit).2
          (Function.update bits byte (change (bits byte) (usbHcBit bit)))
      else none

/-- The second loop of `UsbHcAllocMemFromBlock`. -/
def markLoop (count byte bit : Nat) (bits : Nat → BitVec 8) : Option (Nat → BitVec 8) :=
  bitsLoop false (· ||| ·) count byte bit bits

/-- The loop of `UsbHcFreeMem` over the bits. -/
def resetLoop (count byte bit : Nat) (bits : Nat → BitVec 8) : Option (Nat → BitVec 8) :=
  bitsLoop true (· ^^^ ·) count byte bit bits

/-- `UsbHcAllocMemFromBlock`: the address, or `none` for `NULL`. -/
def usbHcAllocMemFromBlock (block : UsbhcMemBlock) (units : Nat) :
    Option (Option Nat × UsbhcMemBlock) :=
  if units = 0 then none
  else
    match allocLoop block.bits block.bitsLen units 0 0 0 0 0 with
    | (startByte, startBit, available) =>
        -- The scan has come to the end of the block.
        if available < units then some (none, block)
        else
          match markLoop units startByte startBit block.bits with
          | none => none
          | some bits =>
              some (some (block.bufHost + (startByte * 8 + startBit) * usbhcMemUnit),
                { block with bits := bits })

/-- `UsbHcIsMemBlockEmpty`. -/
def usbHcIsMemBlockEmpty (block : UsbhcMemBlock) : Bool :=
  (List.range block.bitsLen).all fun index => block.bits index == 0

/-! ## The PCI I/O protocol -/

/-- What the driver has of the firmware: pages, by their numbers, and mappings. -/
structure PciIo where
  pages : Finset Nat := ∅
  mappings : List Mapping := []

/-- The pages of a buffer. -/
def bufferPages (host pages : Nat) : Finset Nat :=
  Finset.Ico (host / efiPageSize) (host / efiPageSize + pages)

/-- `AllocateBuffer` that returns `host`. -/
def PciIo.allocateBuffer (io : PciIo) (pages host : Nat) : PciIo :=
  { io with pages := io.pages ∪ bufferPages host pages }

/-- `FreeBuffer`. -/
def PciIo.freeBuffer (io : PciIo) (pages host : Nat) : PciIo :=
  { io with pages := io.pages \ bufferPages host pages }

/-- `Map` that returns `mapping`. -/
def PciIo.map (io : PciIo) (mapping : Mapping) : PciIo :=
  { io with mappings := mapping :: io.mappings }

/-- `Unmap`. -/
def PciIo.unmap (io : PciIo) (mapping : Mapping) : PciIo :=
  { io with mappings := io.mappings.erase mapping }

/-- What the firmware answers while a block is made: whether there is pool memory for the
block and for its bits, the host address of the buffer, and the device address and the number
of bytes that are mapped. -/
structure BlockAnswer where
  block : Bool
  bits : Bool
  buffer : Option Nat
  map : Option (Nat × Nat)

/-- The block that `UsbHcAllocMemBlock` fills in. -/
def newMemBlock (pages bufHost mappedAddr : Nat) (mapping : Mapping) : UsbhcMemBlock where
  bits _ := 0
  bitsLen := efiPagesToSize pages / (usbhcMemUnit * 8)
  buf := mappedAddr
  bufHost := bufHost
  bufLen := efiPagesToSize pages
  mapping := mapping

/-- `UsbHcAllocMemBlock`, or `none` for `NULL`. -/
def usbHcAllocMemBlock (answer : BlockAnswer) (io : PciIo) (pages : Nat) :
    Option UsbhcMemBlock × PciIo :=
  if !answer.block then (none, io)
  else if !answer.bits then (none, io)
  else
    match answer.buffer with
    | none => (none, io)
    | some bufHost =>
        let io := io.allocateBuffer pages bufHost
        match answer.map with
        | none => (none, io.freeBuffer pages bufHost)
        | some (mappedAddr, bytes) =>
            let mapping : Mapping := { host := bufHost, device := mappedAddr, bytes := bytes }
            let io := io.map mapping
            if bytes ≠ efiPagesToSize pages then
              -- The buffer goes back while it is mapped.
              (none, io.freeBuffer pages bufHost)
            else
              (some (newMemBlock pages bufHost mappedAddr mapping), io)

/-- How `UsbHcAllocMemBlock` ends: before it has a buffer, without a mapping, with a mapping
that is not whole, or with a block. -/
theorem usbHcAllocMemBlock_cases (answer : BlockAnswer) (io : PciIo) (pages : Nat) :
    usbHcAllocMemBlock answer io pages = (none, io) ∨
    ∃ host, answer.buffer = some host ∧
      (usbHcAllocMemBlock answer io pages =
          (none, (io.allocateBuffer pages host).freeBuffer pages host) ∨
        ∃ device bytes, answer.map = some (device, bytes) ∧
          (bytes ≠ efiPagesToSize pages ∧
              usbHcAllocMemBlock answer io pages =
                (none, ((io.allocateBuffer pages host).map ⟨host, device, bytes⟩).freeBuffer
                  pages host) ∨
            bytes = efiPagesToSize pages ∧
              usbHcAllocMemBlock answer io pages =
                (some (newMemBlock pages host device ⟨host, device, bytes⟩),
                  (io.allocateBuffer pages host).map ⟨host, device, bytes⟩))) := by
  obtain ⟨block, bits, buffer, map⟩ := answer
  unfold usbHcAllocMemBlock
  cases block with
  | false => exact Or.inl rfl
  | true =>
      cases bits with
      | false => exact Or.inl rfl
      | true =>
          cases buffer with
          | none => exact Or.inl rfl
          | some host =>
              refine Or.inr ⟨host, rfl, ?_⟩
              cases map with
              | none => exact Or.inl rfl
              | some mapped =>
                  obtain ⟨device, bytes⟩ := mapped
                  refine Or.inr ⟨device, bytes, rfl, ?_⟩
                  by_cases hbytes : bytes = efiPagesToSize pages
                  · exact Or.inr ⟨hbytes, by simp [hbytes]⟩
                  · exact Or.inl ⟨hbytes, by simp [hbytes]⟩

/-- `UsbHcFreeMemBlock`. -/
def usbHcFreeMemBlock (io : PciIo) (block : UsbhcMemBlock) : PciIo :=
  (io.unmap block.mapping).freeBuffer (efiSizeToPages block.bufLen) block.bufHost

/-! ## The pool -/

/-- `USBHC_MEM_POOL`: the blocks, with `Head` as the first. -/
structure UsbhcMemPool where
  blocks : List UsbhcMemBlock

/-- `UsbHcInitMemPool`, where there is pool memory for the pool itself. -/
def usbHcInitMemPool (answer : BlockAnswer) (io : PciIo) : Option UsbhcMemPool × PciIo :=
  match usbHcAllocMemBlock answer io usbhcMemDefaultPages with
  | (none, io) => (none, io)
  | (some block, io) => (some { blocks := [block] }, io)

/-- `UsbHcInsertMemBlockToPool`: behind the head. -/
def usbHcInsertMemBlockToPool (block : UsbhcMemBlock) : List UsbhcMemBlock → List UsbhcMemBlock
  | [] => [block]
  | head :: next => head :: block :: next

/-- The loop of `UsbHcAllocateMem` over the blocks. -/
def allocFromBlocks (units : Nat) :
    List UsbhcMemBlock → Option (Option Nat × List UsbhcMemBlock)
  | [] => some (none, [])
  | block :: next =>
      match usbHcAllocMemFromBlock block units with
      | none => none
      | some (some mem, block') => some (some mem, block' :: next)
      | some (none, block') =>
          match allocFromBlocks units next with
          | none => none
          | some (mem, next') => some (mem, block' :: next')

/-- The pages of a new block. -/
def newBlockPages (allocSize : Nat) : Nat :=
  if allocSize > efiPagesToSize usbhcMemDefaultPages then efiSizeToPages allocSize + 1
  else usbhcMemDefaultPages

/-- `UsbHcAllocateMem`: the address, or `none` for `NULL`. -/
def usbHcAllocateMem (answer : BlockAnswer) (io : PciIo) (pool : UsbhcMemPool) (size : Nat) :
    Option (Option Nat × UsbhcMemPool × PciIo) :=
  let allocSize := usbhcMemRound size
  match allocFromBlocks (allocSize / usbhcMemUnit) pool.blocks with
  | none => none
  | some (some mem, blocks) => some (some mem, { blocks := blocks }, io)
  | some (none, blocks) =>
      -- No block has room, so there is to be one more.
      match usbHcAllocMemBlock answer io (newBlockPages allocSize) with
      | (none, io) => some (none, { blocks := blocks }, io)
      | (some newBlock, io) =>
          match usbHcAllocMemFromBlock newBlock (allocSize / usbhcMemUnit) with
          | none => none
          | some (mem, newBlock) =>
              some (mem, { blocks := usbHcInsertMemBlockToPool newBlock blocks }, io)

/-- The test for the block that completely contains some host memory. -/
def UsbhcMemBlock.holds (block : UsbhcMemBlock) (mem allocSize : Nat) : Bool :=
  block.bufHost ≤ mem && mem + allocSize ≤ block.bufHost + block.bufLen

/-- The loop of `UsbHcFreeMem`, and the block that is unlinked after it, if any. -/
def freeInBlocks (mem allocSize : Nat) :
    Bool → List UsbhcMemBlock → Option (List UsbhcMemBlock × Option UsbhcMemBlock)
  | _, [] => none
  | isHead, block :: next =>
      if block.holds mem allocSize then
        match resetLoop (allocSize / usbhcMemUnit) ((mem - block.bufHost) / usbhcMemUnit / 8)
          ((mem - block.bufHost) / usbhcMemUnit % 8) block.bits with
        | none => none
        | some bits =>
            let block := { block with bits := bits }
            -- The head of the list stays, even if it is empty.
            if !isHead && usbHcIsMemBlockEmpty block then some (next, some block)
            else some (block :: next, none)
      else
        match freeInBlocks mem allocSize false next with
        | none => none
        | some (next', unlinked) => some (block :: next', unlinked)

/-- `UsbHcFreeMem`. -/
def usbHcFreeMem (io : PciIo) (pool : UsbhcMemPool) (mem size : Nat) :
    Option (UsbhcMemPool × PciIo) :=
  match freeInBlocks mem (usbhcMemRound size) true pool.blocks with
  | none => none
  | some (blocks, none) => some ({ blocks := blocks }, io)
  | some (blocks, some block) => some ({ blocks := blocks }, usbHcFreeMemBlock io block)

/-- The loop of `UsbHcFreeMemPool` over the blocks behind the head. -/
def usbHcFreeMemPool (io : PciIo) (pool : UsbhcMemPool) : Option PciIo :=
  match pool.blocks with
  | [] => none
  | head :: next => some (usbHcFreeMemBlock (next.foldl usbHcFreeMemBlock io) head)

/-- `UsbHcGetPciAddrForHostAddr`. -/
def usbHcGetPciAddrForHostAddr (pool : UsbhcMemPool) (mem size : Nat) : Option Nat :=
  if mem = 0 then some 0
  else
    (pool.blocks.find? fun block => block.holds mem (usbhcMemRound size)).map fun block =>
      block.buf + (mem - block.bufHost)

/-- `UsbHcGetHostAddrForPciAddr`. -/
def usbHcGetHostAddrForPciAddr (pool : UsbhcMemPool) (mem size : Nat) : Option Nat :=
  if mem = 0 then some 0
  else
    (pool.blocks.find? fun block =>
      block.buf ≤ mem && mem + usbhcMemRound size ≤ block.buf + block.bufLen).map fun block =>
        block.bufHost + (mem - block.buf)

/-! ## What the loops do -/

section Loops

variable {bits : Nat → BitVec 8} {bitsLen units : Nat}

/-- The first loop finds the first run of free units that is long enough. -/
theorem allocLoop_spec {byte bit startByte startBit available : Nat} (hbit : bit < 8)
    (hstartBit : startBit < 8)
    (hscanned : Scanned (unitBit bits) units (startByte * 8 + startBit) (byte * 8 + bit))
    (havailable : startByte * 8 + startBit + available = byte * 8 + bit) {r : Nat × Nat × Nat}
    (hrun : allocLoop bits bitsLen units byte bit startByte startBit available = r) :
    (r.2.2 < units → ∀ s, ¬Fits (unitBit bits) (bitsLen * 8) units s) ∧
      (units ≤ r.2.2 →
        FirstFit (unitBit bits) (bitsLen * 8) units (r.1 * 8 + r.2.1) ∧ r.2.1 < 8) := by
  fun_induction allocLoop bits bitsLen units byte bit startByte startBit available with
  | case1 byte bit startByte startBit available hbyte hclear hlong =>
      -- The run is long enough.
      rw [← unitBit_of_pos bits byte hbit, Bool.not_eq_true'] at hclear
      have hfit := hscanned.firstFit hclear (by omega)
        (show byte * 8 + bit < bitsLen * 8 by omega)
      subst hrun
      exact ⟨fun hshort => by simp only at hshort; omega, fun _ => ⟨hfit, hstartBit⟩⟩
  | case2 byte bit startByte startBit available hbyte hclear hshort ih =>
      obtain ⟨hnext, hbit'⟩ := nextBit_spec byte hbit
      rw [← unitBit_of_pos bits byte hbit, Bool.not_eq_true'] at hclear
      have hon := hscanned.next hclear (by omega)
      rw [← hnext] at hon
      exact ih hbit' hstartBit hon (by omega) hrun
  | case3 byte bit startByte startBit available hbyte hset ih =>
      obtain ⟨hnext, hbit'⟩ := nextBit_spec byte hbit
      rw [← unitBit_of_pos bits byte hbit, Bool.not_eq_true', Bool.not_eq_false] at hset
      have hon := hscanned.restart hset
      rw [← hnext] at hon
      exact ih hbit' hbit' hon (by omega) hrun
  | case4 byte bit startByte startBit available hbyte =>
      have hshort := hscanned.short
      subst hrun
      exact ⟨fun _ => hscanned.none_fits (by omega), fun hlong => by simp only at hlong; omega⟩

/-- A loop over bits that are all as it asserts flips them, and no others. -/
theorem bitsLoop_spec {set : Bool} {change : BitVec 8 → BitVec 8 → BitVec 8}
    (hchange : ∀ data bit i, bit < 8 → i < 8 → usbHcBitIsSet data bit = set →
      usbHcBitIsSet (change data (usbHcBit bit)) i = if i = bit then !set else usbHcBitIsSet data i)
    (count byte : Nat) {bit : Nat} (hbit : bit < 8)
    (hall : ∀ u, byte * 8 + bit ≤ u → u < byte * 8 + bit + count → unitBit bits u = set) :
    ∃ bits', bitsLoop set change count byte bit bits = some bits' ∧
      ∀ u, unitBit bits' u =
        if byte * 8 + bit ≤ u ∧ u < byte * 8 + bit + count then !set else unitBit bits u := by
  induction count generalizing byte bit bits with
  | zero => exact ⟨bits, rfl, fun u => by rw [if_neg (by omega)]⟩
  | succ count ih =>
      obtain ⟨hnext, hbit'⟩ := nextBit_spec byte hbit
      have hset : usbHcBitIsSet (bits byte) bit = set := by
        rw [← unitBit_of_pos bits byte hbit]
        exact hall _ (Nat.le_refl _) (by omega)
      -- The update changes the bit of this unit alone.
      have hupdate : ∀ u, unitBit (Function.update bits byte
          (change (bits byte) (usbHcBit bit))) u =
          if u = byte * 8 + bit then !set else unitBit bits u := by
        intro u
        unfold unitBit
        by_cases hbyte : u / 8 = byte
        · rw [hbyte, Function.update_self, hchange _ _ _ hbit (by omega) hset]
          by_cases hsame : u % 8 = bit
          · rw [if_pos hsame, if_pos (by omega)]
          · rw [if_neg hsame, if_neg (by omega)]
        · rw [Function.update_of_ne hbyte, if_neg (by omega)]
      have hrest : ∀ u, (nextBit byte bit).1 * 8 + (nextBit byte bit).2 ≤ u →
          u < (nextBit byte bit).1 * 8 + (nextBit byte bit).2 + count →
          unitBit (Function.update bits byte (change (bits byte) (usbHcBit bit))) u = set := by
        intro u hu hu'
        rw [hupdate u, if_neg (by omega)]
        exact hall u (by omega) (by omega)
      obtain ⟨bits', hrun, hbits⟩ := ih (nextBit byte bit).1 hbit' hrest
      refine ⟨bits', by rw [bitsLoop, if_pos hset, hrun], fun u => ?_⟩
      rw [hbits u, hupdate u, hnext]
      split_ifs <;> first | rfl | omega

theorem markLoop_spec (count byte : Nat) {bit : Nat} (hbit : bit < 8)
    (hall : ∀ u, byte * 8 + bit ≤ u → u < byte * 8 + bit + count → unitBit bits u = false) :
    ∃ bits', markLoop count byte bit bits = some bits' ∧
      ∀ u, unitBit bits' u =
        if byte * 8 + bit ≤ u ∧ u < byte * 8 + bit + count then true else unitBit bits u := by
  apply bitsLoop_spec _ count byte hbit hall
  intro data bit i hbit hi hclear
  rw [usbHcBitIsSet_eq _ hi, usbHcBitIsSet_eq _ hi, BitVec.getLsbD_or, getLsbD_usbHcBit hbit]
  by_cases hsame : i = bit
  · simp [hsame]
  · simp [hsame, Ne.symm hsame]

theorem resetLoop_spec (count byte : Nat) {bit : Nat} (hbit : bit < 8)
    (hall : ∀ u, byte * 8 + bit ≤ u → u < byte * 8 + bit + count → unitBit bits u = true) :
    ∃ bits', resetLoop count byte bit bits = some bits' ∧
      ∀ u, unitBit bits' u =
        if byte * 8 + bit ≤ u ∧ u < byte * 8 + bit + count then false else unitBit bits u := by
  apply bitsLoop_spec _ count byte hbit hall
  intro data bit i hbit hi hset
  rw [usbHcBitIsSet_eq _ hbit] at hset
  rw [usbHcBitIsSet_eq _ hi, usbHcBitIsSet_eq _ hi, BitVec.getLsbD_xor, getLsbD_usbHcBit hbit]
  by_cases hsame : i = bit
  · simp [hsame, hset]
  · simp [hsame, Ne.symm hsame]

end Loops

/-- An allocation from a block is its first run of free units, and marks that run alone. -/
theorem usbHcAllocMemFromBlock_spec (block : UsbhcMemBlock) {units : Nat} (hunits : 0 < units) :
    (usbHcAllocMemFromBlock block units = some (none, block) ∧
      ∀ s, ¬Fits (unitBit block.bits) (block.bitsLen * 8) units s) ∨
    ∃ s bits', FirstFit (unitBit block.bits) (block.bitsLen * 8) units s ∧
      usbHcAllocMemFromBlock block units =
        some (some (block.bufHost + s * usbhcMemUnit), { block with bits := bits' }) ∧
      ∀ u, unitBit bits' u = if s ≤ u ∧ u < s + units then true else unitBit block.bits u := by
  obtain ⟨hnone, hsome⟩ := allocLoop_spec (r := allocLoop block.bits block.bitsLen units 0 0 0 0 0)
    (Nat.succ_pos 7) (Nat.succ_pos 7) (Scanned.init hunits) rfl rfl
  unfold usbHcAllocMemFromBlock
  rw [if_neg (Nat.pos_iff_ne_zero.mp hunits)]
  by_cases hshort : (allocLoop block.bits block.bitsLen units 0 0 0 0 0).2.2 < units
  · exact Or.inl ⟨by simp only [if_pos hshort], hnone hshort⟩
  · obtain ⟨hfit, hbit⟩ := hsome (Nat.le_of_not_lt hshort)
    obtain ⟨bits', hmark, hbits⟩ := markLoop_spec units _ hbit hfit.1.2
    exact Or.inr ⟨_, bits', hfit, by simp only [if_neg hshort, hmark], hbits⟩

/-- A block is empty if no bit of its units is set. -/
theorem usbHcIsMemBlockEmpty_iff (block : UsbhcMemBlock) :
    usbHcIsMemBlockEmpty block = true ↔
      ∀ u, u < block.bitsLen * 8 → unitBit block.bits u = false := by
  unfold usbHcIsMemBlockEmpty
  simp only [List.all_eq_true, List.mem_range, beq_iff_eq]
  constructor
  · intro hzero u hu
    unfold unitBit
    rw [hzero _ (by omega), usbHcBitIsSet_eq _ (by omega)]
    simp
  · intro hclear index hindex
    apply BitVec.eq_of_getLsbD_eq
    intro i hi
    have hunit := hclear (index * 8 + i) (by omega)
    rw [unitBit_of_pos _ _ hi, usbHcBitIsSet_eq _ hi] at hunit
    simp [hunit]

end XhciDxe
end EfiApps
