import Mathlib.Logic.Relation
import EfiApps.Lib.Extents
import EfiApps.XhciDxe.UsbHcMem

/-!
# Runs of the memory pool

The driver allocates memory from the pool and frees it with the size that it was allocated
with.  The firmware answers as it likes, but a buffer that it returns is of pages that the
driver does not have, and a device range is apart from those of the blocks.
-/

namespace EfiApps
namespace XhciDxe

/-! ## Sizes -/

theorem usbhcMemRound_of_lt {size : Nat} (hsize : size + usbhcMemUnitMask < 2 ^ 64) :
    usbhcMemRound size = (size + 63) / 64 * 64 := by
  unfold usbhcMemRound
  rw [Nat.mod_eq_of_lt hsize]
  rfl

/-- The sizes that the driver asks for: not zero, and not so large that rounding overflows. -/
def GoodSize (size : Nat) : Prop := 0 < size ∧ size + usbhcMemUnitMask < 2 ^ 64

/-- A good size is rounded up to whole units. -/
theorem GoodSize.round {size : Nat} (h : GoodSize size) :
    ∃ units, 0 < units ∧ usbhcMemRound size = units * 64 ∧ size ≤ units * 64 := by
  have hpos := h.1
  exact ⟨(size + 63) / 64, by omega, usbhcMemRound_of_lt h.2, by omega⟩

/-! ## Blocks and allocations -/

/-- The units of a block, numbered through all of memory. -/
def UsbhcMemBlock.units (block : UsbhcMemBlock) : Set Nat :=
  Set.Ico (block.bufHost / 64) (block.bufHost / 64 + block.bitsLen * 8)

/-- The host buffer of a block. -/
def UsbhcMemBlock.buffer (block : UsbhcMemBlock) : Nat × Nat :=
  (block.bufHost, efiSizeToPages block.bufLen)

/-- The pages of a buffer, as a region. -/
def bufferRegion (buffer : Nat × Nat) : Set Nat := ↑(bufferPages buffer.1 buffer.2)

/-- What `UsbHcAllocMemBlock` sets up, but for the bits. -/
structure UsbhcMemBlock.WellFormed (block : UsbhcMemBlock) : Prop where
  pos : 0 < block.bufHost
  aligned : block.bufHost % efiPageSize = 0
  len : ∃ pages, 0 < pages ∧ block.bufLen = pages * efiPageSize
  bitsLen : block.bitsLen * 512 = block.bufLen
  mapping : block.mapping =
    { host := block.bufHost, device := block.buf, bytes := block.bufLen }

/-- What the driver holds: an address from `UsbHcAllocateMem`, and the size. -/
structure Allocation where
  mem : Nat
  size : Nat
  deriving DecidableEq, Repr

/-- The units of an allocation. -/
def Allocation.region (x : Allocation) : Set Nat :=
  Set.Ico (x.mem / 64) (x.mem / 64 + usbhcMemRound x.size / 64)

/-- The units whose bits are set. -/
def usedUnits (blocks : List UsbhcMemBlock) : Set Nat :=
  {a | ∃ block ∈ blocks, a ∈ block.units ∧
    unitBit block.bits (a - block.bufHost / 64) = true}

/-- Two mappings are apart for the device. -/
def Mapping.Apart (m n : Mapping) : Prop :=
  m.device + m.bytes ≤ n.device ∨ n.device + n.bytes ≤ m.device

/-- What the firmware promises of its answers. -/
structure BlockAnswer.Honest (answer : BlockAnswer) (blocks : List UsbhcMemBlock) (io : PciIo)
    (pages : Nat) : Prop where
  buffer : ∀ host, answer.buffer = some host →
    0 < host ∧ host % efiPageSize = 0 ∧ Disjoint (bufferPages host pages) io.pages
  map : ∀ host device bytes, answer.map = some (device, bytes) → ∀ block ∈ blocks,
    Mapping.Apart { host := host, device := device, bytes := bytes } block.mapping

/-- `Map` maps the whole buffer if it maps it. -/
def BlockAnswer.Whole (answer : BlockAnswer) (pages : Nat) : Prop :=
  ∀ device bytes, answer.map = some (device, bytes) → bytes = efiPagesToSize pages

/-! ## The invariant -/

/-- The pages of the driver are the buffers of the blocks, and its mappings theirs; but for
mappings that were not whole. -/
structure Backed (whole : Prop) (blocks : List UsbhcMemBlock) (io : PciIo) : Prop where
  pages : Tracks bufferRegion ↑io.pages (blocks.map UsbhcMemBlock.buffer)
  mappings : ∃ leaked, io.mappings.Perm (blocks.map UsbhcMemBlock.mapping ++ leaked) ∧
    (whole → leaked = [])
  apart : (blocks.map UsbhcMemBlock.mapping).Pairwise Mapping.Apart

/-- The pool, the firmware and what the driver holds agree: the blocks are buffers of the
driver and mapped, and the bits that are set are those of the allocations. -/
structure Consistent (whole : Prop) (blocks : List UsbhcMemBlock) (io : PciIo)
    (live : List Allocation) : Prop where
  wellFormed : ∀ block ∈ blocks, block.WellFormed
  backed : Backed whole blocks io
  tracked : Tracks Allocation.region (usedUnits blocks) live
  placed : ∀ x ∈ live, GoodSize x.size ∧ x.mem % 64 = 0 ∧
    ∃ block ∈ blocks, block.holds x.mem (usbhcMemRound x.size) = true

section Geometry

variable {block c : UsbhcMemBlock} {mem n : Nat}

theorem UsbhcMemBlock.WellFormed.bitsLen_mul (h : block.WellFormed) :
    block.bitsLen * 8 * 64 = block.bufLen := by
  rw [Nat.mul_assoc]
  exact h.bitsLen

theorem UsbhcMemBlock.WellFormed.aligned_unit (h : block.WellFormed) :
    block.bufHost / 64 * 64 = block.bufHost := by
  have haligned := h.aligned
  unfold efiPageSize at haligned
  omega

theorem UsbhcMemBlock.WellFormed.pages_eq (h : block.WellFormed) :
    efiSizeToPages block.bufLen * efiPageSize = block.bufLen := by
  obtain ⟨pages, _, hlen⟩ := h.len
  unfold efiSizeToPages efiPageSize at *
  rw [hlen, Nat.mul_mod_left, if_pos rfl, Nat.add_zero, Nat.mul_div_left _ (by decide)]

theorem holds_iff (mem n : Nat) :
    block.holds mem n = true ↔
      block.bufHost ≤ mem ∧ mem + n ≤ block.bufHost + block.bufLen := by
  simp [UsbhcMemBlock.holds]

/-- A unit of a block is on one of its pages. -/
theorem UsbhcMemBlock.WellFormed.page_of_unit (h : block.WellFormed) {a : Nat}
    (ha : a ∈ block.units) : a / 64 ∈ bufferRegion block.buffer := by
  obtain ⟨hlow, hhigh⟩ := ha
  have hunit := h.aligned_unit
  have haligned := h.aligned
  have hpages := h.pages_eq
  have hbits := h.bitsLen_mul
  simp only [bufferRegion, bufferPages, UsbhcMemBlock.buffer, Finset.coe_Ico, Set.mem_Ico]
  unfold efiPageSize at *
  omega

/-- The bytes of the buffer of a block. -/
def UsbhcMemBlock.Covers (block : UsbhcMemBlock) (m : Nat) : Prop :=
  block.bufHost ≤ m ∧ m < block.bufHost + block.bufLen

/-- Two buffers share no byte. -/
def UsbhcMemBlock.NoneShared (block c : UsbhcMemBlock) : Prop :=
  ∀ m, block.Covers m → ¬c.Covers m

instance : Std.Symm UsbhcMemBlock.NoneShared where
  symm _ _ h m hcm hbm := h m hbm hcm

/-- The device ranges of two blocks are apart. -/
def UsbhcMemBlock.DevicesApart (block c : UsbhcMemBlock) : Prop :=
  block.buf + block.bufLen ≤ c.buf ∨ c.buf + c.bufLen ≤ block.buf

instance : Std.Symm UsbhcMemBlock.DevicesApart where
  symm _ _ h := h.symm

theorem covers_of_holds (hn : 0 < n) (hholds : block.holds mem n = true) : block.Covers mem := by
  obtain ⟨hlow, hhigh⟩ := (holds_iff _ _).mp hholds
  exact ⟨hlow, by omega⟩

theorem UsbhcMemBlock.WellFormed.page_of_covers (h : block.WellFormed) {m : Nat}
    (hm : block.Covers m) : m / efiPageSize ∈ bufferRegion block.buffer := by
  obtain ⟨hlow, hhigh⟩ := hm
  have haligned := h.aligned
  have hpages := h.pages_eq
  simp only [bufferRegion, bufferPages, UsbhcMemBlock.buffer, Finset.coe_Ico, Set.mem_Ico]
  unfold efiPageSize at *
  omega

/-- The units that a block holds are units of it. -/
theorem UsbhcMemBlock.WellFormed.units_of_holds (h : block.WellFormed) {units : Nat}
    (hmem : mem % 64 = 0) (hholds : block.holds mem (units * 64) = true) :
    Set.Ico (mem / 64) (mem / 64 + units) ⊆ block.units := by
  obtain ⟨hlow, hhigh⟩ := (holds_iff _ _).mp hholds
  have hunit := h.aligned_unit
  have hbits := h.bitsLen_mul
  rintro a ⟨ha, ha'⟩
  constructor <;> omega

end Geometry

section Blocks

variable {blocks pre post : List UsbhcMemBlock} {block : UsbhcMemBlock}

/-- The unit of a block is in use if its bit is set. -/
theorem mem_usedUnits_iff
    (hunits : blocks.Pairwise fun b c => Disjoint b.units c.units) (hblock : block ∈ blocks)
    {a : Nat} (ha : a ∈ block.units) :
    a ∈ usedUnits blocks ↔ unitBit block.bits (a - block.bufHost / 64) = true := by
  constructor
  · rintro ⟨c, hc, hac, hbit⟩
    by_cases hsame : c = block
    · rw [← hsame]
      exact hbit
    · have hdisjoint := hunits.forall hc hblock hsame
      exact absurd ha (Set.disjoint_left.mp hdisjoint hac)
  · intro hbit
    exact ⟨block, hblock, ha, hbit⟩

theorem mem_usedUnits_append (a : Nat) :
    a ∈ usedUnits (pre ++ post) ↔ a ∈ usedUnits pre ∨ a ∈ usedUnits post := by
  simp [usedUnits, or_and_right, exists_or]

theorem mem_usedUnits_cons (a : Nat) :
    a ∈ usedUnits (block :: post) ↔
      a ∈ block.units ∧ unitBit block.bits (a - block.bufHost / 64) = true ∨
        a ∈ usedUnits post := by
  simp [usedUnits]

/-- A block whose bits are changed for a run of units. -/
theorem usedUnits_replace
    (hunits : (pre ++ block :: post).Pairwise fun b c => Disjoint b.units c.units)
    {bits : Nat → BitVec 8} {set : Bool} {s units : Nat} (hin : s + units ≤ block.bitsLen * 8)
    (hbits : ∀ u, unitBit bits u = if s ≤ u ∧ u < s + units then set else unitBit block.bits u)
    (a : Nat) :
    a ∈ usedUnits (pre ++ { block with bits := bits } :: post) ↔
      if a ∈ Set.Ico (block.bufHost / 64 + s) (block.bufHost / 64 + s + units) then set = true
      else a ∈ usedUnits (pre ++ block :: post) := by
  have hunits' : (pre ++ { block with bits := bits } :: post).Pairwise
      fun b c => Disjoint b.units c.units := by
    rw [List.pairwise_append, List.pairwise_cons] at hunits ⊢
    simp only [List.mem_cons, forall_eq_or_imp] at hunits ⊢
    exact hunits
  have hmem : block ∈ pre ++ block :: post := by simp
  have hmem' : { block with bits := bits } ∈ pre ++ { block with bits := bits } :: post := by simp
  by_cases ha : a ∈ block.units
  · rw [mem_usedUnits_iff hunits' hmem' (a := a) ha, mem_usedUnits_iff hunits hmem ha, hbits]
    obtain ⟨hlow, hhigh⟩ := ha
    simp only [Set.mem_Ico]
    by_cases hrun : s ≤ a - block.bufHost / 64 ∧ a - block.bufHost / 64 < s + units
    · rw [if_pos hrun, if_pos (by omega)]
    · rw [if_neg hrun, if_neg (by omega)]
  · have hout : a ∉ Set.Ico (block.bufHost / 64 + s) (block.bufHost / 64 + s + units) := by
      rintro ⟨hlow, hhigh⟩
      exact ha ⟨by omega, by omega⟩
    rw [if_neg hout]
    simp only [mem_usedUnits_append, mem_usedUnits_cons, UsbhcMemBlock.units] at ha ⊢
    simp only [ha, false_and, false_or]

/-! ## Keeping the invariant -/

variable {whole : Prop} {io : PciIo} {live : List Allocation}

theorem Consistent.units_disjoint (h : Consistent whole blocks io live) :
    blocks.Pairwise fun b c => Disjoint b.units c.units := by
  have hpages := List.pairwise_map.mp h.backed.pages.disjoint
  refine hpages.imp_of_mem fun {b c} hb hc hdisjoint => ?_
  rw [Set.disjoint_left] at hdisjoint ⊢
  intro a hab hac
  exact hdisjoint ((h.wellFormed b hb).page_of_unit hab) ((h.wellFormed c hc).page_of_unit hac)

/-- The buffers of the blocks are disjoint. -/
theorem Consistent.covers_disjoint (h : Consistent whole blocks io live) :
    blocks.Pairwise UsbhcMemBlock.NoneShared := by
  have hpages := List.pairwise_map.mp h.backed.pages.disjoint
  refine hpages.imp_of_mem fun {b c} hb hc hdisjoint m hbm hcm => ?_
  exact Set.disjoint_left.mp hdisjoint ((h.wellFormed b hb).page_of_covers hbm)
    ((h.wellFormed c hc).page_of_covers hcm)

/-- The device ranges of the blocks are disjoint. -/
theorem Consistent.devices_apart (h : Consistent whole blocks io live) :
    blocks.Pairwise UsbhcMemBlock.DevicesApart := by
  refine (List.pairwise_map.mp h.backed.apart).imp_of_mem fun {b c} hb hc hbc => ?_
  rw [(h.wellFormed b hb).mapping, (h.wellFormed c hc).mapping] at hbc
  exact hbc

/-- Only the bits of one block change. -/
theorem Consistent.replace (h : Consistent whole (pre ++ block :: post) io live)
    {bits : Nat → BitVec 8} {live' : List Allocation}
    (htracked : Tracks Allocation.region
      (usedUnits (pre ++ { block with bits := bits } :: post)) live')
    (hplaced : ∀ x ∈ live', GoodSize x.size ∧ x.mem % 64 = 0 ∧
      ∃ c ∈ pre ++ block :: post, c.holds x.mem (usbhcMemRound x.size) = true) :
    Consistent whole (pre ++ { block with bits := bits } :: post) io live' where
  wellFormed c hc := by
    rcases List.mem_append.mp hc with hc | hc
    · exact h.wellFormed c (List.mem_append_left _ hc)
    · rcases List.mem_cons.mp hc with rfl | hc
      · have hblock := h.wellFormed block (by simp)
        exact ⟨hblock.pos, hblock.aligned, hblock.len, hblock.bitsLen, hblock.mapping⟩
      · exact h.wellFormed c (List.mem_append_right _ (List.mem_cons_of_mem _ hc))
  backed := by
    obtain ⟨hpages, hmappings, hapart⟩ := h.backed
    rw [List.map_append, List.map_cons] at hpages hmappings hapart
    constructor
    · rw [List.map_append, List.map_cons]
      exact hpages
    · rw [List.map_append, List.map_cons]
      exact hmappings
    · rw [List.map_append, List.map_cons]
      exact hapart
  tracked := htracked
  placed x hx := by
    obtain ⟨hsize, hmem, c, hc, hholds⟩ := hplaced x hx
    refine ⟨hsize, hmem, ?_⟩
    rcases List.mem_append.mp hc with hc | hc
    · exact ⟨c, List.mem_append_left _ hc, hholds⟩
    · rcases List.mem_cons.mp hc with rfl | hc
      · exact ⟨{ c with bits := bits }, by simp, hholds⟩
      · exact ⟨c, List.mem_append_right _ (List.mem_cons_of_mem _ hc), hholds⟩

/-- The units of an allocation from a block. -/
theorem UsbhcMemBlock.WellFormed.region_eq (h : block.WellFormed) (s : Nat) {size units : Nat}
    (hround : usbhcMemRound size = units * 64) :
    Allocation.region { mem := block.bufHost + s * usbhcMemUnit, size := size } =
      Set.Ico (block.bufHost / 64 + s) (block.bufHost / 64 + s + units) := by
  have hunit := h.aligned_unit
  unfold Allocation.region usbhcMemUnit
  rw [hround, Nat.mul_div_left _ (by decide),
    show (block.bufHost + s * 64) / 64 = block.bufHost / 64 + s by omega]

/-- An allocation of free units. -/
theorem Consistent.alloc (h : Consistent whole (pre ++ block :: post) io live)
    {size units s : Nat} (hsize : GoodSize size) (hround : usbhcMemRound size = units * 64)
    (hfit : Fits (unitBit block.bits) (block.bitsLen * 8) units s) {bits : Nat → BitVec 8}
    (hbits : ∀ u, unitBit bits u = if s ≤ u ∧ u < s + units then true else unitBit block.bits u) :
    Consistent whole (pre ++ { block with bits := bits } :: post) io
      ({ mem := block.bufHost + s * usbhcMemUnit, size := size } :: live) := by
  have hblock := h.wellFormed block (by simp)
  have hunit := hblock.aligned_unit
  have hlen := hblock.bitsLen_mul
  have hregion := hblock.region_eq s hround
  have hunits := h.units_disjoint
  obtain ⟨hroom, hfree⟩ := hfit
  apply h.replace
  · -- The units were free, and now their bits are set.
    have hnonempty : units ≠ 0 := by
      intro hzero
      obtain ⟨n, hpos, heq, _⟩ := hsize.round
      omega
    refine (h.tracked.alloc ?_ ?_).congr fun a => ?_
    · rw [hregion]
      exact ⟨block.bufHost / 64 + s, Nat.le_refl _, by omega⟩
    · rw [hregion, Set.disjoint_left]
      rintro a ⟨hlow, hhigh⟩ hused
      have ha : a ∈ block.units := ⟨by omega, by omega⟩
      rw [mem_usedUnits_iff hunits (by simp) ha, hfree _ (by omega) (by omega)] at hused
      cases hused
    · rw [usedUnits_replace hunits hroom hbits, hregion, Set.mem_union]
      by_cases ha : a ∈ Set.Ico (block.bufHost / 64 + s) (block.bufHost / 64 + s + units)
      · simp only [ha, if_true, true_or]
      · simp only [ha, if_false, false_or]
  · intro x hx
    rcases List.mem_cons.mp hx with rfl | hx
    · refine ⟨hsize, ?_, block, by simp, ?_⟩
      · unfold usbhcMemUnit
        simp only
        omega
      · rw [holds_iff, hround]
        unfold usbhcMemUnit
        simp only
        omega
    · exact h.placed x hx

/-- An allocation is given back. -/
theorem Consistent.free (h : Consistent whole (pre ++ block :: post) io live) {x : Allocation}
    (hx : x ∈ live) {units s : Nat} (hround : usbhcMemRound x.size = units * 64)
    (hmem : x.mem = block.bufHost + s * usbhcMemUnit) (hroom : s + units ≤ block.bitsLen * 8)
    {bits : Nat → BitVec 8}
    (hbits : ∀ u, unitBit bits u = if s ≤ u ∧ u < s + units then false else unitBit block.bits u) :
    Consistent whole (pre ++ { block with bits := bits } :: post) io (live.erase x) := by
  have hblock := h.wellFormed block (by simp)
  have hregion : x.region =
      Set.Ico (block.bufHost / 64 + s) (block.bufHost / 64 + s + units) := by
    rw [← hblock.region_eq s hround, ← hmem]
  apply h.replace
  · refine (h.tracked.free hx).congr fun a => ?_
    rw [usedUnits_replace h.units_disjoint hroom hbits, hregion, Set.mem_sdiff]
    by_cases ha : a ∈ Set.Ico (block.bufHost / 64 + s) (block.bufHost / 64 + s + units)
    · simp only [ha, if_true, not_true, and_false, Bool.false_eq_true]
    · simp only [ha, if_false, not_false_iff, and_true]
  · intro y hy
    exact h.placed y (List.mem_of_mem_erase hy)

/-- The bits of an allocation that a block holds are set. -/
theorem Consistent.bits_set (h : Consistent whole blocks io live) (hblock : block ∈ blocks)
    {x : Allocation} (hx : x ∈ live) {units : Nat} (hround : usbhcMemRound x.size = units * 64)
    (hholds : block.holds x.mem (units * 64) = true) {u : Nat}
    (hlow : (x.mem - block.bufHost) / 64 ≤ u) (hhigh : u < (x.mem - block.bufHost) / 64 + units) :
    unitBit block.bits u = true := by
  have hform := h.wellFormed block hblock
  have hunit := hform.aligned_unit
  obtain ⟨_, hmem, _⟩ := h.placed x hx
  obtain ⟨hfrom, hto⟩ := (holds_iff _ _).mp hholds
  have hin : block.bufHost / 64 + u ∈ Set.Ico (x.mem / 64) (x.mem / 64 + units) := by
    constructor <;> omega
  have hregion : block.bufHost / 64 + u ∈ x.region := by
    unfold Allocation.region
    rw [hround, Nat.mul_div_left _ (by decide)]
    exact hin
  have hused := h.tracked.subset hx hregion
  rw [mem_usedUnits_iff h.units_disjoint hblock (hform.units_of_holds hmem hholds hin),
    Nat.add_sub_cancel_left] at hused
  exact hused

/-- The order of the blocks does not matter for the invariant. -/
theorem Backed.perm {blocks' : List UsbhcMemBlock} (h : Backed whole blocks io)
    (hperm : blocks.Perm blocks') : Backed whole blocks' io where
  pages := h.pages.perm (hperm.map _)
  mappings := by
    obtain ⟨leaked, hleaked, hwhole⟩ := h.mappings
    exact ⟨leaked, hleaked.trans ((hperm.map _).append_right leaked), hwhole⟩
  apart := (hperm.map _).pairwise h.apart fun hmn => hmn.symm

theorem Consistent.perm {blocks' : List UsbhcMemBlock} (h : Consistent whole blocks io live)
    (hperm : blocks.Perm blocks') : Consistent whole blocks' io live where
  wellFormed b hb := h.wellFormed b (hperm.mem_iff.mpr hb)
  backed := h.backed.perm hperm
  tracked := by
    refine h.tracked.congr fun a => ?_
    simp only [usedUnits, Set.mem_ofPred_eq, hperm.mem_iff]
  placed x hx := by
    obtain ⟨hsize, hmem, b, hb, hholds⟩ := h.placed x hx
    exact ⟨hsize, hmem, b, hperm.mem_iff.mp hb, hholds⟩

theorem efiSizeToPages_efiPagesToSize (pages : Nat) :
    efiSizeToPages (efiPagesToSize pages) = pages := by
  unfold efiSizeToPages efiPagesToSize efiPageSize
  rw [Nat.mul_mod_left, if_pos rfl, Nat.add_zero, Nat.mul_div_left _ (by decide)]

/-- A new block. -/
theorem Consistent.addBlock (h : Consistent whole blocks io live) {answer : BlockAnswer}
    {pages : Nat} (hpages : 0 < pages) (hhonest : answer.Honest blocks io pages) {io' : PciIo}
    {newBlock : UsbhcMemBlock}
    (hnew : usbHcAllocMemBlock answer io pages = (some newBlock, io')) :
    Consistent whole (newBlock :: blocks) io' live ∧ newBlock.bufLen = efiPagesToSize pages ∧
      ∀ u, unitBit newBlock.bits u = false := by
  rcases usbHcAllocMemBlock_cases answer io pages with hnone | ⟨host, hbuffer, hnone | ⟨device,
    bytes, hmap, ⟨_, hnone⟩ | ⟨rfl, hsome⟩⟩⟩
  · rw [hnone] at hnew
    cases hnew
  · rw [hnone] at hnew
    cases hnew
  · rw [hnone] at hnew
    cases hnew
  rw [hsome] at hnew
  cases hnew
  obtain ⟨hpos, haligned, hdisjoint⟩ := hhonest.buffer host hbuffer
  have hclear : ∀ u, unitBit (newMemBlock pages host device
      ⟨host, device, efiPagesToSize pages⟩).bits u = false := by
    intro u
    unfold unitBit newMemBlock
    rw [usbHcBitIsSet_eq _ (Nat.mod_lt u (by decide))]
    simp
  -- The answers of the firmware keep the new block apart; none of its units is in use.
  refine ⟨⟨?_, ⟨?_, ?_, ?_⟩, ?_, ?_⟩, rfl, hclear⟩
  · intro b hb
    rcases List.mem_cons.mp hb with rfl | hb
    · refine ⟨hpos, haligned, ⟨pages, hpages, rfl⟩, ?_, rfl⟩
      unfold newMemBlock efiPagesToSize efiPageSize usbhcMemUnit
      simp only
      omega
    · exact h.wellFormed b hb
  · have hregion : (newMemBlock pages host device ⟨host, device, efiPagesToSize pages⟩).buffer =
        (host, pages) := by
      unfold UsbhcMemBlock.buffer newMemBlock
      rw [efiSizeToPages_efiPagesToSize]
    rw [List.map_cons, hregion]
    refine (h.backed.pages.alloc ?_ ?_).congr fun a => ?_
    · exact ⟨host / efiPageSize, by simp [bufferRegion, bufferPages, hpages]⟩
    · exact Finset.disjoint_coe.mpr hdisjoint
    · rw [Set.union_comm]
      exact Finset.mem_union
  · obtain ⟨leaked, hleaked, hwhole⟩ := h.backed.mappings
    exact ⟨leaked, hleaked.cons _, hwhole⟩
  · refine List.pairwise_cons.mpr ⟨fun m hm => ?_, h.backed.apart⟩
    obtain ⟨b, hb, rfl⟩ := List.mem_map.mp hm
    exact hhonest.map host device _ hmap b hb
  · refine h.tracked.congr fun a => ?_
    rw [mem_usedUnits_cons, hclear]
    simp only [Bool.false_eq_true, and_false, false_or]
  · intro x hx
    obtain ⟨hsize, hmem, b, hb, hholds⟩ := h.placed x hx
    exact ⟨hsize, hmem, b, List.mem_cons_of_mem _ hb, hholds⟩

/-- The invariant speaks of the pages and the mappings alone. -/
theorem Consistent.withIo (h : Consistent whole blocks io live) {io' : PciIo}
    (hbacked : Backed whole blocks io') : Consistent whole blocks io' live where
  wellFormed := h.wellFormed
  backed := hbacked
  tracked := h.tracked
  placed := h.placed

/-- A buffer that goes back at once. -/
theorem freeBuffer_allocateBuffer {host pages : Nat}
    (hdisjoint : Disjoint (bufferPages host pages) io.pages) :
    (io.pages ∪ bufferPages host pages) \ bufferPages host pages = io.pages := by
  rw [Finset.union_sdiff_right, Finset.sdiff_eq_self_of_disjoint hdisjoint.symm]

/-- A block that could not be made leaves no page with the driver. -/
theorem noBlock_pages {answer : BlockAnswer} {pages : Nat} (hhonest : answer.Honest blocks io pages)
    {io' : PciIo} (hnew : usbHcAllocMemBlock answer io pages = (none, io')) :
    io'.pages = io.pages := by
  rcases usbHcAllocMemBlock_cases answer io pages with hnone | ⟨host, hbuffer, hnone | ⟨device,
    bytes, hmap, ⟨hbytes, hnone⟩ | ⟨rfl, hsome⟩⟩⟩
  · rw [hnone] at hnew
    cases hnew
    rfl
  · rw [hnone] at hnew
    cases hnew
    exact freeBuffer_allocateBuffer (hhonest.buffer host hbuffer).2.2
  · rw [hnone] at hnew
    cases hnew
    exact freeBuffer_allocateBuffer (hhonest.buffer host hbuffer).2.2
  · rw [hsome] at hnew
    cases hnew

/-- A block that could not be made. -/
theorem Consistent.noBlock (h : Consistent whole blocks io live) {answer : BlockAnswer}
    {pages : Nat} (hhonest : answer.Honest blocks io pages) (hwhole : whole → answer.Whole pages)
    {io' : PciIo} (hnew : usbHcAllocMemBlock answer io pages = (none, io')) :
    Consistent whole blocks io' live := by
  have hpages := noBlock_pages hhonest hnew
  obtain ⟨htracks, ⟨leaked, hleaked, hnoLeak⟩, hapart⟩ := h.backed
  rw [← hpages] at htracks
  rcases usbHcAllocMemBlock_cases answer io pages with hnone | ⟨host, hbuffer, hnone | ⟨device,
    bytes, hmap, ⟨hbytes, hnone⟩ | ⟨rfl, hsome⟩⟩⟩
  · rw [hnone] at hnew
    cases hnew
    exact h
  · rw [hnone] at hnew
    cases hnew
    exact h.withIo ⟨htracks, ⟨leaked, hleaked, hnoLeak⟩, hapart⟩
  · -- The mapping stays.
    rw [hnone] at hnew
    cases hnew
    refine h.withIo ⟨htracks, ⟨⟨host, device, bytes⟩ :: leaked, ?_, fun hw => ?_⟩, hapart⟩
    · exact (hleaked.cons _).trans List.perm_middle.symm
    · exact absurd (hwhole hw device bytes hmap) hbytes
  · rw [hsome] at hnew
    cases hnew

/-- Nothing is allocated, and there is no block. -/
theorem consistent_nil : Consistent whole [] {} [] where
  wellFormed b hb := absurd hb List.not_mem_nil
  backed :=
    { pages := Tracks.nil.congr fun a => by simp
      mappings := ⟨[], List.Perm.refl _, fun _ => rfl⟩
      apart := List.Pairwise.nil }
  tracked := Tracks.nil.congr fun a => by simp [usedUnits]
  placed x hx := absurd hx List.not_mem_nil

/-- A block goes back to the firmware. -/
theorem Backed.free (h : Backed whole (block :: blocks) io) :
    Backed whole blocks (usbHcFreeMemBlock io block) where
  pages := by
    have hpages := h.pages.free_cons
    unfold usbHcFreeMemBlock PciIo.freeBuffer PciIo.unmap
    rw [Finset.coe_sdiff]
    exact hpages
  mappings := by
    obtain ⟨leaked, hleaked, hwhole⟩ := h.mappings
    refine ⟨leaked, ?_, hwhole⟩
    have herase := hleaked.erase block.mapping
    rw [List.map_cons, List.cons_append, List.erase_cons_head] at herase
    exact herase
  apart := (List.pairwise_cons.mp h.apart).2

/-- An empty block is given back. -/
theorem Consistent.removeBlock (h : Consistent whole (block :: blocks) io live)
    (hempty : usbHcIsMemBlockEmpty block = true) :
    Consistent whole blocks (usbHcFreeMemBlock io block) live where
  wellFormed b hb := h.wellFormed b (List.mem_cons_of_mem _ hb)
  backed := h.backed.free
  tracked := by
    refine h.tracked.congr fun a => ?_
    rw [mem_usedUnits_cons, iff_or_self]
    rintro ⟨⟨hlow, hhigh⟩, hbit⟩
    rw [(usbHcIsMemBlockEmpty_iff block).mp hempty _ (by omega)] at hbit
    cases hbit
  placed x hx := by
    obtain ⟨hsize, hmem, b, hb, hholds⟩ := h.placed x hx
    refine ⟨hsize, hmem, b, ?_, hholds⟩
    rcases List.mem_cons.mp hb with rfl | hb
    · -- The bits of the allocation would be set in it.
      exfalso
      obtain ⟨units, hpos, hround, _⟩ := hsize.round
      rw [hround] at hholds
      have hlen := (h.wellFormed b hb).bitsLen_mul
      obtain ⟨hfrom, hto⟩ := (holds_iff _ _).mp hholds
      have hbit := h.bits_set hb hx hround hholds (Nat.le_refl _) (by omega)
      rw [(usbHcIsMemBlockEmpty_iff b).mp hempty _ (by omega)] at hbit
      cases hbit
    · exact hb

end Blocks

end XhciDxe
end EfiApps
