import EfiApps.XhciDxe.MemPool

/-!
# What runs of the memory pool keep

The operations of the pool never fail an assertion, allocations stay apart, and the pool gives
back what it took.
-/

namespace EfiApps
namespace XhciDxe

/-! ## The operations -/

/-- No run of so many units of a block is free. -/
def NoneFits (units : Nat) (block : UsbhcMemBlock) : Prop :=
  ∀ s, ¬Fits (unitBit block.bits) (block.bitsLen * 8) units s

/-- The bits of `units` units from `s` on, and no others, are set to `set`. -/
def BitsSet (set : Bool) (s units : Nat) (old bits : Nat → BitVec 8) : Prop :=
  ∀ u, unitBit bits u = if s ≤ u ∧ u < s + units then set else unitBit old u

/-- The blocks are tried in their order. -/
theorem allocFromBlocks_spec {units : Nat} (hunits : 0 < units) (blocks : List UsbhcMemBlock) :
    (allocFromBlocks units blocks = some (none, blocks) ∧ ∀ b ∈ blocks, NoneFits units b) ∨
    ∃ pre block post s bits, blocks = pre ++ block :: post ∧ (∀ b ∈ pre, NoneFits units b) ∧
      FirstFit (unitBit block.bits) (block.bitsLen * 8) units s ∧
      BitsSet true s units block.bits bits ∧
      allocFromBlocks units blocks =
        some (some (block.bufHost + s * usbhcMemUnit),
          pre ++ { block with bits := bits } :: post) := by
  induction blocks with
  | nil => exact Or.inl ⟨rfl, fun b hb => absurd hb List.not_mem_nil⟩
  | cons block next ih =>
      rcases usbHcAllocMemFromBlock_spec block hunits with ⟨hrun, hnone⟩ | ⟨s, bits, hfit, hrun,
        hbits⟩
      · rcases ih with ⟨hrest, hall⟩ | ⟨pre, c, post, s, bits, rfl, hpre, hfit, hbits, hrest⟩
        · refine Or.inl ⟨by rw [allocFromBlocks, hrun, hrest], fun b hb => ?_⟩
          rcases List.mem_cons.mp hb with rfl | hb
          · exact hnone
          · exact hall b hb
        · refine Or.inr ⟨block :: pre, c, post, s, bits, rfl, fun b hb => ?_, hfit, hbits, ?_⟩
          · rcases List.mem_cons.mp hb with rfl | hb
            · exact hnone
            · exact hpre b hb
          · simp only [List.cons_append, allocFromBlocks, hrun, hrest]
      · exact Or.inr ⟨[], block, next, s, bits, rfl, fun b hb => absurd hb List.not_mem_nil,
          hfit, hbits, by simp only [allocFromBlocks, hrun, List.nil_append]⟩

/-- The loop of `UsbHcFreeMem` ends at the first block that holds the memory. -/
theorem freeInBlocks_spec {mem n : Nat} {pre : List UsbhcMemBlock} {block : UsbhcMemBlock}
    (post : List UsbhcMemBlock) (hpre : ∀ b ∈ pre, b.holds mem n = false)
    (hholds : block.holds mem n = true)
    {bits : Nat → BitVec 8}
    (hreset : resetLoop (n / usbhcMemUnit) ((mem - block.bufHost) / usbhcMemUnit / 8)
      ((mem - block.bufHost) / usbhcMemUnit % 8) block.bits = some bits) (isHead : Bool) :
    freeInBlocks mem n isHead (pre ++ block :: post) =
      some (if (!(isHead && pre.isEmpty) && usbHcIsMemBlockEmpty { block with bits := bits })
        then (pre ++ post, some { block with bits := bits })
        else (pre ++ { block with bits := bits } :: post, none)) := by
  induction pre generalizing isHead with
  | nil =>
      rw [List.nil_append, freeInBlocks, if_pos hholds, hreset]
      simp only [List.isEmpty_nil, Bool.and_true]
      split_ifs <;> rfl
  | cons c pre ih =>
      have hskip : c.holds mem n = false := hpre c List.mem_cons_self
      rw [List.cons_append, freeInBlocks, hskip, ih (fun b hb => hpre b (List.mem_cons_of_mem _ hb))]
      simp only [Bool.false_and, Bool.not_false, Bool.true_and, List.isEmpty_cons, Bool.and_false,
        Bool.false_eq_true, if_false]
      split_ifs <;> rfl

/-- Blocks other than the head are in use. -/
def Kept (blocks : List UsbhcMemBlock) : Prop :=
  ∀ b ∈ blocks.tail, usbHcIsMemBlockEmpty b = false

/-- What holds between calls. -/
structure PoolInv (whole : Prop) (blocks : List UsbhcMemBlock) (io : PciIo)
    (live : List Allocation) : Prop where
  consistent : Consistent whole blocks io live
  head : blocks ≠ []
  kept : Kept blocks

section Operations

variable {pre post blocks : List UsbhcMemBlock} {block : UsbhcMemBlock} {whole : Prop}
  {io : PciIo} {live : List Allocation}

theorem Kept.replace (h : Kept (pre ++ block :: post)) {block' : UsbhcMemBlock}
    (hused : pre = [] ∨ usbHcIsMemBlockEmpty block' = false) : Kept (pre ++ block' :: post) := by
  cases pre with
  | nil => exact h
  | cons c pre =>
      intro b hb
      rcases List.mem_append.mp hb with hb | hb
      · exact h b (List.mem_append_left _ hb)
      · rcases List.mem_cons.mp hb with rfl | hb
        · exact hused.resolve_left (List.cons_ne_nil _ _)
        · exact h b (List.mem_append_right _ (List.mem_cons_of_mem _ hb))

/-- A block with a unit in use is not empty. -/
theorem not_empty_of_unit {u : Nat} (hu : u < block.bitsLen * 8)
    (hbit : unitBit block.bits u = true) : usbHcIsMemBlockEmpty block = false := by
  rw [← Bool.not_eq_true, usbHcIsMemBlockEmpty_iff]
  intro hclear
  rw [hclear u hu] at hbit
  cases hbit

theorem newBlockPages_spec (units : Nat) :
    0 < newBlockPages (units * 64) ∧ units * 64 ≤ efiPagesToSize (newBlockPages (units * 64)) := by
  unfold newBlockPages efiPagesToSize efiSizeToPages usbhcMemDefaultPages efiPageSize
  split_ifs <;> constructor <;> omega

/-- What the driver holds after `UsbHcAllocateMem`. -/
def liveAfter (mem : Option Nat) (size : Nat) (live : List Allocation) : List Allocation :=
  match mem with
  | none => live
  | some mem => { mem := mem, size := size } :: live

/-- How `UsbHcAllocateMem` ends. -/
inductive AllocateResult (answer : BlockAnswer) (io : PciIo) (pool : UsbhcMemPool) (size : Nat) :
    Option Nat → UsbhcMemPool → PciIo → Prop
  /-- The first block with enough free units. -/
  | found {pre block post s bits} (hblocks : pool.blocks = pre ++ block :: post)
      (hpre : ∀ b ∈ pre, NoneFits (usbhcMemRound size / usbhcMemUnit) b)
      (hfit : FirstFit (unitBit block.bits) (block.bitsLen * 8)
        (usbhcMemRound size / usbhcMemUnit) s)
      (hbits : BitsSet true s (usbhcMemRound size / usbhcMemUnit) block.bits bits) :
      AllocateResult answer io pool size (some (block.bufHost + s * usbhcMemUnit))
        { blocks := pre ++ { block with bits := bits } :: post } io
  /-- The start of a new block. -/
  | newBlock {head next block io' bits} (hblocks : pool.blocks = head :: next)
      (hnone : ∀ b ∈ pool.blocks, NoneFits (usbhcMemRound size / usbhcMemUnit) b)
      (hnew : usbHcAllocMemBlock answer io (newBlockPages (usbhcMemRound size)) =
        (some block, io'))
      (hbits : BitsSet true 0 (usbhcMemRound size / usbhcMemUnit) block.bits bits) :
      AllocateResult answer io pool size (some block.bufHost)
        { blocks := head :: { block with bits := bits } :: next } io'
  /-- `NULL`. -/
  | null {io'} (hnone : ∀ b ∈ pool.blocks, NoneFits (usbhcMemRound size / usbhcMemUnit) b)
      (hnew : usbHcAllocMemBlock answer io (newBlockPages (usbhcMemRound size)) = (none, io')) :
      AllocateResult answer io pool size none pool io'

/-- `UsbHcAllocateMem` ends in one of these ways, and fails no assertion. -/
theorem Consistent.allocateMem {pool : UsbhcMemPool}
    (h : Consistent whole pool.blocks io live) (hhead : pool.blocks ≠ []) {size : Nat}
    (hsize : GoodSize size) {answer : BlockAnswer}
    (hhonest : answer.Honest pool.blocks io (newBlockPages (usbhcMemRound size))) :
    ∃ mem pool' io', usbHcAllocateMem answer io pool size = some (mem, pool', io') ∧
      AllocateResult answer io pool size mem pool' io' := by
  obtain ⟨units, hpos, hround, _⟩ := hsize.round
  have hunits : usbhcMemRound size / usbhcMemUnit = units := by
    rw [hround]
    exact Nat.mul_div_left _ (by decide)
  unfold usbHcAllocateMem
  rcases allocFromBlocks_spec (hunits.symm ▸ hpos) pool.blocks with ⟨hrun, hnone⟩ | ⟨pre, block,
    post, s, bits, hblocks, hpre, hfit, hbits, hrun⟩
  · simp only [hrun]
    cases hnew : usbHcAllocMemBlock answer io (newBlockPages (usbhcMemRound size)) with
    | mk newBlock io' =>
        cases newBlock with
        | none => exact ⟨_, _, _, rfl, .null hnone hnew⟩
        | some newBlock =>
            obtain ⟨hpages, hlarge⟩ := newBlockPages_spec units
            rw [hround] at hnew hhonest
            obtain ⟨hadded, hlen, hclear⟩ := h.addBlock hpages hhonest hnew
            have hbits := (hadded.wellFormed newBlock List.mem_cons_self).bitsLen_mul
            have hroom : units ≤ newBlock.bitsLen * 8 := by
              rw [← hlen] at hlarge
              omega
            have hzero : Fits (unitBit newBlock.bits) (newBlock.bitsLen * 8) units 0 :=
              ⟨by omega, fun u _ _ => hclear u⟩
            rcases usbHcAllocMemFromBlock_spec newBlock hpos with ⟨_, hnone'⟩ | ⟨s, bits, hfit,
              hrun', hbits'⟩
            · exact absurd hzero (hnone' 0)
            · obtain rfl : s = 0 := Nat.le_zero.mp (hfit.2 hzero)
              rw [Nat.zero_mul, Nat.add_zero] at hrun'
              obtain ⟨head, next, hblocks⟩ := List.exists_cons_of_ne_nil hhead
              refine ⟨some newBlock.bufHost, _, io', by simp only [hunits, hrun']; rfl, ?_⟩
              rw [hblocks]
              rw [← hround] at hnew
              exact .newBlock hblocks hnone hnew (hunits.symm ▸ hbits')
  · simp only [hrun]
    exact ⟨_, _, _, rfl, .found hblocks hpre hfit hbits⟩

/-- An allocation keeps the invariant. -/
theorem PoolInv.allocated {pool pool' : UsbhcMemPool} {io' : PciIo} {mem : Option Nat}
    (h : PoolInv whole pool.blocks io live) {size : Nat} (hsize : GoodSize size)
    {answer : BlockAnswer}
    (hhonest : answer.Honest pool.blocks io (newBlockPages (usbhcMemRound size)))
    (hwhole : whole → answer.Whole (newBlockPages (usbhcMemRound size)))
    (hresult : AllocateResult answer io pool size mem pool' io') :
    PoolInv whole pool'.blocks io' (liveAfter mem size live) := by
  obtain ⟨units, hpos, hround, _⟩ := hsize.round
  have hunits : usbhcMemRound size / usbhcMemUnit = units := by
    rw [hround]
    exact Nat.mul_div_left _ (by decide)
  cases hresult with
  | @found pre block post s bits hblocks _ hfit hbits =>
      rw [hunits] at hfit hbits
      have hinv := h.consistent
      have hkept := h.kept
      rw [hblocks] at hinv hkept
      have hroom := hfit.1.1
      refine ⟨hinv.alloc hsize hround hfit.1 hbits, by simp, hkept.replace (Or.inr ?_)⟩
      exact not_empty_of_unit (u := s) (by simp only; omega) (by
        rw [hbits s, if_pos ⟨Nat.le_refl s, by omega⟩])
  | @newBlock head next block _ bits hblocks _ hnew hbits =>
      rw [hunits] at hbits
      obtain ⟨hpages, hlarge⟩ := newBlockPages_spec units
      rw [hround] at hnew hhonest
      obtain ⟨hadded, hlen, hclear⟩ := h.consistent.addBlock hpages hhonest hnew
      have hbitsLen := (hadded.wellFormed block List.mem_cons_self).bitsLen_mul
      have hroom : units ≤ block.bitsLen * 8 := by
        rw [← hlen] at hlarge
        omega
      have hswap : Consistent whole ([head] ++ block :: next) io' live := by
        rw [hblocks] at hadded
        exact hadded.perm (List.Perm.swap head block next)
      have halloc := hswap.alloc hsize hround ⟨by omega, fun u _ _ => hclear u⟩ hbits
      rw [Nat.zero_mul, Nat.add_zero] at halloc
      refine ⟨halloc, by simp, fun b hb => ?_⟩
      rcases List.mem_cons.mp hb with rfl | hb
      · exact not_empty_of_unit (u := 0) (by simp only; omega) (by
          rw [hbits 0, if_pos ⟨Nat.le_refl 0, by omega⟩])
      · apply h.kept b
        rw [hblocks]
        exact hb
  | null _ hnew =>
      exact ⟨h.consistent.noBlock hhonest hwhole hnew, h.head, h.kept⟩

/-- `UsbHcFreeMem` of what the driver holds fails no assertion, and keeps the invariant. -/
theorem PoolInv.freeMem {pool : UsbhcMemPool} (h : PoolInv whole pool.blocks io live)
    {x : Allocation} (hx : x ∈ live) :
    ∃ pool' io', usbHcFreeMem io pool x.mem x.size = some (pool', io') ∧
      PoolInv whole pool'.blocks io' (live.erase x) := by
  have hinv := h.consistent
  obtain ⟨hsize, hmem, block, hblock, hholds⟩ := hinv.placed x hx
  obtain ⟨units, hpos, hround, _⟩ := hsize.round
  obtain ⟨pre, post, hblocks⟩ := List.append_of_mem hblock
  rw [hround] at hholds
  have hform := hinv.wellFormed block hblock
  have hunit := hform.aligned_unit
  have hlen := hform.bitsLen_mul
  obtain ⟨hfrom, hto⟩ := (holds_iff _ _).mp hholds
  -- No block before this one holds the memory.
  have hpre : ∀ b ∈ pre, b.holds x.mem (units * 64) = false := by
    intro b hb
    have hdisjoint := hinv.covers_disjoint
    rw [hblocks] at hdisjoint
    by_contra hholds'
    exact (List.pairwise_append.mp hdisjoint).2.2 b hb block List.mem_cons_self x.mem
      (covers_of_holds (by omega) (Bool.not_eq_false _ ▸ hholds')) (covers_of_holds (by omega) hholds)
  -- Its bits are all set.
  have hbyte : (x.mem - block.bufHost) / usbhcMemUnit / 8 * 8 +
      (x.mem - block.bufHost) / usbhcMemUnit % 8 = (x.mem - block.bufHost) / 64 :=
    Nat.div_add_mod' _ 8
  have hcount : usbhcMemRound x.size / usbhcMemUnit = units := by
    rw [hround]
    exact Nat.mul_div_left _ (by decide)
  have hall : ∀ u, (x.mem - block.bufHost) / usbhcMemUnit / 8 * 8 +
      (x.mem - block.bufHost) / usbhcMemUnit % 8 ≤ u →
      u < (x.mem - block.bufHost) / usbhcMemUnit / 8 * 8 +
        (x.mem - block.bufHost) / usbhcMemUnit % 8 + units → unitBit block.bits u = true := by
    rw [hbyte]
    exact fun u hu hu' => hinv.bits_set hblock hx hround hholds hu hu'
  obtain ⟨bits, hreset, hbits⟩ := resetLoop_spec units _ (Nat.mod_lt _ (by decide)) hall
  rw [hbyte] at hbits
  rw [hblocks] at hinv
  have hfree := hinv.free hx hround (s := (x.mem - block.bufHost) / 64)
    (by unfold usbhcMemUnit; omega) (by omega) hbits
  have hrun := freeInBlocks_spec post hpre hholds (by
    rw [← hcount, hround] at hreset
    exact hreset) true
  unfold usbHcFreeMem
  rw [hblocks, hround, hrun]
  have hkept := h.kept
  rw [hblocks] at hkept
  by_cases hgone : (!(true && pre.isEmpty) &&
      usbHcIsMemBlockEmpty { block with bits := bits }) = true
  · rw [if_pos hgone]
    rw [Bool.true_and, Bool.and_eq_true, Bool.not_eq_true'] at hgone
    obtain ⟨hnotHead, hempty⟩ := hgone
    refine ⟨_, _, rfl, (hfree.perm List.perm_middle).removeBlock hempty, ?_, ?_⟩
    · intro hnil
      rw [(List.append_eq_nil_iff.mp hnil).1] at hnotHead
      cases hnotHead
    · cases pre with
      | nil => cases hnotHead
      | cons c pre =>
          intro b hb
          apply hkept b
          rcases List.mem_append.mp hb with hb | hb
          · exact List.mem_append_left _ hb
          · exact List.mem_append_right _ (List.mem_cons_of_mem _ hb)
  · rw [if_neg hgone]
    refine ⟨_, _, rfl, hfree, by simp, hkept.replace ?_⟩
    rw [Bool.true_and, Bool.and_eq_true, not_and_or, Bool.not_eq_true', Bool.not_eq_false,
      List.isEmpty_iff, Bool.not_eq_true] at hgone
    exact hgone

/-- What a block holds is inside its buffer, also without the rounding. -/
theorem GoodSize.inside {mem size : Nat} (hsize : GoodSize size)
    (hholds : block.holds mem (usbhcMemRound size) = true) :
    block.bufHost ≤ mem ∧ mem + size ≤ block.bufHost + block.bufLen := by
  obtain ⟨units, _, hround, hle⟩ := hsize.round
  obtain ⟨hlow, hhigh⟩ := (holds_iff _ _).mp hholds
  exact ⟨hlow, by omega⟩

/-- Two allocations share no byte. -/
theorem Consistent.live_disjoint (h : Consistent whole blocks io live) :
    live.Pairwise fun x y => x.mem + x.size ≤ y.mem ∨ y.mem + y.size ≤ x.mem := by
  refine h.tracked.disjoint.imp_of_mem fun {x y} hx hy hdisjoint => ?_
  obtain ⟨hsizeX, hmemX, _⟩ := h.placed x hx
  obtain ⟨hsizeY, hmemY, _⟩ := h.placed y hy
  obtain ⟨unitsX, hposX, hroundX, hleX⟩ := hsizeX.round
  obtain ⟨unitsY, hposY, hroundY, hleY⟩ := hsizeY.round
  unfold Allocation.region at hdisjoint
  rw [hroundX, hroundY, Nat.mul_div_left _ (by decide), Nat.mul_div_left _ (by decide),
    Set.disjoint_left] at hdisjoint
  by_contra hoverlap
  -- Both have the unit at which the later one starts.
  apply hdisjoint (a := max (x.mem / 64) (y.mem / 64))
  · constructor <;> omega
  · constructor <;> omega

/-- There is one first fit in one first block. -/
theorem first_unique {units t t' : Nat} {pre' post' : List UsbhcMemBlock} {block' : UsbhcMemBlock}
    (hpre : ∀ b ∈ pre, NoneFits units b)
    (hfit : FirstFit (unitBit block.bits) (block.bitsLen * 8) units t)
    (hpre' : ∀ b ∈ pre', NoneFits units b)
    (hfit' : FirstFit (unitBit block'.bits) (block'.bitsLen * 8) units t')
    (hblocks : pre ++ block :: post = pre' ++ block' :: post') : block = block' ∧ t = t' := by
  have hblock : block = block' := by
    rcases List.append_eq_append_iff.mp hblocks with ⟨l, rfl, hl⟩ | ⟨l, rfl, hl⟩
    · cases l with
      | nil =>
          cases hl
          rfl
      | cons c l =>
          cases hl
          exact absurd hfit.1 (hpre' block (by simp) t)
    · cases l with
      | nil =>
          cases hl
          rfl
      | cons c l =>
          cases hl
          exact absurd hfit'.1 (hpre block' (by simp) t')
  subst hblock
  exact ⟨rfl, hfit.unique hfit'⟩

/-- All blocks go back. -/
theorem Backed.freeMemPool {head : UsbhcMemBlock} {next : List UsbhcMemBlock}
    (h : Backed whole (head :: next) io) :
    Backed whole [] (usbHcFreeMemBlock (next.foldl usbHcFreeMemBlock io) head) := by
  induction next generalizing io with
  | nil => exact h.free
  | cons block next ih => exact ih ((h.perm (List.Perm.swap block head next)).free)

/-- A block behind the head has an allocation. -/
theorem PoolInv.block_used (h : PoolInv whole blocks io live) (hblock : block ∈ blocks.tail) :
    ∃ x ∈ live, block.bufHost ≤ x.mem ∧ x.mem + x.size ≤ block.bufHost + block.bufLen := by
  have hmem : block ∈ blocks := List.mem_of_mem_tail hblock
  have hform := h.consistent.wellFormed block hmem
  have hunit := hform.aligned_unit
  have hlen := hform.bitsLen_mul
  -- A unit of the block is in use, by an allocation.
  have hnotEmpty : ∃ u, u < block.bitsLen * 8 ∧ unitBit block.bits u = true := by
    by_contra hnone
    have hclear : ∀ u, u < block.bitsLen * 8 → unitBit block.bits u = false := by
      intro u hu
      by_contra hset
      exact hnone ⟨u, hu, Bool.not_eq_false _ ▸ hset⟩
    have hkept := h.kept block hblock
    rw [(usbHcIsMemBlockEmpty_iff block).mpr hclear] at hkept
    cases hkept
  obtain ⟨u, hu, hbit⟩ := hnotEmpty
  have hused : block.bufHost / 64 + u ∈ usedUnits blocks := by
    refine ⟨block, hmem, ⟨by omega, by omega⟩, ?_⟩
    rw [Nat.add_sub_cancel_left]
    exact hbit
  obtain ⟨x, hx, hregion⟩ := (h.consistent.tracked.covered _).mp hused
  -- Which is inside this block, since blocks are disjoint.
  obtain ⟨hsize, haligned, c, hc, hholds⟩ := h.consistent.placed x hx
  obtain ⟨units, hpos, hround, _⟩ := hsize.round
  unfold Allocation.region at hregion
  rw [hround, Nat.mul_div_left _ (by decide)] at hregion
  obtain ⟨hlow, hhigh⟩ := hregion
  have hinside := (holds_iff _ _).mp hholds
  rw [hround] at hinside
  have hsame : c = block := by
    by_contra hne
    have hdisjoint := h.consistent.covers_disjoint.forall hc hmem hne
    exact hdisjoint (block.bufHost + u * 64) ⟨by omega, by omega⟩ ⟨by omega, by omega⟩
  rw [← hsame]
  exact ⟨x, hx, hsize.inside hholds⟩

end Operations

/-! ## Runs -/

/-- The pool, what the driver has of the firmware, and what it has allocated. -/
structure PoolSystem where
  pool : UsbhcMemPool
  io : PciIo
  live : List Allocation

/-- A pool as `UsbHcInitMemPool` makes it for a driver that has nothing yet. -/
inductive PoolStart : PoolSystem → Prop
  | init {answer : BlockAnswer} {pool : UsbhcMemPool} {io : PciIo}
      (hhonest : answer.Honest [] {} usbhcMemDefaultPages)
      (hinit : usbHcInitMemPool answer {} = (some pool, io)) : PoolStart ⟨pool, io, []⟩

/-- The driver allocates memory, or frees some that it has allocated.  If `whole` holds, the
firmware maps whole buffers. -/
inductive PoolStep (whole : Prop) : PoolSystem → PoolSystem → Prop
  | allocate {s : PoolSystem} {size : Nat} {answer : BlockAnswer} {mem : Option Nat}
      {pool : UsbhcMemPool} {io : PciIo} (hsize : GoodSize size)
      (hhonest : answer.Honest s.pool.blocks s.io (newBlockPages (usbhcMemRound size)))
      (hwhole : whole → answer.Whole (newBlockPages (usbhcMemRound size)))
      (hrun : usbHcAllocateMem answer s.io s.pool size = some (mem, pool, io)) :
      PoolStep whole s ⟨pool, io, liveAfter mem size s.live⟩
  | free {s : PoolSystem} {x : Allocation} {pool : UsbhcMemPool} {io : PciIo}
      (hlive : x ∈ s.live) (hrun : usbHcFreeMem s.io s.pool x.mem x.size = some (pool, io)) :
      PoolStep whole s ⟨pool, io, s.live.erase x⟩

/-- The states of the runs. -/
def PoolReachable (whole : Prop) (s : PoolSystem) : Prop :=
  ∃ s₀, PoolStart s₀ ∧ Relation.ReflTransGen (PoolStep whole) s₀ s

section Runs

variable {whole : Prop} {s s' : PoolSystem}

/-- A new pool. -/
theorem PoolStart.inv (h : PoolStart s) : PoolInv whole s.pool.blocks s.io s.live := by
  obtain ⟨hhonest, hinit⟩ := h
  unfold usbHcInitMemPool at hinit
  split at hinit
  · cases hinit
  · rename_i block io' hnew
    cases hinit
    have hnil : Consistent whole [] {} [] := consistent_nil
    obtain ⟨hadded, _⟩ := hnil.addBlock (by decide) hhonest hnew
    exact ⟨hadded, List.cons_ne_nil _ _, fun b hb => absurd hb List.not_mem_nil⟩

/-- One step keeps the invariant. -/
theorem PoolInv.step (h : PoolInv whole s.pool.blocks s.io s.live)
    (hstep : PoolStep whole s s') : PoolInv whole s'.pool.blocks s'.io s'.live := by
  cases hstep with
  | allocate hsize hhonest hwhole hrun =>
      obtain ⟨mem, pool, io, hrun', hresult⟩ := h.consistent.allocateMem h.head hsize hhonest
      rw [hrun] at hrun'
      cases hrun'
      exact h.allocated hsize hhonest hwhole hresult
  | free hlive hrun =>
      obtain ⟨pool, io, hrun', hinv⟩ := h.freeMem hlive
      rw [hrun] at hrun'
      cases hrun'
      exact hinv

/-- A run keeps the invariant. -/
theorem poolInv_reachable (h : PoolReachable whole s) :
    PoolInv whole s.pool.blocks s.io s.live := by
  obtain ⟨s₀, hstart, hrun⟩ := h
  induction hrun with
  | refl => exact hstart.inv
  | tail _ hstep ih => exact ih.step hstep

/-- Memory that the firmware answers for can be allocated in a run. -/
theorem PoolReachable.allocate (h : PoolReachable whole s) {size : Nat} (hsize : GoodSize size)
    {answer : BlockAnswer}
    (hhonest : answer.Honest s.pool.blocks s.io (newBlockPages (usbhcMemRound size)))
    (hwhole : whole → answer.Whole (newBlockPages (usbhcMemRound size))) :
    ∃ mem pool io, PoolReachable whole ⟨pool, io, liveAfter mem size s.live⟩ ∧
      AllocateResult answer s.io s.pool size mem pool io := by
  have hinv := poolInv_reachable h
  obtain ⟨mem, pool, io, hrun, hresult⟩ := hinv.consistent.allocateMem hinv.head hsize hhonest
  obtain ⟨s₀, hstart, hsteps⟩ := h
  exact ⟨mem, pool, io, ⟨s₀, hstart, hsteps.tail (.allocate hsize hhonest hwhole hrun)⟩, hresult⟩

/-- What the driver holds can be freed in a run. -/
theorem PoolReachable.free (h : PoolReachable whole s) {x : Allocation} (hx : x ∈ s.live) :
    ∃ pool io, PoolReachable whole ⟨pool, io, s.live.erase x⟩ := by
  obtain ⟨pool, io, hrun, _⟩ := (poolInv_reachable h).freeMem hx
  obtain ⟨s₀, hstart, hsteps⟩ := h
  exact ⟨pool, io, s₀, hstart, hsteps.tail (.free hx hrun)⟩

/-- The block of a new pool. -/
def fullHead (bits : Nat → BitVec 8) : UsbhcMemBlock :=
  { newMemBlock 16 0x10000 0x80000000 ⟨0x10000, 0x80000000, 0x10000⟩ with bits := bits }

/-- A new pool whose head is allocated as a whole. -/
theorem reachable_full : ∃ s, PoolReachable True s ∧ s.live = [⟨0x10000, 0x10000⟩] ∧
    ∃ bits, s.pool.blocks = [fullHead bits] := by
  have hhonest : BlockAnswer.Honest ⟨true, true, some 0x10000, some (0x80000000, 0x10000)⟩ [] {} 16 :=
    ⟨by simp [efiPageSize], by simp⟩
  have hstart : PoolStart ⟨⟨[newMemBlock 16 0x10000 0x80000000
      ⟨0x10000, 0x80000000, 0x10000⟩]⟩, _, []⟩ := .init hhonest rfl
  have hsize : GoodSize 0x10000 := by
    unfold GoodSize usbhcMemUnitMask usbhcMemUnit
    decide
  have hfails : BlockAnswer.Honest ⟨false, false, none, none⟩
      [newMemBlock 16 0x10000 0x80000000 ⟨0x10000, 0x80000000, 0x10000⟩]
      (({} : PciIo).allocateBuffer 16 0x10000 |>.map ⟨0x10000, 0x80000000, 0x10000⟩)
      (newBlockPages (usbhcMemRound 0x10000)) := ⟨by simp, by simp⟩
  have hinv : PoolInv True _ _ _ := hstart.inv
  obtain ⟨mem, pool, io, hrun, hresult⟩ := hinv.consistent.allocateMem hinv.head hsize hfails
  have hstep : PoolStep True _ _ := .allocate hsize hfails (by simp [BlockAnswer.Whole]) hrun
  have hzero : Fits (unitBit (newMemBlock 16 0x10000 0x80000000
      ⟨0x10000, 0x80000000, 0x10000⟩).bits) ((newMemBlock 16 0x10000 0x80000000
      ⟨0x10000, 0x80000000, 0x10000⟩).bitsLen * 8) (usbhcMemRound 0x10000 / usbhcMemUnit) 0 :=
    ⟨by decide, fun u _ _ => by simp [unitBit, newMemBlock, usbHcBitIsSet_eq _ (Nat.mod_lt u _)]⟩
  refine ⟨_, ⟨_, hstart, .single hstep⟩, ?_⟩
  cases hresult with
  | @found pre block post t bits hblocks hpre hfit _ =>
      obtain ⟨rfl, htail⟩ := List.append_eq_singleton_iff.mp hblocks.symm
        |>.resolve_right (by simp)
      cases htail
      obtain rfl : t = 0 := Nat.le_zero.mp (hfit.2 hzero)
      exact ⟨rfl, bits, rfl⟩
  | newBlock _ hnone _ _ => exact absurd hzero (hnone _ List.mem_cons_self 0)
  | null hnone _ => exact absurd hzero (hnone _ List.mem_cons_self 0)

/-- No unit of the block is free then. -/
theorem noneFits_fullHead (h : PoolReachable whole s) (hlive : s.live = [⟨0x10000, 0x10000⟩])
    {bits : Nat → BitVec 8} (hblocks : s.pool.blocks = [fullHead bits]) {n : Nat} (hn : 0 < n) :
    NoneFits n (fullHead bits) := by
  rintro t ⟨hroom, hfree⟩
  have hinv := (poolInv_reachable h).consistent
  rw [hblocks, hlive] at hinv
  have hhost : (fullHead bits).bufHost = 0x10000 := rfl
  have hbufLen : (fullHead bits).bufLen = 0x10000 := rfl
  have hlen : (fullHead bits).bitsLen * 8 = 1024 := rfl
  have hholds : (fullHead bits).holds 0x10000 (1024 * 64) = true := by
    rw [holds_iff, hhost, hbufLen]
    omega
  have hbit := hinv.bits_set (u := t) List.mem_cons_self List.mem_cons_self
    (show usbhcMemRound 0x10000 = 1024 * 64 by decide) hholds
    (by rw [hhost]; simp only; omega) (by rw [hhost]; simp only; omega)
  rw [hfree t le_rfl (by omega)] at hbit
  cases hbit

theorem goodSize_of_lt {size : Nat} (hpos : 0 < size) (hlt : size < 0x1000) : GoodSize size := by
  unfold GoodSize usbhcMemUnitMask usbhcMemUnit
  omega

/-- The firmware may answer with a second block behind the first one. -/
theorem honest_secondBlock (h : PoolReachable whole s) {bits : Nat → BitVec 8}
    (hblocks : s.pool.blocks = [fullHead bits]) :
    BlockAnswer.Honest ⟨true, true, some 0x40000, some (0x90000000, 0x10000)⟩ s.pool.blocks s.io
      (newBlockPages (usbhcMemRound 64)) := by
  constructor
  · rintro _ ⟨⟩
    refine ⟨by decide, by decide, Finset.disjoint_left.mpr fun page hpage hmem => ?_⟩
    have hbacked := (poolInv_reachable h).consistent.backed.pages
    obtain ⟨buffer, hbuffer, hin⟩ := (hbacked.covered page).mp hmem
    rw [hblocks] at hbuffer
    obtain rfl := List.mem_singleton.mp hbuffer
    have hbuffer : (fullHead bits).buffer = (0x10000, 16) :=
      congrArg (Prod.mk 0x10000) (efiSizeToPages_efiPagesToSize 16)
    rw [hbuffer] at hin
    have hlow := (Finset.mem_Ico.mp hpage).1
    have hhigh := (Finset.mem_Ico.mp (Finset.mem_coe.mp hin)).2
    unfold efiPageSize at hlow hhigh
    omega
  · rintro _ _ _ ⟨⟩ block hblock
    rw [hblocks] at hblock
    obtain rfl := List.mem_singleton.mp hblock
    exact .inr (show 0x80000000 + 0x10000 ≤ 0x90000000 by decide)

/-- A second block of which the first unit is in use. -/
structure SecondBlock (second : UsbhcMemBlock) : Prop where
  bufHost : second.bufHost = 0x40000
  bitsLen : second.bitsLen = 128
  used : ∀ u, unitBit second.bits u = decide (u = 0)

/-- It is made for 64 bytes if the first one is full. -/
theorem reachable_secondBlock : ∃ pool io bits second,
    PoolReachable True ⟨pool, io, [⟨0x40000, 64⟩, ⟨0x10000, 0x10000⟩]⟩ ∧
      pool.blocks = [fullHead bits, second] ∧ SecondBlock second ∧
        ∀ {n}, 0 < n → NoneFits n (fullHead bits) := by
  obtain ⟨s, hreachable, hlive, bits, hblocks⟩ := reachable_full
  have hfull {n : Nat} (hn : 0 < n) := noneFits_fullHead hreachable hlive hblocks hn
  obtain ⟨mem, pool, io, hreachable', hresult⟩ := hreachable.allocate
    (goodSize_of_lt (by decide) (by decide)) (honest_secondBlock hreachable hblocks)
    (by rintro - _ _ ⟨⟩; decide)
  rw [hlive] at hreachable'
  cases hresult with
  | @found pre block post t bits' hfound hpre hfit hbits =>
      have hmem : block ∈ s.pool.blocks := by simp [hfound]
      rw [hblocks] at hmem
      obtain rfl := List.mem_singleton.mp hmem
      exact absurd hfit.1 (hfull (by decide) t)
  | @newBlock head next block io' bits' hnext hnone hnew hbits =>
      rw [hblocks] at hnext
      obtain ⟨rfl, rfl⟩ := List.cons.inj hnext
      cases hnew
      refine ⟨_, _, bits, _, hreachable', rfl, ⟨rfl, rfl, fun u => (hbits u).trans ?_⟩, hfull⟩
      have hunits : usbhcMemRound 64 / usbhcMemUnit = 1 := rfl
      have hclear : unitBit (newMemBlock 16 0x40000 0x90000000
          ⟨0x40000, 0x90000000, 0x10000⟩).bits u = false := by
        simp [unitBit, newMemBlock, usbHcBitIsSet_eq _ (Nat.mod_lt u _)]
      rw [hunits]
      by_cases hzero : u = 0
      · simp [hzero]
      · rw [if_neg (by omega), decide_eq_false hzero]
        exact hclear
  | null hnone hnew => cases hnew

/-- The units behind the first one are the first that are free. -/
theorem SecondBlock.firstFit {second : UsbhcMemBlock} (h : SecondBlock second) :
    FirstFit (unitBit second.bits) (second.bitsLen * 8) 2 1 := by
  have hlen := h.bitsLen
  refine ⟨⟨by omega, fun u hlow _ => ?_⟩, fun t ht => ?_⟩
  · rw [h.used u, decide_eq_false (by omega)]
  · have hbit := ht.2 t le_rfl (by omega)
    rw [h.used t, decide_eq_false_iff_not] at hbit
    omega

/-- A second block is made for 64 bytes, 128 bytes are taken from it, and the 64 are freed. -/
theorem reachable_twoBlocks : ∃ s, PoolReachable True s ∧
    s.live = [⟨0x40040, 128⟩, ⟨0x10000, 0x10000⟩] := by
  obtain ⟨pool, io, bits, second, hreachable, hblocks, hsecond, hfull⟩ := reachable_secondBlock
  have hfits := hsecond.firstFit
  have hfails : BlockAnswer.Honest ⟨false, false, none, none⟩ pool.blocks io
      (newBlockPages (usbhcMemRound 128)) := ⟨by simp, by simp⟩
  obtain ⟨mem, pool', io', hreachable', hresult⟩ := hreachable.allocate
    (goodSize_of_lt (by decide) (by decide)) hfails (by simp [BlockAnswer.Whole])
  obtain rfl : mem = some 0x40040 := by
    cases hresult with
    | @found pre block post t bits' hfound hpre hfit hbits =>
        have hhead : ∀ b ∈ [fullHead bits], NoneFits 2 b := by simpa using hfull (by decide)
        obtain ⟨rfl, rfl⟩ := first_unique hpre hfit hhead hfits
          (show pre ++ block :: post = [fullHead bits] ++ second :: [] from
            hfound.symm.trans hblocks)
        rw [hsecond.bufHost]
        rfl
    | newBlock _ hnone _ _ => exact absurd hfits.1 (hnone second (by simp [hblocks]) 1)
    | null hnone _ => exact absurd hfits.1 (hnone second (by simp [hblocks]) 1)
  obtain ⟨pool'', io'', hfreed⟩ := hreachable'.free (x := ⟨0x40000, 64⟩) (by simp [liveAfter])
  refine ⟨_, hfreed, ?_⟩
  show (liveAfter (some 0x40040) 128 [⟨0x40000, 64⟩, ⟨0x10000, 0x10000⟩]).erase ⟨0x40000, 64⟩ = _
  decide

/-- In every run, no operation fails an assertion; what the driver holds is aligned, inside the
buffer of a block, and disjoint; and every block but the head has some of it. -/
theorem memPool_safe (h : PoolReachable whole s) :
    (∀ x ∈ s.live, x.mem % 64 = 0 ∧ ∃ block ∈ s.pool.blocks,
      block.bufHost ≤ x.mem ∧ x.mem + x.size ≤ block.bufHost + block.bufLen) ∧
    (s.live.Pairwise fun x y => x.mem + x.size ≤ y.mem ∨ y.mem + y.size ≤ x.mem) ∧
    (∀ block ∈ s.pool.blocks.tail, ∃ x ∈ s.live,
      block.bufHost ≤ x.mem ∧ x.mem + x.size ≤ block.bufHost + block.bufLen) ∧
    (∀ size answer, GoodSize size →
      answer.Honest s.pool.blocks s.io (newBlockPages (usbhcMemRound size)) →
      usbHcAllocateMem answer s.io s.pool size ≠ none) ∧
    ∀ x ∈ s.live, usbHcFreeMem s.io s.pool x.mem x.size ≠ none := by
  have hinv := poolInv_reachable h
  refine ⟨fun x hx => ?_, hinv.consistent.live_disjoint, fun block hblock => ?_,
    fun size answer hsize hhonest hnone => ?_, fun x hx hnone => ?_⟩
  · obtain ⟨hsize, hmem, block, hblock, hholds⟩ := hinv.consistent.placed x hx
    exact ⟨hmem, block, hblock, hsize.inside hholds⟩
  · exact hinv.block_used hblock
  · obtain ⟨_, _, _, hrun, _⟩ := hinv.consistent.allocateMem hinv.head hsize hhonest
    rw [hnone] at hrun
    cases hrun
  · obtain ⟨_, _, hrun, _⟩ := hinv.freeMem hx
    rw [hnone] at hrun
    cases hrun

theorem memPool_safe_twoBlocks : ∃ s : PoolSystem,
    s.live = [⟨0x40040, 128⟩, ⟨0x10000, 0x10000⟩] ∧
    (∀ x ∈ s.live, x.mem % 64 = 0 ∧ ∃ block ∈ s.pool.blocks,
      block.bufHost ≤ x.mem ∧ x.mem + x.size ≤ block.bufHost + block.bufLen) ∧
    (∀ block ∈ s.pool.blocks.tail, ∃ x ∈ s.live,
      block.bufHost ≤ x.mem ∧ x.mem + x.size ≤ block.bufHost + block.bufLen) ∧
    ∀ x ∈ s.live, usbHcFreeMem s.io s.pool x.mem x.size ≠ none := by
  obtain ⟨s, hreachable, hlive⟩ := reachable_twoBlocks
  have hsafe := memPool_safe hreachable
  exact ⟨s, hlive, hsafe.1, hsafe.2.2.1, hsafe.2.2.2.2⟩

/-- `UsbHcAllocateMem` takes the first run of free units of the first block that has one, and
asks the firmware only if there is none; it returns `NULL` exactly if the firmware then fails,
and leaves the pool and its pages as they were. -/
theorem allocateMem_firstFit (h : PoolReachable whole s) {size : Nat} (hsize : GoodSize size)
    {answer : BlockAnswer}
    (hhonest : answer.Honest s.pool.blocks s.io (newBlockPages (usbhcMemRound size))) :
    ∃ mem pool io, usbHcAllocateMem answer s.io s.pool size = some (mem, pool, io) ∧
      (mem = none ↔ (∀ b ∈ s.pool.blocks, NoneFits (usbhcMemRound size / usbhcMemUnit) b) ∧
        (usbHcAllocMemBlock answer s.io (newBlockPages (usbhcMemRound size))).1 = none) ∧
      (mem = none → pool = s.pool ∧ io.pages = s.io.pages) ∧
      ∀ pre block post t, s.pool.blocks = pre ++ block :: post →
        (∀ b ∈ pre, NoneFits (usbhcMemRound size / usbhcMemUnit) b) →
        FirstFit (unitBit block.bits) (block.bitsLen * 8) (usbhcMemRound size / usbhcMemUnit) t →
        mem = some (block.bufHost + t * usbhcMemUnit) ∧ io = s.io := by
  have hinv := poolInv_reachable h
  obtain ⟨mem, pool, io, hrun, hresult⟩ := hinv.consistent.allocateMem hinv.head hsize hhonest
  refine ⟨mem, pool, io, hrun, ?_⟩
  cases hresult with
  | @found pre block post t bits hblocks hpre hfit hbits =>
      refine ⟨⟨fun hnull => (nomatch hnull), fun hnone => ?_⟩, fun hnull => (nomatch hnull), ?_⟩
      · exact absurd hfit.1 (hnone.1 block (by simp [hblocks]) t)
      · intro pre' block' post' t' hblocks' hpre' hfit'
        rw [hblocks] at hblocks'
        obtain ⟨rfl, rfl⟩ := first_unique hpre hfit hpre' hfit' hblocks'
        exact ⟨rfl, rfl⟩
  | newBlock hblocks hnone hnew hbits =>
      refine ⟨⟨fun hnull => (nomatch hnull), fun hnull => ?_⟩, fun hnull => (nomatch hnull), ?_⟩
      · rw [hnew] at hnull
        cases hnull.2
      · intro pre' block' post' t' hblocks' _ hfit'
        exact absurd hfit'.1 (hnone block' (by simp [hblocks']) t')
  | null hnone hnew =>
      refine ⟨⟨fun _ => ⟨hnone, by rw [hnew]⟩, fun _ => rfl⟩, fun _ => ⟨rfl, ?_⟩, ?_⟩
      · exact noBlock_pages hhonest hnew
      · intro pre' block' post' t' hblocks' _ hfit'
        exact absurd hfit'.1 (hnone block' (by simp [hblocks']) t')

/-- A pool that is full, and a firmware that fails. -/
theorem allocateMem_firstFit_null : ∃ (s : PoolSystem) (pool : UsbhcMemPool) (io : PciIo),
    s.live = [⟨0x10000, 0x10000⟩] ∧
    usbHcAllocateMem ⟨false, false, none, none⟩ s.io s.pool 64 = some (none, pool, io) ∧
    pool = s.pool := by
  obtain ⟨s, hreachable, hlive, bits, hblocks⟩ := reachable_full
  have hsize : GoodSize 64 := goodSize_of_lt (by decide) (by decide)
  have hfails : BlockAnswer.Honest ⟨false, false, none, none⟩ s.pool.blocks s.io
      (newBlockPages (usbhcMemRound 64)) := ⟨by simp, by simp⟩
  obtain ⟨mem, pool, io, hrun, hnull, hsame, _⟩ := allocateMem_firstFit hreachable hsize hfails
  have hused : mem = none := by
    refine hnull.mpr ⟨fun b hb => ?_, rfl⟩
    rw [hblocks, List.mem_singleton] at hb
    rw [hb]
    exact noneFits_fullHead hreachable hlive hblocks (by decide)
  rw [hused] at hrun
  exact ⟨s, pool, io, hlive, hrun, (hsame hused).1⟩

/-- `UsbHcFreeMemPool` after any run gives back all pages, and all mappings if the firmware has
mapped whole buffers. -/
theorem freeMemPool_returns (h : PoolReachable whole s) :
    ∃ io, usbHcFreeMemPool s.io s.pool = some io ∧ io.pages = ∅ ∧ (whole → io.mappings = []) := by
  have hinv := poolInv_reachable h
  obtain ⟨head, next, hblocks⟩ := List.exists_cons_of_ne_nil hinv.head
  have hbacked := hinv.consistent.backed
  rw [hblocks] at hbacked
  obtain ⟨hpages, ⟨leaked, hleaked, hwhole⟩, _⟩ := hbacked.freeMemPool
  refine ⟨_, by rw [usbHcFreeMemPool, hblocks], ?_, fun hw => ?_⟩
  · rw [Finset.eq_empty_iff_forall_notMem]
    intro page hpage
    obtain ⟨i, hi, _⟩ := (hpages.covered page).mp hpage
    exact absurd hi List.not_mem_nil
  · rw [hwhole hw] at hleaked
    exact List.perm_nil.mp hleaked

theorem freeMemPool_returns_twoBlocks : ∃ (s : PoolSystem) (io : PciIo),
    s.live = [⟨0x40040, 128⟩, ⟨0x10000, 0x10000⟩] ∧
    usbHcFreeMemPool s.io s.pool = some io ∧ io.pages = ∅ ∧ io.mappings = [] := by
  obtain ⟨s, hreachable, hlive⟩ := reachable_twoBlocks
  obtain ⟨io, hrun, hpages, hmappings⟩ := freeMemPool_returns hreachable
  exact ⟨s, io, hlive, hrun, hpages, hmappings trivial⟩

end Runs

end XhciDxe
end EfiApps
