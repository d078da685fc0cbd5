import EfiApps.XhciDxe.MemPoolRuns

/-!
# Addresses for the controller

The controller sees the memory of the pool at other addresses.  The functions that convert an
address look for the block that contains the memory with its size rounded up to whole units.
-/

namespace EfiApps
namespace XhciDxe

section Translation

variable {blocks : List UsbhcMemBlock} {block : UsbhcMemBlock} {whole : Prop} {io : PciIo}
  {live : List Allocation} {mem n : Nat}

/-- A block that covers an address is the one that the search finds, if it contains all of the
memory; otherwise the search finds none. -/
theorem Consistent.find_holds (h : Consistent whole blocks io live) (hblock : block ∈ blocks)
    (hcovers : block.Covers mem) (hn : 0 < n) :
    (blocks.find? fun b => b.holds mem n) = if block.holds mem n then some block else none := by
  have hother : ∀ c ∈ blocks, c.holds mem n = true → c = block := by
    intro c hc hholds
    by_contra hne
    exact h.covers_disjoint.forall hc hblock hne mem (covers_of_holds hn hholds) hcovers
  by_cases hholds : block.holds mem n = true
  · rw [if_pos hholds]
    cases hfind : blocks.find? fun b => b.holds mem n with
    | none => exact absurd hholds (List.find?_eq_none.mp hfind block hblock)
    | some c =>
        have hfound := List.find?_some (p := fun b : UsbhcMemBlock => b.holds mem n) hfind
        rw [hother c (List.mem_of_find?_eq_some hfind) hfound]
  · rw [if_neg hholds, List.find?_eq_none]
    intro c hc hc'
    rw [hother c hc hc'] at hc'
    exact hholds hc'

/-- The same for the device addresses. -/
theorem Consistent.find_device (h : Consistent whole blocks io live) (hblock : block ∈ blocks)
    (hn : 0 < n) (hlow : block.buf ≤ mem) (hhigh : mem + n ≤ block.buf + block.bufLen) :
    (blocks.find? fun b => b.buf ≤ mem && mem + n ≤ b.buf + b.bufLen) = some block := by
  have hother : ∀ c ∈ blocks, (c.buf ≤ mem && mem + n ≤ c.buf + c.bufLen) = true → c = block := by
    intro c hc hholds
    rw [Bool.and_eq_true, decide_eq_true_eq, decide_eq_true_eq] at hholds
    by_contra hne
    rcases h.devices_apart.forall hc hblock hne with hapart | hapart
    · omega
    · omega
  cases hfind : blocks.find? fun b => b.buf ≤ mem && mem + n ≤ b.buf + b.bufLen with
  | none =>
      have hnone := List.find?_eq_none.mp hfind block hblock
      simp [hlow, hhigh] at hnone
  | some c =>
      have hfound := List.find?_some
        (p := fun b : UsbhcMemBlock => b.buf ≤ mem && mem + n ≤ b.buf + b.bufLen) hfind
      rw [hother c (List.mem_of_find?_eq_some hfind) hfound]

end Translation

section Inside

variable {whole : Prop} {s : PoolSystem} {x : Allocation} {block : UsbhcMemBlock} {mem size : Nat}

/-- Every allocation lies in a block, with its size rounded up. -/
theorem exists_block (h : PoolReachable whole s) (hx : x ∈ s.live) :
    ∃ block ∈ s.pool.blocks, block.holds x.mem (usbhcMemRound x.size) = true := by
  obtain ⟨_, _, block, hblock, hholds⟩ := (poolInv_reachable h).consistent.placed x hx
  exact ⟨block, hblock, hholds⟩

/-- Memory inside an allocation is converted with its offset in the block, if there is room for
the size rounded up. -/
theorem usbHcGetPciAddrForHostAddr_inside (h : PoolReachable whole s) (hx : x ∈ s.live)
    (hblock : block ∈ s.pool.blocks) (hholds : block.holds x.mem (usbhcMemRound x.size) = true)
    (hpos : 0 < size) (hfrom : x.mem ≤ mem) (hto : mem + size ≤ x.mem + x.size) :
    usbHcGetPciAddrForHostAddr s.pool mem size =
      if mem + usbhcMemRound size ≤ block.bufHost + block.bufLen then
        some (block.buf + (mem - block.bufHost))
      else none := by
  have hinv := (poolInv_reachable h).consistent
  obtain ⟨hsize, _, _⟩ := hinv.placed x hx
  obtain ⟨hlow, hhigh⟩ := hsize.inside hholds
  have hgood : GoodSize size := ⟨hpos, by
    have hbound := hsize.2
    omega⟩
  obtain ⟨units, hunits, hround, _⟩ := hgood.round
  have hcovers : block.Covers mem := ⟨by omega, by omega⟩
  have hnotNull : mem ≠ 0 := by
    have hhost := (hinv.wellFormed block hblock).pos
    omega
  unfold usbHcGetPciAddrForHostAddr
  rw [if_neg hnotNull, hinv.find_holds hblock hcovers (by omega)]
  by_cases hfits : block.holds mem (usbhcMemRound size) = true
  · rw [if_pos hfits, if_pos ((holds_iff _ _).mp hfits).2]
    rfl
  · have hpast : ¬mem + usbhcMemRound size ≤ block.bufHost + block.bufLen := fun hend =>
      hfits ((holds_iff _ _).mpr ⟨by omega, hend⟩)
    rw [if_neg hfits, if_neg hpast]
    rfl

/-- A device address is converted to memory inside an allocation exactly if it is the address
of that memory and there is room for the size rounded up. -/
theorem usbHcGetHostAddrForPciAddr_inside (h : PoolReachable whole s) (hx : x ∈ s.live)
    (hblock : block ∈ s.pool.blocks) (hholds : block.holds x.mem (usbhcMemRound x.size) = true)
    (hpos : 0 < size) (hfrom : x.mem ≤ mem) (hto : mem + size ≤ x.mem + x.size) {phyAddr : Nat}
    (hphy : phyAddr ≠ 0) :
    usbHcGetHostAddrForPciAddr s.pool phyAddr size = some mem ↔
      phyAddr = block.buf + (mem - block.bufHost) ∧
        mem + usbhcMemRound size ≤ block.bufHost + block.bufLen := by
  have hinv := (poolInv_reachable h).consistent
  obtain ⟨hsize, _, _⟩ := hinv.placed x hx
  obtain ⟨hlow, hhigh⟩ := hsize.inside hholds
  have hgood : GoodSize size := ⟨hpos, by
    have hbound := hsize.2
    omega⟩
  obtain ⟨units, hunits, hround, _⟩ := hgood.round
  unfold usbHcGetHostAddrForPciAddr
  rw [if_neg hphy]
  constructor
  · intro hsome
    obtain ⟨c, hfind, hmem⟩ := Option.map_eq_some_iff.mp hsome
    have hfound := List.find?_some (p := fun b : UsbhcMemBlock =>
      b.buf ≤ phyAddr && phyAddr + usbhcMemRound size ≤ b.buf + b.bufLen) hfind
    rw [Bool.and_eq_true, decide_eq_true_eq, decide_eq_true_eq] at hfound
    -- The block that is found covers the memory too.
    have hsame : c = block := by
      by_contra hne
      have hcovers : block.Covers mem := ⟨by omega, by omega⟩
      have hcovers' : c.Covers mem := ⟨by omega, by omega⟩
      exact hinv.covers_disjoint.forall (List.mem_of_find?_eq_some hfind) hblock hne mem hcovers'
        hcovers
    subst hsame
    omega
  · rintro ⟨hphyAddr, hend⟩
    rw [hinv.find_device hblock (by omega) (by omega) (by omega), Option.map_some]
    congr 1
    omega

end Inside

/-- For memory inside an allocation, such as one TRB of a ring, the conversion fails exactly if
the size rounded up reaches past the end of the block; otherwise it keeps the offset in the
block, and the conversion back finds the memory again. -/
theorem pciAddr_roundTrip {whole : Prop} {s : PoolSystem} (h : PoolReachable whole s)
    {x : Allocation} (hx : x ∈ s.live) :
    ∃ block ∈ s.pool.blocks, block.holds x.mem (usbhcMemRound x.size) = true ∧
      ∀ mem size, 0 < size → x.mem ≤ mem → mem + size ≤ x.mem + x.size →
        (usbHcGetPciAddrForHostAddr s.pool mem size = none ↔
          block.bufHost + block.bufLen < mem + usbhcMemRound size) ∧
        ∀ phyAddr, usbHcGetPciAddrForHostAddr s.pool mem size = some phyAddr →
          phyAddr = block.buf + (mem - block.bufHost) ∧
          (phyAddr ≠ 0 → usbHcGetHostAddrForPciAddr s.pool phyAddr size = some mem) := by
  obtain ⟨block, hblock, hholds⟩ := exists_block h hx
  refine ⟨block, hblock, hholds, fun mem size hpos hfrom hto => ?_⟩
  rw [usbHcGetPciAddrForHostAddr_inside h hx hblock hholds hpos hfrom hto]
  by_cases hfits : mem + usbhcMemRound size ≤ block.bufHost + block.bufLen
  · rw [if_pos hfits]
    refine ⟨⟨fun hnone => (nomatch hnone), fun hpast => by omega⟩, fun phyAddr hsome => ?_⟩
    cases hsome
    exact ⟨rfl, fun hne => (usbHcGetHostAddrForPciAddr_inside h hx hblock hholds hpos hfrom hto
      hne).mpr ⟨rfl, hfits⟩⟩
  · rw [if_neg hfits]
    exact ⟨⟨fun _ => by omega, fun _ => rfl⟩, fun phyAddr hsome => (nomatch hsome)⟩

/-- The last TRB of a ring that ends with its block cannot be converted; the one 48 bytes before
can. -/
theorem pciAddr_roundTrip_last : ∃ (s : PoolSystem) (x : Allocation), x ∈ s.live ∧
    x.mem + x.size = 0x20000 ∧ usbHcGetPciAddrForHostAddr s.pool 0x1FFF0 16 = none ∧
    usbHcGetPciAddrForHostAddr s.pool 0x1FFC0 16 = some 0x8000FFC0 := by
  obtain ⟨s, hreachable, hlive, bits, hblocks⟩ := reachable_full
  have hmem : ⟨0x10000, 0x10000⟩ ∈ s.live := by simp [hlive]
  obtain ⟨block, hblock, _, hall⟩ := pciAddr_roundTrip hreachable hmem
  rw [hblocks, List.mem_singleton] at hblock
  have hhost : block.bufHost = 0x10000 := by rw [hblock]; rfl
  have hbuf : block.buf = 0x80000000 := by rw [hblock]; rfl
  have hlen : block.bufLen = 0x10000 := by rw [hblock]; rfl
  have hround : usbhcMemRound 16 = 64 := by decide
  obtain ⟨hlast, _⟩ := hall 0x1FFF0 16 (by decide) (by decide) (by decide)
  obtain ⟨hinside, hsome⟩ := hall 0x1FFC0 16 (by decide) (by decide) (by decide)
  refine ⟨s, _, hmem, rfl, hlast.mpr (by omega), ?_⟩
  cases haddr : usbHcGetPciAddrForHostAddr s.pool 0x1FFC0 16 with
  | none =>
      have hpast := hinside.mp haddr
      omega
  | some phyAddr =>
      rw [(hsome phyAddr haddr).1, hbuf, hhost]

end XhciDxe
end EfiApps
