import EfiApps.XhciDxe.RingProtocol

/-!
# Which TRBs belong to a URB

An event names a TRB by its address.  `IsTransferRingTrb` looks for it among the TRBs of a
URB: it starts at `TrbStart`, goes on for `TrbNum` TRBs, and follows the link at the end of
the ring.
-/

namespace EfiApps
namespace XhciDxe

open LinkedRing

/-! ## The walk -/

/-- The TRB after `CheckedTrb`, through the link if there is one. -/
def nextCheckedTrb (phyAddr : BitVec 64) (seg : Nat → TrbTemplate) (checkedTrb : Nat) : Nat :=
  if (seg (checkedTrb + 1)).type = trbTypeLink then
    ((seg (checkedTrb + 1)).pointer - phyAddr).toNat / trbSize
  else checkedTrb + 1

/-- The loop of `IsTransferRingTrb`, with so many iterations left. -/
def isTransferRingTrbLoop (phyAddr : BitVec 64) (seg : Nat → TrbTemplate) (trb : Nat) :
    Nat → Nat → Bool
  | 0, _ => false
  | left + 1, checkedTrb =>
      if trb = checkedTrb then true
      else isTransferRingTrbLoop phyAddr seg trb left (nextCheckedTrb phyAddr seg checkedTrb)

/-- `IsTransferRingTrb`, for the ring with the segment `seg`. -/
def isTransferRingTrb (phyAddr : BitVec 64) (seg : Nat → TrbTemplate) (trb : Nat) (urb : Urb) :
    Bool :=
  isTransferRingTrbLoop phyAddr seg trb urb.trbNum urb.trbStart

section Walk

variable {phyAddr : BitVec 64} {cap : Nat} {r : TransferRing} {p : Produced TrbTemplate}
  {synced : Bool}

/-- From the place of an entry the walk goes on to that of the next one. -/
theorem RingInv.nextCheckedTrb (h : RingInv phyAddr cap r p synced) (hcap : 0 < cap) (n : Nat) :
    nextCheckedTrb phyAddr r.ringSeg0 (n % cap) = (n + 1) % cap := by
  have hmod := Nat.mod_lt n hcap
  unfold XhciDxe.nextCheckedTrb
  rw [h.seg, succ_mod hcap]
  by_cases hend : n % cap + 1 = cap
  · have htarget : ((p.cell cap).pointer - phyAddr).toNat / trbSize = 0 := by
      have hlink := h.link
      simp only [trbFormat, if_pos h.linkType, Option.some.injEq, Prod.mk.injEq] at hlink
      exact hlink.1
    rw [hend, if_pos h.linkType, if_pos rfl, htarget]
  · rw [if_neg (h.data _ (by omega)), if_neg hend]

theorem RingInv.isTransferRingTrbLoop (h : RingInv phyAddr cap r p synced) (hcap : 0 < cap)
    (trb left n : Nat) :
    isTransferRingTrbLoop phyAddr r.ringSeg0 trb left (n % cap) = true ↔
      ∃ j, j < left ∧ trb = (n + j) % cap := by
  induction left generalizing n with
  | zero => simp [XhciDxe.isTransferRingTrbLoop]
  | succ left ih =>
      rw [XhciDxe.isTransferRingTrbLoop, h.nextCheckedTrb hcap]
      by_cases hhere : trb = n % cap
      · rw [if_pos hhere]
        exact ⟨fun _ => ⟨0, Nat.succ_pos _, hhere⟩, fun _ => rfl⟩
      · rw [if_neg hhere, ih]
        constructor
        · rintro ⟨j, hj, htrb⟩
          exact ⟨j + 1, by omega, by rw [htrb, Nat.add_assoc, Nat.add_comm 1]⟩
        · rintro ⟨j, hj, htrb⟩
          cases j with
          | zero => exact absurd htrb hhere
          | succ j => exact ⟨j, by omega, by rw [htrb, Nat.add_assoc, Nat.add_comm 1]⟩

end Walk

/-! ## The URB of a transfer -/

/-- A URB whose TRBs are the `size` entries of the ring from entry `n` on. -/
structure UrbAt (cap n size : Nat) (urb : Urb) : Prop where
  start : urb.trbStart = n % cap
  num : urb.trbNum = size
  stop : 0 < size → urb.trbEnd = (n + size - 1) % cap

/-- Two runs of entries that follow on each other and fit into one lap share no TRB. -/
theorem UrbAt.disjoint {cap n size n' size' : Nat} (hcap : 0 < cap) (horder : n + size ≤ n')
    (hfit : n' + size' ≤ n + cap) {j j' : Nat} (hj : j < size) (hj' : j' < size') :
    (n + j) % cap ≠ (n' + j') % cap :=
  mod_ne_of_lt hcap (by omega) (by omega)

/-- The TRBs of a transfer, among whatever else is put on the ring before it and after it:
`IsTransferRingTrb` finds them and no others, also across the link. -/
theorem isTransferRingTrb_iff {place : RingPlace} {whole : Prop} {s : PoolSystem} {cap : Nat}
    (hcap : 0 < cap) (hplace : place.Allocated whole s cap) {before later : List RingCall}
    {epType : EpType} {urb : Urb}
    (hcalls : Supported (before ++ .transfer epType urb :: later)) {x : RingRun}
    (hbefore : runCalls place before (place.newRing cap) = some x) :
    ∃ urb' y built size,
      xhcCreateTransferTrb epType urb x = some (urb', y) ∧
      CallTrbs before built ∧ transferSize epType urb = some size ∧
      UrbAt cap built.length size urb' ∧
      ∀ z, runCalls place later y = some z →
        ∀ trb, isTransferRingTrb place.phyAddr z.ring.ringSeg0 trb urb' = true ↔
          ∃ j, j < size ∧ trb = (built.length + j) % cap := by
  obtain ⟨block, hblock⟩ := hplace.inBlock
  obtain ⟨p, built, synced, htrbs, hexec, hrest⟩ :=
    (executes_calls hcap hplace hblock (newRing_inv place) hcalls).of_run hbefore
  obtain ⟨size, hsize, hnum, hb, hlater⟩ := hrest
  have hlen : p.handed.length = built.length := by simp [hexec.handed]
  obtain ⟨y, q, first, hcreate, _, hcount, hputs⟩ :=
    puts_transferTrb (B := fun _ _ => True) hexec.inv hcap hsize hnum hb
  refine ⟨_, y, built, size, hcreate, htrbs, hsize, ?_, fun z hruns trb => ?_⟩
  · exact
      { start := by rw [hlen]
        num := rfl
        stop := by
          intro hpos
          have hne : size ≠ 0 := by omega
          simp [hne, hlen] }
  · rw [← hcount, ← hputs.length, ← hputs.known, ← List.append_nil later] at hlater
    obtain ⟨r, _, _, _, hend, _⟩ :=
      (executes_calls hcap hplace hblock hputs.advance.inv hlater).of_run hruns
    have hloop := hend.inv.isTransferRingTrbLoop hcap trb size p.handed.length
    rw [hlen] at hloop
    rw [← hloop]
    unfold isTransferRingTrb
    rw [hlen]

/-- A transfer of four pieces on a ring with room for three TRBs up to the link. -/
theorem isTransferRingTrb_iff_wrap :
    ∃ (s : PoolSystem) (x : RingRun),
      runCalls (fullBlockRing s.pool) [.transfer .bulkIn { dataLen := 0xFFC0000 }]
        ((fullBlockRing s.pool).newRing 4095) = some x ∧
      ∃ urb' y built size,
        xhcCreateTransferTrb .bulkOut { dataLen := 0x38000 } x = some (urb', y) ∧
        CallTrbs [.transfer .bulkIn { dataLen := 0xFFC0000 }] built ∧
        transferSize .bulkOut { dataLen := 0x38000 } = some size ∧
        UrbAt 4095 built.length size urb' ∧
        ∀ z, runCalls (fullBlockRing s.pool) [.await] y = some z →
          ∀ trb, isTransferRingTrb 0x80000000 z.ring.ringSeg0 trb urb' = true ↔
            ∃ j, j < size ∧ trb = (built.length + j) % 4095 := by
  obtain ⟨s, hplace, _⟩ := allocated_fullBlockRing
  obtain ⟨block, hblock⟩ := hplace.inBlock
  have hfirst : Within (fun _ _ => True) 0 0 true [.transfer .bulkIn { dataLen := 0xFFC0000 }] :=
    ⟨4092, rfl, rfl, fun _ _ => trivial, trivial⟩
  have hsome := (runCalls_newRing_iff (by decide) hplace hblock hfirst).mpr trivial
  obtain ⟨x, hrun⟩ := Option.isSome_iff_exists.mp hsome
  refine ⟨s, x, hrun, isTransferRingTrb_iff (by decide) hplace ?_ hrun⟩
  exact ⟨4092, rfl, rfl, fun _ _ => trivial, 4, rfl, rfl, fun _ _ => trivial, trivial⟩

end XhciDxe
end EfiApps
