import EfiApps.XhciDxe.UrbResult

/-!
# What a transfer comes to

A transfer has been put on a ring, and the controller reports its TRBs in their order, each
with a success or a short packet and the number of bytes that are left.  The URB is finished
with the last report, and its `Completed` is what has been transferred.
-/

namespace EfiApps
namespace XhciDxe

open LinkedRing

/-! ## Reports of TRBs -/

/-- The bytes of a TRB, if they count. -/
def dataBytes (t : TrbTemplate) : Nat := if countsBytes t.type then t.length.toNat else 0

/-- The address of an event is that of a TRB of the ring exactly if its `TRBPtr` is. -/
def Converted (rings : Rings) (ring cap : Nat) (e : Event) : Prop :=
  ∀ trb, trb < cap →
    (e.evtTrb.pointer = rings.pciAddr ring trb ↔ e.trbPtr = rings.trbAddr ring trb)

/-- The TRBs `built` are on a ring from entry `n` on, with some cycle bits. -/
def OnSegment (cap : Nat) (seg : Nat → TrbTemplate) (n : Nat) (built : List TrbTemplate) : Prop :=
  ∀ j (h : j < built.length), ∃ state, seg ((n + j) % cap) = built[j].withCycleBit state

section Reports

variable {rings : Rings} {cap n : Nat} {built : List TrbTemplate} {events : List Event}
  {u : UrbState}

theorem OnSegment.head {seg : Nat → TrbTemplate} {t : TrbTemplate}
    (h : OnSegment cap seg n (t :: built)) :
    (seg (n % cap)).type = t.type ∧ (seg (n % cap)).length = t.length := by
  obtain ⟨state, hcell⟩ := h 0 (Nat.succ_pos _)
  rw [Nat.add_zero] at hcell
  rw [hcell]
  exact ⟨rfl, rfl⟩

theorem OnSegment.tail {seg : Nat → TrbTemplate} {t : TrbTemplate}
    (h : OnSegment cap seg n (t :: built)) : OnSegment cap seg (n + 1) built := by
  intro j hj
  obtain ⟨state, hcell⟩ := h (j + 1) (Nat.succ_lt_succ hj)
  refine ⟨state, ?_⟩
  rw [Nat.add_assoc, Nat.add_comm 1]
  exact hcell

/-- The bytes of the TRBs, and the bytes that the events say are left of them. -/
def dataTotal (built : List TrbTemplate) : Nat :=
  built.foldr (fun t total => dataBytes t + total) 0

end Reports

/-! ## The bytes of a transfer -/

theorem dataBytes_normalTrb (ptr : BitVec 64) {len : Nat} (hlen : len ≤ 0x10000) :
    dataBytes (normalTrb ptr len) = len := by
  show (BitVec.ofNat 17 len).toNat = len
  rw [BitVec.toNat_ofNat]
  exact Nat.mod_eq_of_lt (by omega)

theorem dataBytes_dataTrb (ptr : BitVec 64) {len : Nat} (hlen : len < 2 ^ 17)
    (direction : UsbDataDirection) : dataBytes (dataTrb ptr len direction) = len := by
  show (BitVec.ofNat 17 len).toNat = len
  rw [BitVec.toNat_ofNat]
  exact Nat.mod_eq_of_lt hlen

theorem Tiles.dataTotal {start stop : Nat} {pieces : List (Nat × Nat)}
    (h : Tiles 0x10000 start stop pieces) (dataPhy : BitVec 64) :
    start + dataTotal (pieces.map fun piece =>
      normalTrb (dataPhy + BitVec.ofNat 64 piece.1) piece.2) = stop := by
  induction h with
  | done stop => rfl
  | piece hpos hle _ ih =>
      unfold XhciDxe.dataTotal at ih ⊢
      rw [List.map_cons, List.foldr_cons, dataBytes_normalTrb _ hle, ← Nat.add_assoc]
      exact ih

/-- The TRBs of a transfer have as many bytes as its data. -/
theorem TransferTrbs.dataTotal {urb : Urb} {epType : EpType} {built : List TrbTemplate}
    (h : TransferTrbs urb epType built) (hlen : epType = .controlBidir → urb.dataLen < 2 ^ 17) :
    dataTotal built = urb.dataLen := by
  cases h with
  | control =>
      have hshort := hlen rfl
      have hsetup : dataBytes (setupTrb urb.request urb.direction) = 0 := rfl
      have hstatus : dataBytes (statusTrb urb.direction) = 0 := rfl
      unfold XhciDxe.dataTotal controlTrbs
      by_cases hdata : urb.dataLen > 0
      · rw [if_pos hdata]
        simp only [List.cons_append, List.nil_append, List.foldr_cons, List.foldr_nil]
        rw [hsetup, hstatus, dataBytes_dataTrb _ hshort]
        omega
      · rw [if_neg hdata]
        show dataBytes (setupTrb urb.request urb.direction) +
          (dataBytes (statusTrb urb.direction) + 0) = urb.dataLen
        rw [hsetup, hstatus]
        omega
  | pieces _ htiles =>
      have hsum := htiles.dataTotal urb.dataPhy
      rw [Nat.zero_add] at hsum
      exact hsum

/-! ## From the ring to the result -/

/-- The URBs that a poll looks at. -/
def Checked.all (c : Checked) : List Nat := c.pendingUrb.toList ++ c.urb :: c.asyncIntTransfers

section Receiver

variable {rings : Rings} {urbs : Nat → UrbState} {c : Checked} {v w trb : Nat}

end Receiver

section Places

variable {phyAddr : BitVec 64} {cap : Nat} {B : Nat → Nat → Prop} {x y : RingRun}
  {p q : Produced TrbTemplate} {built : List TrbTemplate} {synced : Bool} {rings : Rings}

end Places

section Conversion

variable {place : RingPlace} {whole : Prop} {s : PoolSystem} {cap : Nat} {block : UsbhcMemBlock}
  {rings : Rings} {ring trb : Nat}

end Conversion

end XhciDxe
end EfiApps
