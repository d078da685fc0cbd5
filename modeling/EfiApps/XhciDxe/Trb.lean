import EfiApps.Lib.LinkedRing

/-!
# Transfer request blocks

A TRB is four 32-bit words.  The driver reads and writes them through one template and a
dozen overlays.  The fields of the overlays that it uses lie at the same bits wherever they
occur, so that one record holds them all; where an overlay has another name for a field, the
field says so.
-/

namespace EfiApps
namespace XhciDxe

open LinkedRing (EntryFormat)

/-! ## The template -/

/-- `TRB_TEMPLATE`, `TRB` and the overlays.  `Status` of the template is `length`, `tdSize`
and `intTarget`; `RsvdZ1` of the template is `ent` up to `rsvdZ1`. -/
structure TrbTemplate where
  parameter1 : BitVec 32 := 0
  parameter2 : BitVec 32 := 0
  length : BitVec 17 := 0
  tdSize : BitVec 5 := 0
  intTarget : BitVec 10 := 0
  cycleBit : Bool := false
  /-- `TC` of `LINK_TRB`. -/
  ent : Bool := false
  isp : Bool := false
  ns : Bool := false
  ch : Bool := false
  ioc : Bool := false
  idt : Bool := false
  rsvdZ1 : BitVec 3 := 0
  type : BitVec 6 := 0
  /-- `TRT` of the setup stage and `DIR` of the other stages are its lowest bits. -/
  control : BitVec 16 := 0
  deriving DecidableEq, Repr, Inhabited

/-- An assignment to `CycleBit`. -/
def TrbTemplate.withCycleBit (state : Bool) (t : TrbTemplate) : TrbTemplate :=
  { t with cycleBit := state }

@[simp]
theorem TrbTemplate.withCycleBit_cycleBit (state : Bool) (t : TrbTemplate) :
    (t.withCycleBit state).cycleBit = state := rfl

@[simp]
theorem TrbTemplate.withCycleBit_type (state : Bool) (t : TrbTemplate) :
    (t.withCycleBit state).type = t.type := rfl

/-- `TRB_TYPE_NORMAL`. -/
def trbTypeNormal : BitVec 6 := 1

/-- `TRB_TYPE_SETUP_STAGE`. -/
def trbTypeSetupStage : BitVec 6 := 2

/-- `TRB_TYPE_DATA_STAGE`. -/
def trbTypeDataStage : BitVec 6 := 3

/-- `TRB_TYPE_STATUS_STAGE`. -/
def trbTypeStatusStage : BitVec 6 := 4

/-- `TRB_TYPE_ISOCH`. -/
def trbTypeIsoch : BitVec 6 := 5

/-- `TRB_TYPE_LINK`. -/
def trbTypeLink : BitVec 6 := 6

/-- `TRB_TYPE_SET_TR_DEQUE`. -/
def trbTypeSetTrDeque : BitVec 6 := 16

/-! ## Addresses in a TRB -/

/-- `XHC_LOW_32BIT`. -/
def xhcLow32Bit (addr : BitVec 64) : BitVec 32 := (addr &&& 0xFFFFFFFF#64).setWidth 32

/-- `XHC_HIGH_32BIT`. -/
def xhcHigh32Bit (addr : BitVec 64) : BitVec 32 := ((addr >>> 32) &&& 0xFFFFFFFF#64).setWidth 32

/-- `PtrLo | LShiftU64 ((UINT64) PtrHi, 32)`. -/
def TrbTemplate.pointer (t : TrbTemplate) : BitVec 64 :=
  t.parameter1.setWidth 64 ||| (t.parameter2.setWidth 64 <<< 32)

/-- The mask of the low half lets these bits through. -/
private theorem getLsbD_lowMask {i : Nat} (hi : i < 32) : (0xFFFFFFFF#64).getLsbD i = true := by
  have hall : ∀ j : Fin 32, (0xFFFFFFFF#64).getLsbD j = true := by decide
  exact hall ⟨i, hi⟩

/-- The two halves of an address give the address back. -/
theorem TrbTemplate.pointer_of_halves {t : TrbTemplate} {addr : BitVec 64}
    (hlow : t.parameter1 = xhcLow32Bit addr) (hhigh : t.parameter2 = xhcHigh32Bit addr) :
    t.pointer = addr := by
  unfold TrbTemplate.pointer
  rw [hlow, hhigh]
  apply BitVec.eq_of_getLsbD_eq
  intro i hi
  by_cases hhalf : i < 32
  · simp [xhcLow32Bit, xhcHigh32Bit, hhalf, hi, getLsbD_lowMask hhalf]
  · have hupper : i - 32 < 32 := by omega
    have hmask := getLsbD_lowMask hupper
    have hsum : 32 + (i - 32) = i := by omega
    rw [BitVec.getLsbD_eq_getElem (by omega)] at hmask
    simp [xhcLow32Bit, xhcHigh32Bit, hhalf, hi, hmask, hsum, hupper]

/-! ## What the controller reads -/

/-- `sizeof (TRB_TEMPLATE)`. -/
def trbSize : Nat := 16

/-- The cycle bit of a TRB, and for a link in a segment at the PCI address `phyAddr` the
TRB that it leads to and whether it toggles the cycle state. -/
def trbFormat (phyAddr : BitVec 64) : EntryFormat TrbTemplate where
  bit t := t.cycleBit
  link t :=
    if t.type = trbTypeLink then some ((t.pointer - phyAddr).toNat / trbSize, t.ent) else none

@[simp]
theorem trbFormat_bit (phyAddr : BitVec 64) (t : TrbTemplate) :
    (trbFormat phyAddr).bit t = t.cycleBit := rfl

theorem trbFormat_link_eq_none {phyAddr : BitVec 64} {t : TrbTemplate}
    (h : t.type ≠ trbTypeLink) : (trbFormat phyAddr).link t = none := if_neg h

/-- A link that holds the address of the segment leads to its first TRB. -/
theorem trbFormat_link_eq_zero {phyAddr : BitVec 64} {t : TrbTemplate}
    (htype : t.type = trbTypeLink) (hlow : t.parameter1 = xhcLow32Bit phyAddr)
    (hhigh : t.parameter2 = xhcHigh32Bit phyAddr) :
    (trbFormat phyAddr).link t = some (0, t.ent) := by
  have hpointer := TrbTemplate.pointer_of_halves hlow hhigh
  have hzero : (t.pointer - phyAddr).toNat / trbSize = 0 := by
    rw [hpointer, BitVec.sub_self]
    rfl
  rw [← hzero]
  exact if_pos htype

end XhciDxe
end EfiApps
