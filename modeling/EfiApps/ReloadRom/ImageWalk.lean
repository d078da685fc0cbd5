import EfiApps.ReloadRom.LoadRomImage
import Mathlib.Logic.Relation

/-!
# The walk through the images

Where the loop goes depends on the ROM alone, not on what the boot services answer.
It goes on from an image to the end of the image, so it makes no progress at an
image of length zero that is not the last one.

The check of `PcirOffset` comes after the header has been read.  It also keeps all
later reads inside of the ROM.
-/

namespace EfiApps
namespace ReloadRom

open PciMisc Relation

theorem uintn_of_lt {n : Nat} (h : n < 2 ^ 64) : uintn n = n := Nat.mod_eq_of_lt h

/-! ## Fields -/

theorem littleEndian_lt (bytes : List UInt8) : littleEndian bytes < 256 ^ bytes.length := by
  induction bytes with
  | nil => decide
  | cons b bytes ih =>
      have hb := b.toNat_lt
      rw [littleEndian, List.length_cons, Nat.pow_succ]
      omega

theorem Rom.field_lt (rom : Rom) (base : Nat) (f : Field) :
    rom.field base f < 256 ^ f.size := by
  have h := littleEndian_lt ((List.range f.size).map fun i => rom.byte (base + f.offset + i))
  rwa [List.length_map, List.length_range] at h

section image

variable (rom : Rom) (romBarOffset : Nat)

theorem pcirOffset_lt : rom.field romBarOffset RomHeader.pcirOffset < 65536 :=
  rom.field_lt romBarOffset RomHeader.pcirOffset

theorem imageSize_lt : imageSize rom romBarOffset < 33554432 := by
  have hlength : rom.field (pcir rom romBarOffset) Pcir.imageLength < 65536 :=
    rom.field_lt _ Pcir.imageLength
  rw [imageSize]
  omega

theorem imageOffset_lt : imageOffset rom romBarOffset < 65536 :=
  rom.field_lt romBarOffset RomHeader.efiImageHeaderOffset

end image

section walk

variable {rom : Rom} {romBarOffset : Nat}

/-- A valid data structure is inside of the ROM, behind the first four bytes of the
header. -/
theorem PcirValid.le (h : PcirValid rom romBarOffset) (hoffset : romBarOffset ≤ rom.romSize) :
    pcir rom romBarOffset = romBarOffset + rom.field romBarOffset RomHeader.pcirOffset ∧
      romBarOffset + 4 ≤ pcir rom romBarOffset ∧
      pcir rom romBarOffset + Pcir.size ≤ rom.romSize := by
  have hsmall := rom.romSize_lt
  have hpcir := pcirOffset_lt rom romBarOffset
  have hsize : Pcir.size = 24 := rfl
  simp only [PcirValid, not_or, not_lt] at h
  obtain ⟨hne, haligned, hle⟩ := h
  rw [uintn_of_lt (by omega)] at hle
  have hfour : 4 ≤ rom.field romBarOffset RomHeader.pcirOffset := by
    rw [not_not, show (3 : Nat) = 2 ^ 2 - 1 from rfl, Nat.and_two_pow_sub_one_eq_mod] at haligned
    omega
  rw [pcir, uintn_of_lt (by omega)]
  omega

/-- An image that is accepted ends inside of the ROM. -/
theorem Accepted.le (h : Accepted rom romBarOffset) (hoffset : romBarOffset ≤ rom.romSize) :
    romBarOffset + imageSize rom romBarOffset ≤ rom.romSize := by
  have hsmall := rom.romSize_lt
  have hsize := imageSize_lt rom romBarOffset
  have hle := h.2.2.2
  rw [uintn_of_lt (by omega)] at hle
  omega

/-! ## Where the walk comes to -/

/-- The offset behind an image. -/
def imageEnd (rom : Rom) (romBarOffset : Nat) : Nat :=
  uintn (romBarOffset + imageSize rom romBarOffset)

/-- The offset of the image after the one at an offset, if the loop goes on. -/
def nextImage (rom : Rom) (romBarOffset : Nat) : Option Nat :=
  if Accepted rom romBarOffset ∧ ¬ IsLast rom romBarOffset ∧
      imageEnd rom romBarOffset < rom.romSize then
    some (imageEnd rom romBarOffset)
  else none

theorem nextImage_eq_some_iff {next : Nat} :
    nextImage rom romBarOffset = some next ↔ Accepted rom romBarOffset ∧
      ¬ IsLast rom romBarOffset ∧ imageEnd rom romBarOffset = next ∧ next < rom.romSize := by
  unfold nextImage
  constructor
  · intro hnext
    split at hnext
    · rename_i hgoes
      obtain rfl := Option.some.inj hnext
      exact ⟨hgoes.1, hgoes.2.1, rfl, hgoes.2.2⟩
    · cases hnext
  · rintro ⟨haccepted, hlast, rfl, hlt⟩
    rw [if_pos ⟨haccepted, hlast, hlt⟩]

/-- The walk comes to an offset. -/
def ComesTo (rom : Rom) (romBarOffset : Nat) : Prop :=
  ReflTransGen (fun off next => nextImage rom off = some next) 0 romBarOffset

theorem ComesTo.le (h : ComesTo rom romBarOffset) : romBarOffset ≤ rom.romSize := by
  induction h with
  | refl => exact Nat.zero_le _
  | tail _ hnext _ => exact Nat.le_of_lt (nextImage_eq_some_iff.mp hnext).2.2.2

theorem imageEnd_eq (h : romBarOffset ≤ rom.romSize) :
    imageEnd rom romBarOffset = romBarOffset + imageSize rom romBarOffset := by
  have hsmall := rom.romSize_lt
  have hsize := imageSize_lt rom romBarOffset
  exact uintn_of_lt (by omega)

variable {env : Nat → ImageEnv} {w w' : Walk}

/-- The loop is at an image with these locals. -/
def Reached (rom : Rom) (env : Nat → ImageEnv) (w : Walk) : Prop :=
  ReflTransGen (fun w w' => examineImage rom env w = .again w') .start w

@[simp] theorem romBarOffset_afterImage :
    (afterImage rom env w).romBarOffset = imageEnd rom w.romBarOffset := rfl

theorem examineImage_eq_again_iff :
    examineImage rom env w = .again w' ↔
      w' = afterImage rom env w ∧ nextImage rom w.romBarOffset = some w'.romBarOffset := by
  rw [nextImage_eq_some_iff, examineImage]
  constructor
  · intro h
    split at h
    · rename_i haccepted
      split at h
      · rename_i hgoes
        obtain rfl := Turn.again.inj h
        exact ⟨rfl, haccepted, hgoes.1, rfl, hgoes.2⟩
      · cases h
    · cases h
  · rintro ⟨rfl, haccepted, hlast, -, hlt⟩
    rw [if_pos haccepted, if_pos ⟨hlast, hlt⟩]

theorem Reached.comesTo (h : Reached rom env w) : ComesTo rom w.romBarOffset := by
  induction h with
  | refl => exact .refl
  | tail _ hstep ih => exact ih.tail (examineImage_eq_again_iff.mp hstep).2

/-- Whatever the environment, the loop comes to these offsets. -/
theorem ComesTo.exists_reached (h : ComesTo rom romBarOffset) (env : Nat → ImageEnv) :
    ∃ w, Reached rom env w ∧ w.romBarOffset = romBarOffset := by
  induction h with
  | refl => exact ⟨.start, .refl, rfl⟩
  | @tail off next _ hnext ih =>
      obtain ⟨w, hw, rfl⟩ := ih
      have hoffset : (afterImage rom env w).romBarOffset = next :=
        (nextImage_eq_some_iff.mp hnext).2.2.1
      have hagain : examineImage rom env w = .again (afterImage rom env w) := by
        rw [examineImage_eq_again_iff, hoffset]
        exact ⟨rfl, hnext⟩
      exact ⟨afterImage rom env w, hw.tail hagain, hoffset⟩

/-! ## The states of a run -/

/-- The locals when the loop is at an image or has been left. -/
def Visited (rom : Rom) (env : Nat → ImageEnv) (w : Walk) : Prop :=
  Reached rom env w ∨ ∃ w₀, Reached rom env w₀ ∧ examineImage rom env w₀ = .leave w

/-- What is returned is a state in which the loop has been left. -/
theorem left_of_walkImages (hw : Reached rom env w) {fuel : Nat}
    (h : walkImages rom env fuel w = .ok w') :
    ∃ w₀, Reached rom env w₀ ∧ examineImage rom env w₀ = .leave w' := by
  induction fuel generalizing w with
  | zero =>
      unfold walkImages at h
      cases hturn : examineImage rom env w with
      | leave w₁ =>
          rw [hturn] at h
          obtain rfl := Except.ok.inj h
          exact ⟨w, hw, hturn⟩
      | again w₁ =>
          rw [hturn] at h
          cases h
  | succ fuel ih =>
      unfold walkImages at h
      cases hturn : examineImage rom env w with
      | leave w₁ =>
          rw [hturn] at h
          obtain rfl := Except.ok.inj h
          exact ⟨w, hw, hturn⟩
      | again w₁ =>
          rw [hturn] at h
          exact ih (hw.tail hturn) h

theorem examineImage_eq_leave (h : examineImage rom env w = .leave w') :
    (¬ Accepted rom w.romBarOffset ∧ w' = w) ∨
      (Accepted rom w.romBarOffset ∧ w' = afterImage rom env w) := by
  unfold examineImage at h
  split at h
  · rename_i haccepted
    split at h
    · cases h
    · exact .inr ⟨haccepted, (Turn.leave.inj h).symm⟩
  · rename_i hnot
    exact .inl ⟨hnot, (Turn.leave.inj h).symm⟩

/-- What holds of the locals at the start, and after an image that is accepted if it held
before, holds in every state of every run. -/
theorem Visited.induction {P : Walk → Prop} (hstart : P .start)
    (hafter : ∀ w, Reached rom env w → Accepted rom w.romBarOffset → P w →
      P (afterImage rom env w)) (h : Visited rom env w) : P w := by
  have hreached : ∀ w, Reached rom env w → P w := by
    intro w hw
    induction hw with
    | refl => exact hstart
    | tail hw hagain ih =>
        obtain ⟨rfl, hnext⟩ := examineImage_eq_again_iff.mp hagain
        exact hafter _ hw (nextImage_eq_some_iff.mp hnext).1 ih
  rcases h with hw | ⟨w₀, hw₀, hleave⟩
  · exact hreached w hw
  · rcases examineImage_eq_leave hleave with ⟨-, rfl⟩ | ⟨haccepted, rfl⟩
    · exact hreached _ hw₀
    · exact hafter _ hw₀ haccepted (hreached _ hw₀)

/-- All calls are made for an image that the loop comes to and accepts. -/
theorem Visited.mem_calls (h : Visited rom env w) {calls : List RomCall} (hcalls : calls ∈ w.calls) :
    ∃ w₀, Reached rom env w₀ ∧ Accepted rom w₀.romBarOffset ∧
      calls = (handleImage (env w₀.imageIndex) rom w₀.romBarOffset).1 := by
  have hall : ∀ calls ∈ w.calls, ∃ w₀, Reached rom env w₀ ∧ Accepted rom w₀.romBarOffset ∧
      calls = (handleImage (env w₀.imageIndex) rom w₀.romBarOffset).1 := by
    apply h.induction
    · intro calls hcalls
      cases hcalls
    · intro w hw haccepted ih calls hcalls
      rcases List.mem_append.mp hcalls with hcalls | hcalls
      · exact ih calls hcalls
      · exact ⟨w, hw, haccepted, List.mem_singleton.mp hcalls⟩
  exact hall calls hcalls

/-! ## Progress -/

/-- An image of length zero that is not the last one. -/
def Stalls (rom : Rom) (romBarOffset : Nat) : Prop :=
  Accepted rom romBarOffset ∧ ¬ IsLast rom romBarOffset ∧
    rom.field (pcir rom romBarOffset) Pcir.imageLength = 0

instance (rom : Rom) (romBarOffset : Nat) : Decidable (Stalls rom romBarOffset) :=
  inferInstanceAs (Decidable (_ ∧ _ ∧ _))

/-- Every iteration that does not leave the loop goes on behind where it was. -/
def Advances (rom : Rom) (env : Nat → ImageEnv) : Prop :=
  ∀ w w', Reached rom env w → examineImage rom env w = .again w' →
    w.romBarOffset < w'.romBarOffset

/-- Before the end of the ROM, an image either has a length or is where the walk stalls. -/
theorem advances_of_not_stalls (h : ¬ ∃ off, ComesTo rom off ∧ Stalls rom off) :
    Advances rom env := by
  intro w w' hw hagain
  obtain ⟨-, hnext⟩ := examineImage_eq_again_iff.mp hagain
  obtain ⟨haccepted, hlast, hend, -⟩ := nextImage_eq_some_iff.mp hnext
  have hlength : rom.field (pcir rom w.romBarOffset) Pcir.imageLength ≠ 0 := by
    intro hzero
    exact h ⟨w.romBarOffset, hw.comesTo, haccepted, hlast, hzero⟩
  rw [← hend, imageEnd_eq hw.comesTo.le, imageSize]
  omega

/-- A loop that advances gets to the end of the ROM at the latest. -/
theorem walkImages_returns (hadvances : Advances rom env) {fuel : Nat} (hw : Reached rom env w)
    (hfuel : rom.romSize ≤ w.romBarOffset + fuel) : (walkImages rom env fuel w).Returns := by
  induction fuel generalizing w with
  | zero =>
      unfold walkImages
      cases hturn : examineImage rom env w with
      | leave w' => exact ⟨w', rfl⟩
      | again w' =>
          have hlt := hadvances w w' hw hturn
          have hle : w'.romBarOffset < rom.romSize :=
            (nextImage_eq_some_iff.mp (examineImage_eq_again_iff.mp hturn).2).2.2.2
          omega
  | succ fuel ih =>
      unfold walkImages
      cases hturn : examineImage rom env w with
      | leave w' => exact ⟨w', rfl⟩
      | again w' =>
          have hlt := hadvances w w' hw hturn
          exact ih (hw.tail hturn) (by omega)

/-- So no image is examined twice. -/
theorem Advances.lt (h : Advances rom env) (hw : Reached rom env w)
    (hlater : TransGen (fun w w' => examineImage rom env w = .again w') w w') :
    w.romBarOffset < w'.romBarOffset := by
  induction hlater with
  | single hstep => exact h _ _ hw hstep
  | tail hsteps hstep ih => exact lt_trans ih (h _ _ (hw.trans hsteps.to_reflTransGen) hstep)

/-- At an image where the walk stalls the loop stays where it is. -/
theorem Stalls.examineImage (h : Stalls rom w.romBarOffset) (hle : w.romBarOffset ≤ rom.romSize) :
    examineImage rom env w = .again (afterImage rom env w) ∧
      (afterImage rom env w).romBarOffset = w.romBarOffset := by
  obtain ⟨haccepted, hlast, hzero⟩ := h
  obtain ⟨-, hfour, hfits⟩ := haccepted.2.1.le hle
  have hend : imageEnd rom w.romBarOffset = w.romBarOffset := by
    rw [imageEnd_eq hle, imageSize, hzero, Nat.zero_mul, Nat.add_zero]
  refine ⟨examineImage_eq_again_iff.mpr ⟨rfl, ?_⟩, hend⟩
  rw [nextImage_eq_some_iff, romBarOffset_afterImage]
  exact ⟨haccepted, hlast, rfl, by omega⟩

theorem Stalls.not_returns (h : Stalls rom w.romBarOffset) (hle : w.romBarOffset ≤ rom.romSize)
    (fuel : Nat) : ¬ (walkImages rom env fuel w).Returns := by
  induction fuel generalizing w with
  | zero =>
      unfold walkImages
      rw [(h.examineImage hle).1]
      exact Run.not_returns_error _
  | succ fuel ih =>
      obtain ⟨hagain, hstays⟩ := h.examineImage hle
      unfold walkImages
      rw [hagain]
      exact ih (hstays.symm ▸ h) (hstays.symm ▸ hle)

/-- A loop that returns has not come to a stall on its way. -/
theorem Reached.not_returns_of (hw : Reached rom env w)
    (h : ∀ fuel, ¬ (walkImages rom env fuel w).Returns) (fuel : Nat) :
    ¬ (loadEfiDriversFromRomImage rom env fuel).Returns := by
  induction hw generalizing fuel with
  | refl => exact h fuel
  | @tail w w' _ hagain ih =>
      refine ih (fun fuel => ?_) fuel
      unfold walkImages
      rw [hagain]
      cases fuel with
      | zero => exact Run.not_returns_error _
      | succ fuel => exact h fuel

end walk

/-- The loop advances with every iteration, examines each image at most once and
returns, if and only if it comes to no image of length zero that is not the last one. -/
theorem loadEfiDriversFromRomImage_returns_iff (rom : Rom) (env : Nat → ImageEnv) :
    (Advances rom env ∧
        (∀ w w', Reached rom env w →
          TransGen (fun w w' => examineImage rom env w = .again w') w w' →
            w.romBarOffset ≠ w'.romBarOffset) ∧
        ∃ fuel₁, ∀ fuel ≥ fuel₁, (loadEfiDriversFromRomImage rom env fuel).Returns) ↔
      ¬ ∃ off, ComesTo rom off ∧ Stalls rom off := by
  constructor
  · rintro ⟨-, -, fuel, hreturns⟩ ⟨off, hcomes, hstalls⟩
    obtain ⟨w, hw, rfl⟩ := hcomes.exists_reached env
    exact hw.not_returns_of (hstalls.not_returns hcomes.le) fuel (hreturns fuel le_rfl)
  · intro hnot
    have hadvances : Advances rom env := advances_of_not_stalls hnot
    refine ⟨hadvances, fun w w' hw hlater => (hadvances.lt hw hlater).ne, rom.romSize,
      fun fuel hfuel => walkImages_returns hadvances .refl ?_⟩
    exact hfuel.trans (Nat.le_add_left _ _)

/-- The bytes of a header with its data structure behind it. -/
def emptyImageBytes : List UInt8 :=
  [0x55, 0xaa] ++ List.replicate 22 0 ++ [0x1c, 0, 0, 0] ++ [0x50, 0x43, 0x49, 0x52] ++
    List.replicate 20 0

/-- A ROM with an image of length zero. -/
def emptyImage : Rom := ⟨(emptyImageBytes.getD · 0), 52, by decide⟩

/-- Boot services that always succeed. -/
def quietEnv : ImageEnv where
  locateProtocol := .success
  getInfo := .success
  destinationSize := 0
  scratchSize := 0
  destination := some 0
  scratch := some 0
  decompress := .success
  loadImage := .success
  imageHandle := 0
  startImage := .success

/-- The first image is examined again and again. -/
theorem loadEfiDriversFromRomImage_emptyImage :
    examineImage emptyImage (fun _ => quietEnv) .start =
        .again (afterImage emptyImage (fun _ => quietEnv) .start) ∧
      (afterImage emptyImage (fun _ => quietEnv) .start).romBarOffset = 0 ∧
      ∀ fuel, ¬ (loadEfiDriversFromRomImage emptyImage (fun _ => quietEnv) fuel).Returns := by
  have hstalls : Stalls emptyImage Walk.start.romBarOffset := by decide
  obtain ⟨hagain, hstays⟩ := hstalls.examineImage (Nat.zero_le _)
  exact ⟨hagain, hstays, hstalls.not_returns (Nat.zero_le _)⟩

end ReloadRom
end EfiApps
