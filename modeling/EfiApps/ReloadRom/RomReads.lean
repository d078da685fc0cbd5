import EfiApps.ReloadRom.ImageCalls

/-!
# What is read of the ROM

The fields are listed in the order in which they are read; a check that fails ends the
list.  Only the first two of them are read before anything has been checked, so they
are the only ones that can be outside of the ROM.
-/

namespace EfiApps
namespace ReloadRom

open PciMisc Relation

/-- Some bytes that follow each other. -/
structure Span where
  start : Nat
  length : Nat
  deriving DecidableEq, Repr

/-- The bytes are in the ROM. -/
def Span.InRom (rom : Rom) (span : Span) : Prop := span.start + span.length ≤ rom.romSize

/-- The bytes of a field of the structure at an offset. -/
def Field.span (f : Field) (base : Nat) : Span := ⟨base + f.offset, f.size⟩

section reads

variable (rom : Rom) (romBarOffset : Nat)

/-- The reads of the test for an EFI driver, of the sizes and of `CompressionType`. -/
def driverReads : List Span :=
  Pcir.codeType.span (pcir rom romBarOffset) ::
    if rom.field (pcir rom romBarOffset) Pcir.codeType ≠ pciCodeTypeEfiImage then []
    else
      RomHeader.efiSignature.span romBarOffset ::
        if rom.field romBarOffset RomHeader.efiSignature ≠ efiPciExpansionRomHeaderEfiSignature then
          []
        else
          RomHeader.efiSubsystem.span romBarOffset ::
            if ¬ IsEfiDriver rom romBarOffset then []
            else
              [RomHeader.efiImageHeaderOffset.span romBarOffset,
                RomHeader.initializationSize.span romBarOffset] ++
                if ¬ SizesFit rom romBarOffset then []
                else [RomHeader.compressionType.span romBarOffset]

/-- The reads of one iteration. -/
def fieldReads : List Span :=
  RomHeader.signature.span romBarOffset ::
    if rom.field romBarOffset RomHeader.signature ≠ pciExpansionRomHeaderSignature then []
    else
      RomHeader.pcirOffset.span romBarOffset ::
        if ¬ PcirValid rom romBarOffset then []
        else
          Pcir.signature.span (pcir rom romBarOffset) ::
            if rom.field (pcir rom romBarOffset) Pcir.signature ≠ pciDataStructureSignature then []
            else
              Pcir.imageLength.span (pcir rom romBarOffset) ::
                if uintn (romBarOffset + imageSize rom romBarOffset) > rom.romSize then []
                else driverReads rom romBarOffset ++ [Pcir.indicator.span (pcir rom romBarOffset)]

end reads

/-- The bytes of the ROM that a call is given. -/
def RomCall.romSpan? : RomCall → Option Span
  | getInfo (.rom start) length _ _ _ => some ⟨start, length⟩
  | decompress (.rom start) length _ _ _ _ _ => some ⟨start, length⟩
  | loadImage (.rom start) length _ _ => some ⟨start, length⟩
  | _ => none

/-! ## Nothing else is read -/

section congr

variable {rom rom' : Rom} {env : Nat → ImageEnv} {w : Walk} {romBarOffset base : Nat} {f : Field}

/-- The two memories hold the same bytes there. -/
def SameBytes (rom rom' : Rom) (span : Span) : Prop :=
  ∀ i < span.length, rom'.byte (span.start + i) = rom.byte (span.start + i)

theorem SameBytes.field (h : SameBytes rom rom' (f.span base)) :
    rom'.field base f = rom.field base f := by
  have hbytes : ∀ i ∈ List.range f.size,
      rom'.byte (base + f.offset + i) = rom.byte (base + f.offset + i) :=
    fun i hi => h i (List.mem_range.mp hi)
  rw [Rom.field, Rom.field, List.map_congr_left hbytes]

/-- The reads of an image that is accepted. -/
theorem fieldReads_of_accepted (h : Accepted rom romBarOffset) :
    fieldReads rom romBarOffset =
      [RomHeader.signature.span romBarOffset, RomHeader.pcirOffset.span romBarOffset,
        Pcir.signature.span (pcir rom romBarOffset), Pcir.imageLength.span (pcir rom romBarOffset)] ++
        driverReads rom romBarOffset ++ [Pcir.indicator.span (pcir rom romBarOffset)] := by
  obtain ⟨hsignature, hvalid, hpcir, hsize⟩ := h
  rw [fieldReads, if_neg (not_not.mpr hsignature), if_neg (not_not.mpr hvalid),
    if_neg (not_not.mpr hpcir), if_neg hsize]
  rfl

/-- The header decides alike whether it has a data structure. -/
theorem pcirValid_congr (hsize : rom'.romSize = rom.romSize)
    (hoffset : rom'.field romBarOffset RomHeader.pcirOffset =
      rom.field romBarOffset RomHeader.pcirOffset) :
    (PcirValid rom' romBarOffset ↔ PcirValid rom romBarOffset) ∧
      pcir rom' romBarOffset = pcir rom romBarOffset := by
  rw [PcirValid, PcirValid, pcir, pcir, hoffset, hsize]
  exact ⟨Iff.rfl, rfl⟩

/-- The image is accepted or not, alike. -/
theorem accepted_congr (hsize : rom'.romSize = rom.romSize)
    (h : ∀ span ∈ fieldReads rom romBarOffset, SameBytes rom rom' span) :
    Accepted rom' romBarOffset ↔ Accepted rom romBarOffset := by
  rw [fieldReads, List.forall_mem_cons] at h
  obtain ⟨hsignature, h⟩ := h
  rw [Accepted, Accepted, hsignature.field]
  refine and_congr_right fun heq => ?_
  rw [if_neg (not_not.mpr heq), List.forall_mem_cons] at h
  obtain ⟨hoffset, h⟩ := h
  obtain ⟨hvalid, hpcir⟩ := pcirValid_congr hsize hoffset.field
  rw [hvalid]
  refine and_congr_right fun hpointer => ?_
  rw [if_neg (not_not.mpr hpointer), List.forall_mem_cons] at h
  obtain ⟨hsignature, h⟩ := h
  rw [hpcir, hsignature.field]
  refine and_congr_right fun heq => ?_
  rw [if_neg (not_not.mpr heq), List.forall_mem_cons] at h
  rw [imageSize, imageSize, hpcir, h.1.field, hsize]

theorem driverReads_of_isEfiDriver (h : IsEfiDriver rom romBarOffset) :
    driverReads rom romBarOffset =
      [Pcir.codeType.span (pcir rom romBarOffset), RomHeader.efiSignature.span romBarOffset,
        RomHeader.efiSubsystem.span romBarOffset,
        RomHeader.efiImageHeaderOffset.span romBarOffset,
        RomHeader.initializationSize.span romBarOffset] ++
        if ¬ SizesFit rom romBarOffset then []
        else [RomHeader.compressionType.span romBarOffset] := by
  rw [driverReads, if_neg (not_not.mpr h.1), if_neg (not_not.mpr h.2.1), if_neg (not_not.mpr h)]
  rfl

/-- The image is an EFI driver or not, alike. -/
theorem isEfiDriver_congr (hpcir : pcir rom' romBarOffset = pcir rom romBarOffset)
    (h : ∀ span ∈ driverReads rom romBarOffset, SameBytes rom rom' span) :
    IsEfiDriver rom' romBarOffset ↔ IsEfiDriver rom romBarOffset := by
  rw [driverReads, List.forall_mem_cons] at h
  obtain ⟨hcode, h⟩ := h
  rw [IsEfiDriver, IsEfiDriver, hpcir, hcode.field]
  refine and_congr_right fun heq => ?_
  rw [if_neg (not_not.mpr heq), List.forall_mem_cons] at h
  obtain ⟨hsignature, h⟩ := h
  rw [hsignature.field]
  refine and_congr_right fun heq => ?_
  rw [if_neg (not_not.mpr heq), List.forall_mem_cons] at h
  rw [h.1.field]

/-- What is done with an image depends on nothing but what is read of it. -/
theorem handleImage_congr {e : ImageEnv} (hpcir : pcir rom' romBarOffset = pcir rom romBarOffset)
    (hsize : imageSize rom' romBarOffset = imageSize rom romBarOffset)
    (h : ∀ span ∈ driverReads rom romBarOffset, SameBytes rom rom' span) :
    handleImage e rom' romBarOffset = handleImage e rom romBarOffset := by
  have hiff := isEfiDriver_congr hpcir h
  -- An image that is not handled needs no more than this.
  have hskipped : ∀ rom : Rom, ¬ (IsEfiDriver rom romBarOffset ∧ SizesFit rom romBarOffset) →
      handleImage e rom romBarOffset = ([], none) := by
    intro rom hnot
    rw [handleImage, if_neg hnot]
  by_cases hdriver : IsEfiDriver rom romBarOffset
  · rw [driverReads_of_isEfiDriver hdriver] at h
    have hoffset : imageOffset rom' romBarOffset = imageOffset rom romBarOffset :=
      (h _ (by simp)).field
    have hinitialization : initializationSize rom' romBarOffset =
        initializationSize rom romBarOffset := by
      rw [initializationSize, initializationSize,
        (h (RomHeader.initializationSize.span romBarOffset) (by simp)).field]
    have hfits : SizesFit rom' romBarOffset ↔ SizesFit rom romBarOffset := by
      rw [SizesFit, SizesFit, hoffset, hinitialization, hsize]
    by_cases hfit : SizesFit rom romBarOffset
    · have hcompression := (h (RomHeader.compressionType.span romBarOffset) (by simp [hfit])).field
      have hcompressed : IsCompressed rom' romBarOffset ↔ IsCompressed rom romBarOffset := by
        rw [IsCompressed, IsCompressed, hcompression]
      rw [handleImage, handleImage, hoffset, hinitialization, hcompression]
      simp only [hcompressed, hiff, hfits]
    · rw [hskipped rom fun h' => hfit h'.2, hskipped rom' fun h' => hfit (hfits.mp h'.2)]
  · rw [hskipped rom fun h' => hdriver h'.1, hskipped rom' fun h' => hdriver (hiff.mp h'.1)]

/-- An iteration depends on nothing but what it reads. -/
theorem examineImage_congr (hsize : rom'.romSize = rom.romSize)
    (h : ∀ span ∈ fieldReads rom w.romBarOffset, SameBytes rom rom' span) :
    examineImage rom' env w = examineImage rom env w := by
  have hiff := accepted_congr hsize h
  by_cases haccepted : Accepted rom w.romBarOffset
  · rw [fieldReads_of_accepted haccepted] at h
    have hpcir : pcir rom' w.romBarOffset = pcir rom w.romBarOffset :=
      (pcirValid_congr hsize (h (RomHeader.pcirOffset.span w.romBarOffset) (by simp)).field).2
    have himage : imageSize rom' w.romBarOffset = imageSize rom w.romBarOffset := by
      rw [imageSize, imageSize, hpcir,
        (h (Pcir.imageLength.span (pcir rom w.romBarOffset)) (by simp)).field]
    have hlast : IsLast rom' w.romBarOffset ↔ IsLast rom w.romBarOffset := by
      rw [IsLast, IsLast, hpcir,
        (h (Pcir.indicator.span (pcir rom w.romBarOffset)) (by simp)).field]
    have hafter : afterImage rom' env w = afterImage rom env w := by
      have hhandle := handleImage_congr (e := env w.imageIndex) hpcir himage
        fun span hspan => h span (by simp [hspan])
      rw [afterImage, afterImage, hhandle, himage]
    rw [examineImage, examineImage, if_pos haccepted, if_pos (hiff.mpr haccepted), hafter, hsize]
    simp only [hlast]
  · rw [examineImage, examineImage, if_neg haccepted, if_neg fun h' => haccepted (hiff.mp h')]

end congr

/-! ## The fields of one image -/

section inRom

variable {rom : Rom} {romBarOffset : Nat} {span : Span}

/-- From an image on, the ROM has a signature, and the header up to `PcirOffset` if it is
the signature of a ROM. -/
def HeaderFits (rom : Rom) (romBarOffset : Nat) : Prop :=
  romBarOffset + 2 ≤ rom.romSize ∧
    (rom.field romBarOffset RomHeader.signature = pciExpansionRomHeaderSignature →
      romBarOffset + 26 ≤ rom.romSize)

theorem headerFits_of_reads (h : ∀ span ∈ fieldReads rom romBarOffset, span.InRom rom) :
    HeaderFits rom romBarOffset := by
  rw [fieldReads, List.forall_mem_cons] at h
  obtain ⟨hsignature, h⟩ := h
  refine ⟨hsignature, fun heq => ?_⟩
  rw [if_neg (not_not.mpr heq), List.forall_mem_cons] at h
  exact h.1

/-- A field of the header, when the header up to `PcirOffset` is in the ROM. -/
theorem Field.inRom_of_header {f : Field} (hheader : romBarOffset + 26 ≤ rom.romSize)
    (hf : f.offset + f.size ≤ 26) : (f.span romBarOffset).InRom rom := by
  show romBarOffset + f.offset + f.size ≤ rom.romSize
  omega

/-- A field of the data structure, when the pointer to it is valid. -/
theorem Field.inRom_of_pcirValid {f : Field} (hvalid : PcirValid rom romBarOffset)
    (hle : romBarOffset ≤ rom.romSize) (hf : f.offset + f.size ≤ Pcir.size) :
    (f.span (pcir rom romBarOffset)).InRom rom := by
  obtain ⟨-, -, hfits⟩ := hvalid.le hle
  show pcir rom romBarOffset + f.offset + f.size ≤ rom.romSize
  omega

/-- A read is the first one, or one behind a check that did not fail. -/
theorem mem_checked {failed : Prop} [Decidable failed] {first : Span} {reads : List Span}
    (h : span ∈ first :: if failed then [] else reads) : span = first ∨ ¬ failed ∧ span ∈ reads := by
  rcases List.mem_cons.mp h with rfl | h
  · exact .inl rfl
  · split at h
    · cases h
    · rename_i hpassed
      exact .inr ⟨hpassed, h⟩

theorem driverReads_inRom (hheader : romBarOffset + 26 ≤ rom.romSize)
    (hvalid : PcirValid rom romBarOffset) (hle : romBarOffset ≤ rom.romSize)
    (h : span ∈ driverReads rom romBarOffset) : span.InRom rom := by
  rcases mem_checked h with rfl | ⟨-, h⟩
  · exact Field.inRom_of_pcirValid hvalid hle (by decide)
  rcases mem_checked h with rfl | ⟨-, h⟩
  · exact Field.inRom_of_header hheader (by decide)
  rcases mem_checked h with rfl | ⟨-, h⟩
  · exact Field.inRom_of_header hheader (by decide)
  rcases List.mem_cons.mp h with rfl | h
  · exact Field.inRom_of_header hheader (by decide)
  rcases mem_checked h with rfl | ⟨-, h⟩
  · exact Field.inRom_of_header hheader (by decide)
  · obtain rfl := List.mem_singleton.mp h
    exact Field.inRom_of_header hheader (by decide)

/-- Behind the two reads of the header nothing is read that has not been checked. -/
theorem HeaderFits.fieldReads_inRom (hfits : HeaderFits rom romBarOffset)
    (hle : romBarOffset ≤ rom.romSize) (h : span ∈ fieldReads rom romBarOffset) :
    span.InRom rom := by
  rcases mem_checked h with rfl | ⟨hsignature, h⟩
  · exact hfits.1
  have hheader := hfits.2 (not_not.mp hsignature)
  rcases mem_checked h with rfl | ⟨hvalid, h⟩
  · exact hheader
  rw [not_not] at hvalid
  rcases mem_checked h with rfl | ⟨-, h⟩
  · exact Field.inRom_of_pcirValid hvalid hle (by decide)
  rcases mem_checked h with rfl | ⟨-, h⟩
  · exact Field.inRom_of_pcirValid hvalid hle (by decide)
  rcases List.mem_append.mp h with h | h
  · exact driverReads_inRom hheader hvalid hle h
  · obtain rfl := List.mem_singleton.mp h
    exact Field.inRom_of_pcirValid hvalid hle (by decide)

/-! ## The bytes of an image that calls are given -/

variable {e : ImageEnv} {call : RomCall} {start length : Nat}

/-- Calls for a compressed image up to its decompression. -/
theorem romSpan_of_mem_decompressCalls {imageLength scratch : Nat}
    (hcall : call ∈ decompressCalls e (.rom start) imageLength scratch)
    (hspan : span ∈ call.romSpan?) : span = ⟨start, imageLength⟩ := by
  simp only [decompressCalls, List.mem_cons, List.not_mem_nil, or_false] at hcall
  rcases hcall with rfl | rfl | rfl | rfl | rfl
  · exact (Option.some.inj hspan).symm
  · cases hspan
  · cases hspan
  · exact (Option.some.inj hspan).symm
  · cases hspan

theorem romSpan_of_mem_allocateCalls {imageLength : Nat}
    (hcall : call ∈ allocateCalls e (.rom start) imageLength)
    (hspan : span ∈ call.romSpan?) : span = ⟨start, imageLength⟩ := by
  simp only [allocateCalls, List.mem_cons, List.not_mem_nil, or_false] at hcall
  rcases hcall with rfl | rfl | rfl
  · exact (Option.some.inj hspan).symm
  · cases hspan
  · cases hspan

theorem romSpan_of_mem_loadAndStart {imageBuffer : Buffer} {imageLength : Nat}
    (hcall : call ∈ (loadAndStart e imageBuffer imageLength).1)
    (hspan : span ∈ call.romSpan?) : imageBuffer = .rom span.start ∧ imageLength = span.length := by
  rcases mem_loadAndStart hcall with rfl | rfl | ⟨rfl, -⟩
  · cases imageBuffer with
    | rom start =>
        obtain rfl := Option.some.inj hspan
        exact ⟨rfl, rfl⟩
    | pool p => cases hspan
  · cases hspan
  · cases hspan

theorem romSpan_of_mem_freePool {buffers : List Nat}
    (hcall : call ∈ buffers.map RomCall.freePool) : span ∉ call.romSpan? := by
  obtain ⟨p, -, rfl⟩ := List.mem_map.mp hcall
  nofun

/-- The only bytes of the ROM that calls are given are those of the image. -/
theorem Handled.romSpan {calls : List RomCall} {status : Option EfiStatus}
    (h : Handled e rom romBarOffset calls status) (hcall : call ∈ calls)
    (hspan : span ∈ call.romSpan?) :
    romImage rom romBarOffset = .rom span.start ∧ romImageLength rom romBarOffset = span.length := by
  have hcompressed : span = ⟨uintn (romBarOffset + imageOffset rom romBarOffset),
      romImageLength rom romBarOffset⟩ →
      romImage rom romBarOffset = .rom span.start ∧
        romImageLength rom romBarOffset = span.length := by
    rintro rfl
    exact ⟨rfl, rfl⟩
  cases h with
  | ignored => cases hcall
  | uncompressed => exact romSpan_of_mem_loadAndStart hcall hspan
  | notDecompressed calls buffers hcalls =>
      rcases List.mem_append.mp hcall with hcall | hcall
      · exact hcompressed (romSpan_of_mem_allocateCalls (hcalls.subset hcall) hspan)
      · exact absurd hspan (romSpan_of_mem_freePool hcall)
  | notExpanded scratch buffers _ _ =>
      rcases List.mem_append.mp hcall with hcall | hcall
      · exact hcompressed (romSpan_of_mem_decompressCalls hcall hspan)
      · exact absurd hspan (romSpan_of_mem_freePool hcall)
  | expanded scratch buffers _ _ =>
      rw [List.mem_append, List.mem_append] at hcall
      rcases hcall with (hcall | hcall) | hcall
      · exact hcompressed (romSpan_of_mem_decompressCalls hcall hspan)
      · -- A decompressed image is not in the ROM any more.
        cases (romSpan_of_mem_loadAndStart hcall hspan).1
      · exact absurd hspan (romSpan_of_mem_freePool hcall)

/-- The bytes of the image that calls are given are in the ROM. -/
theorem handleImage_inRom (haccepted : Accepted rom romBarOffset) (hle : romBarOffset ≤ rom.romSize)
    (hcall : call ∈ (handleImage e rom romBarOffset).1) (hspan : span ∈ call.romSpan?) :
    span.InRom rom := by
  by_cases hfits : IsEfiDriver rom romBarOffset ∧ SizesFit rom romBarOffset
  · have hsmall := rom.romSize_lt
    have hoffset := imageOffset_lt rom romBarOffset
    have hend := haccepted.le hle
    obtain ⟨-, hinitialization, himage⟩ := hfits
    obtain ⟨hstart, hlength⟩ := (handleImage_handled e rom romBarOffset).romSpan hcall hspan
    rw [romImage, uintn_of_lt (by omega)] at hstart
    obtain hstart := Buffer.rom.inj hstart
    rw [romImageLength] at hlength
    show span.start + span.length ≤ rom.romSize
    omega
  · rw [handleImage, if_neg hfits] at hcall
    cases hcall

end inRom

/-! ## The run -/

/-- Every field that is read and all bytes that calls are given are in the ROM, for every
image of the walk, if and only if the header of no image the walk comes to is cut off by
the end of the ROM. -/
theorem loadEfiDriversFromRomImage_inRom_iff (rom : Rom) (env : Nat → ImageEnv) :
    ((∀ w, Reached rom env w → ∀ span ∈ fieldReads rom w.romBarOffset, span.InRom rom) ∧
        ∀ w, Visited rom env w → ∀ calls ∈ w.calls, ∀ call ∈ calls, ∀ span ∈ call.romSpan?,
          span.InRom rom) ↔
      ∀ off, ComesTo rom off → HeaderFits rom off := by
  constructor
  · rintro ⟨hreads, -⟩ off hcomes
    obtain ⟨w, hw, rfl⟩ := hcomes.exists_reached env
    exact headerFits_of_reads (hreads w hw)
  · intro hfits
    constructor
    · intro w hw span hspan
      exact (hfits _ hw.comesTo).fieldReads_inRom hw.comesTo.le hspan
    · intro w hw calls hcalls call hcall span hspan
      obtain ⟨w₀, hw₀, haccepted, rfl⟩ := hw.mem_calls hcalls
      exact handleImage_inRom haccepted hw₀.comesTo.le hcall hspan

/-- A ROM that ends behind its signature. -/
def signatureOnly : Rom := ⟨([0x55, 0xaa].getD · 0), 2, by decide⟩

/-- `PcirOffset` is read behind the end of the ROM. -/
theorem fieldReads_signatureOnly :
    Reached signatureOnly (fun _ => quietEnv) .start ∧
      RomHeader.pcirOffset.span 0 ∈ fieldReads signatureOnly 0 ∧
      ¬ (RomHeader.pcirOffset.span 0).InRom signatureOnly := by
  refine ⟨.refl, by decide, ?_⟩
  show ¬ 24 + 2 ≤ 2
  omega

end ReloadRom
end EfiApps
