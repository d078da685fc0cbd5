import Mathlib.Algebra.Group.Nat.Defs
import EfiApps.PciMisc.Device

/-!
# `LoadEfiDriversFromRomImage`

The images of an option ROM follow each other.  Each has a header with the offset of
a PCI data structure, which gives the length of the image and tells whether it is
the last one.  EFI drivers among the images are decompressed, loaded and started.

Addresses are offsets from `RomBar`.  What the boot services and the decompressor
answer is given for each image.
-/

namespace EfiApps
namespace ReloadRom

open PciMisc

/-- `UINTN` arithmetic. -/
def uintn (n : Nat) : Nat := n % 2 ^ 64

/-- The memory from `RomBar` on, and `RomSize`.  No object in memory is larger than
half of the address space. -/
structure Rom where
  byte : Nat → UInt8
  romSize : Nat
  romSize_lt : romSize < 2 ^ 63

/-- Where a field is in its structure, and how many bytes it has. -/
structure Field where
  offset : Nat
  size : Nat
  deriving DecidableEq, Repr

/-! ## The structures -/

namespace RomHeader

/-- `Signature` of `EFI_PCI_EXPANSION_ROM_HEADER`. -/
def signature : Field := ⟨0, 2⟩

/-- `InitializationSize`. -/
def initializationSize : Field := ⟨2, 2⟩

/-- `EfiSignature`. -/
def efiSignature : Field := ⟨4, 4⟩

/-- `EfiSubsystem`. -/
def efiSubsystem : Field := ⟨8, 2⟩

/-- `CompressionType`. -/
def compressionType : Field := ⟨12, 2⟩

/-- `EfiImageHeaderOffset`. -/
def efiImageHeaderOffset : Field := ⟨22, 2⟩

/-- `PcirOffset`. -/
def pcirOffset : Field := ⟨24, 2⟩

end RomHeader

namespace Pcir

/-- `Signature` of `PCI_DATA_STRUCTURE`. -/
def signature : Field := ⟨0, 4⟩

/-- `ImageLength`. -/
def imageLength : Field := ⟨16, 2⟩

/-- `CodeType`. -/
def codeType : Field := ⟨20, 1⟩

/-- `Indicator`. -/
def indicator : Field := ⟨21, 1⟩

/-- `sizeof (PCI_DATA_STRUCTURE)`. -/
def size : Nat := 24

end Pcir

/-- The value of a sequence of bytes. -/
def littleEndian : List UInt8 → Nat
  | [] => 0
  | b :: bytes => b.toNat + 256 * littleEndian bytes

/-- The value of a field of the structure at an offset. -/
def Rom.field (rom : Rom) (base : Nat) (f : Field) : Nat :=
  littleEndian ((List.range f.size).map fun i => rom.byte (base + f.offset + i))

/-- `PCI_EXPANSION_ROM_HEADER_SIGNATURE`. -/
def pciExpansionRomHeaderSignature : Nat := 0xaa55

/-- `PCI_DATA_STRUCTURE_SIGNATURE`: the letters PCIR. -/
def pciDataStructureSignature : Nat := 0x52494350

/-- `PCI_CODE_TYPE_EFI_IMAGE`. -/
def pciCodeTypeEfiImage : Nat := 3

/-- `EFI_PCI_EXPANSION_ROM_HEADER_EFISIGNATURE`. -/
def efiPciExpansionRomHeaderEfiSignature : Nat := 0x0ef1

/-- `EFI_IMAGE_SUBSYSTEM_EFI_BOOT_SERVICE_DRIVER`. -/
def efiImageSubsystemEfiBootServiceDriver : Nat := 11

/-- `EFI_IMAGE_SUBSYSTEM_EFI_RUNTIME_DRIVER`. -/
def efiImageSubsystemEfiRuntimeDriver : Nat := 12

/-- `EFI_PCI_EXPANSION_ROM_HEADER_COMPRESSED`. -/
def efiPciExpansionRomHeaderCompressed : Nat := 1

/-- `EFI_SECURITY_VIOLATION`. -/
def securityViolation : EfiStatus := .error 26

/-! ## One image -/

section image

variable (rom : Rom) (romBarOffset : Nat)

/-- `Pcir`, as an offset. -/
def pcir : Nat := uintn (romBarOffset + rom.field romBarOffset RomHeader.pcirOffset)

/-- The pointer to the PCI data structure is not invalid. -/
def PcirValid : Prop :=
  ¬ (rom.field romBarOffset RomHeader.pcirOffset = 0 ∨
    rom.field romBarOffset RomHeader.pcirOffset &&& 3 ≠ 0 ∨
    uintn (romBarOffset + rom.field romBarOffset RomHeader.pcirOffset + Pcir.size) > rom.romSize)

instance : Decidable (PcirValid rom romBarOffset) := inferInstanceAs (Decidable (¬ _))

/-- `ImageSize`. -/
def imageSize : Nat := rom.field (pcir rom romBarOffset) Pcir.imageLength * 512

/-- The checks up to the one of `ImageSize` do not leave the loop. -/
def Accepted : Prop :=
  rom.field romBarOffset RomHeader.signature = pciExpansionRomHeaderSignature ∧
    PcirValid rom romBarOffset ∧
    rom.field (pcir rom romBarOffset) Pcir.signature = pciDataStructureSignature ∧
    ¬ uintn (romBarOffset + imageSize rom romBarOffset) > rom.romSize

instance : Decidable (Accepted rom romBarOffset) := inferInstanceAs (Decidable (_ ∧ _ ∧ _ ∧ _))

/-- The image is an EFI driver. -/
def IsEfiDriver : Prop :=
  rom.field (pcir rom romBarOffset) Pcir.codeType = pciCodeTypeEfiImage ∧
    rom.field romBarOffset RomHeader.efiSignature = efiPciExpansionRomHeaderEfiSignature ∧
    (rom.field romBarOffset RomHeader.efiSubsystem = efiImageSubsystemEfiBootServiceDriver ∨
      rom.field romBarOffset RomHeader.efiSubsystem = efiImageSubsystemEfiRuntimeDriver)

instance : Decidable (IsEfiDriver rom romBarOffset) := inferInstanceAs (Decidable (_ ∧ _ ∧ _))

/-- `ImageOffset`. -/
def imageOffset : Nat := rom.field romBarOffset RomHeader.efiImageHeaderOffset

/-- `InitializationSize`. -/
def initializationSize : Nat := rom.field romBarOffset RomHeader.initializationSize * 512

/-- The sizes in the headers fit together. -/
def SizesFit : Prop :=
  initializationSize rom romBarOffset ≤ imageSize rom romBarOffset ∧
    imageOffset rom romBarOffset < initializationSize rom romBarOffset

instance : Decidable (SizesFit rom romBarOffset) := inferInstanceAs (Decidable (_ ∧ _))

/-- The image is one that is decompressed, if it is loaded. -/
def IsCompressed : Prop :=
  rom.field romBarOffset RomHeader.compressionType = efiPciExpansionRomHeaderCompressed

instance : Decidable (IsCompressed rom romBarOffset) := inferInstanceAs (Decidable (_ = _))

/-- `(Pcir->Indicator & 0x80) != 0x00`. -/
def IsLast : Prop := rom.field (pcir rom romBarOffset) Pcir.indicator &&& 0x80 ≠ 0

instance : Decidable (IsLast rom romBarOffset) := inferInstanceAs (Decidable (_ ≠ _))

end image

/-! ## Loading an image -/

/-- What `ImageBuffer` points to: a place in the ROM, or a pool buffer or `NULL`. -/
inductive Buffer
  | rom (offset : Nat)
  | pool (p : Option Nat)
  deriving DecidableEq, Repr

/-- `ImageBuffer == NULL`. -/
def Buffer.isNull : Buffer → Bool
  | rom _ => false
  | pool p => p.isNone

/-- The calls that are made for an image, and what they return. -/
inductive RomCall
  | getInfo (source : Buffer) (sourceSize : Nat) (status : EfiStatus)
      (destinationSize scratchSize : Nat)
  | allocateZeroPool (size : Nat) (p : Option Nat)
  | decompress (source : Buffer) (sourceSize : Nat) (destination : Option Nat)
      (destinationSize : Nat) (scratch : Option Nat) (scratchSize : Nat) (status : EfiStatus)
  | freePool (p : Nat)
  | loadImage (source : Buffer) (sourceSize : Nat) (status : EfiStatus) (imageHandle : Nat)
  | unloadImage (imageHandle : Nat)
  | startImage (imageHandle : Nat) (status : EfiStatus)
  deriving DecidableEq, Repr

/-- What the calls for an image come to. -/
structure ImageEnv where
  locateProtocol : EfiStatus
  getInfo : EfiStatus
  destinationSize : Nat
  scratchSize : Nat
  destination : Option Nat
  scratch : Option Nat
  decompress : EfiStatus
  loadImage : EfiStatus
  imageHandle : Nat
  startImage : EfiStatus

/-- The locals after an image may have been decompressed, with the calls. -/
structure Prepared where
  imageBuffer : Buffer
  imageLength : Nat
  decompressedImageBuffer : Option Nat
  skipImage : Bool
  calls : List RomCall

section load

variable (env : ImageEnv)

/-- Decompress an image. -/
def decompressImage (imageBuffer : Buffer) (imageLength : Nat) : Prepared :=
  let skipped : Prepared := ⟨imageBuffer, imageLength, none, true, []⟩
  if env.locateProtocol.isError then skipped
  else
    let infoCall :=
      .getInfo imageBuffer imageLength env.getInfo env.destinationSize env.scratchSize
    if env.getInfo.isError then { skipped with calls := [infoCall] }
    else
      let destinationCall := .allocateZeroPool env.destinationSize env.destination
      let skipped := { skipped with decompressedImageBuffer := env.destination }
      -- The test is of `ImageBuffer`, not of the buffer that has just been allocated.
      if imageBuffer.isNull then { skipped with calls := [infoCall, destinationCall] }
      else
        let scratchCall := .allocateZeroPool env.scratchSize env.scratch
        match env.scratch with
        | none => { skipped with calls := [infoCall, destinationCall, scratchCall] }
        | some scratch =>
            let calls := [infoCall, destinationCall, scratchCall,
              .decompress imageBuffer imageLength env.destination env.destinationSize (some scratch)
                env.scratchSize env.decompress,
              .freePool scratch]
            if env.decompress.isError then { skipped with calls := calls }
            else ⟨.pool env.destination, env.destinationSize, env.destination, false, calls⟩

/-- `if (!SkipImage)`: the calls, and the status of a successful `StartImage`. -/
def loadAndStart (imageBuffer : Buffer) (imageLength : Nat) : List RomCall × Option EfiStatus :=
  let loadCall := .loadImage imageBuffer imageLength env.loadImage env.imageHandle
  if env.loadImage.isError then
    (if env.loadImage = securityViolation then [loadCall, .unloadImage env.imageHandle]
    else [loadCall], none)
  else
    ([loadCall, .startImage env.imageHandle env.startImage],
      if env.startImage.isError then none else some env.startImage)

/-- From `if (!SkipImage)` on. -/
def finishImage (prepared : Prepared) : List RomCall × Option EfiStatus :=
  let (calls, status) :=
    if prepared.skipImage then ([], none)
    else loadAndStart env prepared.imageBuffer prepared.imageLength
  (prepared.calls ++ calls ++ prepared.decompressedImageBuffer.toList.map .freePool, status)

/-- What is done with the image at `RomBarOffset`. -/
def handleImage (rom : Rom) (romBarOffset : Nat) : List RomCall × Option EfiStatus :=
  if IsEfiDriver rom romBarOffset ∧ SizesFit rom romBarOffset then
    let imageBuffer := .rom (uintn (romBarOffset + imageOffset rom romBarOffset))
    let imageLength := initializationSize rom romBarOffset - imageOffset rom romBarOffset
    let compressionType := rom.field romBarOffset RomHeader.compressionType
    finishImage env
      (if IsCompressed rom romBarOffset then decompressImage env imageBuffer imageLength
      else
        ⟨imageBuffer, imageLength, none,
          decide (compressionType > efiPciExpansionRomHeaderCompressed), []⟩)
  else ([], none)

end load

/-! ## The walk -/

/-- The locals of the loop, with the calls for each image so far. -/
structure Walk where
  imageIndex : Nat
  romBarOffset : Nat
  returnStatus : EfiStatus
  calls : List (List RomCall)

/-- The locals before the first image. -/
def Walk.start : Walk := ⟨0, 0, .notFound, []⟩

/-- What an iteration comes to. -/
inductive Turn
  | again (w : Walk)
  | leave (w : Walk)

section walk

variable (rom : Rom) (env : Nat → ImageEnv)

/-- The locals after an image that is accepted. -/
def afterImage (w : Walk) : Walk :=
  let (calls, status) := handleImage (env w.imageIndex) rom w.romBarOffset
  { imageIndex := w.imageIndex + 1
    romBarOffset := uintn (w.romBarOffset + imageSize rom w.romBarOffset)
    returnStatus := status.getD w.returnStatus
    calls := w.calls ++ [calls] }

/-- One iteration of the loop. -/
def examineImage (w : Walk) : Turn :=
  if Accepted rom w.romBarOffset then
    if ¬ IsLast rom w.romBarOffset ∧ (afterImage rom env w).romBarOffset < rom.romSize then
      .again (afterImage rom env w)
    else .leave (afterImage rom env w)
  else .leave w

/-- The loop of `LoadEfiDriversFromRomImage`. -/
def walkImages : Nat → Walk → Run Walk
  | fuel, w =>
      match examineImage rom env w with
      | .leave w' => .ok w'
      | .again w' =>
          match fuel with
          | 0 => .error .outOfFuel
          | fuel + 1 => walkImages fuel w'

/-- `LoadEfiDriversFromRomImage`: the value that is returned is `ReturnStatus`. -/
def loadEfiDriversFromRomImage (fuel : Nat) : Run Walk := walkImages rom env fuel .start

end walk

end ReloadRom
end EfiApps
