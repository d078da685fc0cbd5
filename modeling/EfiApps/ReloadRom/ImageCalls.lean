import EfiApps.ReloadRom.ImageWalk

/-!
# The calls for an image

Every step on the way to a driver can fail, and what comes after it must then not be
done with what it should have given.  The buffer for the decompressed image is the one
result that is not checked: the test behind its allocation asks for `ImageBuffer`.
-/

namespace EfiApps
namespace ReloadRom

open PciMisc Relation List

section calls

variable {e : ImageEnv} {imageBuffer : Buffer} {imageLength : Nat}

/-! ## The inversion lemmas -/

/-- The calls up to the allocation of the scratch buffer. -/
def allocateCalls (e : ImageEnv) (imageBuffer : Buffer) (imageLength : Nat) : List RomCall :=
  [.getInfo imageBuffer imageLength e.getInfo e.destinationSize e.scratchSize,
    .allocateZeroPool e.destinationSize e.destination, .allocateZeroPool e.scratchSize e.scratch]

/-- The calls when there is a scratch buffer. -/
def decompressCalls (e : ImageEnv) (imageBuffer : Buffer) (imageLength scratch : Nat) :
    List RomCall :=
  [.getInfo imageBuffer imageLength e.getInfo e.destinationSize e.scratchSize,
    .allocateZeroPool e.destinationSize e.destination,
    .allocateZeroPool e.scratchSize (some scratch),
    .decompress imageBuffer imageLength e.destination e.destinationSize (some scratch)
      e.scratchSize e.decompress,
    .freePool scratch]

/-- The image is not decompressed. -/
structure NotDecompressed (e : ImageEnv) (imageBuffer : Buffer) (imageLength : Nat)
    (prepared : Prepared) : Prop where
  skipImage : prepared.skipImage = true
  calls : prepared.calls <+: allocateCalls e imageBuffer imageLength

/-- The image is decompressed, perhaps without success. -/
structure Decompressed (e : ImageEnv) (imageBuffer : Buffer) (imageLength scratch : Nat)
    (prepared : Prepared) : Prop where
  locateProtocol : ¬ e.locateProtocol.isError
  getInfo : ¬ e.getInfo.isError
  scratchBuffer : e.scratch = some scratch
  calls : prepared.calls = decompressCalls e imageBuffer imageLength scratch
  skipImage : prepared.skipImage = e.decompress.isError
  imageBuffer : prepared.skipImage = false →
    prepared.imageBuffer = .pool e.destination ∧ prepared.imageLength = e.destinationSize

/-- The image is decompressed if the protocol, the sizes and a scratch buffer can be
had, whatever the other buffer is. -/
theorem decompressImage_cases (imageLength : Nat) (h : imageBuffer.isNull = false) :
    NotDecompressed e imageBuffer imageLength (decompressImage e imageBuffer imageLength) ∨
      ∃ scratch, Decompressed e imageBuffer imageLength scratch
        (decompressImage e imageBuffer imageLength) := by
  unfold decompressImage
  split
  · exact .inl ⟨rfl, nil_prefix⟩
  · rename_i hlocate
    split
    · exact .inl ⟨rfl, prefix_append _ [_, _]⟩
    · rename_i hinfo
      rw [if_neg (by rw [h]; exact Bool.false_ne_true)]
      cases hscratch : e.scratch with
      | none =>
          have hcalls : [RomCall.getInfo imageBuffer imageLength e.getInfo e.destinationSize
              e.scratchSize, .allocateZeroPool e.destinationSize e.destination,
              .allocateZeroPool e.scratchSize none] = allocateCalls e imageBuffer imageLength := by
            rw [allocateCalls, hscratch]
          exact .inl ⟨rfl, hcalls ▸ prefix_rfl⟩
      | some scratch =>
          right
          cases hstatus : e.decompress.isError with
          | true => exact ⟨scratch, hlocate, hinfo, hscratch, rfl, hstatus.symm, nofun⟩
          | false =>
              exact ⟨scratch, hlocate, hinfo, hscratch, rfl, hstatus.symm, fun _ => ⟨rfl, rfl⟩⟩

/-- An image is loaded once; it is started if this succeeds. -/
theorem loadAndStart_cases (e : ImageEnv) (imageBuffer : Buffer) (imageLength : Nat) :
    ((e.loadImage.isError = true ∧ (loadAndStart e imageBuffer imageLength).2 = none ∧
        ((loadAndStart e imageBuffer imageLength).1 =
            [.loadImage imageBuffer imageLength e.loadImage e.imageHandle] ∨
          (loadAndStart e imageBuffer imageLength).1 =
            [.loadImage imageBuffer imageLength e.loadImage e.imageHandle,
              .unloadImage e.imageHandle])) ∨
      (e.loadImage.isError = false ∧
        (loadAndStart e imageBuffer imageLength).1 =
          [.loadImage imageBuffer imageLength e.loadImage e.imageHandle,
            .startImage e.imageHandle e.startImage] ∧
        (loadAndStart e imageBuffer imageLength).2 =
          if e.startImage.isError then none else some e.startImage)) := by
  unfold loadAndStart
  cases hstatus : e.loadImage.isError with
  | true =>
      refine .inl ⟨rfl, rfl, ?_⟩
      rw [if_pos rfl]
      by_cases hsecurity : e.loadImage = securityViolation
      · exact .inr (if_pos hsecurity)
      · exact .inl (if_neg hsecurity)
  | false => exact .inr ⟨rfl, rfl, rfl⟩

/-! ## The shapes of the calls for an image -/

variable {rom : Rom} {romBarOffset : Nat}

/-- The image behind the header, as it is in the ROM. -/
def romImage (rom : Rom) (romBarOffset : Nat) : Buffer :=
  .rom (uintn (romBarOffset + imageOffset rom romBarOffset))

/-- The length of the image behind the header. -/
def romImageLength (rom : Rom) (romBarOffset : Nat) : Nat :=
  initializationSize rom romBarOffset - imageOffset rom romBarOffset

/-- The image is a compressed driver, and the protocol, the sizes and a scratch buffer
can be had. -/
structure GetsScratch (e : ImageEnv) (rom : Rom) (romBarOffset scratch : Nat) : Prop where
  isEfiDriver : IsEfiDriver rom romBarOffset
  sizesFit : SizesFit rom romBarOffset
  isCompressed : IsCompressed rom romBarOffset
  locateProtocol : ¬ e.locateProtocol.isError
  getInfo : ¬ e.getInfo.isError
  scratchBuffer : e.scratch = some scratch

/-- What comes of an image. -/
inductive Handled (e : ImageEnv) (rom : Rom) (romBarOffset : Nat) :
    List RomCall → Option EfiStatus → Prop
  | ignored : Handled e rom romBarOffset [] none
  | uncompressed (hnot : ¬ IsCompressed rom romBarOffset) :
      Handled e rom romBarOffset
        (loadAndStart e (romImage rom romBarOffset) (romImageLength rom romBarOffset)).1
        (loadAndStart e (romImage rom romBarOffset) (romImageLength rom romBarOffset)).2
  | notDecompressed (calls : List RomCall) (buffers : List Nat)
      (hcalls : calls <+:
        allocateCalls e (romImage rom romBarOffset) (romImageLength rom romBarOffset)) :
      Handled e rom romBarOffset (calls ++ buffers.map .freePool) none
  | notExpanded (scratch : Nat) (buffers : List Nat)
      (hscratch : GetsScratch e rom romBarOffset scratch)
      (hstatus : e.decompress.isError = true) :
      Handled e rom romBarOffset
        (decompressCalls e (romImage rom romBarOffset) (romImageLength rom romBarOffset) scratch ++
          buffers.map .freePool) none
  | expanded (scratch : Nat) (buffers : List Nat)
      (hscratch : GetsScratch e rom romBarOffset scratch)
      (hstatus : e.decompress.isError = false) :
      Handled e rom romBarOffset
        (decompressCalls e (romImage rom romBarOffset) (romImageLength rom romBarOffset) scratch ++
          (loadAndStart e (.pool e.destination) e.destinationSize).1 ++ buffers.map .freePool)
        (loadAndStart e (.pool e.destination) e.destinationSize).2

theorem finishImage_of_skip {prepared : Prepared} (h : prepared.skipImage = true) :
    finishImage e prepared =
      (prepared.calls ++ prepared.decompressedImageBuffer.toList.map .freePool, none) := by
  have happend := append_nil prepared.calls
  rw [finishImage, if_pos h]
  dsimp only
  rw [happend]

theorem finishImage_of_not_skip {prepared : Prepared} (h : prepared.skipImage = false) :
    finishImage e prepared =
      (prepared.calls ++ (loadAndStart e prepared.imageBuffer prepared.imageLength).1 ++
          prepared.decompressedImageBuffer.toList.map .freePool,
        (loadAndStart e prepared.imageBuffer prepared.imageLength).2) := by
  rw [finishImage, h]
  rfl

theorem handleImage_of_fits (h : IsEfiDriver rom romBarOffset ∧ SizesFit rom romBarOffset) :
    handleImage e rom romBarOffset =
      finishImage e
        (if IsCompressed rom romBarOffset then
          decompressImage e (romImage rom romBarOffset) (romImageLength rom romBarOffset)
        else
          ⟨romImage rom romBarOffset, romImageLength rom romBarOffset, none,
            decide (rom.field romBarOffset RomHeader.compressionType >
              efiPciExpansionRomHeaderCompressed), []⟩) := by
  rw [handleImage, if_pos h]
  rfl

theorem handleImage_handled (e : ImageEnv) (rom : Rom) (romBarOffset : Nat) :
    Handled e rom romBarOffset (handleImage e rom romBarOffset).1
      (handleImage e rom romBarOffset).2 := by
  by_cases hfits : IsEfiDriver rom romBarOffset ∧ SizesFit rom romBarOffset
  · rw [handleImage_of_fits hfits]
    by_cases hcompressed : IsCompressed rom romBarOffset
    · rw [if_pos hcompressed]
      have hrom : (romImage rom romBarOffset).isNull = false := rfl
      rcases decompressImage_cases (e := e) (romImageLength rom romBarOffset) hrom with
        hnot | ⟨scratch, hdone⟩
      · rw [finishImage_of_skip hnot.skipImage]
        exact .notDecompressed _ _ hnot.calls
      · have hscratch : GetsScratch e rom romBarOffset scratch :=
          ⟨hfits.1, hfits.2, hcompressed, hdone.locateProtocol, hdone.getInfo, hdone.scratchBuffer⟩
        cases hstatus : e.decompress.isError with
        | true =>
            rw [finishImage_of_skip (hdone.skipImage.trans hstatus), hdone.calls]
            exact .notExpanded scratch _ hscratch hstatus
        | false =>
            have hskip := hdone.skipImage.trans hstatus
            obtain ⟨hbuffer, hlength⟩ := hdone.imageBuffer hskip
            rw [finishImage_of_not_skip hskip, hdone.calls, hbuffer, hlength]
            exact .expanded scratch _ hscratch hstatus
    · rw [if_neg hcompressed]
      cases hskip : decide (rom.field romBarOffset RomHeader.compressionType >
          efiPciExpansionRomHeaderCompressed) with
      | true =>
          rw [finishImage_of_skip rfl]
          exact .ignored
      | false =>
          rw [finishImage_of_not_skip rfl, Option.toList_none, map_nil, append_nil, nil_append]
          exact .uncompressed hcompressed
  · rw [handleImage, if_neg hfits]
    exact .ignored

/-! ## What is called when -/

/-- Buffers for decompressing are there, and have the sizes that were asked for. -/
def DecompressesIntoBuffers (calls : List RomCall) : Prop :=
  ∀ source sourceSize destination destinationSize scratch scratchSize status,
    .decompress source sourceSize destination destinationSize scratch scratchSize status ∈ calls →
      ∃ d s infoStatus, destination = some d ∧ scratch = some s ∧ ¬ infoStatus.isError ∧
        [.getInfo source sourceSize infoStatus destinationSize scratchSize,
          .allocateZeroPool destinationSize (some d), .allocateZeroPool scratchSize (some s),
          .decompress source sourceSize destination destinationSize scratch scratchSize status] <+
          calls

/-- What is loaded is what the image has been decompressed to. -/
def LoadsDecompressed (source : Buffer) (sourceSize : Nat) (calls : List RomCall) : Prop :=
  ∀ imageBuffer imageLength status imageHandle,
    .loadImage imageBuffer imageLength status imageHandle ∈ calls →
      ∃ d scratch scratchSize decompressStatus, imageBuffer = .pool (some d) ∧
        ¬ decompressStatus.isError ∧
        [.decompress source sourceSize (some d) imageLength scratch scratchSize decompressStatus,
          .loadImage imageBuffer imageLength status imageHandle] <+ calls

/-- What is started has been loaded. -/
def StartsLoaded (calls : List RomCall) : Prop :=
  ∀ imageHandle status, .startImage imageHandle status ∈ calls →
    ∃ imageBuffer imageLength loadStatus, ¬ loadStatus.isError ∧
      [.loadImage imageBuffer imageLength loadStatus imageHandle,
        .startImage imageHandle status] <+ calls

/-- `StartImage` has succeeded. -/
def Starts (calls : List RomCall) : Prop :=
  ∃ imageHandle status, .startImage imageHandle status ∈ calls ∧ ¬ status.isError

theorem mem_loadAndStart {call : RomCall} {imageBuffer : Buffer} {imageLength : Nat}
    (h : call ∈ (loadAndStart e imageBuffer imageLength).1) :
    call = .loadImage imageBuffer imageLength e.loadImage e.imageHandle ∨
      call = .unloadImage e.imageHandle ∨
      (call = .startImage e.imageHandle e.startImage ∧ e.loadImage.isError = false ∧
        (loadAndStart e imageBuffer imageLength).1 =
          [.loadImage imageBuffer imageLength e.loadImage e.imageHandle,
            .startImage e.imageHandle e.startImage]) := by
  rcases loadAndStart_cases e imageBuffer imageLength with
    ⟨-, -, hcalls | hcalls⟩ | ⟨hstatus, hcalls, -⟩
  · rw [hcalls, mem_singleton] at h
    exact .inl h
  · rw [hcalls, mem_cons, mem_singleton] at h
    exact h.imp_right .inl
  · rw [hcalls, mem_cons, mem_singleton] at h
    exact h.imp_right fun h => .inr ⟨h, hstatus, hcalls⟩

theorem ne_decompress_of_mem_loadAndStart {call : RomCall} {imageBuffer : Buffer}
    {imageLength : Nat} (h : call ∈ (loadAndStart e imageBuffer imageLength).1)
    (source : Buffer) (sourceSize : Nat) (destination : Option Nat) (destinationSize : Nat)
    (scratch : Option Nat) (scratchSize : Nat) (status : EfiStatus) :
    call ≠ .decompress source sourceSize destination destinationSize scratch scratchSize status := by
  rcases mem_loadAndStart h with rfl | rfl | ⟨rfl, -⟩ <;> nofun

theorem ne_decompress_of_mem_freePool {call : RomCall} {buffers : List Nat}
    (h : call ∈ buffers.map RomCall.freePool)
    (source : Buffer) (sourceSize : Nat) (destination : Option Nat) (destinationSize : Nat)
    (scratch : Option Nat) (scratchSize : Nat) (status : EfiStatus) :
    call ≠ .decompress source sourceSize destination destinationSize scratch scratchSize status := by
  obtain ⟨p, -, rfl⟩ := mem_map.mp h
  nofun

/-- The calls that follow do not matter if they do not decompress. -/
theorem DecompressesIntoBuffers.append {calls later : List RomCall}
    (h : DecompressesIntoBuffers calls)
    (hlater : ∀ call ∈ later, ∀ source sourceSize destination destinationSize scratch scratchSize
      status, call ≠
        .decompress source sourceSize destination destinationSize scratch scratchSize status) :
    DecompressesIntoBuffers (calls ++ later) := by
  intro source sourceSize destination destinationSize scratch scratchSize status hcall
  rcases mem_append.mp hcall with hcall | hcall
  · obtain ⟨d, s, infoStatus, hd, hs, hinfo, hbefore⟩ := h _ _ _ _ _ _ _ hcall
    exact ⟨d, s, infoStatus, hd, hs, hinfo, hbefore.trans (sublist_append_left calls later)⟩
  · exact absurd rfl (hlater _ hcall _ _ _ _ _ _ _)

theorem decompressesIntoBuffers_decompressCalls (imageBuffer : Buffer) (imageLength scratch : Nat)
    {d : Nat} (hinfo : ¬ e.getInfo.isError) (hd : e.destination = some d) :
    DecompressesIntoBuffers (decompressCalls e imageBuffer imageLength scratch) := by
  intro source sourceSize destination destinationSize scratch' scratchSize status hcall
  simp only [decompressCalls, mem_cons, reduceCtorEq, RomCall.decompress.injEq, not_mem_nil,
    or_false, false_or] at hcall
  obtain ⟨rfl, rfl, rfl, rfl, rfl, rfl, rfl⟩ := hcall
  refine ⟨d, scratch, e.getInfo, hd, rfl, hinfo, ?_⟩
  rw [decompressCalls, hd]
  exact sublist_append_left [_, _, _, _] [_]

/-- Unless the destination buffer is missing where the scratch buffer is not. -/
theorem Handled.decompressesIntoBuffers {calls : List RomCall} {status : Option EfiStatus}
    (h : Handled e rom romBarOffset calls status)
    (hd : ∀ scratch, GetsScratch e rom romBarOffset scratch → e.destination ≠ none) :
    DecompressesIntoBuffers calls := by
  cases h with
  | ignored => nofun
  | uncompressed hnot =>
      intro _ _ _ _ _ _ _ hcall
      exact absurd rfl (ne_decompress_of_mem_loadAndStart hcall _ _ _ _ _ _ _)
  | notDecompressed calls buffers hcalls =>
      have hnone : DecompressesIntoBuffers calls := by
        intro _ _ _ _ _ _ _ hcall
        have hmem := hcalls.subset hcall
        simp [allocateCalls] at hmem
      exact hnone.append fun call hcall => ne_decompress_of_mem_freePool hcall
  | notExpanded scratch buffers hscratch _ =>
      obtain ⟨d, hsome⟩ := Option.ne_none_iff_exists'.mp (hd scratch hscratch)
      exact (decompressesIntoBuffers_decompressCalls _ _ _ hscratch.getInfo hsome).append
        fun call hcall => ne_decompress_of_mem_freePool hcall
  | expanded scratch buffers hscratch _ =>
      obtain ⟨d, hsome⟩ := Option.ne_none_iff_exists'.mp (hd scratch hscratch)
      have hcalls := decompressesIntoBuffers_decompressCalls (romImage rom romBarOffset)
        (romImageLength rom romBarOffset) scratch hscratch.getInfo hsome
      apply (hcalls.append _).append
      · exact fun call hcall => ne_decompress_of_mem_freePool hcall
      · exact fun call hcall => ne_decompress_of_mem_loadAndStart hcall

/-- Only what a successful decompression gives is loaded for a compressed image. -/
theorem Handled.loadsDecompressed {calls : List RomCall} {status : Option EfiStatus}
    (h : Handled e rom romBarOffset calls status)
    (hd : ∀ scratch, GetsScratch e rom romBarOffset scratch → e.destination ≠ none)
    (hcompressed : IsCompressed rom romBarOffset) :
    LoadsDecompressed (romImage rom romBarOffset) (romImageLength rom romBarOffset) calls := by
  cases h with
  | ignored => nofun
  | uncompressed hnot => exact absurd hcompressed hnot
  | notDecompressed calls buffers hcalls =>
      intro _ _ _ _ hcall
      rcases mem_append.mp hcall with hcall | hcall
      · have hmem := hcalls.subset hcall
        simp [allocateCalls] at hmem
      · simp at hcall
  | notExpanded scratch buffers hscratch _ =>
      intro _ _ _ _ hcall
      simp [decompressCalls] at hcall
  | expanded scratch buffers hscratch hstatus =>
      obtain ⟨d, hsome⟩ := Option.ne_none_iff_exists'.mp (hd scratch hscratch)
      intro imageBuffer imageLength status imageHandle hcall
      have hload : RomCall.loadImage imageBuffer imageLength status imageHandle ∈
          (loadAndStart e (.pool e.destination) e.destinationSize).1 := by
        simpa [decompressCalls] using hcall
      rcases mem_loadAndStart hload with heq | heq | ⟨heq, -⟩
      · obtain ⟨rfl, rfl, -, -⟩ := RomCall.loadImage.inj heq
        refine ⟨d, some scratch, e.scratchSize, e.decompress, congrArg Buffer.pool hsome,
          by rw [hstatus]; exact Bool.false_ne_true, ?_⟩
        -- The decompression is among the first calls, the load among those behind them.
        apply Sublist.trans _ (sublist_append_left _ _)
        refine Sublist.append (?_ : [_] <+ _) (?_ : [_] <+ _)
        · rw [singleton_sublist, decompressCalls, hsome]
          simp
        · exact singleton_sublist.mpr hload
      · cases heq
      · cases heq

theorem startsLoaded_loadAndStart {imageBuffer : Buffer} {imageLength : Nat} :
    StartsLoaded (loadAndStart e imageBuffer imageLength).1 := by
  intro imageHandle status hcall
  rcases mem_loadAndStart hcall with heq | heq | ⟨heq, hload, hcalls⟩
  · cases heq
  · cases heq
  · obtain ⟨rfl, rfl⟩ := RomCall.startImage.inj heq
    refine ⟨imageBuffer, imageLength, e.loadImage, by rw [hload]; exact Bool.false_ne_true, ?_⟩
    rw [hcalls]

/-- Calls that start nothing may be put around others. -/
theorem StartsLoaded.append {calls before later : List RomCall} (h : StartsLoaded calls)
    (hbefore : ∀ imageHandle status, .startImage imageHandle status ∉ before)
    (hlater : ∀ imageHandle status, .startImage imageHandle status ∉ later) :
    StartsLoaded (before ++ calls ++ later) := by
  intro imageHandle status hcall
  rw [mem_append, mem_append] at hcall
  rcases hcall with (hcall | hcall) | hcall
  · exact absurd hcall (hbefore _ _)
  · obtain ⟨imageBuffer, imageLength, loadStatus, hstatus, hload⟩ := h _ _ hcall
    refine ⟨imageBuffer, imageLength, loadStatus, hstatus, hload.trans ?_⟩
    exact (sublist_append_right before calls).trans (sublist_append_left _ later)
  · exact absurd hcall (hlater _ _)

theorem startImage_not_mem_decompressCalls {imageBuffer : Buffer} {imageLength scratch : Nat}
    (imageHandle : Nat) (status : EfiStatus) :
    .startImage imageHandle status ∉ decompressCalls e imageBuffer imageLength scratch := by
  simp [decompressCalls]

theorem startImage_not_mem_freePool {buffers : List Nat} (imageHandle : Nat)
    (status : EfiStatus) : .startImage imageHandle status ∉ buffers.map RomCall.freePool := by
  simp

theorem startImage_not_mem_notDecompressed {calls : List RomCall} {buffers : List Nat}
    (hcalls : calls <+: allocateCalls e imageBuffer imageLength) (imageHandle : Nat)
    (status : EfiStatus) : .startImage imageHandle status ∉ calls ++ buffers.map .freePool := by
  rw [mem_append, not_or]
  constructor
  · intro hcall
    have hmem := hcalls.subset hcall
    simp [allocateCalls] at hmem
  · exact startImage_not_mem_freePool imageHandle status

theorem Handled.startsLoaded {calls : List RomCall} {status : Option EfiStatus}
    (h : Handled e rom romBarOffset calls status) : StartsLoaded calls := by
  cases h with
  | ignored => nofun
  | uncompressed hnot => exact startsLoaded_loadAndStart
  | notDecompressed calls buffers hcalls =>
      intro _ _ hcall
      exact absurd hcall (startImage_not_mem_notDecompressed hcalls _ _)
  | notExpanded scratch buffers _ _ =>
      intro _ _ hcall
      rcases mem_append.mp hcall with hcall | hcall
      · exact absurd hcall (startImage_not_mem_decompressCalls _ _)
      · exact absurd hcall (startImage_not_mem_freePool _ _)
  | expanded scratch buffers _ _ =>
      exact startsLoaded_loadAndStart.append startImage_not_mem_decompressCalls
        startImage_not_mem_freePool

theorem loadAndStart_status {imageBuffer : Buffer} {imageLength : Nat} :
    (Starts (loadAndStart e imageBuffer imageLength).1 ↔
        (loadAndStart e imageBuffer imageLength).2.isSome) ∧
      ∀ status ∈ (loadAndStart e imageBuffer imageLength).2, ¬ status.isError := by
  rcases loadAndStart_cases e imageBuffer imageLength with
    ⟨-, hstatus, hcalls | hcalls⟩ | ⟨-, hcalls, hstatus⟩
  · rw [hstatus, hcalls]
    simp [Starts]
  · rw [hstatus, hcalls]
    simp [Starts]
  · rw [hstatus, hcalls]
    cases hstart : e.startImage.isError <;> simp [Starts, hstart]

/-- The status of an image is that of a `StartImage` that succeeds. -/
theorem Handled.status_iff {calls : List RomCall} {status : Option EfiStatus}
    (h : Handled e rom romBarOffset calls status) :
    (Starts calls ↔ status.isSome) ∧ ∀ s ∈ status, ¬ s.isError := by
  cases h with
  | ignored => simp [Starts]
  | uncompressed hnot => exact loadAndStart_status
  | notDecompressed calls buffers hcalls =>
      refine ⟨?_, nofun⟩
      constructor
      · rintro ⟨imageHandle, status, hcall, -⟩
        exact absurd hcall (startImage_not_mem_notDecompressed hcalls _ _)
      · nofun
  | notExpanded scratch buffers _ _ => simp [Starts, decompressCalls]
  | expanded scratch buffers _ _ =>
      refine ⟨?_, loadAndStart_status.2⟩
      rw [← loadAndStart_status.1]
      simp [Starts, decompressCalls]

/-- In this case the decompressor is called. -/
theorem GetsScratch.decompress_mem {scratch : Nat} (h : GetsScratch e rom romBarOffset scratch) :
    RomCall.decompress (romImage rom romBarOffset) (romImageLength rom romBarOffset) e.destination
        e.destinationSize (some scratch) e.scratchSize e.decompress ∈
      (handleImage e rom romBarOffset).1 := by
  have hcalls : RomCall.decompress (romImage rom romBarOffset) (romImageLength rom romBarOffset)
      e.destination e.destinationSize (some scratch) e.scratchSize e.decompress ∈
      (decompressImage e (romImage rom romBarOffset) (romImageLength rom romBarOffset)).calls := by
    rw [decompressImage, if_neg h.locateProtocol, if_neg h.getInfo]
    simp only [romImage, Buffer.isNull, Bool.false_eq_true, if_false, h.scratchBuffer]
    split <;> simp
  rw [handleImage_of_fits ⟨h.isEfiDriver, h.sizesFit⟩, if_pos h.isCompressed]
  exact mem_append_left _ (mem_append_left _ hcalls)

end calls

/-! ## The run -/

section run

variable {rom : Rom} {env : Nat → ImageEnv} {w : Walk}

/-- The calls for the image that the loop is at. -/
def imageCalls (rom : Rom) (env : Nat → ImageEnv) (w : Walk) : List RomCall :=
  (handleImage (env w.imageIndex) rom w.romBarOffset).1

/-- The status that the loop is left with says whether a driver has been started. -/
theorem Visited.returnStatus (h : Visited rom env w) :
    ¬ w.returnStatus.isError ↔ ∃ calls ∈ w.calls, Starts calls := by
  apply h.induction
  · simp [Walk.start, EfiStatus.isError, EfiStatus.notFound]
  · intro w _ _ ih
    obtain ⟨hstarts, hsuccess⟩ :=
      (handleImage_handled (env w.imageIndex) rom w.romBarOffset).status_iff
    have hcalls : (afterImage rom env w).calls = w.calls ++ [imageCalls rom env w] := rfl
    have hreturn : (afterImage rom env w).returnStatus =
        (handleImage (env w.imageIndex) rom w.romBarOffset).2.getD w.returnStatus := rfl
    have hsplit : (∃ calls ∈ (afterImage rom env w).calls, Starts calls) ↔
        (∃ calls ∈ w.calls, Starts calls) ∨ Starts (imageCalls rom env w) := by
      rw [hcalls]
      simp [or_and_right, exists_or]
    rw [hsplit, imageCalls, hstarts, hreturn]
    cases hstatus : (handleImage (env w.imageIndex) rom w.romBarOffset).2 with
    | none => simpa using ih
    | some status => simpa using hsuccess status hstatus

end run

/-- For every chain of images and all failures, decompressing is done into the buffers that
have been allocated, loading a compressed image is of what came out of it, starting is of
what has been loaded, and the status tells whether a driver has been started, if and only if
no destination buffer is missing where there is a scratch buffer. -/
theorem loadEfiDriversFromRomImage_calls_iff (rom : Rom) (env : Nat → ImageEnv) :
    ((∀ w, Reached rom env w → Accepted rom w.romBarOffset →
        DecompressesIntoBuffers (imageCalls rom env w) ∧
          (IsCompressed rom w.romBarOffset →
            LoadsDecompressed (romImage rom w.romBarOffset) (romImageLength rom w.romBarOffset)
              (imageCalls rom env w)) ∧
          StartsLoaded (imageCalls rom env w)) ∧
        ∀ fuel w, loadEfiDriversFromRomImage rom env fuel = .ok w →
          (¬ w.returnStatus.isError ↔ ∃ calls ∈ w.calls, Starts calls)) ↔
      ∀ w scratch, Reached rom env w → Accepted rom w.romBarOffset →
        GetsScratch (env w.imageIndex) rom w.romBarOffset scratch →
          (env w.imageIndex).destination ≠ none := by
  constructor
  · rintro ⟨hcalls, -⟩ w scratch hw haccepted hscratch hnone
    obtain ⟨d, s, infoStatus, hd, -⟩ :=
      (hcalls w hw haccepted).1 _ _ _ _ _ _ _ hscratch.decompress_mem
    rw [hnone] at hd
    cases hd
  · intro hbuffers
    constructor
    · intro w hw haccepted
      have hhandled := handleImage_handled (env w.imageIndex) rom w.romBarOffset
      have hd : ∀ scratch, GetsScratch (env w.imageIndex) rom w.romBarOffset scratch →
          (env w.imageIndex).destination ≠ none :=
        fun scratch hscratch => hbuffers w scratch hw haccepted hscratch
      exact ⟨hhandled.decompressesIntoBuffers hd, hhandled.loadsDecompressed hd,
        hhandled.startsLoaded⟩
    · intro fuel w hw
      exact Visited.returnStatus (.inr (left_of_walkImages .refl hw))

/-- The bytes of a header of a compressed driver with its data structure behind it. -/
def compressedImageBytes : List UInt8 :=
  [0x55, 0xaa, 1, 0, 0xf1, 0x0e, 0, 0, 11, 0, 0, 0, 1, 0] ++ List.replicate 8 0 ++
    [0x38, 0, 0x1c, 0, 0, 0] ++ [0x50, 0x43, 0x49, 0x52] ++ List.replicate 12 0 ++
    [1, 0, 0, 0, 3, 0x80]

/-- A ROM with one image, a compressed driver. -/
def compressedImage : Rom := ⟨(compressedImageBytes.getD · 0), 512, by decide⟩

/-- There is memory for the scratch buffer only. -/
def scratchOnlyEnv : ImageEnv :=
  { quietEnv with destinationSize := 4096, scratchSize := 64, destination := none }

/-- The image is decompressed to `NULL`. -/
theorem imageCalls_compressedImage :
    Reached compressedImage (fun _ => scratchOnlyEnv) .start ∧
      Accepted compressedImage 0 ∧
      .decompress (.rom 56) 456 none 4096 (some 0) 64 .success ∈
        imageCalls compressedImage (fun _ => scratchOnlyEnv) .start ∧
      ¬ DecompressesIntoBuffers (imageCalls compressedImage (fun _ => scratchOnlyEnv) .start) := by
  have hmem : .decompress (.rom 56) 456 none 4096 (some 0) 64 .success ∈
      imageCalls compressedImage (fun _ => scratchOnlyEnv) .start := by decide
  refine ⟨.refl, by decide, hmem, fun h => ?_⟩
  obtain ⟨d, s, infoStatus, hd, -⟩ := h _ _ _ _ _ _ _ hmem
  cases hd

end ReloadRom
end EfiApps
