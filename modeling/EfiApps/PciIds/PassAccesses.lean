import EfiApps.PciIds.RecordWrites

/-!
# The accesses of both passes

Neither pass looks at the length of a line before it goes to a field of it.  The units that
are read or written are listed beside the two steps; nothing else has an influence on them
or is changed by them.  A short line at the end of the file is enough for both passes to
leave the buffer.
-/

namespace EfiApps
namespace PciIds

/-! ## The units of a step -/

namespace ItemKind

/-- The tests that find the kind of a line, as offsets in it. -/
def testOffsets : ItemKind → List Nat
  -- `isspc(1)`, `ishex(0)`, `istab(1)`, and then `isspc(4)` or `isspc(3)`.
  | baseClass => [1]
  | vendor => [1, 0]
  | progif | subsystem => [1, 0, 1, 4]
  | subclass | device => [1, 0, 1, 3]

/-- The digits of the ID. -/
def digitOffsets (k : ItemKind) : List Nat :=
  match k.width with
  | .w8 => List.range' k.valueOffset 2
  | .w16 => List.range' k.valueOffset 4
  | .w32 => List.range' k.valueOffset 4 ++ List.range' (k.valueOffset + 5) 4

/-- As many units from the start of a line on are read or written. -/
def extent : ItemKind → Nat
  | vendor | baseClass | subclass => 4
  | device | progif => 5
  | subsystem => 11

end ItemKind

/-- The units that hold a packed ID. -/
def Width.storeOffsets : Width → List Nat
  | w8 | w16 => [2]
  | w32 => [2, 3]

/-- What the first pass reads and writes at a line feed. -/
def lineAccesses (s : FirstPass) (c : Nat) : List Nat :=
  let mem := Function.update s.mem c 0
  c :: s.l ::
    if mem s.l = 0 then []
    else if mem s.l = 0x23 then [s.l, s.l + 1]
    else
      let k := lineKind mem s.l
      -- The stores are to `l[2]`, `l[0]` and `l[1]`.
      (k.testOffsets ++ k.digitOffsets ++ k.width.storeOffsets ++ [0, 1]).map (s.l + ·)

/-- What the first pass reads and writes at a unit. -/
def stepAccesses (s : FirstPass) (c : Nat) : List Nat :=
  c :: if s.mem c = 0x0a then lineAccesses s c else []

/-- What the second pass reads of the ID, as offsets from a unit with that type code. -/
def valueOffsets (code : UInt16) : List Nat :=
  match ItemKind.ofTypeCode code with
  | some k => k.width.storeOffsets
  | none => []

/-- What the second pass reads when it is at a unit. -/
def positionAccesses (mem : Nat → UInt16) (l : Nat) : List Nat :=
  l :: if mem l = 0 then [] else (valueOffsets (mem l) ++ [1]).map (l + ·)

/-! ## Nothing else is used -/

/-- Two memories are the same at some units. -/
def SameOn (S : Nat → Prop) (mem mem' : Nat → UInt16) : Prop := ∀ j, S j → mem' j = mem j

section congr

variable {S : Nat → Prop} {mem mem' : Nat → UInt16} {l c : Nat} {k : ItemKind}

theorem SameOn.update (h : SameOn S mem mem') (i : Nat) (v : UInt16) :
    SameOn S (Function.update mem i v) (Function.update mem' i v) := by
  intro j hj
  rw [Function.update_apply, Function.update_apply, h j hj]

theorem get8_congr (h : ∀ o ∈ List.range' l 2, mem' o = mem o) : get8 mem' l = get8 mem l := by
  rw [get8, get8, get4, get4, get4, get4, h l (by simp), h (l + 1) (by simp)]

theorem get16_congr (h : ∀ o ∈ List.range' l 4, mem' o = mem o) : get16 mem' l = get16 mem l := by
  have hhigh : get8 mem' l = get8 mem l := by
    apply get8_congr
    intro o ho
    apply h
    rw [List.mem_range'_1] at ho ⊢
    omega
  have hlow : get8 mem' (l + 2) = get8 mem (l + 2) := by
    apply get8_congr
    intro o ho
    apply h
    rw [List.mem_range'_1] at ho ⊢
    omega
  rw [get16, get16, hhigh, hlow]

theorem get32_congr (hhigh : ∀ o ∈ List.range' l 4, mem' o = mem o)
    (hlow : ∀ o ∈ List.range' (l + 5) 4, mem' o = mem o) : get32 mem' l = get32 mem l := by
  rw [get32, get32, get16_congr hhigh, get16_congr hlow]

/-- The tests decide alike. -/
theorem lineKind_congr (h : ∀ o ∈ (lineKind mem l).testOffsets, mem' (l + o) = mem (l + o)) :
    lineKind mem' l = lineKind mem l := by
  have h1 : mem' (l + 1) = mem (l + 1) := by
    apply h
    cases lineKind mem l <;> simp [ItemKind.testOffsets]
  unfold lineKind at h ⊢
  rw [h1]
  by_cases hspace : mem (l + 1) = 0x20
  · rw [if_pos hspace, if_pos hspace]
  · rw [if_neg hspace] at h ⊢
    rw [if_neg hspace]
    have h0 : mem' l = mem l := by
      apply h 0
      split
      · decide
      · split
        · split <;> decide
        · split <;> decide
    rw [h0]
    by_cases hhex : mem l > 0x23
    · rw [if_pos hhex, if_pos hhex]
    · rw [if_neg hhex] at h ⊢
      rw [if_neg hhex]
      by_cases htab : mem (l + 1) = 0x09
      · rw [if_pos htab] at h ⊢
        rw [if_pos htab]
        rw [h 4 (by split <;> decide)]
      · rw [if_neg htab] at h ⊢
        rw [if_neg htab]
        rw [h 3 (by split <;> decide)]

/-- The digits are packed alike. -/
theorem initone_congr (h : SameOn S mem mem')
    (hS : ∀ o ∈ k.digitOffsets ++ k.width.storeOffsets, S (l + o)) :
    SameOn S (initone mem l k) (initone mem' l k) := by
  have hdigits : ∀ v n, (∀ o ∈ List.range' v n, o ∈ k.digitOffsets) →
      ∀ o ∈ List.range' (l + v) n, mem' o = mem o := by
    intro v n hv o ho
    rw [← List.map_add_range'] at ho
    obtain ⟨i, hi, rfl⟩ := List.mem_map.mp ho
    exact h _ (hS i (List.mem_append_left _ (hv i hi)))
  have hstore : ∀ o ∈ k.width.storeOffsets, mem' (l + o) = mem (l + o) :=
    fun o ho => h _ (hS o (List.mem_append_right _ ho))
  rw [initone, initone]
  apply SameOn.update
  unfold ItemKind.digitOffsets at hdigits
  cases hwidth : k.width with
  | w8 =>
      rw [hwidth] at hdigits hstore
      dsimp only
      rw [get8_congr (hdigits _ 2 fun o ho => ho), hstore 2 (by decide)]
      exact h.update _ _
  | w16 =>
      rw [hwidth] at hdigits
      dsimp only
      rw [get16_congr (hdigits _ 4 fun o ho => ho)]
      exact h.update _ _
  | w32 =>
      rw [hwidth] at hdigits
      have hhigh := hdigits k.valueOffset 4 fun o ho => List.mem_append_left _ ho
      have hlow := hdigits (k.valueOffset + 5) 4 fun o ho => List.mem_append_right _ ho
      dsimp only
      rw [get32_congr hhigh hlow]
      exact (h.update _ _).update _ _

theorem initone_of_ne {j : Nat} (h0 : j ≠ l) (h : ∀ o ∈ k.width.storeOffsets, j ≠ l + o) :
    initone mem l k j = mem j := by
  rw [initone, Function.update_of_ne h0]
  cases hwidth : k.width with
  | w8 =>
      rw [hwidth] at h
      exact Function.update_of_ne (h 2 (by decide)) _ _
  | w16 =>
      rw [hwidth] at h
      exact Function.update_of_ne (h 2 (by decide)) _ _
  | w32 =>
      rw [hwidth] at h
      dsimp only
      rw [Function.update_of_ne (h 3 (by decide)), Function.update_of_ne (h 2 (by decide))]

/-- Two states of the first pass are the same but for some units. -/
structure SameState (S : Nat → Prop) (s s' : FirstPass) : Prop where
  mem : SameOn S s.mem s'.mem
  l : s'.l = s.l
  count : s'.count = s.count

variable {s s' : FirstPass}

theorem SameState.endLine (h : SameState S s s') (hS : ∀ j ∈ lineAccesses s c, S j) :
    SameState S (endLine s c) (endLine s' c) := by
  obtain ⟨hmem, hl, hcount⟩ := h
  have hmem := hmem.update c 0
  unfold lineAccesses at hS
  unfold PciIds.endLine
  dsimp only at hS ⊢
  rw [hl, hcount]
  generalize Function.update s.mem c 0 = mem at hS hmem ⊢
  generalize Function.update s'.mem c 0 = mem' at hmem ⊢
  rw [hmem s.l (hS s.l (by simp))]
  by_cases hnul : mem s.l = 0
  · rw [if_pos hnul, if_pos hnul]
    exact ⟨hmem, rfl, rfl⟩
  · rw [if_neg hnul] at hS
    rw [if_neg hnul, if_neg hnul]
    by_cases hcomment : mem s.l = 0x23
    · -- The header of a comment is written without reading any more of the line.
      rw [if_pos hcomment, if_pos hcomment]
      exact ⟨(hmem.update _ _).update _ _, rfl, rfl⟩
    · rw [if_neg hcomment] at hS
      rw [if_neg hcomment, if_neg hcomment]
      have hoffsets : ∀ o ∈ (lineKind mem s.l).testOffsets ++ (lineKind mem s.l).digitOffsets ++
          (lineKind mem s.l).width.storeOffsets ++ [0, 1], S (s.l + o) :=
        fun o ho => hS _ (List.mem_cons_of_mem _ (List.mem_cons_of_mem _ (List.mem_map_of_mem ho)))
      have hkind : lineKind mem' s.l = lineKind mem s.l :=
        lineKind_congr fun o ho => hmem _ (hoffsets o (by simp [ho]))
      rw [hkind]
      refine ⟨(initone_congr hmem fun o ho => hoffsets o ?_).update _ _, rfl, rfl⟩
      rw [List.append_assoc (lineKind mem s.l).testOffsets]
      exact List.mem_append_left _ (List.mem_append_right _ ho)

/-- A step of the first pass uses no other units. -/
theorem SameState.step (h : SameState S s s') (hS : ∀ j ∈ stepAccesses s c, S j) :
    SameState S (firstPassStep s c) (firstPassStep s' c) := by
  unfold stepAccesses at hS
  rw [firstPassStep, firstPassStep, h.mem c (hS c (by simp))]
  by_cases hfeed : s.mem c = 0x0a
  · rw [if_pos hfeed] at hS
    rw [if_pos hfeed, if_pos hfeed]
    exact h.endLine fun j hj => hS j (List.mem_cons_of_mem _ hj)
  · rw [if_neg hfeed, if_neg hfeed]
    exact h

/-- A step of the first pass changes no other units. -/
theorem firstPassStep_of_not_mem {j : Nat} (hj : j ∉ stepAccesses s c) :
    (firstPassStep s c).mem j = s.mem j := by
  unfold stepAccesses at hj
  rw [firstPassStep]
  by_cases hfeed : s.mem c = 0x0a
  · rw [if_pos hfeed] at hj ⊢
    unfold lineAccesses at hj
    rw [endLine]
    dsimp only at hj ⊢
    have hne : j ≠ c := by
      rintro rfl
      exact hj (by simp)
    rw [← Function.update_of_ne hne 0 s.mem]
    generalize Function.update s.mem c 0 = mem at hj ⊢
    by_cases hnul : mem s.l = 0
    · rw [if_pos hnul]
    · rw [if_neg hnul] at hj ⊢
      by_cases hcomment : mem s.l = 0x23
      · rw [if_pos hcomment] at hj ⊢
        simp only [List.mem_cons, not_or] at hj
        dsimp only
        rw [Function.update_of_ne hj.2.2.2.2.1, Function.update_of_ne hj.2.2.2.1]
      · rw [if_neg hcomment] at hj ⊢
        dsimp only
        have hoffsets : ∀ o ∈ (lineKind mem s.l).testOffsets ++ (lineKind mem s.l).digitOffsets ++
            (lineKind mem s.l).width.storeOffsets ++ [0, 1], j ≠ s.l + o := by
          rintro o ho rfl
          apply hj
          apply List.mem_cons_of_mem
          apply List.mem_cons_of_mem
          exact List.mem_cons_of_mem _ (List.mem_map_of_mem ho)
        rw [Function.update_of_ne (hoffsets 1 (by simp))]
        apply initone_of_ne (hoffsets 0 (by simp))
        exact fun o ho => hoffsets o (by simp [ho])
  · rw [if_neg hfeed]

/-- The second pass goes on alike. -/
theorem nextPosition_congr (h : ∀ j ∈ positionAccesses mem l, mem' j = mem j) :
    nextPosition mem' l = nextPosition mem l := by
  unfold positionAccesses at h
  rw [nextPosition, nextPosition, h l (by simp)]
  by_cases hnul : mem l = 0
  · rw [if_pos hnul, if_pos hnul]
  · rw [if_neg hnul] at h
    rw [if_neg hnul, if_neg hnul, h (l + 1) (by simp)]

/-- The second pass writes the same record. -/
theorem doLine_congr (file buffer : Nat) (h : ∀ j ∈ positionAccesses mem l, mem' j = mem j) :
    doLine file buffer mem' l = doLine file buffer mem l := by
  funext t
  have hcode : mem' l = mem l := h l (by simp [positionAccesses])
  rw [doLine, doLine, hcode]
  cases hk : ItemKind.ofTypeCode (mem l) with
  | none => rfl
  | some k =>
      have hline : mem l ≠ 0 := by
        intro hnul
        rw [hnul] at hk
        cases hk
      have hvalue : ∀ o ∈ k.width.storeOffsets, mem' (l + o) = mem (l + o) := by
        intro o ho
        apply h
        rw [positionAccesses, if_neg hline, valueOffsets, hk]
        apply List.mem_cons_of_mem
        exact List.mem_map_of_mem (List.mem_append_left _ ho)
      dsimp only
      congr 1
      unfold storedValue
      cases hwidth : k.width with
      | w8 =>
          rw [hwidth] at hvalue
          dsimp only
          rw [hvalue 2 (by decide)]
      | w16 =>
          rw [hwidth] at hvalue
          dsimp only
          rw [hvalue 2 (by decide)]
      | w32 =>
          rw [hwidth] at hvalue
          dsimp only
          rw [hvalue 2 (by decide), hvalue 3 (by decide)]

theorem secondPass_congr {bufferEnd : Nat} (file buffer fuel : Nat) (t : Table)
    (h : ∀ l', LandsOn mem l bufferEnd l' → ∀ j ∈ positionAccesses mem l', mem' j = mem j) :
    secondPass file buffer mem' bufferEnd fuel l t = secondPass file buffer mem bufferEnd fuel l t := by
  induction fuel generalizing l t with
  | zero =>
      unfold secondPass
      rfl
  | succ fuel ih =>
      by_cases hl : l < bufferEnd
      · have hhere := h l ⟨0, rfl, hl⟩
        have hcode : mem' l = mem l := hhere l (by simp [positionAccesses])
        have hnext := nextPosition_congr hhere
        have hlater : ∀ l', LandsOn mem (nextPosition mem l) bufferEnd l' →
            ∀ j ∈ positionAccesses mem l', mem' j = mem j := by
          rintro l' ⟨i, hi, hlt⟩
          exact h l' ⟨i + 1, position_succ'.trans hi, hlt⟩
        unfold nextPosition at hnext hlater
        by_cases hnul : mem l = 0
        · rw [if_pos hnul] at hlater
          rw [secondPass_nul hl hnul, secondPass_nul hl (hcode.trans hnul), ih _ hlater]
        · have hline : ¬ mem' l = 0 := by rwa [hcode]
          rw [if_neg hnul] at hlater
          rw [if_neg hnul, if_neg hline] at hnext
          rw [secondPass_line hl hnul, secondPass_line hl hline, hnext, doLine_congr file buffer hhere,
            ih _ hlater]
      · rw [secondPass_end hl, secondPass_end hl]

end congr

/-! ## The units of the file -/

/-- `ReadPciIds` reads or writes a unit of the buffer: it looks for a byte order mark, and
goes through both passes. -/
inductive Accesses (contents : Nat → UInt16) (size : Nat) : Nat → Prop
  | bom : Accesses contents size 0
  | first {n j : Nat} (hn : n < size - textStart contents)
      (hj : j ∈ stepAccesses (stateAfter contents (textStart contents) n)
        (textStart contents + n)) : Accesses contents size j
  | second {l j : Nat} (hl : ReadsAt contents size l)
      (hj : j ∈ positionAccesses (markedText contents size) l) : Accesses contents size j

/-- As many units from a position on are read by the second pass. -/
def unitsRead (code : UInt16) : Nat :=
  if code = 0 then 1
  else
    match ItemKind.ofTypeCode code with
    | some .subsystem => 4
    | some _ => 3
    | none => 2

/-- The file has a unit, every line with a value is long enough or followed by enough text,
and so is every unit of text that the second pass comes to. -/
structure StaysInside (contents : Nat → UInt16) (size : Nat) : Prop where
  nonempty : 0 < size
  lines : ∀ m ∈ fileMarks contents size, ∀ k, m.kind = some k → m.first + k.extent ≤ size
  text : ∀ l, ReadsText contents size l → l + unitsRead (markedText contents size l) ≤ size

section inside

variable {contents : Nat → UInt16} {size l c : Nat} {s : FirstPass}

theorem offsets_lt_iff (k : ItemKind) :
    (∀ o ∈ k.testOffsets ++ k.digitOffsets ++ k.width.storeOffsets ++ [0, 1], l + o < size) ↔
      l + k.extent ≤ size := by
  cases k <;>
    simp [ItemKind.testOffsets, ItemKind.digitOffsets, ItemKind.width, ItemKind.valueOffset,
      Width.storeOffsets, ItemKind.extent, List.range'] <;> omega

/-- The accesses at a line feed, for the header that it makes. -/
theorem lineAccesses_lt_iff (hle : s.l ≤ c) (hc : c < size) :
    (∀ j ∈ lineAccesses s c, j < size) ↔
      ∀ m, lineMark s c = some m → ∀ k, m.kind = some k → m.first + k.extent ≤ size := by
  have hends : ∀ {rest : List Nat}, (∀ j ∈ c :: s.l :: rest, j < size) ↔ ∀ j ∈ rest, j < size := by
    intro rest
    rw [List.forall_mem_cons, List.forall_mem_cons]
    exact ⟨fun h => h.2.2, fun h => ⟨hc, by omega, h⟩⟩
  have hlt : Function.update s.mem c 0 s.l ≠ 0 → s.l < c := by
    intro hline
    apply Nat.lt_of_le_of_ne hle
    intro heq
    rw [heq, Function.update_self] at hline
    exact hline rfl
  unfold lineAccesses lineMark
  dsimp only
  generalize Function.update s.mem c 0 = mem at hlt ⊢
  by_cases hnul : mem s.l = 0
  · rw [if_pos hnul, if_pos hnul, hends]
    exact ⟨fun _ => nofun, fun _ => nofun⟩
  · have hlt := hlt hnul
    rw [if_neg hnul, if_neg hnul, hends]
    by_cases hcomment : mem s.l = 0x23
    · rw [if_pos hcomment, if_pos hcomment]
      constructor
      · rintro - m hm k hk
        obtain rfl := Option.some.inj hm
        cases hk
      · intro _ j hj
        simp only [List.mem_cons, List.not_mem_nil, or_false] at hj
        omega
    · rw [if_neg hcomment, if_neg hcomment, List.forall_mem_map, offsets_lt_iff]
      constructor
      · intro h m hm k hk
        obtain rfl := Option.some.inj hm
        obtain rfl := Option.some.inj hk
        exact h
      · intro h
        exact h _ rfl _ rfl

theorem positionAccesses_lt_iff {mem : Nat → UInt16} (hl : l < size) :
    (∀ j ∈ positionAccesses mem l, j < size) ↔ l + unitsRead (mem l) ≤ size := by
  rw [positionAccesses, unitsRead, List.forall_mem_cons]
  by_cases hnul : mem l = 0
  · rw [if_pos hnul, if_pos hnul]
    exact ⟨fun _ => hl, fun _ => ⟨hl, nofun⟩⟩
  · rw [if_neg hnul, if_neg hnul, valueOffsets, List.forall_mem_map]
    cases ItemKind.ofTypeCode (mem l) with
    | none =>
        simp
        omega
    | some k => cases k <;> simp [ItemKind.width, Width.storeOffsets] <;> omega

/-- The second pass reads no more of a header than the first pass. -/
theorem unitsRead_typeCode (k : ItemKind) : unitsRead k.typeCode ≤ k.extent := by
  cases k <;> decide

/-- Accesses that are all to the file need lines and text that are long enough. -/
theorem staysInside_of_accesses (h : ∀ j, Accesses contents size j → j < size) :
    StaysInside contents size := by
  constructor
  · exact h 0 .bom
  · intro m hm k hk
    obtain ⟨n, hn, hmark⟩ := mem_markedLines.mp hm
    have hle := (marksHold contents (textStart contents) n).le
    have hfeed : (stateAfter contents (textStart contents) n).mem (textStart contents + n) = 0x0a := by
      by_contra hother
      rw [markAt, if_neg hother] at hmark
      cases hmark
    have hline : ∀ j ∈ lineAccesses (stateAfter contents (textStart contents) n)
        (textStart contents + n), j < size := by
      intro j hj
      apply h j (.first hn _)
      rw [stepAccesses, if_pos hfeed]
      exact List.mem_cons_of_mem _ hj
    rw [markAt, if_pos hfeed] at hmark
    exact (lineAccesses_lt_iff hle (by omega)).mp hline m hmark k hk
  · rintro l ⟨hreads, -⟩
    have hlt : l < size := by
      obtain ⟨i, -, hlt⟩ := hreads
      exact hlt
    exact (positionAccesses_lt_iff hlt).mp fun j hj => h j (.second hreads hj)

/-- What the first pass uses at a unit of the file. -/
theorem StaysInside.first_lt (h : StaysInside contents size) {n j : Nat}
    (hn : n < size - textStart contents)
    (hj : j ∈ stepAccesses (stateAfter contents (textStart contents) n) (textStart contents + n)) :
    j < size := by
  have hc : textStart contents + n < size := by omega
  have hle := (marksHold contents (textStart contents) n).le
  rcases List.mem_cons.mp hj with rfl | hj
  · exact hc
  · by_cases hfeed : (stateAfter contents (textStart contents) n).mem (textStart contents + n) = 0x0a
    · rw [if_pos hfeed] at hj
      refine (lineAccesses_lt_iff hle hc).mpr (fun m hm => ?_) j hj
      exact h.lines m (mem_markedLines.mpr ⟨n, hn, (if_pos hfeed).trans hm⟩)
    · rw [if_neg hfeed] at hj
      cases hj

/-- What the second pass uses at a unit that it comes to. -/
theorem StaysInside.second_lt (h : StaysInside contents size) {j : Nat}
    (hreads : ReadsAt contents size l) (hj : j ∈ positionAccesses (markedText contents size) l) :
    j < size := by
  have hlt : l < size := by
    obtain ⟨i, -, hlt⟩ := hreads
    exact hlt
  refine (positionAccesses_lt_iff hlt).mpr ?_ j hj
  by_cases hfirst : l ∈ (fileMarks contents size).map MarkedLine.first
  · -- A header has a code that the first pass gave it, with the fields that it read.
    obtain ⟨m, hm, rfl⟩ := List.mem_map.mp hfirst
    obtain ⟨hfeed, hend, hcode, -⟩ := header_of_mem hm
    rw [hcode, MarkedLine.code]
    cases hk : m.kind with
    | none =>
        have hcomment : unitsRead 1 = 2 := rfl
        dsimp only
        omega
    | some k =>
        have hextent := h.lines m hm k hk
        have hunits := unitsRead_typeCode k
        dsimp only
        omega
  · exact h.text l ⟨hreads, hfirst⟩

/-- All accesses are to the file exactly if its lines and the text that is taken for lines
are long enough. -/
theorem accesses_lt_iff :
    (∀ j, Accesses contents size j → j < size) ↔ StaysInside contents size := by
  constructor
  · exact staysInside_of_accesses
  · intro h j hj
    cases hj with
    | bom => exact h.nonempty
    | first hn hj => exact h.first_lt hn hj
    | second hreads hj => exact h.second_lt hreads hj

/-- What lies behind the file has no influence on passes that stay inside. -/
theorem passes_congr {contents' : Nat → UInt16} (h : ∀ j, Accesses contents size j → j < size)
    (hsame : SameOn (· < size) contents contents') :
    (firstPass contents' (textStart contents') size).count =
        (firstPass contents (textStart contents) size).count ∧
      SameOn (· < size) (markedText contents size) (markedText contents' size) ∧
      ∀ file buffer fuel t,
        secondPass file buffer (markedText contents' size) size fuel (textStart contents') t =
          secondPass file buffer (markedText contents size) size fuel (textStart contents) t := by
  have hstart : textStart contents' = textStart contents := by
    rw [textStart, textStart, hsame 0 (h 0 .bom)]
  have hfirst : ∀ n ≤ size - textStart contents, SameState (· < size)
      (stateAfter contents (textStart contents) n) (stateAfter contents' (textStart contents) n) := by
    intro n
    induction n with
    | zero => exact fun _ => ⟨hsame, rfl, rfl⟩
    | succ n ih =>
        intro hn
        rw [stateAfter_succ, stateAfter_succ]
        exact (ih (by omega)).step fun j hj => h j (.first hn hj)
  obtain ⟨hmem, -, hcount⟩ := hfirst _ le_rfl
  have htext : SameOn (· < size) (markedText contents size) (markedText contents' size) := by
    unfold markedText
    rw [hstart]
    exact hmem
  rw [hstart]
  refine ⟨hcount, htext, fun file buffer fuel t => ?_⟩
  exact secondPass_congr file buffer fuel t fun l hl j hj => htext j (h j (.second hl hj))

/-- Both passes keep to the file, and the second one to the records that are reserved,
exactly if the lines are long enough for what is taken for them. -/
theorem readPciIds_inside_iff (contents : Nat → UInt16) (size : Nat) :
    ((∀ j, Accesses contents size j → j < size) ∧
        ∀ s k n, (recordsWritten contents size s k n).length ≤
          (firstPass contents (textStart contents) size).count k + 1) ↔
      StaysInside contents size ∧ KeepsCount contents size := by
  rw [accesses_lt_iff, recordsWritten_le_iff]

end inside

/-- A letter and a line feed: a vendor line, whose ID would have four digits. -/
theorem accesses_shortLine :
    Accesses (([0x61, 0x0a] : List UInt16).getD · 0) 2 2 ∧
      ¬ ∀ j, Accesses (([0x61, 0x0a] : List UInt16).getD · 0) 2 j → j < 2 := by
  have hbehind : Accesses (([0x61, 0x0a] : List UInt16).getD · 0) 2 2 := by
    apply Accesses.first (n := 1)
    · decide
    · decide
  exact ⟨hbehind, fun h => absurd (h 2 hbehind) (Nat.lt_irrefl 2)⟩

end PciIds
end EfiApps
