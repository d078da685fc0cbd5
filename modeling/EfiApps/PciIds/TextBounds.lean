import EfiApps.PciIds.TableRuns

/-!
# Well-formed texts keep to their bounds

In a text in the format of `pci.ids` every line is long enough for its fields and its name, and
the second pass comes from header to header.  So all such texts that are not empty meet what is
asked of the contents of a file.
-/

namespace EfiApps
namespace PciIds

open PciMisc

/-! ## The headers of a text -/

section marks

variable {contents : Nat → UInt16} {start n : Nat} {line : Line} {lines : List Line}

/-- The state of the first pass at a line. -/
structure AtLine (contents : Nat → UInt16) (start n : Nat) (lines : List Line) : Prop where
  l : (stateAfter contents start n).l = start + n
  text : TextAt (stateAfter contents start n).mem (start + n) (renderLines lines)

theorem extent_le_nameOffset (k : ItemKind) : k.extent ≤ k.nameOffset + 1 := by
  cases k <;> decide

/-- A line that becomes a header is long enough for it. -/
theorem lineMark_extent {s : FirstPass} (htext : TextAt s.mem s.l (line.units ++ [0x0a]))
    {m : MarkedLine} (hm : lineMark s (s.l + line.units.length) = some m) {k : ItemKind}
    (hk : m.kind = some k) : m.first + k.extent ≤ s.l + (line.units.length + 1) := by
  unfold lineMark at hm
  dsimp only at hm
  cases line with
  | blank =>
      have hnul : Function.update s.mem (s.l + Line.blank.units.length) 0 s.l = 0 :=
        Function.update_self ..
      rw [if_pos hnul] at hm
      cases hm
  | comment text =>
      have hunits : (Line.comment text).units.length = text.length + 1 := rfl
      have hcomment : Function.update s.mem (s.l + (Line.comment text).units.length) 0 s.l =
          0x23 := by
        rw [Function.update_of_ne (by omega)]
        exact (textAt_cons_iff.mp htext).1
      rw [if_neg (by rw [hcomment]; decide), if_pos hcomment] at hm
      obtain rfl := Option.some.inj hm
      cases hk
  | item i =>
      have hunits : (Line.item i).units.length = i.units.length := rfl
      have hlength := nameOffset_le_length i
      have htext' : TextAt (Function.update s.mem (s.l + (Line.item i).units.length) 0) s.l
          (i.units ++ [0]) := by
        rw [textAt_append_iff]
        constructor
        · refine (textAt_append_iff.mp htext).1.congr fun j _ hj => ?_
          rw [Function.update_of_ne]
          exact Nat.ne_of_lt hj
        · rw [textAt_cons_iff]
          exact ⟨Function.update_self .., textAt_nil⟩
      obtain ⟨hnul, hcomment, hkind⟩ := lineKind_eq htext'
      rw [if_neg hnul, if_neg hcomment, hkind] at hm
      obtain rfl := Option.some.inj hm
      obtain rfl := Option.some.inj hk
      have hextent := extent_le_nameOffset i.kind
      show s.l + i.kind.extent ≤ _
      omega

theorem stateAfter_add (m : Nat) :
    stateAfter contents start (n + m) =
      (List.range' (start + n) m).foldl firstPassStep (stateAfter contents start n) := by
  rw [stateAfter, stateAfter, ← List.range'_append_1, List.foldl_append]

theorem AtLine.next (h : AtLine contents start n (line :: lines)) (hvalid : line.Valid) :
    AtLine contents start (n + (line.units.length + 1)) lines := by
  obtain ⟨hl, htext⟩ := h
  rw [← hl] at htext
  obtain ⟨hfirst, hrest⟩ := textAt_append_iff.mp htext
  obtain ⟨hl', -, hsame, -⟩ := endLine_spec hvalid hfirst
  have hstate : stateAfter contents start (n + (line.units.length + 1)) =
      endLine (stateAfter contents start n)
        ((stateAfter contents start n).l + line.units.length) := by
    rw [stateAfter_add, ← hl, firstPass_line hvalid hfirst]
  rw [List.length_append, List.length_singleton] at hrest
  constructor
  · rw [hstate, hl']
    omega
  · rw [hstate, show start + (n + (line.units.length + 1)) =
      (stateAfter contents start n).l + (line.units.length + 1) by omega]
    exact hrest.congr fun j hj _ => hsame j (.inr hj)

/-- The headers that are made of a line. -/
theorem AtLine.markedLines_eq (h : AtLine contents start n (line :: lines))
    (hvalid : line.Valid) :
    markedLines contents start (n + (line.units.length + 1)) =
      markedLines contents start n ++
        (lineMark (stateAfter contents start n)
          ((stateAfter contents start n).l + line.units.length)).toList := by
  obtain ⟨hl, htext⟩ := h
  rw [← hl] at htext
  obtain ⟨hfirst, -⟩ := textAt_append_iff.mp htext
  have hquiet : ∀ i ≤ line.units.length,
      stateAfter contents start (n + i) = stateAfter contents start n := by
    intro i hi
    rw [stateAfter_add, ← hl, firstPass_quiet hvalid hfirst hi]
  have hbefore : ∀ i ≤ line.units.length,
      markedLines contents start (n + i) = markedLines contents start n := by
    intro i hi
    induction i with
    | zero => rfl
    | succ i ih =>
        have hunit : (stateAfter contents start n).mem (start + (n + i)) ≠ 0x0a := by
          have hi' : i < line.units.length := hi
          rw [show start + (n + i) = (stateAfter contents start n).l + i by omega,
            hfirst i (by simp; omega), List.getElem_append_left hi']
          exact hvalid.not_mem _ (List.getElem_mem _)
        rw [← Nat.add_assoc, markedLines_succ, ih (by omega), markAt, hquiet i (by omega),
          if_neg hunit]
        exact List.append_nil _
  have hfeed := lineFeed_of_textAt hfirst
  rw [← Nat.add_assoc, markedLines_succ, hbefore _ le_rfl, markAt, hquiet _ le_rfl]
  rw [show start + (n + line.units.length) =
    (stateAfter contents start n).l + line.units.length by omega, if_pos hfeed]

/-- All headers of a text are long enough. -/
theorem AtLine.extent_le (h : AtLine contents start n lines) (hvalid : ∀ line ∈ lines, line.Valid)
    (hbefore : ∀ m ∈ markedLines contents start n, ∀ k, m.kind = some k →
      m.first + k.extent ≤ start + n) :
    ∀ m ∈ markedLines contents start (n + (renderLines lines).length), ∀ k, m.kind = some k →
      m.first + k.extent ≤ start + (n + (renderLines lines).length) := by
  induction lines generalizing n with
  | nil => exact hbefore
  | cons line lines ih =>
      have hline := hvalid line List.mem_cons_self
      have hlength : (renderLines (line :: lines)).length =
          (line.units.length + 1) + (renderLines lines).length := by
        simp [renderLines]
        omega
      have hfirst := (textAt_append_iff.mp h.text).1
      rw [← h.l] at hfirst
      rw [hlength, ← Nat.add_assoc]
      apply ih (h.next hline) fun line' hmem => hvalid line' (List.mem_cons_of_mem _ hmem)
      intro m hm k hk
      rw [h.markedLines_eq hline, List.mem_append, Option.mem_toList] at hm
      rcases hm with hm | hm
      · have hle := hbefore m hm k hk
        omega
      · have hle := lineMark_extent hfirst hm hk
        have hl := h.l
        omega

end marks

/-! ## The walk over the headers -/

section walk

variable {mem : Nat → UInt16} {bufferEnd l n : Nat} {lines : List Line} {k : ItemKind}

theorem nextPosition_header {line : Line} (h : HeaderAt mem l line) :
    nextPosition mem l = l + (line.units.length + 1) := by
  rw [nextPosition]
  cases line with
  | blank => exact if_pos h
  | comment text =>
      obtain ⟨hcode, hlength⟩ := h
      rw [if_neg (by rw [hcode]; decide), hlength]
      rfl
  | item i =>
      obtain ⟨hcode, hlength, -⟩ := h
      rw [if_neg (by rw [hcode]; exact typeCode_ne_zero _), hlength]
      rfl

/-- The kind in a header. -/
theorem ofTypeCode_header {line : Line} (h : HeaderAt mem l line) :
    ItemKind.ofTypeCode (mem l) = line.item?.map IdLine.kind := by
  cases line with
  | blank =>
      rw [show mem l = 0 from h]
      rfl
  | comment text =>
      rw [h.1]
      rfl
  | item i => rw [h.1, ofTypeCode_typeCode]; rfl

theorem length_renderLines_cons (line : Line) (lines : List Line) :
    (renderLines (line :: lines)).length =
      (line.units.length + 1) + (renderLines lines).length := by
  simp [renderLines]
  omega

/-- The walk comes to the lines only. -/
theorem header_of_mem_positions (h : HeadersAt mem l lines)
    (hend : l + (renderLines lines).length = bufferEnd) :
    ∀ p ∈ positions mem bufferEnd n l, ∃ line ∈ lines, HeaderAt mem p line ∧
      p + (line.units.length + 1) ≤ bufferEnd := by
  induction lines generalizing l n with
  | nil =>
      have hl : ¬ l < bufferEnd := by
        rw [← hend]
        exact Nat.lt_irrefl _
      intro p hp
      cases n with
      | zero => cases hp
      | succ n =>
          rw [positions, if_neg hl] at hp
          cases hp
  | cons line lines ih =>
      obtain ⟨hheader, hheaders⟩ := h
      have hlength := length_renderLines_cons line lines
      intro p hp
      cases n with
      | zero => cases hp
      | succ n =>
          rw [positions, if_pos (by omega), nextPosition_header hheader, List.mem_cons] at hp
          rcases hp with rfl | hp
          · exact ⟨line, List.mem_cons_self, hheader, by omega⟩
          · obtain ⟨line', hmem, hline'⟩ := ih hheaders (by omega) p hp
            exact ⟨line', List.mem_cons_of_mem _ hmem, hline'⟩

/-- It comes to no more lines of a kind than there are. -/
theorem countP_positions_le (h : HeadersAt mem l lines)
    (hend : l + (renderLines lines).length = bufferEnd) :
    ((positions mem bufferEnd n l).countP fun p => ItemKind.ofTypeCode (mem p) = some k) ≤
      (lines.filterMap Line.item?).countP fun i => i.kind = k := by
  induction lines generalizing l n with
  | nil =>
      have hl : ¬ l < bufferEnd := by
        rw [← hend]
        exact Nat.lt_irrefl _
      cases n with
      | zero => exact le_rfl
      | succ n =>
          rw [positions, if_neg hl]
          exact le_rfl
  | cons line lines ih =>
      obtain ⟨hheader, hheaders⟩ := h
      have hlength := length_renderLines_cons line lines
      cases n with
      | zero => exact Nat.zero_le _
      | succ n =>
          have hrest := ih (n := n) hheaders (by omega)
          rw [positions, if_pos (by omega), nextPosition_header hheader, List.countP_cons,
            ofTypeCode_header hheader]
          cases line with
          | blank => exact hrest
          | comment text => exact hrest
          | item i =>
              rw [show (Line.item i :: lines).filterMap Line.item? = i :: lines.filterMap Line.item?
                from rfl, List.countP_cons]
              simp only [Line.item?, Option.map_some, Option.some.injEq]
              exact Nat.add_le_add_right hrest _

end walk

/-! ## The text as a whole -/

/-- The first pass has left these lines as headers in a text of `size` units. -/
structure Marked (contents : Nat → UInt16) (size : Nat) (lines : List Line) : Prop where
  nonempty : 0 < size
  text : TextAt contents (textStart contents) (renderLines lines)
  size_eq : textStart contents + (renderLines lines).length = size
  headers : HeadersAt (markedText contents size) (textStart contents) lines
  count : (firstPass contents (textStart contents) size).count = lines.foldl countLine fun _ => 0

theorem IdsText.marked (text : IdsText) (hnonempty : text.units ≠ []) {contents : Nat → UInt16}
    (htext : TextAt contents 0 text.units) : Marked contents text.units.length text.lines := by
  obtain ⟨hlines, hend⟩ := text.start_spec htext
  have hpos := List.length_pos_iff.mpr hnonempty
  have hle : textStart contents ≤ 1 := by
    unfold textStart
    split
    · exact le_rfl
    · exact Nat.zero_le _
  have hend : textStart contents + (renderLines text.lines).length = text.units.length :=
    hend.trans (max_eq_right (show textStart contents ≤ _ by omega))
  obtain ⟨pass, hrun, hcount, -, hheaders⟩ :=
    firstPass_lines text.valid (s := ⟨contents, textStart contents, fun _ => 0⟩) hlines
  have hpass : firstPass contents (textStart contents) text.units.length = pass := by
    rw [firstPass, show text.units.length - textStart contents = (renderLines text.lines).length
      by omega]
    exact hrun
  refine ⟨hpos, hlines, hend, ?_, ?_⟩
  · rw [markedText, hpass]
    exact hheaders
  · rw [hpass, hcount]

section marked

variable {contents : Nat → UInt16} {size : Nat} {lines : List Line}

/-- The second pass reads the headers of the lines only. -/
theorem Marked.header (h : Marked contents size lines) {l : Nat} (hreads : ReadsAt contents size l) :
    ∃ line ∈ lines, HeaderAt (markedText contents size) l line ∧
      l + (line.units.length + 1) ≤ size := by
  obtain ⟨i, hi⟩ := hreads
  exact header_of_mem_positions h.headers h.size_eq l
    (mem_positions.mpr ⟨i, Nat.lt_succ_self i, hi⟩)

theorem Marked.passesItems (h : Marked contents size lines) : PassesItems contents size := by
  intro m hm hreads _ hdvd
  obtain ⟨line, -, hheader, -⟩ := h.header hreads
  have hnext := nextPosition_header hheader
  obtain ⟨-, -, hcode, hlength⟩ := header_of_mem hm
  rw [nextPosition, if_neg (by rw [hcode]; exact m.code_ne_zero), hlength,
    m.length_eq_zero_iff.mpr hdvd] at hnext
  have hzero : (0 : UInt16).toNat = 0 := rfl
  omega

theorem Marked.staysInside (h : Marked contents size lines)
    (hvalid : ∀ line ∈ lines, line.Valid) : StaysInside contents size := by
  have hsize := h.size_eq
  constructor
  · exact h.nonempty
  · have hstart : AtLine contents (textStart contents) 0 lines := ⟨rfl, h.text⟩
    have hextent := hstart.extent_le hvalid fun m hm => by cases hm
    intro m hm k hk
    rw [fileMarks, show size - textStart contents = (renderLines lines).length by omega] at hm
    have hle := hextent m (by rwa [Nat.zero_add]) k hk
    omega
  · rintro l ⟨hreads, -⟩
    obtain ⟨line, -, hheader, hline⟩ := h.header hreads
    refine le_trans (Nat.add_le_add_left ?_ l) hline
    cases line with
    | blank => exact (if_pos hheader).le
    | comment text =>
        rw [hheader.1]
        exact Nat.succ_le_succ (Nat.succ_le_succ (Nat.zero_le _))
    | item i =>
        have hunits : (Line.item i).units.length = i.units.length := rfl
        have hlength := nameOffset_le_length i
        have hread := unitsRead_typeCode i.kind
        have hextent := extent_le_nameOffset i.kind
        rw [hheader.1]
        omega

theorem Marked.textItems_le (h : Marked contents size lines) (k : ItemKind) (n : Nat) :
    textItems contents size k n ≤ skippedItems contents size k n := by
  have hadd := countP_visited_add (k := k) (n := n) h.passesItems
  have hwritten : (recordsWritten contents size .init k n).length = _ :=
    length_recordsWritten .init
  rw [recordsWritten, length_recordsOf] at hwritten
  have hbound := countP_positions_le (n := n) (k := k) h.headers h.size_eq
  rw [h.count, foldl_countLine, Nat.zero_add] at hadd
  rw [← visited] at hbound
  omega

/-- The first pass has put a NUL behind the name of a line. -/
theorem Marked.name_ends (h : Marked contents size lines) {l : Nat}
    (hreads : ReadsAt contents size l) {k : ItemKind}
    (hk : ItemKind.ofTypeCode (markedText contents size l) = some k) :
    ∃ i, l + k.nameOffset ≤ i ∧ i < size ∧ markedText contents size i = 0 := by
  obtain ⟨line, -, hheader, hline⟩ := h.header hreads
  rw [ofTypeCode_header hheader] at hk
  cases line with
  | blank => cases hk
  | comment text => cases hk
  | item i =>
      obtain rfl := Option.some.inj hk
      obtain ⟨-, -, -, hname⟩ := hheader
      have hunits : (Line.item i).units.length = i.units.length := rfl
      have hlength := nameOffset_le_length i
      refine ⟨l + i.kind.nameOffset + i.name.length, Nat.le_add_right _ _, by omega, ?_⟩
      rw [hname i.name.length (by simp)]
      simp

end marked

/-- A text that is not empty keeps to its bounds. -/
theorem IdsText.fillsInside (text : IdsText) (hnonempty : text.units ≠ []) {contents : Nat → UInt16}
    (htext : TextAt contents 0 text.units) : FillsInside contents text.units.length := by
  have hmarked := text.marked hnonempty htext
  exact
    { inside := hmarked.staysInside text.valid
      lengths := hmarked.passesItems
      counts := hmarked.textItems_le
      names := fun _ hreads _ hk => hmarked.name_ends hreads hk }

/-! ## Runs with a small text -/

/-- Reading a small text. -/
def readSmall : Call := .read (.success (smallText.units.getD · 0) smallText.units.length) true

theorem readSmall_steps : ∃ s₁, readSmall.Steps .init s₁ := by
  obtain ⟨fuel, hread⟩ := readPciIds_of_emptyRoots emptyRoots_init smallText
    (textAt_getD smallText.units)
  obtain ⟨s₁, hrun, -⟩ := hread fuel le_rfl
  exact ⟨s₁, fuel, _, hrun⟩

theorem readSmall_inside : readSmall.Inside :=
  smallText.fillsInside (List.cons_ne_nil _ _) (textAt_getD smallText.units)

/-- The first call of a run. -/
theorem keeps_of_emptyRoots_inside_small : ∃ s₁, readSmall.Steps .init s₁ ∧
    Transition.Keeps ⟨.init, readSmall, s₁⟩ := by
  obtain ⟨s₁, hstep⟩ := readSmall_steps
  have hhistory : History [⟨.init, readSmall, s₁⟩] s₁ := .call .init hstep
  refine ⟨s₁, hstep, (keeps_of_emptyRoots_inside hhistory).1 ?_ _ (List.mem_singleton_self _)⟩
  intro t ht
  obtain rfl := List.mem_singleton.mp ht
  exact ⟨emptyRoots_init, readSmall_inside⟩

/-- After a text was read and freed, the root of the vendors refers to freed memory; and
reading the text once more does not give its trees. -/
theorem free_after_read_dangles : ∃ s₁ s₂ first,
    History [⟨.init, readSmall, s₁⟩, ⟨s₁, .free, s₂⟩] s₂ ∧
      ¬ Transition.Keeps ⟨s₁, .free, s₂⟩ ∧
      s₂.vendors.children = some first ∧ s₂.live first.block = false ∧
      ∀ s₃, readSmall.Steps s₁ s₃ → ¬ Transition.Keeps ⟨s₁, readSmall, s₃⟩ := by
  obtain ⟨s₁, hstep⟩ := readSmall_steps
  have hhistory : History [⟨.init, readSmall, s₁⟩] s₁ := .call .init hstep
  have hkeeps := keeps_of_emptyRoots emptyRoots_init readSmall_inside hstep
  have hnum : s₁.vendors.numChildren = 1 :=
    (hkeeps.entries _ smallText rfl (textAt_getD smallText.units)).1.1
  have hempty : ¬ s₁.vendors.Empty := by
    rintro ⟨-, hzero⟩
    rw [hnum] at hzero
    cases hzero
  have hnot : ∀ {c s'}, c.Steps s₁ s' → ¬ Transition.Keeps ⟨s₁, c, s'⟩ := fun hstep' hkeeps' =>
    hempty (hhistory.rootsAnchored.emptyRoots (effect_of_steps hstep') hkeeps'.sound).vendors
  obtain ⟨file, buffer, hfile, -, -, -, hrefers⟩ := hkeeps.sound.vendors.resolve_left hempty
  obtain ⟨first, hfirst, -⟩ := hhistory.rootsAnchored.vendors.resolve_left hempty
  refine ⟨s₁, freePciIds s₁, first, .call hhistory rfl, hnot rfl, ?_, ?_, fun s₃ => hnot⟩
  · rw [(freePciIds_roots s₁).1]
    exact hfirst
  · rw [(hrefers.children _ .refl first hfirst).1]
    exact freePciIds_live hfile

end PciIds
end EfiApps
