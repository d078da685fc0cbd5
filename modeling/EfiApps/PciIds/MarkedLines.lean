import EfiApps.PciIds.FirstPass

/-!
# The headers of any text

Whatever the text is, a line that ends and does not begin with NUL becomes a header of
two units, a type code and its length in 16 bits.  Headers stay as they are, since the
pass writes nothing in front of the line it is at; but what it writes behind the first
units of a short line is in the lines that follow.
-/

namespace EfiApps
namespace PciIds

/-- A line that has become a header: where it starts, its line feed, and its kind unless it
is a comment. -/
structure MarkedLine where
  first : Nat
  feed : Nat
  kind : Option ItemKind
  deriving DecidableEq, Repr

/-- The type code of the header. -/
def MarkedLine.code (m : MarkedLine) : UInt16 :=
  match m.kind with
  | some k => k.typeCode
  | none => 1

/-- The length in the header. -/
def MarkedLine.length (m : MarkedLine) : UInt16 := .ofNat (m.feed - m.first + 1)

/-- The header that the line feed at `c` makes of the line from `l` to it. -/
def lineMark (s : FirstPass) (c : Nat) : Option MarkedLine :=
  let mem := Function.update s.mem c 0
  if mem s.l = 0 then none
  else some ⟨s.l, c, if mem s.l = 0x23 then none else some (lineKind mem s.l)⟩

section states

variable (contents : Nat → UInt16) (start : Nat)

/-- The first pass after some of the units. -/
def stateAfter (n : Nat) : FirstPass :=
  (List.range' start n).foldl firstPassStep ⟨contents, start, fun _ => 0⟩

/-- The line feed at `start + n`, if there is one when the first pass comes to it. -/
def markAt (n : Nat) : Option MarkedLine :=
  let s := stateAfter contents start n
  if s.mem (start + n) = 0x0a then lineMark s (start + n) else none

/-- The headers that are made of the first units, in the order of the lines. -/
def markedLines (n : Nat) : List MarkedLine := (List.range n).filterMap (markAt contents start)

end states

section marks

variable {contents : Nat → UInt16} {start n : Nat}

theorem stateAfter_succ :
    stateAfter contents start (n + 1) = firstPassStep (stateAfter contents start n) (start + n) := by
  rw [stateAfter, List.range'_1_concat, List.foldl_append]
  rfl

theorem firstPass_eq (bufferEnd : Nat) :
    firstPass contents start bufferEnd = stateAfter contents start (bufferEnd - start) := rfl

theorem markedLines_succ :
    markedLines contents start (n + 1) =
      markedLines contents start n ++ (markAt contents start n).toList := by
  rw [markedLines, List.range_succ, List.filterMap_append]
  cases hmark : markAt contents start n with
  | none => simp [markedLines, hmark]
  | some m => simp [markedLines, hmark]

theorem mem_markedLines {m : MarkedLine} :
    m ∈ markedLines contents start n ↔ ∃ i < n, markAt contents start i = some m := by
  rw [markedLines, List.mem_filterMap]
  constructor
  · rintro ⟨i, hi, hmark⟩
    exact ⟨i, List.mem_range.mp hi, hmark⟩
  · rintro ⟨i, hi, hmark⟩
    exact ⟨i, List.mem_range.mpr hi, hmark⟩

/-! ## One line -/

section line

variable {s : FirstPass} {c j : Nat}

/-- Nothing is written in front of the line. -/
theorem endLine_of_lt (hj : j < s.l) (hc : s.l ≤ c) : (endLine s c).mem j = s.mem j := by
  have hfeed : Function.update s.mem c 0 j = s.mem j := Function.update_of_ne (by omega) _ _
  rw [endLine]
  dsimp only
  split
  · exact hfeed
  · split
    · dsimp only
      rw [Function.update_of_ne (by omega), Function.update_of_ne (by omega), hfeed]
    · dsimp only
      rw [Function.update_of_ne (by omega), initone_of_le _ (.inl hj), hfeed]

theorem endLine_l : (endLine s c).l = c + 1 := by
  rw [endLine]
  dsimp only
  split
  · rfl
  · split
    · rfl
    · rfl

/-- The header of the line. -/
theorem endLine_mark {m : MarkedLine} (h : lineMark s c = some m) :
    m.first = s.l ∧ m.feed = c ∧ (endLine s c).mem s.l = m.code ∧
      (endLine s c).mem (s.l + 1) = m.length := by
  rw [lineMark] at h
  split at h
  · cases h
  · rename_i hnul
    obtain rfl := Option.some.inj h
    refine ⟨rfl, rfl, ?_⟩
    rw [endLine]
    dsimp only
    rw [if_neg hnul]
    by_cases hcomment : Function.update s.mem c 0 s.l = 0x23
    · rw [if_pos hcomment]
      dsimp only
      rw [Function.update_self, Function.update_of_ne (by omega), Function.update_self]
      exact ⟨by rw [MarkedLine.code, if_pos hcomment], rfl⟩
    · rw [if_neg hcomment]
      dsimp only
      rw [Function.update_self, Function.update_of_ne (by omega), initone_self]
      exact ⟨by rw [MarkedLine.code, if_neg hcomment], rfl⟩

/-- A line with a value adds to the counter of its kind. -/
theorem endLine_count (k : ItemKind) :
    (endLine s c).count k =
      s.count k + (lineMark s c).toList.countP fun m => m.kind = some k := by
  rw [endLine, lineMark]
  dsimp only
  by_cases hnul : Function.update s.mem c 0 s.l = 0
  · rw [if_pos hnul, if_pos hnul]
    rfl
  · rw [if_neg hnul, if_neg hnul]
    by_cases hcomment : Function.update s.mem c 0 s.l = 0x23
    · rw [if_pos hcomment, if_pos hcomment]
      rfl
    · rw [if_neg hcomment, if_neg hcomment]
      dsimp only
      by_cases hk : k = lineKind (Function.update s.mem c 0) s.l
      · rw [← hk, Function.update_self]
        simp
      · rw [Function.update_of_ne hk]
        simp [Ne.symm hk]

end line

/-! ## All lines -/

/-- What is known when the first pass comes to a unit. -/
structure MarksHold (contents : Nat → UInt16) (start n : Nat) : Prop where
  le : (stateAfter contents start n).l ≤ start + n
  header : ∀ m ∈ markedLines contents start n,
    start ≤ m.first ∧ m.first < m.feed ∧ m.feed < (stateAfter contents start n).l ∧
      (stateAfter contents start n).mem m.first = m.code ∧
      (stateAfter contents start n).mem (m.first + 1) = m.length
  sorted : (markedLines contents start n).Pairwise fun m m' => m.first < m'.first
  count : ∀ k, (stateAfter contents start n).count k =
    (markedLines contents start n).countP fun m => m.kind = some k
  start_le : start ≤ (stateAfter contents start n).l

/-- A line that becomes a header has more than its line feed. -/
theorem first_lt_feed {s : FirstPass} {c : Nat} {m : MarkedLine} (h : lineMark s c = some m)
    (hle : s.l ≤ c) : s.l < c := by
  rw [lineMark] at h
  rcases Nat.lt_or_eq_of_le hle with hlt | heq
  · exact hlt
  · rw [heq, Function.update_self, if_pos rfl] at h
    cases h

/-- Other units are passed over. -/
theorem MarksHold.of_unit (h : MarksHold contents start n)
    (hunit : (stateAfter contents start n).mem (start + n) ≠ 0x0a) :
    MarksHold contents start (n + 1) := by
  have hnext : stateAfter contents start (n + 1) = stateAfter contents start n := by
    rw [stateAfter_succ, firstPassStep, if_neg hunit]
  have hmarks : markedLines contents start (n + 1) = markedLines contents start n := by
    rw [markedLines_succ, markAt, if_neg hunit]
    exact List.append_nil _
  have hle := h.le
  constructor
  · rw [hnext]
    omega
  · rw [hnext, hmarks]
    exact h.header
  · rw [hmarks]
    exact h.sorted
  · rw [hnext, hmarks]
    exact h.count
  · rw [hnext]
    exact h.start_le

/-- At a line feed there may be a new header behind the others. -/
theorem MarksHold.of_feed (h : MarksHold contents start n)
    (hfeed : (stateAfter contents start n).mem (start + n) = 0x0a) :
    MarksHold contents start (n + 1) := by
  have hnext : stateAfter contents start (n + 1) =
      endLine (stateAfter contents start n) (start + n) := by
    rw [stateAfter_succ, firstPassStep, if_pos hfeed]
  have hmark : markAt contents start n =
      lineMark (stateAfter contents start n) (start + n) := if_pos hfeed
  have hle := h.le
  have hstart := h.start_le
  -- The headers before keep their places, behind which the pass has gone on.
  have hbefore : ∀ m ∈ markedLines contents start n, start ≤ m.first ∧ m.first < m.feed ∧
      m.feed < start + n + 1 ∧
      (stateAfter contents start (n + 1)).mem m.first = m.code ∧
      (stateAfter contents start (n + 1)).mem (m.first + 1) = m.length := by
    intro m hm
    obtain ⟨hfirst, hlt, hend, hcode, hlength⟩ := h.header m hm
    rw [hnext, endLine_of_lt (by omega) hle, endLine_of_lt (by omega) hle]
    exact ⟨hfirst, hlt, by omega, hcode, hlength⟩
  constructor
  · rw [hnext, endLine_l]
    omega
  · intro m hm
    rw [hnext, endLine_l, ← hnext]
    rw [markedLines_succ, hmark, List.mem_append] at hm
    rcases hm with hm | hm
    · exact hbefore m hm
    · have hm := Option.mem_toList.mp hm
      obtain ⟨hfirst, hc, hcode, hlength⟩ := endLine_mark hm
      have hlt := first_lt_feed hm hle
      rw [hnext, hfirst, hc]
      exact ⟨hstart, hlt, by omega, hcode, hlength⟩
  · rw [markedLines_succ, hmark, List.pairwise_append]
    refine ⟨h.sorted, ?_, fun m hm m' hm' => ?_⟩
    · cases lineMark (stateAfter contents start n) (start + n) with
      | none => exact List.Pairwise.nil
      | some m => exact List.pairwise_singleton _ _
    · obtain ⟨-, hlt, hend, -, -⟩ := h.header m hm
      have hfirst := (endLine_mark (Option.mem_toList.mp hm')).1
      omega
  · intro k
    rw [markedLines_succ, hmark, List.countP_append, ← h.count k, hnext, endLine_count]
  · rw [hnext, endLine_l]
    omega

theorem MarksHold.step (h : MarksHold contents start n) : MarksHold contents start (n + 1) := by
  by_cases hfeed : (stateAfter contents start n).mem (start + n) = 0x0a
  · exact h.of_feed hfeed
  · exact h.of_unit hfeed

theorem marksHold (contents : Nat → UInt16) (start n : Nat) : MarksHold contents start n := by
  induction n with
  | zero => exact ⟨le_rfl, nofun, .nil, fun _ => rfl, le_rfl⟩
  | succ n ih => exact ih.step

theorem nodup_first : ((markedLines contents start n).map MarkedLine.first).Nodup := by
  rw [List.Nodup, List.pairwise_map]
  exact (marksHold contents start n).sorted.imp fun h => Nat.ne_of_lt h

end marks

end PciIds
end EfiApps
