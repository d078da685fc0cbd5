import EfiApps.PciIds.MarkedLines
import EfiApps.PciIds.SecondPass
import Mathlib.Logic.Function.Iterate

/-!
# The walk of the second pass

The second pass goes by the lengths that it finds in the buffer.  From a header it comes to
the line behind, unless the length has more than 16 bits; but from a line that begins with
NUL, from the last line without a line feed and from the middle of a long line it goes on
through text.
-/

namespace EfiApps
namespace PciIds

open PciMisc

/-- Where the second pass goes from a unit. -/
def nextPosition (mem : Nat → UInt16) (l : Nat) : Nat :=
  if mem l = 0 then l + 1 else l + (mem (l + 1)).toNat

/-- The position of the second pass after some iterations. -/
def position (mem : Nat → UInt16) (start i : Nat) : Nat := (nextPosition mem)^[i] start

/-- The second pass has an iteration at a unit. -/
def LandsOn (mem : Nat → UInt16) (start bufferEnd l : Nat) : Prop :=
  ∃ i, position mem start i = l ∧ l < bufferEnd

/-- The positions of the first iterations. -/
def positions (mem : Nat → UInt16) (bufferEnd : Nat) : Nat → Nat → List Nat
  | 0, _ => []
  | n + 1, l => if l < bufferEnd then l :: positions mem bufferEnd n (nextPosition mem l) else []

section walk

variable {file buffer bufferEnd start : Nat} {mem : Nat → UInt16} {l i : Nat}

theorem le_nextPosition (mem : Nat → UInt16) (l : Nat) : l ≤ nextPosition mem l := by
  rw [nextPosition]
  split
  · exact Nat.le_succ l
  · exact Nat.le_add_right l _

theorem position_succ : position mem start (i + 1) = nextPosition mem (position mem start i) :=
  Function.iterate_succ_apply' _ _ _

theorem position_succ' : position mem start (i + 1) = position mem (nextPosition mem start) i :=
  Function.iterate_succ_apply _ _ _

theorem position_mono {j : Nat} (h : i ≤ j) : position mem start i ≤ position mem start j := by
  induction h with
  | refl => exact le_rfl
  | step _ ih =>
      rw [position_succ]
      exact ih.trans (le_nextPosition mem _)

theorem start_le_position : start ≤ position mem start i := position_mono (Nat.zero_le i)

/-- A line whose first unit is no type code adds nothing. -/
theorem doLine_nul {t : Table} (h : mem l = 0) : doLine file buffer mem l t = t := by
  rw [doLine, h]
  rfl

/-- The second pass is a fold over the positions it comes to. -/
theorem secondPass_eq {fuel : Nat} (t : Table) :
    secondPass file buffer mem bufferEnd fuel l t =
      if position mem l fuel < bufferEnd then .error .outOfFuel
      else .ok ((positions mem bufferEnd fuel l).foldl
        (fun t l => doLine file buffer mem l t) t) := by
  induction fuel generalizing l t with
  | zero =>
      unfold secondPass
      rfl
  | succ fuel ih =>
      rw [position_succ', positions]
      by_cases hl : l < bufferEnd
      · rw [if_pos hl, List.foldl_cons]
        by_cases hnul : mem l = 0
        · have hnext : nextPosition mem l = l + 1 := if_pos hnul
          rw [secondPass_nul hl hnul, ih, doLine_nul hnul, hnext]
        · have hnext : nextPosition mem l = l + (mem (l + 1)).toNat := if_neg hnul
          rw [secondPass_line hl hnul, ih, hnext]
      · have hend : ¬ position mem (nextPosition mem l) fuel < bufferEnd := by
          have hle := le_nextPosition mem l
          have hlater : nextPosition mem l ≤ position mem (nextPosition mem l) fuel :=
            start_le_position
          omega
        rw [secondPass_end hl, if_neg hl, if_neg hend]
        rfl

theorem mem_positions {n : Nat} :
    l ∈ positions mem bufferEnd n start ↔
      ∃ i < n, position mem start i = l ∧ l < bufferEnd := by
  induction n generalizing start with
  | zero =>
      constructor
      · nofun
      · rintro ⟨i, hi, -⟩
        exact absurd hi (Nat.not_lt_zero i)
  | succ n ih =>
      rw [positions]
      by_cases hstart : start < bufferEnd
      · rw [if_pos hstart, List.mem_cons, ih]
        constructor
        · rintro (rfl | ⟨i, hi, hl, hlt⟩)
          · exact ⟨0, Nat.succ_pos n, rfl, hstart⟩
          · exact ⟨i + 1, Nat.succ_lt_succ hi, position_succ'.trans hl, hlt⟩
        · rintro ⟨i, hi, hl, hlt⟩
          cases i with
          | zero => exact .inl hl.symm
          | succ i => exact .inr ⟨i, Nat.lt_of_succ_lt_succ hi, position_succ'.symm.trans hl, hlt⟩
      · rw [if_neg hstart]
        constructor
        · nofun
        · rintro ⟨i, hi, rfl, hlt⟩
          have hle : start ≤ position mem start i := start_le_position
          omega

/-- The iterations before and those from a position that is not at the end. -/
theorem positions_add {n : Nat} (h : position mem start i < bufferEnd) :
    positions mem bufferEnd (i + n) start =
      positions mem bufferEnd i start ++ positions mem bufferEnd n (position mem start i) := by
  induction i generalizing start with
  | zero =>
      rw [Nat.zero_add]
      rfl
  | succ i ih =>
      have hstart : start < bufferEnd := start_le_position.trans_lt h
      rw [position_succ'] at h ⊢
      rw [Nat.succ_add, positions, positions, if_pos hstart, if_pos hstart, ih h]
      rfl

/-- Where the walk does not go on, all positions are the same. -/
theorem positions_stuck (hl : l < bufferEnd) (hstuck : nextPosition mem l = l) (n : Nat) :
    positions mem bufferEnd n l = List.replicate n l := by
  induction n with
  | zero => rfl
  | succ n ih => rw [positions, if_pos hl, hstuck, ih, List.replicate_succ]

/-- The walk never goes back. -/
theorem positions_pairwise (n : Nat) :
    (positions mem bufferEnd n start).Pairwise fun l l' => nextPosition mem l ≤ l' := by
  induction n generalizing start with
  | zero => exact .nil
  | succ n ih =>
      rw [positions]
      split
      · refine .cons (fun l hl => ?_) ih
        obtain ⟨i, -, rfl, -⟩ := mem_positions.mp hl
        exact start_le_position
      · exact .nil

/-! ## Progress -/

/-- The walk goes on at every unit it comes to. -/
def Progresses (mem : Nat → UInt16) (start bufferEnd : Nat) : Prop :=
  ∀ i, position mem start i < bufferEnd → position mem start i < position mem start (i + 1)

/-- It does not at a unit that is followed by zero. -/
theorem lt_nextPosition_iff : l < nextPosition mem l ↔ (mem l ≠ 0 → mem (l + 1) ≠ 0) := by
  rw [nextPosition]
  by_cases hnul : mem l = 0
  · rw [if_pos hnul]
    exact ⟨fun _ h => absurd hnul h, fun _ => Nat.lt_succ_self l⟩
  · rw [if_neg hnul]
    constructor
    · intro hlt _ hzero
      rw [hzero] at hlt
      exact absurd hlt (Nat.lt_irrefl l)
    · intro h
      have hpos : (mem (l + 1)).toNat ≠ 0 := by
        intro hzero
        exact h hnul (UInt16.toNat_inj.mp hzero)
      omega

theorem progresses_iff :
    Progresses mem start bufferEnd ↔
      ∀ l, LandsOn mem start bufferEnd l → mem l ≠ 0 → mem (l + 1) ≠ 0 := by
  constructor
  · rintro h l ⟨i, rfl, hlt⟩
    have hnext := h i hlt
    rw [position_succ] at hnext
    exact lt_nextPosition_iff.mp hnext
  · intro h i hlt
    rw [position_succ]
    exact lt_nextPosition_iff.mpr (h _ ⟨i, rfl, hlt⟩)

/-- A walk that progresses is at the end after as many iterations as there are units. -/
theorem Progresses.end_le (h : Progresses mem start bufferEnd) (i : Nat) :
    min bufferEnd (start + i) ≤ position mem start i := by
  induction i with
  | zero => exact Nat.min_le_right _ _
  | succ i ih =>
      rcases Nat.lt_or_ge (position mem start i) bufferEnd with hlt | hge
      · have hnext := h i hlt
        omega
      · have hle : position mem start i ≤ position mem start (i + 1) := position_mono (Nat.le_succ i)
        omega

/-- A walk that does not stays where it is. -/
theorem Progresses.of_end_le (h : bufferEnd ≤ position mem start i) :
    Progresses mem start bufferEnd := by
  intro j hj
  by_contra hstuck
  have hstay : position mem start (j + 1) = position mem start j := by
    have hle : position mem start j ≤ position mem start (j + 1) := position_mono (Nat.le_succ j)
    omega
  -- It would still be there after the iterations that are said to get to the end.
  have hlater : ∀ n, position mem start (j + n) = position mem start j := by
    intro n
    induction n with
    | zero => rfl
    | succ n ih => rw [← Nat.add_assoc, position_succ, ih, ← position_succ, hstay]
  have hle : position mem start i ≤ position mem start (j + i) := position_mono (by omega)
  rw [hlater] at hle
  omega

/-- The second pass returns only if it progresses. -/
theorem progresses_of_secondPass {fuel : Nat} {t t' : Table}
    (h : secondPass file buffer mem bufferEnd fuel start t = .ok t') :
    Progresses mem start bufferEnd := by
  rw [secondPass_eq] at h
  by_cases hend : position mem start fuel < bufferEnd
  · rw [if_pos hend] at h
    cases h
  · exact Progresses.of_end_le (Nat.le_of_not_lt hend)

theorem Progresses.returns (h : Progresses mem start bufferEnd) {fuel : Nat}
    (hfuel : bufferEnd ≤ fuel) (t : Table) :
    (secondPass file buffer mem bufferEnd fuel start t).Returns := by
  have hend := h.end_le fuel
  rw [secondPass_eq, if_neg (by omega)]
  exact ⟨_, rfl⟩

end walk

/-! ## The text of the file -/

/-- Where the text starts: a byte order mark is skipped. -/
def textStart (contents : Nat → UInt16) : Nat := if contents 0 = 0xfeff then 1 else 0

section file

variable (contents : Nat → UInt16) (size : Nat)

/-- The buffer as the first pass leaves it. -/
def markedText : Nat → UInt16 := (firstPass contents (textStart contents) size).mem

/-- The lines that have become headers. -/
def fileMarks : List MarkedLine :=
  markedLines contents (textStart contents) (size - textStart contents)

/-- The second pass has an iteration at a unit of the file. -/
def ReadsAt (l : Nat) : Prop := LandsOn (markedText contents size) (textStart contents) size l

/-- The second pass comes to a unit that is not the start of a header. -/
def ReadsText (l : Nat) : Prop :=
  ReadsAt contents size l ∧ l ∉ (fileMarks contents size).map MarkedLine.first

/-- The second pass comes to a header whose line has a length, with the line feed, that is
nothing in 16 bits. -/
def StallsAtHeader : Prop :=
  ∃ m ∈ fileMarks contents size, ReadsAt contents size m.first ∧ 65536 ∣ m.feed - m.first + 1

/-- In text, the second pass comes to a unit that has NUL behind it. -/
def StallsInText : Prop :=
  ∃ l, ReadsText contents size l ∧ markedText contents size l ≠ 0 ∧
    markedText contents size (l + 1) = 0

end file

section file

variable {contents : Nat → UInt16} {size : Nat}

theorem MarkedLine.code_ne_zero (m : MarkedLine) : m.code ≠ 0 := by
  rw [MarkedLine.code]
  cases m.kind with
  | none => decide
  | some k => exact typeCode_ne_zero k

theorem MarkedLine.length_eq_zero_iff (m : MarkedLine) :
    m.length = 0 ↔ 65536 ∣ m.feed - m.first + 1 := by
  rw [MarkedLine.length, ← UInt16.toNat_inj, UInt16.toNat_ofNat', Nat.dvd_iff_mod_eq_zero]
  rfl

/-- The header of a line in the buffer. -/
theorem header_of_mem {m : MarkedLine} (h : m ∈ fileMarks contents size) :
    m.first < m.feed ∧ m.feed < size ∧ markedText contents size m.first = m.code ∧
      markedText contents size (m.first + 1) = m.length := by
  have hmarks := marksHold contents (textStart contents) (size - textStart contents)
  obtain ⟨hstart, hlt, hend, hcode, hlength⟩ := hmarks.header m h
  have hle := hmarks.le
  exact ⟨hlt, by omega, hcode, hlength⟩

theorem progresses_iff_of_file :
    Progresses (markedText contents size) (textStart contents) size ↔
      ¬ StallsAtHeader contents size ∧ ¬ StallsInText contents size := by
  rw [progresses_iff]
  constructor
  · intro h
    constructor
    · rintro ⟨m, hm, hreads, hlength⟩
      obtain ⟨-, -, hcode, hheader⟩ := header_of_mem hm
      refine h m.first hreads ?_ ?_
      · rw [hcode]
        exact m.code_ne_zero
      · rw [hheader]
        exact m.length_eq_zero_iff.mpr hlength
    · rintro ⟨l, ⟨hreads, -⟩, hne, hzero⟩
      exact h l hreads hne hzero
  · rintro ⟨hheader, htext⟩ l hreads hne hzero
    by_cases hfirst : l ∈ (fileMarks contents size).map MarkedLine.first
    · obtain ⟨m, hm, rfl⟩ := List.mem_map.mp hfirst
      obtain ⟨-, -, -, hlength⟩ := header_of_mem hm
      exact hheader ⟨m, hm, hreads, m.length_eq_zero_iff.mp (hlength.symm.trans hzero)⟩
    · exact htext ⟨l, ⟨hreads, hfirst⟩, hne, hzero⟩

/-- If the second pass progresses, `ReadPciIds` returns. -/
theorem readPciIds_returns (h : Progresses (markedText contents size) (textStart contents) size)
    {fuel : Nat} (hfuel : size ≤ fuel) (s : Globals) :
    (readPciIds fuel (.success contents size) true s).Returns := by
  unfold readPciIds parsePciIds
  dsimp only
  rw [if_neg Bool.true_eq_false.mp]
  obtain ⟨t, ht⟩ := h.returns hfuel _
  exact ⟨_, Run.bind_eq_ok.mpr ⟨t, ht, rfl⟩⟩

/-- It does not return from a call in which the second pass is stuck. -/
theorem not_readPciIds_returns
    (h : ¬ Progresses (markedText contents size) (textStart contents) size) (fuel : Nat)
    (s : Globals) : ¬ (readPciIds fuel (.success contents size) true s).Returns := by
  rintro ⟨r, hr⟩
  unfold readPciIds parsePciIds at hr
  dsimp only at hr
  rw [if_neg Bool.true_eq_false.mp] at hr
  obtain ⟨t, ht, -⟩ := Run.bind_eq_ok.mp hr
  exact h (progresses_of_secondPass ht)

/-- The second pass goes on until it is at the end of the buffer, and `ReadPciIds` returns,
unless the pass comes to a length that is nothing. -/
theorem readPciIds_terminates_iff (contents : Nat → UInt16) (size : Nat) :
    (Progresses (markedText contents size) (textStart contents) size ∧
        ∃ fuel₁, ∀ fuel ≥ fuel₁, ∀ s,
          (readPciIds fuel (.success contents size) true s).Returns) ↔
      ¬ StallsAtHeader contents size ∧ ¬ StallsInText contents size := by
  rw [← progresses_iff_of_file]
  constructor
  · exact And.left
  · intro h
    exact ⟨h, size, fun fuel hfuel s => readPciIds_returns h hfuel s⟩

end file

/-- One letter and NUL, without a line feed: the second pass stays at the letter. -/
theorem readPciIds_terminates_unterminated :
    ¬ Progresses (markedText (([0x41, 0] : List UInt16).getD · 0) 2)
        (textStart (([0x41, 0] : List UInt16).getD · 0)) 2 ∧
      ∀ fuel, ¬ (readPciIds fuel (.success (([0x41, 0] : List UInt16).getD · 0) 2) true
        .init).Returns := by
  have hstuck : ¬ Progresses (markedText (([0x41, 0] : List UInt16).getD · 0) 2)
      (textStart (([0x41, 0] : List UInt16).getD · 0)) 2 := by
    intro h
    exact absurd (h 0 (by decide)) (by decide)
  exact ⟨hstuck, fun fuel => not_readPciIds_returns hstuck fuel .init⟩

end PciIds
end EfiApps
