import EfiApps.PciIds.Lifetime
import EfiApps.PciIds.SecondWalk

/-!
# The records of the second pass

Every unit with a type code that the second pass comes to gets a record of its own, behind
those of its kind.  There are as many records of the kind as the first pass has counted
lines, and one more; so the pass keeps to them unless text imitates headers, or the pass
comes to a header again and again.
-/

namespace EfiApps
namespace PciIds

/-- The offsets of the records that are written for the lines of a kind.  The record of the
parent, to which `adopt` adds the line, is not one of them; the cursor that it is found by can
be one behind the records of its kind. -/
def recordsOf (file buffer : Nat) (mem : Nat → UInt16) (k : ItemKind) :
    Table → List Nat → List Nat
  | _, [] => []
  | t, l :: ls =>
      if ItemKind.ofTypeCode (mem l) = some k then
        (t.doincs k).cursor k :: recordsOf file buffer mem k (doLine file buffer mem l t) ls
      else recordsOf file buffer mem k (doLine file buffer mem l t) ls

section records

variable {file buffer l r : Nat} {mem : Nat → UInt16} {t t' : Table} {k : ItemKind} {ls : List Nat}

theorem length_recordsOf (t : Table) (ls : List Nat) :
    (recordsOf file buffer mem k t ls).length =
      ls.countP fun l => ItemKind.ofTypeCode (mem l) = some k := by
  induction ls generalizing t with
  | nil => rfl
  | cons l ls ih =>
      rw [recordsOf]
      by_cases hk : ItemKind.ofTypeCode (mem l) = some k
      · rw [if_pos hk, List.length_cons, ih, List.countP_cons_of_pos (by simpa using hk)]
      · rw [if_neg hk, ih, List.countP_cons_of_neg (by simpa using hk)]

/-! ## A record is written once -/

/-- A record of the kind is in front of the next one that is free. -/
def Taken (t : Table) (k : ItemKind) (r : Nat) : Prop :=
  r < t.cursor k ∨ r = t.cursor k ∧ (t.items r).name.isSome

theorem Taken.mono (h : Taken t k r) (hcursor : t.cursor k ≤ t'.cursor k)
    (hname : (t.items r).name.isSome → (t'.items r).name.isSome) : Taken t' k r := by
  rcases h with hlt | ⟨heq, hnamed⟩
  · exact .inl (by omega)
  · rcases Nat.lt_or_eq_of_le hcursor with hlt | hsame
    · exact .inl (by omega)
    · exact .inr ⟨by omega, hname hnamed⟩

theorem advance_cursor_le (t : Table) (k' : ItemKind) : t.cursor k ≤ (t.advance k').cursor k := by
  rw [Table.advance]
  split
  · dsimp only
    rw [Function.update_apply]
    split
    · rename_i heq
      rw [heq]
      exact Nat.le_succ _
    · exact le_rfl
  · exact le_rfl

theorem foldl_advance_cursor_le (ks : List ItemKind) (t : Table) :
    t.cursor k ≤ (ks.foldl Table.advance t).cursor k := by
  induction ks generalizing t with
  | nil => exact le_rfl
  | cons k' ks ih => exact (advance_cursor_le t k').trans (ih (t.advance k'))

/-- The cursor goes behind the records of the kind. -/
theorem Taken.lt_doincs (h : Taken t k r) : r < (t.doincs k).cursor k := by
  have hself : (t.advance k).cursor k ≤ (t.doincs k).cursor k := by
    cases k <;> exact foldl_advance_cursor_le _ _
  rcases h with hlt | ⟨rfl, hnamed⟩
  · have hle : t.cursor k ≤ (t.advance k).cursor k := advance_cursor_le t k
    omega
  · rw [Table.advance, if_pos hnamed] at hself
    dsimp only at hself
    rw [Function.update_self] at hself
    omega

theorem adoptBy_cursor (t : Table) (k : ItemKind) (p : Ptr) :
    (t.adoptBy k p).cursor = t.cursor := by
  cases k <;> rfl

theorem adoptBy_name (t : Table) (k : ItemKind) (p : Ptr) (r : Nat) :
    ((t.adoptBy k p).items r).name = (t.items r).name := by
  have hmodify : ∀ o, ((t.modify o (adopt p)).items r).name = (t.items r).name := by
    intro o
    rw [modify_items, Function.update_apply]
    split
    · rename_i heq
      rw [heq]
      rfl
    · rfl
  cases k with
  | vendor => rfl
  | baseClass => rfl
  | device => exact hmodify _
  | subsystem => exact hmodify _
  | subclass => exact hmodify _
  | progif => exact hmodify _

/-- No cursor goes back. -/
theorem doone_cursor_le (t : Table) (k' : ItemKind) (value : UInt64) (name : Nat) :
    t.cursor k ≤ (doone file buffer t k' value name).cursor k := by
  rw [doone, adoptBy_cursor]
  exact foldl_advance_cursor_le _ _

/-- Every name is kept. -/
theorem doone_named (t : Table) (k' : ItemKind) (value : UInt64) (name : Nat)
    (hnamed : (t.items r).name.isSome) :
    ((doone file buffer t k' value name).items r).name.isSome := by
  rw [doone, adoptBy_name, modify_items, Function.update_apply]
  split
  · rfl
  · rw [(doincs_items t k').1]
    exact hnamed

/-- The record that `doone` writes is taken. -/
theorem taken_doone (t : Table) (k : ItemKind) (value : UInt64) (name : Nat) :
    Taken (doone file buffer t k value name) k ((t.doincs k).cursor k) := by
  refine .inr ⟨?_, ?_⟩
  · rw [doone, adoptBy_cursor]
    rfl
  · rw [doone, adoptBy_name, modify_items, Function.update_self]
    rfl

theorem Taken.doLine (h : Taken t k r) (l : Nat) : Taken (doLine file buffer mem l t) k r := by
  rw [PciIds.doLine]
  split
  · rename_i k' _
    exact h.mono (doone_cursor_le t k' _ _) (doone_named t k' _ _)
  · exact h

/-- Later records are behind. -/
theorem Taken.lt_recordsOf (h : Taken t k r) :
    ∀ r' ∈ recordsOf file buffer mem k t ls, r < r' := by
  induction ls generalizing t with
  | nil => nofun
  | cons l ls ih =>
      intro r' hr'
      rw [recordsOf] at hr'
      split at hr'
      · rcases List.mem_cons.mp hr' with rfl | hr'
        · exact h.lt_doincs
        · exact ih (h.doLine l) r' hr'
      · exact ih (h.doLine l) r' hr'

/-- Every line of the kind has a record of its own. -/
theorem recordsOf_sorted (t : Table) (ls : List Nat) :
    (recordsOf file buffer mem k t ls).Pairwise (· < ·) := by
  induction ls generalizing t with
  | nil => exact .nil
  | cons l ls ih =>
      rw [recordsOf]
      split
      · rename_i hk
        refine .cons (Taken.lt_recordsOf ?_) (ih _)
        rw [doLine, hk]
        exact taken_doone t k _ _
      · exact ih _

end records

/-! ## As many as reserved -/

section counts

variable (contents : Nat → UInt16) (size : Nat)

/-- The units that the second pass comes to in its first iterations. -/
def visited (n : Nat) : List Nat :=
  positions (markedText contents size) size n (textStart contents)

/-- The table that the second pass starts from. -/
def startTable (s : Globals) : Table :=
  ⟨fun _ => {}, s.vendors, s.classes, arrayStart (firstPass contents (textStart contents) size).count⟩

/-- The records that `ReadPciIds` writes for lines of a kind in the first iterations. -/
def recordsWritten (s : Globals) (k : ItemKind) (n : Nat) : List Nat :=
  recordsOf (s.brk + 1) s.brk (markedText contents size) k (startTable contents size s)
    (visited contents size n)

/-- The units of text with the type code of a kind that the second pass comes to. -/
def textItems (k : ItemKind) (n : Nat) : Nat :=
  (visited contents size n).countP fun l =>
    ItemKind.ofTypeCode (markedText contents size l) = some k ∧
      l ∉ (fileMarks contents size).map MarkedLine.first

/-- The headers of a kind that it has not come to. -/
def skippedItems (k : ItemKind) (n : Nat) : Nat :=
  (fileMarks contents size).countP fun m => m.kind = some k ∧ m.first ∉ visited contents size n

/-- The second pass goes on from every header with a value that it comes to. -/
def PassesItems : Prop :=
  ∀ m ∈ fileMarks contents size, ReadsAt contents size m.first → m.kind.isSome →
    ¬ 65536 ∣ m.feed - m.first + 1

/-- No header with a value keeps the second pass from going on, and text that is taken for
headers makes up for those that are skipped, but for one. -/
structure KeepsCount : Prop where
  lengths : PassesItems contents size
  text : ∀ k n, textItems contents size k n ≤ skippedItems contents size k n + 1

end counts

section counts

variable {contents : Nat → UInt16} {size n : Nat} {k : ItemKind}

/-- The elements with a property, with and without another one. -/
theorem countP_and_add {α : Type _} (p q : α → Prop) [DecidablePred p] [DecidablePred q]
    (l : List α) :
    (l.countP fun a => p a ∧ q a) + (l.countP fun a => p a ∧ ¬ q a) = l.countP fun a => p a := by
  rw [List.countP_eq_countP_filter_add l (fun a => p a) fun a => q a, List.countP_filter,
    List.countP_filter]
  simp only [Bool.decide_and, decide_not]

/-- Two lists have the same elements in common, each one once. -/
theorem countP_mem_comm {α : Type _} [DecidableEq α] {l l' : List α}
    (h : (l.filter (· ∈ l')).Nodup) (h' : l'.Nodup) :
    l.countP (· ∈ l') = l'.countP (· ∈ l) := by
  rw [List.countP_eq_length_filter, List.countP_eq_length_filter]
  have hperm : (l.filter (· ∈ l')).Perm (l'.filter (· ∈ l)) := by
    rw [List.perm_ext_iff_of_nodup h (h'.filter _)]
    intro a
    simp [and_comm]
  exact hperm.length_eq

theorem ofTypeCode_code (m : MarkedLine) : ItemKind.ofTypeCode m.code = m.kind := by
  rw [MarkedLine.code]
  cases m.kind with
  | none => rfl
  | some k => exact ofTypeCode_typeCode k

/-- The starts of the headers of a kind. -/
theorem mem_firsts_iff {l : Nat} :
    l ∈ ((fileMarks contents size).filter fun m => m.kind = some k).map MarkedLine.first ↔
      ItemKind.ofTypeCode (markedText contents size l) = some k ∧
        l ∈ (fileMarks contents size).map MarkedLine.first := by
  have hcode : ∀ m ∈ fileMarks contents size,
      ItemKind.ofTypeCode (markedText contents size m.first) = m.kind := by
    intro m hm
    obtain ⟨-, -, hcode, -⟩ := header_of_mem hm
    rw [hcode, ofTypeCode_code]
  constructor
  · intro hl
    obtain ⟨m, hm, rfl⟩ := List.mem_map.mp hl
    obtain ⟨hm, hk⟩ := List.mem_filter.mp hm
    exact ⟨(hcode m hm).trans (of_decide_eq_true hk), List.mem_map_of_mem hm⟩
  · rintro ⟨hk, hl⟩
    obtain ⟨m, hm, rfl⟩ := List.mem_map.mp hl
    have hkind : m.kind = some k := (hcode m hm).symm.trans hk
    exact List.mem_map_of_mem (List.mem_filter.mpr ⟨hm, decide_eq_true hkind⟩)

/-- The number of records: one for each header of the kind, and for each unit of text that
is taken for one. -/
theorem length_recordsWritten (s : Globals) :
    (recordsWritten contents size s k n).length =
      ((visited contents size n).countP fun l =>
        l ∈ ((fileMarks contents size).filter fun m => m.kind = some k).map MarkedLine.first) +
      textItems contents size k n := by
  have hheaders : ((visited contents size n).countP fun l =>
      l ∈ ((fileMarks contents size).filter fun m => m.kind = some k).map MarkedLine.first) =
      (visited contents size n).countP fun l =>
        ItemKind.ofTypeCode (markedText contents size l) = some k ∧
          l ∈ (fileMarks contents size).map MarkedLine.first :=
    List.countP_congr fun l _ => by simpa using mem_firsts_iff
  rw [recordsWritten, length_recordsOf, hheaders, textItems]
  exact (countP_and_add _ _ _).symm

/-- The headers of a kind are visited once, if they all let the pass go on. -/
theorem visited_headers (hlengths : PassesItems contents size) :
    ((visited contents size n).filter fun l =>
      l ∈ ((fileMarks contents size).filter fun m => m.kind = some k).map
        MarkedLine.first).Nodup := by
  have hgoesOn : ∀ l ∈ visited contents size n,
      l ∈ ((fileMarks contents size).filter fun m => m.kind = some k).map MarkedLine.first →
      l < nextPosition (markedText contents size) l := by
    intro l hl hfirst
    obtain ⟨m, hm, rfl⟩ := List.mem_map.mp hfirst
    obtain ⟨hm, hk⟩ := List.mem_filter.mp hm
    obtain ⟨-, -, -, hlength⟩ := header_of_mem hm
    obtain ⟨i, -, hposition⟩ := mem_positions.mp hl
    rw [lt_nextPosition_iff, hlength]
    intro _ hzero
    refine hlengths m hm ⟨i, hposition⟩ ?_ (m.length_eq_zero_iff.mp hzero)
    rw [of_decide_eq_true hk]
    rfl
  rw [List.Nodup, List.pairwise_filter]
  -- What is visited later is behind where the pass goes from the header.
  refine (positions_pairwise n).imp_of_mem fun hl _ hle hfirst _ => ?_
  have hlt := hgoesOn _ hl (of_decide_eq_true hfirst)
  omega

/-- The headers of a kind that are visited and those that are skipped. -/
theorem countP_visited_add (hlengths : PassesItems contents size) :
    ((visited contents size n).countP fun l =>
        l ∈ ((fileMarks contents size).filter fun m => m.kind = some k).map MarkedLine.first) +
      skippedItems contents size k n =
      (firstPass contents (textStart contents) size).count k := by
  have hmarks := marksHold contents (textStart contents) (size - textStart contents)
  have hnodup : (((fileMarks contents size).filter fun m => m.kind = some k).map
      MarkedLine.first).Nodup :=
    nodup_first.sublist (List.filter_sublist.map _)
  have hvisited : (((fileMarks contents size).filter fun m => m.kind = some k).map
      MarkedLine.first).countP (· ∈ visited contents size n) =
      (fileMarks contents size).countP fun m =>
        m.kind = some k ∧ m.first ∈ visited contents size n := by
    rw [List.countP_map, List.countP_filter]
    simp only [Function.comp_apply, Bool.decide_and, Bool.and_comm]
  rw [countP_mem_comm (visited_headers hlengths) hnodup, hvisited, skippedItems, countP_and_add,
    firstPass_eq, hmarks.count k]
  rfl

/-- A header with a value that the pass does not go on from is a new record each time. -/
theorem passesItems_of_bound
    (h : ∀ s k n, (recordsWritten contents size s k n).length ≤
      (firstPass contents (textStart contents) size).count k + 1) :
    PassesItems contents size := by
  rintro m hm ⟨i, hposition, hlt⟩ hkind hlength
  obtain ⟨k, hk⟩ := Option.isSome_iff_exists.mp hkind
  obtain ⟨-, -, hcode, hheader⟩ := header_of_mem hm
  have htype : ItemKind.ofTypeCode (markedText contents size m.first) = some k := by
    rw [hcode, ofTypeCode_code, hk]
  have hstuck : nextPosition (markedText contents size) m.first = m.first := by
    rw [nextPosition, if_neg (by rw [hcode]; exact m.code_ne_zero), hheader,
      m.length_eq_zero_iff.mpr hlength]
    rfl
  -- More iterations at the header than there are records.
  let N := (firstPass contents (textStart contents) size).count k + 2
  have hvisited : visited contents size (i + N) =
      visited contents size i ++ List.replicate N m.first := by
    rw [visited, positions_add (by rw [hposition]; exact hlt), hposition,
      positions_stuck hlt hstuck]
    rfl
  have hbound := h .init k (i + N)
  rw [recordsWritten, length_recordsOf, hvisited, List.countP_append, List.countP_replicate,
    if_pos (decide_eq_true htype)] at hbound
  omega

/-- No more records are written than are reserved exactly if the units with type codes that
the second pass comes to keep the count. -/
theorem recordsWritten_le_iff :
    (∀ s k n, (recordsWritten contents size s k n).length ≤
      (firstPass contents (textStart contents) size).count k + 1) ↔ KeepsCount contents size := by
  constructor
  · intro h
    have hlengths := passesItems_of_bound h
    refine ⟨hlengths, fun k n => ?_⟩
    have hadd := countP_visited_add (k := k) (n := n) hlengths
    have hbound := h .init k n
    rw [length_recordsWritten] at hbound
    omega
  · rintro ⟨hlengths, htext⟩ s k n
    have hadd := countP_visited_add (k := k) (n := n) hlengths
    have hbound := htext k n
    rw [length_recordsWritten]
    omega

end counts

end PciIds
end EfiApps
