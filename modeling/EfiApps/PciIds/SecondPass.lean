import EfiApps.PciIds.FirstPass
import Mathlib.Data.List.GetD
import Mathlib.Data.List.ModifyLast

/-!
# The second pass

On the headers that the first pass leaves, the second pass comes to one `doone`
for each line with a value.  `Arrays` is the table without its cursors: every
kind has a list of records that grows at its end, and the last record of a kind is
open as long as lines that belong to it may follow.  `Fits` relates the two.
-/

namespace EfiApps
namespace PciIds

/-- A line with a value as the second pass finds it: its name is an offset. -/
structure Placed where
  kind : ItemKind
  value : UInt64
  name : Nat

/-- The line that was found is the line of the text. -/
structure Placed.Matches (mem : Nat → UInt16) (x : Placed) (i : IdLine) : Prop where
  kind : x.kind = i.kind
  value : x.value = i.value
  name : TextAt mem x.name (i.name ++ [0])

/-- `doone` for a line that was found. -/
def Table.add (file buffer : Nat) (t : Table) (x : Placed) : Table :=
  doone file buffer t x.kind x.value x.name

/-! ## Walking the headers -/

section walk

variable {file buffer bufferEnd fuel l : Nat} {mem : Nat → UInt16} {t : Table}

theorem ofTypeCode_typeCode (k : ItemKind) : ItemKind.ofTypeCode k.typeCode = some k := by
  cases k <;> rfl

theorem typeCode_ne_zero (k : ItemKind) : k.typeCode ≠ 0 := by
  cases k <;> decide

theorem secondPass_end (h : ¬ l < bufferEnd) :
    secondPass file buffer mem bufferEnd fuel l t = .ok t := by
  unfold secondPass
  rw [if_neg h]

theorem secondPass_nul (hl : l < bufferEnd) (hmem : mem l = 0) :
    secondPass file buffer mem bufferEnd (fuel + 1) l t =
      secondPass file buffer mem bufferEnd fuel (l + 1) t := by
  rw [secondPass, if_pos hl, if_pos hmem]

theorem secondPass_line (hl : l < bufferEnd) (hmem : mem l ≠ 0) :
    secondPass file buffer mem bufferEnd (fuel + 1) l t =
      secondPass file buffer mem bufferEnd fuel (l + (mem (l + 1)).toNat)
        (doLine file buffer mem l t) := by
  rw [secondPass, if_pos hl, if_neg hmem]

/-- The walk over the headers of some lines. -/
theorem secondPass_lines (file buffer : Nat) {lines : List Line} (h : HeadersAt mem l lines)
    (hend : l + (renderLines lines).length = max l bufferEnd) :
    ∃ placed : List Placed,
      List.Forall₂ (Placed.Matches mem) placed (lines.filterMap Line.item?) ∧
      ∀ fuel ≥ lines.length, ∀ t, secondPass file buffer mem bufferEnd fuel l t =
        .ok (placed.foldl (Table.add file buffer) t) := by
  induction lines generalizing l with
  | nil =>
      refine ⟨[], .nil, fun fuel _ t => secondPass_end ?_⟩
      have hnil : (renderLines []).length = 0 := rfl
      omega
  | cons line lines ih =>
      obtain ⟨hheader, hheaders⟩ := h
      have hlength : (renderLines (line :: lines)).length =
          (line.units.length + 1) + (renderLines lines).length := by
        simp [renderLines]
        omega
      have hl : l < bufferEnd := by omega
      obtain ⟨placed, hmatches, hrun⟩ := ih hheaders (by omega)
      cases line with
      | blank =>
          refine ⟨placed, hmatches, fun fuel hfuel t => ?_⟩
          obtain ⟨fuel, rfl⟩ : ∃ n, fuel = n + 1 := ⟨fuel - 1, by simp at hfuel; omega⟩
          rw [secondPass_nul hl hheader]
          exact hrun fuel (by simpa using hfuel) t
      | comment text =>
          obtain ⟨hcode, hskip⟩ := hheader
          refine ⟨placed, hmatches, fun fuel hfuel t => ?_⟩
          obtain ⟨fuel, rfl⟩ : ∃ n, fuel = n + 1 := ⟨fuel - 1, by simp at hfuel; omega⟩
          have hnothing : doLine file buffer mem l t = t := by
            rw [doLine, hcode]
            rfl
          rw [secondPass_line hl (by rw [hcode]; decide), hskip, hnothing]
          exact hrun fuel (by simpa using hfuel) t
      | item i =>
          obtain ⟨hcode, hskip, hvalue, hname⟩ := hheader
          refine ⟨⟨i.kind, i.value, l + i.kind.nameOffset⟩ :: placed,
            .cons ⟨rfl, rfl, hname⟩ hmatches, fun fuel hfuel t => ?_⟩
          obtain ⟨fuel, rfl⟩ : ∃ n, fuel = n + 1 := ⟨fuel - 1, by simp at hfuel; omega⟩
          have hline : doLine file buffer mem l t =
              t.add file buffer ⟨i.kind, i.value, l + i.kind.nameOffset⟩ := by
            rw [doLine, hcode, ofTypeCode_typeCode]
            dsimp only
            rw [hvalue]
            rfl
          rw [secondPass_line hl (by rw [hcode]; exact typeCode_ne_zero _), hskip, hline]
          exact hrun fuel (by simpa using hfuel) _

end walk

/-! ## The arrays of records -/

/-- A list of records: the two roots are lists of one record. -/
inductive Slot
  | vendors
  | classes
  | items (k : ItemKind)
  deriving DecidableEq, Repr

/-- The record that owns the records of a kind is the last one of this list. -/
def ItemKind.owner : ItemKind → Slot
  | vendor => .vendors
  | baseClass => .classes
  | device => .items vendor
  | subsystem => .items device
  | subclass => .items baseClass
  | progif => .items subclass

/-- The records of every kind, and whether the last one may still get children. -/
structure Arrays where
  records : Slot → List PciIdItem
  opened : ItemKind → Bool

namespace Arrays

/-- Nothing more belongs to the last record of a kind. -/
def close (a : Arrays) (k : ItemKind) : Arrays :=
  { a with opened := Function.update a.opened k false }

/-- A new open record. -/
def append (a : Arrays) (k : ItemKind) (r : PciIdItem) : Arrays where
  records := Function.update a.records (.items k) (a.records (.items k) ++ [r])
  opened := Function.update a.opened k true

/-- Change the last record of a list. -/
def modifyLast (a : Arrays) (s : Slot) (f : PciIdItem → PciIdItem) : Arrays :=
  { a with records := Function.update a.records s ((a.records s).modifyLast f) }

theorem append_records (a : Arrays) (k : ItemKind) (r : PciIdItem) (s : Slot) :
    (a.append k r).records s =
      if s = .items k then a.records (.items k) ++ [r] else a.records s := by
  simp only [append, Function.update_apply]

theorem append_opened (a : Arrays) (k : ItemKind) (r : PciIdItem) (k' : ItemKind) :
    (a.append k r).opened k' = if k' = k then true else a.opened k' := by
  simp only [append, Function.update_apply]

theorem modifyLast_records (a : Arrays) (s : Slot) (f : PciIdItem → PciIdItem) (s' : Slot) :
    (a.modifyLast s f).records s' =
      if s' = s then (a.records s).modifyLast f else a.records s' := by
  simp only [modifyLast, Function.update_apply]

/-- What `doone` does for a line. -/
def push (start : ItemKind → Nat) (file buffer : Nat) (a : Arrays) (x : Placed) : Arrays :=
  let a' := x.kind.fallThrough.foldl close a
  (a'.append x.kind { value := x.value, name := some ⟨buffer, x.name⟩ }).modifyLast x.kind.owner
    (adopt ⟨file, start x.kind + (a.records (.items x.kind)).length⟩)

end Arrays

/-- The arrays do not overlap; each has room for one record more than the count. -/
def Separate (start count : ItemKind → Nat) : Prop :=
  ∀ k k' i i', i ≤ count k → i' ≤ count k' → start k + i = start k' + i' → k = k' ∧ i = i'

theorem separate_arrayStart (count : ItemKind → Nat) : Separate (arrayStart count) count := by
  intro k k' i i' hi hi' heq
  cases k <;> cases k' <;> simp only [arrayStart, reduceCtorEq, true_and, false_and] at heq ⊢ <;>
    omega

/-- The table holds the arrays: the cursor of a kind is at its open record, or
behind its last one. -/
structure Fits (start count : ItemKind → Nat) (t : Table) (a : Arrays) : Prop where
  cursor : ∀ k, t.cursor k + (if a.opened k then 1 else 0) =
    start k + (a.records (.items k)).length
  nonempty : ∀ k, a.opened k = true → a.records (.items k) ≠ []
  items : ∀ k i, i ≤ count k → t.items (start k + i) = (a.records (.items k)).getD i {}
  named : ∀ k, ∀ r ∈ a.records (.items k), r.name.isSome
  bounded : ∀ k, (a.records (.items k)).length ≤ count k
  vendors : a.records .vendors = [t.vendors]
  classes : a.records .classes = [t.classes]

section simulation

variable {start count : ItemKind → Nat} {t : Table} {a : Arrays} {file buffer : Nat}

/-- A cursor moves on exactly from an open record. -/
theorem Fits.advance (h : Fits start count t a) (k : ItemKind) :
    Fits start count (t.advance k) (a.close k) := by
  have hcursor := h.cursor k
  -- The record at the cursor has a name exactly if it is open.
  have hnamed : (t.items (t.cursor k)).name.isSome = a.opened k := by
    cases hopen : a.opened k with
    | true =>
        have hlength := List.length_pos_iff.mpr (h.nonempty k hopen)
        rw [hopen, if_pos rfl] at hcursor
        have hlast : (a.records (.items k)).length - 1 < (a.records (.items k)).length := by omega
        rw [show t.cursor k = start k + ((a.records (.items k)).length - 1) by omega,
          h.items k _ (by have := h.bounded k; omega), List.getD_eq_getElem _ _ hlast]
        exact h.named k _ (List.getElem_mem _)
    | false =>
        rw [hopen, if_neg Bool.false_ne_true, Nat.add_zero] at hcursor
        rw [hcursor, h.items k _ (h.bounded k), List.getD_eq_default _ _ le_rfl]
        rfl
  have hcursor' : ∀ k', (t.advance k).cursor k' +
      (if (a.close k).opened k' then 1 else 0) = start k' + (a.records (.items k')).length := by
    intro k'
    rw [Table.advance, hnamed, Arrays.close]
    by_cases hk : k' = k
    · subst hk
      cases hopen : a.opened k' with
      | true => simpa [hopen] using hcursor
      | false => simpa [hopen] using hcursor
    · have hother := h.cursor k'
      cases a.opened k with
      | true => simpa [hk] using hother
      | false => simpa [hk] using hother
  have hitems : (t.advance k).items = t.items := by
    unfold Table.advance
    split <;> rfl
  have hroots : (t.advance k).vendors = t.vendors ∧ (t.advance k).classes = t.classes := by
    unfold Table.advance
    split <;> exact ⟨rfl, rfl⟩
  refine ⟨hcursor', fun k' hopen => ?_, ?_, h.named, h.bounded, ?_, ?_⟩
  · by_cases hk : k' = k
    · subst hk
      simp [Arrays.close] at hopen
    · exact h.nonempty k' (by simpa [Arrays.close, hk] using hopen)
  · rw [hitems]
    exact h.items
  · rw [hroots.1]
    exact h.vendors
  · rw [hroots.2]
    exact h.classes

theorem Fits.doincs (h : Fits start count t a) (k : ItemKind) :
    Fits start count (t.doincs k) (k.fallThrough.foldl Arrays.close a) := by
  unfold Table.doincs
  induction k.fallThrough generalizing t a with
  | nil => exact h
  | cons k' rest ih => exact ih (h.advance k')

/-- A new record goes behind the last one of its kind. -/
theorem Fits.append (h : Fits start count t a) (hsep : Separate start count) {k : ItemKind}
    (hclosed : a.opened k = false) (hroom : (a.records (.items k)).length < count k)
    (value : UInt64) (name : Ptr) :
    Fits start count (t.modify (t.cursor k) fun d => { d with value := value, name := some name })
      (a.append k { value := value, name := some name }) := by
  have hcursor : t.cursor k = start k + (a.records (.items k)).length := by
    simpa [hclosed] using h.cursor k
  have hfree : t.items (t.cursor k) = {} := by
    rw [hcursor, h.items k _ hroom.le, List.getD_eq_default _ _ le_rfl]
  have hrecords : ∀ k', (a.append k { value := value, name := some name }).records (.items k') =
      if k' = k then a.records (.items k) ++ [{ value := value, name := some name }]
      else a.records (.items k') := by
    intro k'
    rw [Arrays.append_records]
    simp
  refine ⟨fun k' => ?_, fun k' hopen => ?_, fun k' i hi => ?_, fun k' r hr => ?_, fun k' => ?_, ?_, ?_⟩
  · have hother := h.cursor k'
    rw [hrecords]
    by_cases hk : k' = k
    · subst hk
      simp [Arrays.append, Table.modify, hcursor]
      omega
    · simpa [Arrays.append, Table.modify, hk] using hother
  · rw [hrecords]
    split
    · simp
    · rename_i hk
      exact h.nonempty k' (by simpa [Arrays.append, hk] using hopen)
  · rw [hrecords, Table.modify, hfree]
    dsimp only
    -- The new record is the one at the cursor, in the array of its own kind.
    by_cases hat : start k' + i = t.cursor k
    · rw [hat, Function.update_self]
      obtain ⟨rfl, rfl⟩ := hsep k' k i _ hi hroom.le (hat.trans hcursor)
      rw [if_pos rfl, List.getD_append_right _ _ _ _ le_rfl, Nat.sub_self]
      rfl
    · rw [Function.update_of_ne hat, h.items k' i hi]
      split
      · rename_i hk
        subst hk
        rcases Nat.lt_or_ge i (a.records (.items k')).length with hlt | hge
        · rw [List.getD_append _ _ _ _ hlt]
        · have hne : i ≠ (a.records (.items k')).length := fun heq => hat (heq ▸ hcursor.symm)
          rw [List.getD_eq_default _ _ hge, List.getD_eq_default]
          rw [List.length_append, List.length_singleton]
          omega
      · rfl
  · rw [hrecords] at hr
    split at hr
    · rename_i hk
      subst hk
      rcases List.mem_append.mp hr with hr | hr
      · exact h.named _ r hr
      · obtain rfl : r = { value := value, name := some name } := by simpa using hr
        rfl
    · exact h.named k' r hr
  · rw [hrecords]
    split
    · rename_i hk
      subst hk
      rw [List.length_append, List.length_singleton]
      omega
    · exact h.bounded k'
  · exact h.vendors
  · exact h.classes

theorem length_modifyLast (f : PciIdItem → PciIdItem) (l : List PciIdItem) :
    (l.modifyLast f).length = l.length := by
  rcases List.eq_nil_or_concat' l with rfl | ⟨init, r, rfl⟩
  · rfl
  · rw [List.modifyLast_concat]
    simp

/-- A change of the open record of a kind. -/
theorem Fits.modifyOpen (h : Fits start count t a) (hsep : Separate start count) {k : ItemKind}
    (hopen : a.opened k = true) {f : PciIdItem → PciIdItem} (hf : ∀ r, (f r).name = r.name) :
    Fits start count (t.modify (t.cursor k) f) (a.modifyLast (.items k) f) := by
  obtain ⟨init, r, hlist⟩ : ∃ init r, a.records (.items k) = init ++ [r] := by
    rcases List.eq_nil_or_concat' (a.records (.items k)) with hnil | hconcat
    · exact absurd hnil (h.nonempty k hopen)
    · exact hconcat
  have hbounded := h.bounded k
  have hcursor : t.cursor k = start k + init.length := by
    have hcursor := h.cursor k
    rw [hopen, if_pos rfl, hlist, List.length_append, List.length_singleton] at hcursor
    omega
  rw [hlist, List.length_append, List.length_singleton] at hbounded
  have hlast : t.items (t.cursor k) = r := by
    rw [hcursor, h.items k _ (by omega), hlist, List.getD_append_right _ _ _ _ le_rfl,
      Nat.sub_self]
    rfl
  have hrecords : ∀ k', (a.modifyLast (.items k) f).records (.items k') =
      if k' = k then init ++ [f r] else a.records (.items k') := by
    intro k'
    rw [Arrays.modifyLast_records, hlist, List.modifyLast_concat]
    simp
  have hlength : ∀ k', ((a.modifyLast (.items k) f).records (.items k')).length =
      (a.records (.items k')).length := by
    intro k'
    rw [hrecords]
    split
    · rename_i hk
      subst hk
      simp [hlist]
    · rfl
  refine ⟨fun k' => ?_, fun k' hopen' => ?_, fun k' i hi => ?_, fun k' r' hr' => ?_, fun k' => ?_,
    ?_, ?_⟩
  · rw [hlength]
    exact h.cursor k'
  · rw [ne_eq, ← List.length_eq_zero_iff, hlength, List.length_eq_zero_iff]
    exact h.nonempty k' hopen'
  · rw [hrecords, Table.modify, hlast]
    dsimp only
    -- The arrays of the kinds are apart, so the cursor is in its own array only.
    by_cases hat : start k' + i = t.cursor k
    · rw [hat, Function.update_self]
      obtain ⟨rfl, rfl⟩ := hsep k' k i _ hi (show init.length ≤ count k by omega)
        (hat.trans hcursor)
      rw [if_pos rfl, List.getD_append_right _ _ _ _ le_rfl, Nat.sub_self]
      rfl
    · rw [Function.update_of_ne hat, h.items k' i hi]
      split
      · rename_i hk
        subst hk
        rw [hlist]
        rcases Nat.lt_trichotomy i init.length with hlt | heq | hgt
        · rw [List.getD_append _ _ _ _ hlt, List.getD_append _ _ _ _ hlt]
        · exact absurd (heq ▸ hcursor.symm) hat
        · rw [List.getD_eq_default, List.getD_eq_default] <;> simp <;> omega
      · rfl
  · rw [hrecords] at hr'
    split at hr'
    · rename_i hk
      subst hk
      have hnamed := h.named k'
      rw [hlist] at hnamed
      rcases List.mem_append.mp hr' with hr' | hr'
      · exact hnamed r' (by simp [hr'])
      · obtain rfl : r' = f r := by simpa using hr'
        rw [hf]
        exact hnamed r (by simp)
    · exact h.named k' r' hr'
  · rw [hlength]
    exact h.bounded k'
  · exact h.vendors
  · exact h.classes

theorem foldl_close_opened (l : List ItemKind) (a : Arrays) (k : ItemKind) :
    (l.foldl Arrays.close a).opened k = if k ∈ l then false else a.opened k := by
  induction l generalizing a with
  | nil => simp
  | cons k' l ih =>
      rw [List.foldl_cons, ih, Arrays.close]
      dsimp only
      rw [Function.update_apply]
      by_cases hk : k = k'
      · simp [hk]
      · simp [hk]

theorem foldl_close_records (l : List ItemKind) (a : Arrays) :
    (l.foldl Arrays.close a).records = a.records := by
  induction l generalizing a with
  | nil => rfl
  | cons k' l ih => exact ih (a.close k')

/-- The owner of a new record is a root or an open record. -/
def OwnerOpen (a : Arrays) (k : ItemKind) : Prop :=
  ∀ p, k.owner = .items p → a.opened p = true

/-- A line is added to the table as to the arrays. -/
theorem Fits.push (h : Fits start count t a) (hsep : Separate start count) {x : Placed}
    (howner : OwnerOpen a x.kind)
    (hroom : (a.records (.items x.kind)).length < count x.kind) :
    Fits start count (t.add file buffer x) (a.push start file buffer x) := by
  have hclosed := h.doincs x.kind
  have hself : (x.kind.fallThrough.foldl Arrays.close a).opened x.kind = false := by
    rw [foldl_close_opened, if_pos]
    cases x.kind <;> decide
  have hcursor := hclosed.cursor x.kind
  rw [hself, foldl_close_records, if_neg Bool.false_ne_true, Nat.add_zero] at hcursor
  have happend := hclosed.append hsep hself (by rwa [foldl_close_records]) x.value ⟨buffer, x.name⟩
  unfold Table.add doone Arrays.push
  dsimp only
  rw [hcursor]
  rw [hcursor] at happend
  generalize ht' : ((t.doincs x.kind).modify (start x.kind + (a.records (.items x.kind)).length)
    fun d => { d with value := x.value, name := some ⟨buffer, x.name⟩ }) = t' at happend ⊢
  generalize ha' : (x.kind.fallThrough.foldl Arrays.close a).append x.kind
    { value := x.value, name := some ⟨buffer, x.name⟩ } = a' at happend ⊢
  -- `fallThrough` has closed the kinds from this one on, not the one above it.
  have hopen : ∀ p, x.kind.owner = .items p → a'.opened p = true := by
    intro p hp
    rw [← ha', Arrays.append_opened, foldl_close_opened]
    have hnot : p ∉ x.kind.fallThrough := by
      revert hp
      cases x.kind <;> cases p <;> decide
    rw [if_neg hnot, howner p hp, ite_self]
  have hname : ∀ r p, (adopt r p).name = p.name := fun _ _ => rfl
  unfold Table.adoptBy
  cases hk : x.kind with
  | vendor =>
      have hroot : a'.records .vendors = [t'.vendors] := happend.vendors
      have hlast : (a'.records .vendors).modifyLast
          (adopt ⟨file, start .vendor + (a.records (.items .vendor)).length⟩) =
            [adopt ⟨file, start .vendor + (a.records (.items .vendor)).length⟩ t'.vendors] := by
        rw [hroot]
        rfl
      refine ⟨happend.cursor, happend.nonempty, happend.items, happend.named, happend.bounded, ?_, ?_⟩
      · exact (a'.modifyLast_records _ _ _).trans ((if_pos rfl).trans hlast)
      · exact happend.classes
  | baseClass =>
      have hroot : a'.records .classes = [t'.classes] := happend.classes
      have hlast : (a'.records .classes).modifyLast
          (adopt ⟨file, start .baseClass + (a.records (.items .baseClass)).length⟩) =
            [adopt ⟨file, start .baseClass + (a.records (.items .baseClass)).length⟩
              t'.classes] := by
        rw [hroot]
        rfl
      refine ⟨happend.cursor, happend.nonempty, happend.items, happend.named, happend.bounded, ?_, ?_⟩
      · exact happend.vendors
      · exact (a'.modifyLast_records _ _ _).trans ((if_pos rfl).trans hlast)
  | device => exact happend.modifyOpen hsep (hopen _ (by rw [hk]; rfl)) (hname _)
  | subsystem => exact happend.modifyOpen hsep (hopen _ (by rw [hk]; rfl)) (hname _)
  | subclass => exact happend.modifyOpen hsep (hopen _ (by rw [hk]; rfl)) (hname _)
  | progif => exact happend.modifyOpen hsep (hopen _ (by rw [hk]; rfl)) (hname _)

end simulation

end PciIds
end EfiApps
