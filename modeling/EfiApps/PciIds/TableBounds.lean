import EfiApps.PciIds.PassAccesses

/-!
# The table inside its blocks

An extra record behind those of each kind is meant to stay empty.  As long as it does, the
cursor of a kind stays with the records of the kind, an item adopts only what is below its
kind, and all arrays of children are inside the record array.  A line that is too short for
its name is enough for a name behind the buffer.

So a call of `ReadPciIds` or `FreePciIds` does what is expected of it if it finds both roots
empty and the two passes keep to the file and to the records that were counted.
-/

namespace EfiApps
namespace PciIds

open PciMisc

/-! ## Records so far -/

/-- The kind of the lines below one. -/
def ItemKind.below : ItemKind → Option ItemKind
  | vendor => some device
  | device => some subsystem
  | baseClass => some subclass
  | subclass => some progif
  | subsystem | progif => none

/-- The children of an item are among the first `n` records of a kind. -/
def ChildrenIn (file first n : Nat) (item : PciIdItem) : Prop :=
  item.Empty ∨ ∃ j, item.children = some ⟨file, first + j⟩ ∧ j + item.numChildren ≤ n

section children

variable {file first n n' : Nat} {item : PciIdItem}

theorem ChildrenIn.mono (h : ChildrenIn file first n item) (hle : n ≤ n') :
    ChildrenIn file first n' item := by
  rcases h with hempty | ⟨j, hchildren, hbound⟩
  · exact .inl hempty
  · exact .inr ⟨j, hchildren, hbound.trans hle⟩

/-- The next record is adopted. -/
theorem ChildrenIn.adopt (h : ChildrenIn file first n item) :
    ChildrenIn file first (n + 1) (adopt ⟨file, first + n⟩ item) := by
  rcases h with ⟨hnone, hzero⟩ | ⟨j, hchildren, hbound⟩
  · exact .inr ⟨n, by simp [PciIds.adopt, hnone], by simp [PciIds.adopt, hzero]⟩
  · refine .inr ⟨j, by simp [PciIds.adopt, hchildren], ?_⟩
    show j + (item.numChildren + 1) ≤ n + 1
    omega

end children

section tally

variable (file : Nat) (nameIn : Ptr → Prop) (count written : ItemKind → Nat)

/-- The children of a record of a kind are records of the kind below. -/
def BelowIn (k : ItemKind) (item : PciIdItem) : Prop :=
  match k.below with
  | some k' => ChildrenIn file (arrayStart count k') (written k') item
  | none => item.Empty

/-- The table after so many lines of each kind: its cursor is at the last record or behind it,
and the records in front are those with names. -/
structure Tally (t : Table) : Prop where
  bounded : ∀ k, written k ≤ count k
  cursor : ∀ k, ∃ i ≤ written k, written k ≤ i + 1 ∧ t.cursor k = arrayStart count k + i
  named : ∀ k i, i ≤ count k →
    ((t.items (arrayStart count k + i)).name.isSome = true ↔ i < written k)
  names : ∀ o p, (t.items o).name = some p → nameIn p
  below : ∀ k i, i ≤ count k →
    BelowIn file count written k (t.items (arrayStart count k + i))
  vendors : ChildrenIn file (arrayStart count .vendor) (written .vendor) t.vendors
  classes : ChildrenIn file (arrayStart count .baseClass) (written .baseClass) t.classes

end tally

section steps

variable {file : Nat} {nameIn : Ptr → Prop} {count written written' : ItemKind → Nat}
  {t : Table} {k k' : ItemKind}

theorem BelowIn.mono {item : PciIdItem} (h : BelowIn file count written k item)
    (hle : ∀ k, written k ≤ written' k) : BelowIn file count written' k item := by
  unfold BelowIn at h ⊢
  cases hbelow : k.below with
  | none =>
      rw [hbelow] at h
      exact h
  | some k' =>
      rw [hbelow] at h
      exact ChildrenIn.mono h (hle k')

/-! ## One line -/

theorem Tally.advance (h : Tally file nameIn count written t) (k' : ItemKind) :
    Tally file nameIn count written (t.advance k') ∧
      (t.advance k').cursor k' = arrayStart count k' + written k' ∧
      (t.cursor k = arrayStart count k + written k →
        (t.advance k').cursor k = arrayStart count k + written k) := by
  obtain ⟨i, hi, hnext, hcursor⟩ := h.cursor k'
  have hbounded := h.bounded k'
  have hnamed := h.named k' i (by omega)
  rw [← hcursor] at hnamed
  rw [Table.advance]
  by_cases hname : (t.items (t.cursor k')).name.isSome = true
  · have hlt := hnamed.mp hname
    rw [if_pos hname]
    have hself : Function.update t.cursor k' (t.cursor k' + 1) k' =
        arrayStart count k' + written k' := by
      rw [Function.update_self]
      omega
    refine ⟨?_, hself, fun hk => ?_⟩
    · exact
        { bounded := h.bounded
          cursor := by
            intro k
            by_cases hk : k = k'
            · subst hk
              exact ⟨written k, le_rfl, Nat.le_succ _, hself⟩
            · dsimp only
              rw [Function.update_of_ne hk]
              exact h.cursor k
          named := h.named
          names := h.names
          below := h.below
          vendors := h.vendors
          classes := h.classes }
    · by_cases hkk : k = k'
      · subst hkk
        exact hself
      · dsimp only
        rw [Function.update_of_ne hkk]
        exact hk
  · have hge : ¬ i < written k' := fun hlt => hname (hnamed.mpr hlt)
    rw [if_neg hname]
    exact ⟨h, by omega, id⟩

theorem Tally.foldl_advance (h : Tally file nameIn count written t) (ks : List ItemKind)
    (hk : k ∈ ks ∨ t.cursor k = arrayStart count k + written k) :
    Tally file nameIn count written (ks.foldl Table.advance t) ∧
      (ks.foldl Table.advance t).cursor k = arrayStart count k + written k := by
  induction ks generalizing t with
  | nil => exact ⟨h, hk.resolve_left List.not_mem_nil⟩
  | cons k' ks ih =>
      obtain ⟨hnext, hself, hother⟩ := h.advance (k := k) k'
      apply ih hnext
      rcases hk with hmem | hcursor
      · rcases List.mem_cons.mp hmem with rfl | hmem
        · exact .inr hself
        · exact .inl hmem
      · exact .inr (hother hcursor)

/-- `doincs` leaves the cursor of the kind behind its records. -/
theorem Tally.doincs (h : Tally file nameIn count written t) (k : ItemKind) :
    Tally file nameIn count written (t.doincs k) ∧
      (t.doincs k).cursor k = arrayStart count k + written k :=
  h.foldl_advance k.fallThrough (.inl (mem_fallThrough_self k))

/-- One more of a kind. -/
def oneMore (written : ItemKind → Nat) (k : ItemKind) : ItemKind → Nat :=
  Function.update written k (written k + 1)

theorem oneMore_self : oneMore written k k = written k + 1 := Function.update_self ..

theorem le_oneMore (k' : ItemKind) : written k' ≤ oneMore written k k' := by
  unfold oneMore
  rw [Function.update_apply]
  split
  · rename_i heq
    rw [heq]
    exact Nat.le_succ _
  · exact le_rfl

/-- The free record of a kind gets its value and its name. -/
theorem Tally.record (h : Tally file nameIn count written t)
    (hcursor : t.cursor k = arrayStart count k + written k) (hroom : written k < count k)
    (value : UInt64) {name : Ptr} (hname : nameIn name) :
    Tally file nameIn count (oneMore written k)
      (t.modify (t.cursor k) fun d => { d with value := value, name := some name }) := by
  have hsep := separate_arrayStart count
  have hother : ∀ k' i, i ≤ count k' → ¬ (k' = k ∧ i = written k) →
      arrayStart count k' + i ≠ t.cursor k := by
    intro k' i hi hne heq
    rw [hcursor] at heq
    exact hne (hsep k' k i (written k) hi hroom.le heq)
  have hstep : ∀ k', k' ≠ k → oneMore written k k' = written k' :=
    fun k' hk' => Function.update_of_ne hk' _ _
  constructor
  · intro k'
    by_cases hk' : k' = k
    · subst hk'
      rw [oneMore_self]
      omega
    · rw [hstep k' hk']
      exact h.bounded k'
  · intro k'
    by_cases hk' : k' = k
    · subst hk'
      rw [oneMore_self]
      exact ⟨written k', Nat.le_succ _, le_rfl, hcursor⟩
    · rw [hstep k' hk']
      exact h.cursor k'
  · intro k' i hi
    rw [modify_items]
    -- Only this record gets a name.
    by_cases hself : k' = k ∧ i = written k
    · obtain ⟨rfl, rfl⟩ := hself
      rw [← hcursor, Function.update_self, oneMore_self]
      exact ⟨fun _ => Nat.lt_succ_self _, fun _ => rfl⟩
    · rw [Function.update_of_ne (hother k' i hi hself), h.named k' i hi]
      by_cases hk' : k' = k
      · subst hk'
        rw [oneMore_self]
        have hne : i ≠ written k' := fun heq => hself ⟨rfl, heq⟩
        omega
      · rw [hstep k' hk']
  · intro o p hp
    rw [modify_items, Function.update_apply] at hp
    split at hp
    · obtain rfl := Option.some.inj hp
      exact hname
    · exact h.names o p hp
  · intro k' i hi
    have hbelow : BelowIn file count (oneMore written k) k' _ :=
      (h.below k' i hi).mono le_oneMore
    rw [modify_items, Function.update_apply]
    split
    · rename_i heq
      rw [heq] at hbelow
      unfold BelowIn at hbelow ⊢
      exact hbelow
    · exact hbelow
  · exact h.vendors.mono (le_oneMore _)
  · exact h.classes.mono (le_oneMore _)

/-- A record of the kind above adopts the last one of a kind. -/
theorem Tally.adopted (h : Tally file nameIn count written t) {parent : ItemKind} {i n : Nat}
    (hbelow : parent.below = some k) (hi : i ≤ count parent) (hn : written k = n + 1)
    (hitem : ChildrenIn file (arrayStart count k) n (t.items (arrayStart count parent + i))) :
    Tally file nameIn count written
      (t.modify (arrayStart count parent + i) (adopt ⟨file, arrayStart count k + n⟩)) where
  bounded := h.bounded
  cursor := h.cursor
  named k' i' hi' := by
    rw [← h.named k' i' hi', modify_items, Function.update_apply]
    split
    · rename_i heq
      rw [heq]
      exact Iff.rfl
    · exact Iff.rfl
  names o p hp := by
    rw [modify_items, Function.update_apply] at hp
    split at hp
    · exact h.names _ p hp
    · exact h.names o p hp
  below k' i' hi' := by
    rw [modify_items, Function.update_apply]
    split
    · rename_i heq
      obtain ⟨rfl, rfl⟩ := separate_arrayStart count k' parent i' i hi' hi heq
      unfold BelowIn
      rw [hbelow]
      dsimp only
      rw [hn]
      exact hitem.adopt
    · exact h.below k' i' hi'
  vendors := h.vendors
  classes := h.classes

/-- A line of a kind that has a free record in front of the extra one. -/
theorem Tally.doone {buffer name : Nat} (h : Tally file nameIn count written t) (k : ItemKind)
    (hroom : written k < count k) (value : UInt64) (hname : nameIn ⟨buffer, name⟩) :
    Tally file nameIn count (oneMore written k) (doone file buffer t k value name) := by
  obtain ⟨hdoincs, hcursor⟩ := h.doincs k
  have hrecord := hdoincs.record hcursor hroom value hname
  unfold PciIds.doone
  dsimp only
  -- The record above, whichever its cursor is at, is another one.
  have hparent : ∀ parent, parent.below = some k → parent ≠ k →
      ∃ i ≤ count parent, (t.doincs k).cursor parent = arrayStart count parent + i ∧
        ChildrenIn file (arrayStart count k) (written k)
          (((t.doincs k).modify ((t.doincs k).cursor k) fun d =>
            { d with value := value, name := some ⟨buffer, name⟩ }).items
              (arrayStart count parent + i)) := by
    intro parent hbelow hne
    obtain ⟨i, hi, -, hat⟩ := hdoincs.cursor parent
    have hbounded := hdoincs.bounded parent
    refine ⟨i, by omega, hat, ?_⟩
    have hitem := hdoincs.below parent i (by omega)
    unfold BelowIn at hitem
    rw [hbelow] at hitem
    rw [modify_items, Function.update_of_ne]
    · exact hitem
    · intro heq
      rw [hcursor] at heq
      exact hne (separate_arrayStart count parent k i (written k) (by omega) hroom.le heq).1
  have hmodify : ∀ parent, parent.below = some k → parent ≠ k →
      Tally file nameIn count (oneMore written k)
        (((t.doincs k).modify ((t.doincs k).cursor k) fun d =>
          { d with value := value, name := some ⟨buffer, name⟩ }).modify
            ((t.doincs k).cursor parent) (adopt ⟨file, (t.doincs k).cursor k⟩)) := by
    intro parent hbelow hne
    obtain ⟨i, hi, hat, hitem⟩ := hparent parent hbelow hne
    have hadopted := hrecord.adopted hbelow hi oneMore_self hitem
    rw [← hcursor, ← hat] at hadopted
    exact hadopted
  cases k with
  | vendor =>
      have hroot := hdoincs.vendors.adopt
      rw [← hcursor] at hroot
      exact
        { hrecord with
          vendors := by
            rw [oneMore_self]
            exact hroot }
  | baseClass =>
      have hroot := hdoincs.classes.adopt
      rw [← hcursor] at hroot
      exact
        { hrecord with
          classes := by
            rw [oneMore_self]
            exact hroot }
  | device => exact hmodify .vendor rfl (by decide)
  | subsystem => exact hmodify .device rfl (by decide)
  | subclass => exact hmodify .baseClass rfl (by decide)
  | progif => exact hmodify .subclass rfl (by decide)

/-! ## All lines -/

theorem Tally.doLines {buffer : Nat} {mem : Nat → UInt16} {ls : List Nat}
    (h : Tally file nameIn count written t)
    (hroom : ∀ k, written k + (ls.countP fun l => ItemKind.ofTypeCode (mem l) = some k) ≤ count k)
    (hnames : ∀ l ∈ ls, ∀ k, ItemKind.ofTypeCode (mem l) = some k →
      nameIn ⟨buffer, l + k.nameOffset⟩) :
    ∃ written', Tally file nameIn count written'
      (ls.foldl (fun t l => doLine file buffer mem l t) t) := by
  induction ls generalizing t written with
  | nil => exact ⟨written, h⟩
  | cons l ls ih =>
      rw [List.foldl_cons, doLine]
      have hrest : ∀ l ∈ ls, ∀ k, ItemKind.ofTypeCode (mem l) = some k →
          nameIn ⟨buffer, l + k.nameOffset⟩ :=
        fun l' hl' => hnames l' (List.mem_cons_of_mem _ hl')
      simp only [List.countP_cons, decide_eq_true_eq] at hroom
      cases hcode : ItemKind.ofTypeCode (mem l) with
      | none =>
          refine ih h (fun k => ?_) hrest
          have hk := hroom k
          rw [hcode] at hk
          simpa using hk
      | some k =>
          rw [hcode] at hroom
          have hself := hroom k
          rw [if_pos rfl] at hself
          refine ih (h.doone k (by omega) _ (hnames l List.mem_cons_self k hcode)) (fun k' => ?_)
            hrest
          have hk' := hroom k'
          by_cases hkk : k = k'
          · subst hkk
            rw [oneMore_self]
            omega
          · rw [if_neg (fun heq => hkk (Option.some.inj heq))] at hk'
            rw [oneMore, Function.update_of_ne (Ne.symm hkk)]
            omega

theorem tally_start {vendors classes : PciIdItem} (hvendors : vendors.Empty)
    (hclasses : classes.Empty) :
    Tally file nameIn count (fun _ => 0)
      ⟨fun _ => {}, vendors, classes, arrayStart count⟩ where
  bounded _ := Nat.zero_le _
  cursor _ := ⟨0, le_rfl, Nat.zero_le _, rfl⟩
  named _ i _ := ⟨nofun, fun h => absurd h (Nat.not_lt_zero i)⟩
  names _ _ hp := by cases hp
  below k _ _ := by
    unfold BelowIn
    cases k.below with
    | none => exact ⟨rfl, rfl⟩
    | some k' => exact .inl ⟨rfl, rfl⟩
  vendors := .inl hvendors
  classes := .inl hclasses

/-! ## What the roots refer to -/

theorem arrayStart_add_le (count : ItemKind → Nat) (k : ItemKind) :
    arrayStart count k + count k < recordCount count := by
  cases k <;> simp only [arrayStart, recordCount] <;> omega

section references

variable {item child : PciIdItem} {items : ItemMemory}

theorem ChildrenIn.inside (h : ChildrenIn file (arrayStart count k) (count k) item) {p : Ptr}
    (hp : item.children = some p) :
    p.block = file ∧ p.offset + item.numChildren ≤ recordCount count := by
  have hroom := arrayStart_add_le count k
  rcases h with ⟨hnone, -⟩ | ⟨j, hsome, hnum⟩
  · rw [hnone] at hp
    cases hp
  · obtain rfl := Option.some.inj (hsome.symm.trans hp)
    dsimp only
    exact ⟨rfl, by omega⟩

theorem ChildrenIn.exists_record (h : ChildrenIn file (arrayStart count k) (count k) item)
    (hchild : IsChild items item child) :
    ∃ i ≤ count k, child = items file (arrayStart count k + i) := by
  obtain ⟨first, i, hfirst, hi, rfl⟩ := hchild
  rcases h with ⟨hnone, -⟩ | ⟨j, hsome, hnum⟩
  · rw [hnone] at hfirst
    cases hfirst
  · obtain rfl := Option.some.inj (hsome.symm.trans hfirst)
    exact ⟨j + i, by omega, by rw [Nat.add_assoc]⟩

theorem BelowIn.inside (h : BelowIn file count count k item) {p : Ptr}
    (hp : item.children = some p) :
    p.block = file ∧ p.offset + item.numChildren ≤ recordCount count := by
  unfold BelowIn at h
  cases hkind : k.below with
  | none =>
      rw [hkind] at h
      obtain ⟨hnone, -⟩ : item.Empty := h
      rw [hnone] at hp
      cases hp
  | some k' =>
      rw [hkind] at h
      exact h.inside hp

theorem BelowIn.exists_record (h : BelowIn file count count k item)
    (hchild : IsChild items item child) :
    ∃ k' i, i ≤ count k' ∧ child = items file (arrayStart count k' + i) := by
  unfold BelowIn at h
  cases hkind : k.below with
  | none =>
      rw [hkind] at h
      obtain ⟨hnone, -⟩ : item.Empty := h
      obtain ⟨first, i, hfirst, -⟩ := hchild
      rw [hnone] at hfirst
      cases hfirst
  | some k' =>
      rw [hkind] at h
      exact ⟨k', h.exists_record hchild⟩

end references

/-- From a root one comes to records of the kinds only. -/
theorem Tally.refersOnly {s : Globals} {buffer : Nat} {root : PciIdItem}
    (h : Tally file (s.StringIn buffer) count written t) (hitems : s.items file = t.items)
    (hsize : s.size file = recordCount count)
    (hroot : ChildrenIn file (arrayStart count k) (written k) root) :
    RefersOnly s file buffer root := by
  have hroot := hroot.mono (h.bounded k)
  have hbelow : ∀ k i, i ≤ count k →
      BelowIn file count count k (s.items file (arrayStart count k + i)) := by
    intro k i hi
    rw [hitems]
    exact (h.below k i hi).mono h.bounded
  -- One step from a root leads to a record of a kind, and so does every further one.
  have hreach : ∀ item, Relation.TransGen (IsChild s.items) root item →
      ∃ k i, i ≤ count k ∧ item = s.items file (arrayStart count k + i) := by
    intro item hpath
    induction hpath with
    | single hstep =>
        obtain ⟨i, hi, heq⟩ := hroot.exists_record hstep
        exact ⟨k, i, hi, heq⟩
    | tail _ hstep ih =>
        obtain ⟨k', i, hi, rfl⟩ := ih
        exact (hbelow k' i hi).exists_record hstep
  constructor
  · intro item hpath p hp
    rw [hsize]
    rcases Relation.reflTransGen_iff_eq_or_transGen.mp hpath with rfl | hpath
    · exact hroot.inside hp
    · obtain ⟨k', i, hi, rfl⟩ := hreach item hpath
      exact (hbelow k' i hi).inside hp
  · intro item hpath p hp
    obtain ⟨k', i, -, rfl⟩ := hreach item hpath
    rw [hitems] at hp
    exact h.names _ p hp

end steps

end PciIds
end EfiApps
