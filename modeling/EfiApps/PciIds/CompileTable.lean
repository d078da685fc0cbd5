import EfiApps.PciIds.ConvertTrees

/-!
# Compiling the generated source

Declarations compile one after the other if their names are distinct and every array
is declared before it is used.  What was compiled stays as it is, so at the end every
array still holds what its declaration says.
-/

namespace EfiApps
namespace PciIds

/-! ## Objects that grow -/

/-- The objects after some more declarations. -/
structure Extends (o o' : Objects) : Prop where
  arrays : o.arrays <+: o'.arrays
  strings : o.strings <+: o'.strings

theorem Extends.refl (o : Objects) : Extends o o := ⟨List.prefix_rfl, List.prefix_rfl⟩

theorem Extends.trans {o o' o'' : Objects} (h : Extends o o') (h' : Extends o' o'') :
    Extends o o'' :=
  ⟨h.arrays.trans h'.arrays, h.strings.trans h'.strings⟩

/-- The names of the arrays. -/
def Objects.names (o : Objects) : List (List UInt16) := o.arrays.map Prod.fst

section objects

variable {o o' : Objects} {name : List UInt16} {block : Nat}

theorem find_eq_none_iff : o.find name = none ↔ name ∉ o.names := by
  rw [Objects.find, List.findIdx?_eq_none_iff, Objects.names, List.mem_map]
  constructor
  · rintro hnone ⟨array, hmem, rfl⟩
    have := hnone array hmem
    simp at this
  · intro hnot array hmem
    exact decide_eq_false fun heq => hnot ⟨array, hmem, heq⟩

theorem find_isSome_iff : (o.find name).isSome ↔ name ∈ o.names := by
  rw [← not_iff_not, ← find_eq_none_iff, Option.not_isSome_iff_eq_none]

theorem find_lt (h : o.find name = some block) : block < o.arrays.length := by
  obtain ⟨hlt, -⟩ := List.findIdx?_eq_some_iff_getElem.mp h
  exact hlt

theorem Extends.find (h : Extends o o') (hfind : o.find name = some block) :
    o'.find name = some block := by
  obtain ⟨rest, hrest⟩ := h.arrays
  rw [Objects.find, ← hrest, List.findIdx?_append, ← Objects.find, hfind]
  rfl

theorem Extends.records (h : Extends o o') (hblock : block < o.arrays.length) :
    o'.records block = o.records block := by
  obtain ⟨rest, hrest⟩ := h.arrays
  rw [Objects.records, Objects.records, ← hrest, List.getD_append _ _ _ _ hblock]

end objects

/-! ## One declaration -/

/-- The initializer can be compiled, whatever its child is. -/
structure Initializer.Valid (init : Initializer) : Prop where
  value : (constantValue init.value).isSome
  name : (unescape init.name).isSome

/-- The record of an initializer. -/
structure CompiledItem (o : Objects) (record : PciIdItem) (init : Initializer) : Prop where
  value : ∃ value, constantValue init.value = some value ∧ record.value = .ofNat value
  name : ∃ string name, unescape init.name = some name ∧ o.strings[string]? = some name ∧
    record.name = some ⟨string, 0⟩
  childless : init.child = none → record.children = none ∧ record.numChildren = 0
  child : ∀ child, init.child = some child → ∃ block, o.find child = some block ∧
    record.children = some ⟨block, 0⟩ ∧ record.numChildren = (o.records block).length

/-- The array of a declaration. -/
def Compiled (o : Objects) (d : ArrayDecl) : Prop :=
  ∃ block, o.find d.name = some block ∧
    List.Forall₂ (CompiledItem o) (o.records block) d.items

section define

variable {o o' : Objects}

theorem CompiledItem.extends (h : Extends o o') {record : PciIdItem} {init : Initializer}
    (hitem : CompiledItem o record init) : CompiledItem o' record init where
  value := hitem.value
  name := by
    obtain ⟨string, name, hname, hstring, hrecord⟩ := hitem.name
    obtain ⟨rest, hrest⟩ := h.strings
    have hlt : string < o.strings.length := (List.getElem?_eq_some_iff.mp hstring).1
    refine ⟨string, name, hname, ?_, hrecord⟩
    rw [← hrest, List.getElem?_append_left hlt]
    exact hstring
  childless := hitem.childless
  child child hchild := by
    obtain ⟨block, hfind, hchildren, hnum⟩ := hitem.child child hchild
    exact ⟨block, h.find hfind, hchildren, by rw [h.records (find_lt hfind), hnum]⟩

theorem Compiled.extends (h : Extends o o') {d : ArrayDecl} (hd : Compiled o d) :
    Compiled o' d := by
  obtain ⟨block, hfind, hitems⟩ := hd
  refine ⟨block, h.find hfind, ?_⟩
  rw [h.records (find_lt hfind)]
  exact hitems.imp fun _ _ hitem => hitem.extends h

theorem mapM_eq_some {α β : Type} {f : α → Option β} {l : List α}
    (h : ∀ a ∈ l, (f a).isSome) :
    ∃ l', l.mapM f = some l' ∧ List.Forall₂ (fun b a => f a = some b) l' l := by
  induction l with
  | nil => exact ⟨[], rfl, .nil⟩
  | cons a l ih =>
      obtain ⟨b, hb⟩ := Option.isSome_iff_exists.mp (h a List.mem_cons_self)
      obtain ⟨l', hl', hforall⟩ := ih fun a' ha' => h a' (List.mem_cons_of_mem _ ha')
      exact ⟨b :: l', by simp [List.mapM_cons, hb, hl'], .cons hb hforall⟩

/-- The record that an initializer is compiled to, with its name in a given block. -/
theorem record_spec {init : Initializer} (hvalid : init.Valid)
    (hchild : ∀ child, init.child = some child → child ∈ o.names) (string : Nat) :
    ∃ record, o.record init string = some record ∧
      (∃ value, constantValue init.value = some value ∧ record.value = .ofNat value) ∧
      record.name = some ⟨string, 0⟩ ∧
      (init.child = none → record.children = none ∧ record.numChildren = 0) ∧
      ∀ child, init.child = some child → ∃ block, o.find child = some block ∧
        record.children = some ⟨block, 0⟩ ∧ record.numChildren = (o.records block).length := by
  obtain ⟨value, hvalue⟩ := Option.isSome_iff_exists.mp hvalid.value
  unfold Objects.record
  rw [hvalue]
  cases hinit : init.child with
  | none => exact ⟨_, rfl, ⟨value, rfl, rfl⟩, rfl, fun _ => ⟨rfl, rfl⟩, nofun⟩
  | some child =>
      obtain ⟨block, hfind⟩ := Option.isSome_iff_exists.mp (find_isSome_iff.mpr (hchild child hinit))
      dsimp only
      rw [hfind]
      refine ⟨_, rfl, ⟨value, rfl, rfl⟩, rfl, nofun, fun child' hchild' => ?_⟩
      obtain rfl := Option.some.inj hchild'
      exact ⟨block, hfind, rfl, rfl⟩

/-- A declaration of a new array that uses only arrays declared before. -/
theorem define_spec {d : ArrayDecl} (hnew : d.name ∉ o.names) (hvalid : ∀ init ∈ d.items, init.Valid)
    (hchild : ∀ init ∈ d.items, ∀ child, init.child = some child → child ∈ o.names) :
    ∃ o', o.define d = some o' ∧ Extends o o' ∧ o'.names = o.names ++ [d.name] ∧ Compiled o' d := by
  obtain ⟨strings, hstrings, hnames⟩ := mapM_eq_some fun init hinit => (hvalid init hinit).name
  have hrecord : ∀ a ∈ d.items.zipIdx, (o.record a.1 (o.strings.length + a.2)).isSome := by
    intro a ha
    have hmem := List.fst_mem_of_mem_zipIdx ha
    obtain ⟨record, hrecord, -⟩ :=
      record_spec (hvalid _ hmem) (hchild _ hmem) (o.strings.length + a.2)
    rw [hrecord]
    rfl
  obtain ⟨records, hrecords, hitems⟩ := mapM_eq_some hrecord
  have hdefine : o.define d = some ⟨o.arrays ++ [(d.name, records)], o.strings ++ strings⟩ := by
    rw [Objects.define, find_eq_none_iff.mpr hnew]
    simp only [Option.isSome_none, Bool.false_eq_true, if_false, hstrings, hrecords,
      Option.bind_eq_bind, Option.bind_some]
  have hextends : Extends o ⟨o.arrays ++ [(d.name, records)], o.strings ++ strings⟩ :=
    ⟨List.prefix_append _ _, List.prefix_append _ _⟩
  refine ⟨_, hdefine, hextends, by simp [Objects.names], o.arrays.length, ?_, ?_⟩
  · rw [Objects.find, List.findIdx?_append, ← Objects.find, find_eq_none_iff.mpr hnew]
    simp
  · have hblock : Objects.records ⟨o.arrays ++ [(d.name, records)], o.strings ++ strings⟩
        o.arrays.length = records := by
      simp [Objects.records]
    rw [hblock, List.forall₂_iff_get]
    have hlength : records.length = d.items.length := by
      rw [hitems.length_eq, List.length_zipIdx]
    refine ⟨hlength, fun i hi hi' => ?_⟩
    have hname := hnames.get (hnames.length_eq ▸ hi') hi'
    have hitem := hitems.get hi (by rw [List.length_zipIdx]; exact hi')
    simp only [List.get_eq_getElem, List.getElem_zipIdx, Nat.zero_add] at hname hitem ⊢
    have hmem := List.getElem_mem hi'
    obtain ⟨record, hrecord, hvalue, hrecordName, hnone, hchildren⟩ :=
      record_spec (hvalid _ hmem) (hchild _ hmem) (o.strings.length + i)
    obtain rfl : record = records[i] := Option.some.inj (hrecord.symm.trans hitem)
    refine ⟨hvalue, ⟨o.strings.length + i, _, hname, ?_, hrecordName⟩, hnone, fun child hinit => ?_⟩
    · have hi'' : i < strings.length := hnames.length_eq ▸ hi'
      simp [hi'']
    · obtain ⟨block, hfind, hblock', hnum⟩ := hchildren child hinit
      exact ⟨block, hextends.find hfind, hblock', by rw [hextends.records (find_lt hfind), hnum]⟩

end define

/-! ## All declarations -/

/-- Every array that is used was declared before. -/
def RefsBefore : List (List UInt16) → List ArrayDecl → Prop
  | _, [] => True
  | known, d :: decls =>
      (∀ init ∈ d.items, ∀ child, init.child = some child → child ∈ known) ∧
        RefsBefore (known ++ [d.name]) decls

/-- Declarations with distinct names that use only what was declared before compile. -/
theorem foldlM_define {o : Objects} {decls : List ArrayDecl}
    (hnames : (o.names ++ decls.map ArrayDecl.name).Nodup) (hrefs : RefsBefore o.names decls)
    (hvalid : ∀ d ∈ decls, ∀ init ∈ d.items, init.Valid) :
    ∃ o', decls.foldlM Objects.define o = some o' ∧ Extends o o' ∧ ∀ d ∈ decls, Compiled o' d := by
  induction decls generalizing o with
  | nil => exact ⟨o, rfl, .refl o, nofun⟩
  | cons d decls ih =>
      obtain ⟨hchild, hrefs⟩ := hrefs
      have hnew : d.name ∉ o.names := by
        rw [List.map_cons, List.nodup_append] at hnames
        exact fun hmem => hnames.2.2 _ hmem _ List.mem_cons_self rfl
      obtain ⟨o₁, hdefine, hextends, hnames₁, hcompiled⟩ :=
        define_spec hnew (hvalid d List.mem_cons_self) hchild
      obtain ⟨o', hrun, hextends', hrest⟩ := ih (o := o₁)
        (by rw [hnames₁]; simpa using hnames) (by rw [hnames₁]; exact hrefs)
        fun d' hd' => hvalid d' (List.mem_cons_of_mem _ hd')
      refine ⟨o', by rw [List.foldlM_cons, hdefine]; exact hrun, hextends.trans hextends', ?_⟩
      intro d' hd'
      rcases List.mem_cons.mp hd' with rfl | hd'
      · exact hcompiled.extends hextends'
      · exact hrest d' hd'

section refs

variable {known known' : List (List UInt16)} {decls decls' : List ArrayDecl}

theorem RefsBefore.mono (h : RefsBefore known decls) (hsub : known ⊆ known') :
    RefsBefore known' decls := by
  induction decls generalizing known known' with
  | nil => trivial
  | cons d decls ih =>
      obtain ⟨hchild, hrefs⟩ := h
      refine ⟨fun init hinit child hc => hsub (hchild init hinit child hc), ih hrefs ?_⟩
      exact List.append_subset.mpr ⟨List.subset_append_of_subset_left _ hsub,
        List.subset_append_right _ _⟩

theorem refsBefore_append_iff : RefsBefore known (decls ++ decls') ↔
    RefsBefore known decls ∧ RefsBefore (known ++ decls.map ArrayDecl.name) decls' := by
  induction decls generalizing known with
  | nil => simp [RefsBefore]
  | cons d decls ih =>
      rw [List.cons_append, RefsBefore, RefsBefore, ih, and_assoc]
      simp

end refs

end PciIds
end EfiApps
