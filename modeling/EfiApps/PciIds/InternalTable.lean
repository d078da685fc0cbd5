import EfiApps.PciIds.CompileTable
import EfiApps.PciIds.Names

/-!
# The internal table

For a text whose siblings ascend, the arrays that the script prints hold the trees of
the text, and the declarations compile if the vendors are not separated by classes and
neither list is empty.  So the internal table and the table that `ReadPciIds` builds
from the text are the same.
-/

namespace EfiApps
namespace PciIds

open PciMisc

/-! ## Lists of nodes -/

section nodes

variable {β : Type} {k : ItemKind} {nodes : List (IdNode β)}

/-- The nodes ascend, their IDs have the digits of their kind, and their names are on one
line. -/
structure Keyed (k : ItemKind) (nodes : List (IdNode β)) : Prop where
  ascending : Ascending nodes
  bounded : ∀ node ∈ nodes, node.value.toNat < k.valueBound
  names : ∀ node ∈ nodes, 0x0d ∉ node.name

/-- The item of a node has its key and its name. -/
def EntryOf (k : ItemKind) (e : List UInt16 × PerlItem) (node : IdNode β) : Prop :=
  e.1 = keyText k node.value ∧ e.2.name = node.name

variable {entry : IdNode β → List UInt16 × PerlItem}

/-- The script finds the items in the order of their keys. -/
theorem Keyed.sort_eq (h : Keyed k nodes) (hentry : ∀ node, EntryOf k (entry node) node) :
    PerlHash.sort (nodes.map entry) = nodes.map entry := by
  refine List.Pairwise.insertionSort_eq (List.pairwise_map.mpr ?_)
  refine h.ascending.imp_of_mem fun _ hmem hlt => ?_
  rw [(hentry _).1, (hentry _).1]
  exact unitsLe_keyText (h.bounded _ hmem) hlt

theorem Keyed.distinct (h : Keyed k nodes) (hentry : ∀ node, EntryOf k (entry node) node) :
    Distinct (nodes.map entry) := by
  rw [Distinct, List.map_map, List.Nodup, List.pairwise_map]
  refine h.ascending.imp_of_mem fun _ hmem hlt => ?_
  rw [Function.comp_apply, Function.comp_apply, (hentry _).1, (hentry _).1]
  exact keyText_ne (h.bounded _ hmem) hlt

theorem printed_of_ne_nil (name : List UInt16) {h : PerlHash} (hne : h ≠ []) :
    printed name h = [⟨name, h.sort.map initializer⟩] := by
  rw [printed, if_neg]
  exact fun hempty => hne (List.isEmpty_iff.mp hempty)

end nodes

/-! ## What the arrays hold -/

section describes

variable {β : Type} {o : Objects} {describes : PciIdItem → β → Prop} {record : PciIdItem}
  {init : Initializer}

/-- The literal of a record is its name. -/
theorem CompiledItem.isString (h : CompiledItem o record init) {name : List UInt16}
    (hname : init.name = escape name) (hline : 0x0d ∉ name) :
    IsString o.text record.name name := by
  obtain ⟨string, name', hunescape, hstring, hrecord⟩ := h.name
  rw [hname, unescape_escape hline] at hunescape
  obtain rfl := Option.some.inj hunescape
  have hblock : o.strings.getD string [] = name := by
    rw [List.getD_eq_getElem?_getD, hstring, Option.getD_some]
  refine ⟨_, hrecord, fun i hi => ?_⟩
  rw [Nat.zero_add, Objects.text, hblock]
  rcases Nat.lt_or_ge i name.length with hlt | hge
  · rw [List.getD_eq_getElem _ _ hlt, List.getElem_append_left hlt]
  · rw [List.getD_eq_default _ _ hge, List.getElem_append_right hge, List.getElem_singleton]

/-- The array of children of a record holds the nodes. -/
theorem CompiledItem.describesChildren (h : CompiledItem o record init) {nodes : List β}
    {name : List UInt16} (hchild : init.child = if nodes.isEmpty then none else some name)
    (harray : nodes ≠ [] → ∃ block, o.find name = some block ∧
      List.Forall₂ describes (o.records block) nodes) :
    DescribesChildren describes o.items record nodes := by
  cases nodes with
  | nil =>
      obtain ⟨hnone, hzero⟩ := h.childless hchild
      exact ⟨hzero, .inl ⟨rfl, hnone⟩⟩
  | cons node nodes =>
      obtain ⟨block, hfind, hforall⟩ := harray (List.cons_ne_nil _ _)
      obtain ⟨block', hfind', hchildren, hnum⟩ := h.child name hchild
      obtain rfl : block = block' := Option.some.inj (hfind.symm.trans hfind')
      refine ⟨hnum.trans hforall.length_eq, .inr ⟨_, hchildren, fun i hi => ?_⟩⟩
      have hi' : i < (o.records block).length := hforall.length_eq ▸ hi
      rw [Nat.zero_add, Objects.items, List.getD_eq_getElem _ _ hi']
      exact hforall.get hi' hi

/-- The array that was compiled for some nodes holds them, if their records have the
right children. -/
theorem Compiled.forall₂ {k : ItemKind} {nodes : List (IdNode β)} (h : Keyed k nodes)
    {entry : IdNode β → List UInt16 × PerlItem} (hentry : ∀ node, EntryOf k (entry node) node)
    {name : List UInt16} (hne : nodes ≠ [])
    (hcompiled : ∀ d ∈ printed name (nodes.map entry), Compiled o d)
    (hbelow : ∀ node ∈ nodes, ∀ record, CompiledItem o record (initializer (entry node)) →
      DescribesChildren describes o.items record node.children) :
    ∃ block, o.find name = some block ∧
      List.Forall₂ (Describes describes o.text o.items) (o.records block) nodes := by
  rw [printed_of_ne_nil name (by simpa using hne), h.sort_eq hentry, List.map_map] at hcompiled
  obtain ⟨block, hfind, hitems⟩ := hcompiled _ (List.mem_singleton_self _)
  refine ⟨block, hfind, ?_⟩
  rw [List.forall₂_map_right_iff] at hitems
  rw [List.forall₂_iff_get] at hitems ⊢
  obtain ⟨hlength, hitems⟩ := hitems
  refine ⟨hlength, fun i hi hi' => ?_⟩
  have hitem := hitems i hi hi'
  have hmem : nodes.get ⟨i, hi'⟩ ∈ nodes := List.get_mem _ _
  obtain ⟨hkey, hname⟩ := hentry (nodes.get ⟨i, hi'⟩)
  refine ⟨?_, hitem.isString (congrArg escape hname) (h.names _ hmem), hbelow _ hmem _ hitem⟩
  obtain ⟨value, hvalue, hrecord⟩ := hitem.value
  rw [Function.comp_apply, initializer, hkey, constantValue_keyText (h.bounded _ hmem)] at hvalue
  rw [hrecord, ← Option.some.inj hvalue, UInt64.ofNat_toNat]

end describes

/-! ## The trees of a side -/

/-- The nodes of some trees are keyed, on every level. -/
structure KeyedTrees (σ : Side) (trees : List IdTree) : Prop where
  tops : Keyed σ.top trees
  branches : ∀ tree ∈ trees, Keyed σ.mid tree.children
  leaves : ∀ tree ∈ trees, ∀ branch ∈ tree.children, Keyed σ.low branch.children

section side

variable {σ : Side} {trees : List IdTree}

theorem KeyedTrees.distinct (h : KeyedTrees σ trees) : TreesDistinct σ trees where
  tops := h.tops.distinct fun _ => ⟨rfl, rfl⟩
  below tree htree :=
    { branches := (h.branches tree htree).distinct fun _ => ⟨rfl, rfl⟩
      leaves := fun branch hbranch =>
        (h.leaves tree htree branch hbranch).distinct fun _ => ⟨rfl, rfl⟩ }

/-- The array for what is below an ID on the middle level. -/
theorem branch_forall₂ {o : Objects} {curTop : List UInt16} {branch : IdBranch}
    (h : Keyed σ.low branch.children)
    (hcompiled : ∀ d ∈ branchDecls σ curTop branch, Compiled o d) (hne : branch.children ≠ []) :
    ∃ block, o.find (σ.lowName curTop (keyText σ.mid branch.value)) = some block ∧
      List.Forall₂ (DescribesLeaf o.text o.items) (o.records block) branch.children := by
  refine Compiled.forall₂ h (fun _ => ⟨rfl, rfl⟩) hne hcompiled fun leaf _ record hitem => ?_
  have hnil : leaf.children = [] := by
    cases leaf.children with
    | nil => rfl
    | cons node _ => exact node.elim
  obtain ⟨hnone, hzero⟩ := hitem.childless rfl
  rw [hnil]
  exact ⟨hzero, .inl ⟨rfl, hnone⟩⟩

/-- The array for what is below a tree. -/
theorem tree_forall₂ {o : Objects} {tree : IdTree} (h : Keyed σ.mid tree.children)
    (hleaves : ∀ branch ∈ tree.children, Keyed σ.low branch.children)
    (hcompiled : ∀ d ∈ treeDecls σ tree, Compiled o d) (hne : tree.children ≠ []) :
    ∃ block, o.find (σ.midName (keyText σ.top tree.value)) = some block ∧
      List.Forall₂ (DescribesBranch o.text o.items) (o.records block) tree.children := by
  refine Compiled.forall₂ h (fun _ => ⟨rfl, rfl⟩) hne
    (fun d hd => hcompiled d (List.mem_append_right _ hd)) fun branch hbranch record hitem => ?_
  refine hitem.describesChildren rfl (branch_forall₂ (hleaves branch hbranch) fun d hd => ?_)
  exact hcompiled d (List.mem_append_left _ (List.mem_flatMap.mpr ⟨branch, hbranch, hd⟩))

/-- The array of the trees. -/
theorem KeyedTrees.forall₂ {o : Objects} (h : KeyedTrees σ trees)
    (hcompiled : ∀ tree ∈ trees, ∀ d ∈ treeDecls σ tree, Compiled o d) (hne : trees ≠ [])
    (htop : ∀ d ∈ printed σ.topName (trees.map (treeEntry σ)), Compiled o d) :
    ∃ block, o.find σ.topName = some block ∧
      List.Forall₂ (DescribesTree o.text o.items) (o.records block) trees := by
  refine Compiled.forall₂ h.tops (fun _ => ⟨rfl, rfl⟩) hne htop fun tree htree record hitem => ?_
  exact hitem.describesChildren rfl
    (tree_forall₂ (h.branches tree htree) (h.leaves tree htree) (hcompiled tree htree))

/-! ## The names of the arrays -/

theorem mem_printed_names {name : List UInt16} {h : PerlHash} {n : List UInt16}
    (hn : n ∈ (printed name h).map ArrayDecl.name) : n = name := by
  obtain ⟨d, hd, rfl⟩ := List.mem_map.mp hn
  unfold printed at hd
  split at hd
  · cases hd
  · rw [List.mem_singleton.mp hd]

theorem nodup_printed_names (name : List UInt16) (h : PerlHash) :
    ((printed name h).map ArrayDecl.name).Nodup := by
  unfold printed
  split <;> simp

/-- The names of the arrays below a tree have its key in them. -/
theorem mem_treeDecls_names {tree : IdTree} {n : List UInt16}
    (hn : n ∈ (treeDecls σ tree).map ArrayDecl.name) :
    (∃ branch ∈ tree.children,
        n = σ.lowName (keyText σ.top tree.value) (keyText σ.mid branch.value)) ∨
      n = σ.midName (keyText σ.top tree.value) := by
  rw [treeDecls, List.map_append, List.mem_append, List.map_flatMap, List.mem_flatMap] at hn
  rcases hn with ⟨branch, hbranch, hn⟩ | hn
  · exact .inl ⟨branch, hbranch, mem_printed_names hn⟩
  · exact .inr (mem_printed_names hn)

/-- The names of the arrays below some trees have the tags of the side. -/
theorem tag_of_mem_names {n : List UInt16}
    (hn : n ∈ (trees.flatMap (treeDecls σ)).map ArrayDecl.name) :
    n.take 2 = σ.lowTag ∨ n.take 2 = σ.midTag := by
  rw [List.map_flatMap, List.mem_flatMap] at hn
  obtain ⟨tree, -, hn⟩ := hn
  rcases mem_treeDecls_names hn with ⟨branch, -, rfl⟩ | rfl
  · exact .inl (σ.lowTagged _ _)
  · exact .inr (σ.midTagged _)

theorem length_keyText (k : ItemKind) (v w : UInt64) :
    (keyText k v).length = (keyText k w).length := by
  rw [keyText, keyText, length_hexDigits, length_hexDigits]

theorem keyText_ne_of_mem {β : Type} {k : ItemKind} {nodes : List (IdNode β)} (h : Keyed k nodes) :
    nodes.Pairwise fun node node' => keyText k node.value ≠ keyText k node'.value :=
  h.ascending.imp_of_mem fun _ hmem hlt => keyText_ne (h.bounded _ hmem) hlt

/-- The names of the arrays below a tree are distinct. -/
theorem nodup_treeDecls_names {tree : IdTree} (h : Keyed σ.mid tree.children) :
    ((treeDecls σ tree).map ArrayDecl.name).Nodup := by
  rw [treeDecls, List.map_append, List.nodup_append]
  refine ⟨?_, nodup_printed_names _ _, ?_⟩
  · rw [List.map_flatMap, List.nodup_flatMap]
    refine ⟨fun branch _ => nodup_printed_names _ _, (keyText_ne_of_mem h).imp fun hne => ?_⟩
    intro n hn hn'
    have hname := (mem_printed_names hn).symm.trans (mem_printed_names hn')
    exact hne (σ.lowInj _ _ _ _ rfl hname).2
  · intro n hn n' hn' heq
    rw [List.map_flatMap, List.mem_flatMap] at hn
    obtain ⟨branch, -, hn⟩ := hn
    rw [heq, mem_printed_names hn'] at hn
    have htag := congrArg (List.take 2) (mem_printed_names hn)
    rw [σ.midTagged, σ.lowTagged] at htag
    exact σ.tags htag.symm

/-- The names of the arrays below some trees are distinct. -/
theorem KeyedTrees.nodup_names (h : KeyedTrees σ trees) :
    ((trees.flatMap (treeDecls σ)).map ArrayDecl.name).Nodup := by
  rw [List.map_flatMap, List.nodup_flatMap]
  refine ⟨fun tree htree => nodup_treeDecls_names (h.branches tree htree),
    (keyText_ne_of_mem h.tops).imp fun hne => ?_⟩
  intro n hn hn'
  rcases mem_treeDecls_names hn with ⟨branch, -, rfl⟩ | rfl
  · rcases mem_treeDecls_names hn' with ⟨branch', -, hname⟩ | hname
    · exact hne (σ.lowInj _ _ _ _ (length_keyText _ _ _) hname).1
    · have htag := congrArg (List.take 2) hname
      rw [σ.midTagged, σ.lowTagged] at htag
      exact σ.tags htag
  · rcases mem_treeDecls_names hn' with ⟨branch', -, hname⟩ | hname
    · have htag := congrArg (List.take 2) hname
      rw [σ.midTagged, σ.lowTagged] at htag
      exact σ.tags htag.symm
    · exact hne (σ.midInj _ _ hname)

end side

/-! ## The order of the arrays -/

section order

variable {σ : Side} {known : List (List UInt16)}

theorem refsBefore_printed {name : List UInt16} {h : PerlHash}
    (hrefs : ∀ e ∈ h, ∀ child, e.2.child = some child → child ∈ known) :
    RefsBefore known (printed name h) := by
  unfold printed
  split
  · trivial
  · refine ⟨fun init hinit => ?_, trivial⟩
    obtain ⟨e, he, rfl⟩ := List.mem_map.mp hinit
    exact hrefs e (List.mem_insertionSort _ |>.mp he)

/-- A node with something below it names an array that was declared. -/
theorem mem_printed_names_of_ne_nil (name : List UInt16) {h : PerlHash} (hne : h ≠ []) :
    name ∈ (printed name h).map ArrayDecl.name := by
  rw [printed_of_ne_nil name hne]
  exact List.mem_singleton_self _

theorem refsBefore_branches (curTop : List UInt16) (branches : List IdBranch) :
    RefsBefore known (branches.flatMap (branchDecls σ curTop)) := by
  induction branches generalizing known with
  | nil => trivial
  | cons branch branches ih =>
      rw [List.flatMap_cons, refsBefore_append_iff]
      refine ⟨refsBefore_printed fun e he child hchild => ?_, ih⟩
      obtain ⟨leaf, -, rfl⟩ := List.mem_map.mp he
      cases hchild

theorem refsBefore_treeDecls (tree : IdTree) : RefsBefore known (treeDecls σ tree) := by
  rw [treeDecls, refsBefore_append_iff]
  refine ⟨refsBefore_branches _ _, refsBefore_printed fun e he child hchild => ?_⟩
  obtain ⟨branch, hbranch, rfl⟩ := List.mem_map.mp he
  simp only [branchEntry, Option.ite_none_left_eq_some, Option.some.injEq] at hchild
  obtain ⟨hne, rfl⟩ := hchild
  refine List.mem_append_right _ ?_
  rw [List.map_flatMap]
  exact List.mem_flatMap.mpr ⟨branch, hbranch, mem_printed_names_of_ne_nil _ (by simpa using hne)⟩

theorem refsBefore_trees (trees : List IdTree) :
    RefsBefore known (trees.flatMap (treeDecls σ)) := by
  induction trees generalizing known with
  | nil => trivial
  | cons tree trees ih =>
      rw [List.flatMap_cons, refsBefore_append_iff]
      exact ⟨refsBefore_treeDecls tree, ih⟩

/-- The array of the trees comes after the arrays of the trees. -/
theorem refsBefore_top {trees : List IdTree} (name : List UInt16)
    (hknown : ∀ n ∈ (trees.flatMap (treeDecls σ)).map ArrayDecl.name, n ∈ known) :
    RefsBefore known (printed name (trees.map (treeEntry σ))) := by
  refine refsBefore_printed fun e he child hchild => ?_
  obtain ⟨tree, htree, rfl⟩ := List.mem_map.mp he
  simp only [treeEntry, Option.ite_none_left_eq_some, Option.some.injEq] at hchild
  obtain ⟨hne, rfl⟩ := hchild
  refine hknown _ ?_
  rw [List.map_flatMap]
  refine List.mem_flatMap.mpr ⟨tree, htree, ?_⟩
  rw [treeDecls, List.map_append]
  exact List.mem_append_right _ (mem_printed_names_of_ne_nil _ (by simpa using hne))

end order

/-! ## The initializers -/

section valid

variable {σ : Side}

theorem valid_initializer {k : ItemKind} {value : UInt64} {e : List UInt16 × PerlItem}
    (he : e.1 = keyText k value) (hname : 0x0d ∉ e.2.name) : (initializer e).Valid where
  value := by
    rw [initializer, he, constantValue_keyText_mod]
    rfl
  name := by
    rw [initializer, unescape_escape hname]
    rfl

theorem valid_printed {name : List UInt16} {h : PerlHash}
    (hkeys : ∀ e ∈ h, (∃ k value, e.1 = keyText k value) ∧ 0x0d ∉ e.2.name) :
    ∀ d ∈ printed name h, ∀ init ∈ d.items, init.Valid := by
  intro d hd init hinit
  unfold printed at hd
  split at hd
  · cases hd
  · obtain rfl := List.mem_singleton.mp hd
    obtain ⟨e, he, rfl⟩ := List.mem_map.mp hinit
    obtain ⟨⟨k, value, hkey⟩, hname⟩ := hkeys e ((List.mem_insertionSort _).mp he)
    exact valid_initializer hkey hname

theorem KeyedTrees.valid_treeDecls {trees : List IdTree} (h : KeyedTrees σ trees)
    {tree : IdTree} (htree : tree ∈ trees) :
    ∀ d ∈ treeDecls σ tree, ∀ init ∈ d.items, init.Valid := by
  intro d hd
  rcases List.mem_append.mp hd with hd | hd
  · obtain ⟨branch, hbranch, hd⟩ := List.mem_flatMap.mp hd
    refine valid_printed (fun e he => ?_) d hd
    obtain ⟨leaf, hleaf, rfl⟩ := List.mem_map.mp he
    exact ⟨⟨_, _, rfl⟩, (h.leaves tree htree branch hbranch).names leaf hleaf⟩
  · refine valid_printed (fun e he => ?_) d hd
    obtain ⟨branch, hbranch, rfl⟩ := List.mem_map.mp he
    exact ⟨⟨_, _, rfl⟩, (h.branches tree htree).names branch hbranch⟩

theorem KeyedTrees.valid_top {trees : List IdTree} (h : KeyedTrees σ trees)
    (name : List UInt16) :
    ∀ d ∈ printed name (trees.map (treeEntry σ)), ∀ init ∈ d.items, init.Valid := by
  refine valid_printed fun e he => ?_
  obtain ⟨tree, htree, rfl⟩ := List.mem_map.mp he
  exact ⟨⟨_, _, rfl⟩, h.tops.names tree htree⟩

theorem valid_internalDecl : ∀ init ∈ internalDecl.items, init.Valid := by
  intro init hinit
  simp only [internalDecl, List.mem_cons, List.not_mem_nil, or_false] at hinit
  rcases hinit with rfl | rfl
  · exact ⟨by decide, by decide⟩
  · exact ⟨by decide, by decide⟩

end valid

/-! ## The source as a whole -/

section source

variable {before vendors after : List IdTree} {first rest : List ArrayDecl}

/-- The names of both sides, of their roots and of the table are distinct. -/
theorem nodup_source_names (hvendors : KeyedTrees .vendors vendors)
    (hclasses : KeyedTrees .classes (before ++ after)) :
    (((before ++ after).flatMap (treeDecls .classes)).map ArrayDecl.name ++
      ((vendors.flatMap (treeDecls .vendors)).map ArrayDecl.name ++
        [vendorsName, classesName, internalName])).Nodup := by
  have hroots : ∀ n ∈ [vendorsName, classesName, internalName],
      n.take 2 ∉ [[0x44, 0x5f], [0x56, 0x5f], [0x53, 0x5f], [0x43, 0x5f]] := by decide
  rw [List.nodup_append]
  refine ⟨hclasses.nodup_names, ?_, ?_⟩
  · rw [List.nodup_append]
    refine ⟨hvendors.nodup_names, by decide, ?_⟩
    rintro n hn _ hn' rfl
    have htag : n.take 2 = [0x44, 0x5f] ∨ n.take 2 = [0x56, 0x5f] := tag_of_mem_names hn
    refine hroots n hn' ?_
    rcases htag with htag | htag <;> simp [htag]
  · rintro n hn _ hn' rfl
    have htag : n.take 2 = [0x53, 0x5f] ∨ n.take 2 = [0x43, 0x5f] := tag_of_mem_names hn
    rcases List.mem_append.mp hn' with hn' | hn'
    · have htag' : n.take 2 = [0x44, 0x5f] ∨ n.take 2 = [0x56, 0x5f] := tag_of_mem_names hn'
      rcases htag with htag | htag <;> rcases htag' with htag' | htag' <;>
        exact absurd (htag.symm.trans htag') (by decide)
    · refine hroots n hn' ?_
      rcases htag with htag | htag <;> simp [htag]

/-- The generated source compiles, and every array holds what its declaration says. -/
theorem source_compiles (hvendors : KeyedTrees .vendors vendors)
    (hclasses : KeyedTrees .classes (before ++ after)) (hne : vendors ≠ [])
    (hne' : before ++ after ≠ []) (hsplit : first ++ rest = before.flatMap (treeDecls .classes)) :
    ∃ o, (first ++ (vendors.flatMap (treeDecls .vendors) ++
          printed vendorsName (vendors.map (treeEntry .vendors))) ++ rest ++
          after.flatMap (treeDecls .classes) ++
            printed classesName ((before ++ after).map (treeEntry .classes)) ++
              [internalDecl]).foldlM Objects.define {} = some o ∧
      (∀ tree ∈ vendors, ∀ d ∈ treeDecls .vendors tree, Compiled o d) ∧
      (∀ tree ∈ before ++ after, ∀ d ∈ treeDecls .classes tree, Compiled o d) ∧
      (∀ d ∈ printed vendorsName (vendors.map (treeEntry .vendors)), Compiled o d) ∧
      (∀ d ∈ printed classesName ((before ++ after).map (treeEntry .classes)), Compiled o d) ∧
      Compiled o internalDecl := by
  have hsplitClasses : first ++ rest ++ after.flatMap (treeDecls .classes) =
      (before ++ after).flatMap (treeDecls .classes) := by
    rw [hsplit, List.flatMap_append]
  generalize hdecls : first ++ (vendors.flatMap (treeDecls .vendors) ++
    printed vendorsName (vendors.map (treeEntry .vendors))) ++ rest ++
      after.flatMap (treeDecls .classes) ++
        printed classesName ((before ++ after).map (treeEntry .classes)) ++ [internalDecl] = decls
  have hmem : ∀ d, d ∈ decls ↔ d ∈ first ++ rest ++ after.flatMap (treeDecls .classes) ∨
      d ∈ vendors.flatMap (treeDecls .vendors) ∨
      d ∈ printed vendorsName (vendors.map (treeEntry .vendors)) ∨
      d ∈ printed classesName ((before ++ after).map (treeEntry .classes)) ∨ d = internalDecl := by
    intro d
    simp only [← hdecls, List.mem_append, List.mem_singleton]
    tauto
  rw [hsplitClasses] at hmem
  have htopVendors := printed_of_ne_nil vendorsName
    (show vendors.map (treeEntry .vendors) ≠ [] by simpa using hne)
  have htopClasses := printed_of_ne_nil classesName
    (show (before ++ after).map (treeEntry .classes) ≠ [] by simpa using hne')
  have hnames : (({} : Objects).names ++ decls.map ArrayDecl.name).Nodup := by
    -- The vendors are moved behind all classes.
    have hperm := (List.perm_append_comm_assoc
      ((rest ++ after.flatMap (treeDecls .classes)).map ArrayDecl.name)
      ((vendors.flatMap (treeDecls .vendors)).map ArrayDecl.name ++ [vendorsName])
      [classesName, internalName]).append_left (first.map ArrayDecl.name)
    have hnodup := nodup_source_names hvendors hclasses
    rw [← hsplitClasses] at hnodup
    have hmoved := hperm.nodup (by simpa using hnodup)
    rw [← hdecls, htopVendors, htopClasses]
    simpa [Objects.names, internalDecl] using hmoved
  have hrefs : RefsBefore ({} : Objects).names decls := by
    have hbefore : RefsBefore [] (first ++ rest) := by
      rw [hsplit]
      exact refsBefore_trees before
    obtain ⟨hfirst, hrest⟩ := refsBefore_append_iff.mp hbefore
    have hclassNames : ∀ n ∈ ((before ++ after).flatMap (treeDecls .classes)).map ArrayDecl.name,
        n ∈ first.map ArrayDecl.name ∨ n ∈ rest.map ArrayDecl.name ∨
          n ∈ (after.flatMap (treeDecls .classes)).map ArrayDecl.name := by
      intro n hn
      rw [← hsplitClasses, List.map_append, List.map_append] at hn
      simpa only [List.mem_append, or_assoc] using hn
    rw [← hdecls]
    simp only [refsBefore_append_iff]
    refine ⟨⟨⟨⟨⟨hfirst, refsBefore_trees vendors, ?_⟩, hrest.mono ?_⟩, refsBefore_trees after⟩, ?_⟩,
      ?_⟩
    · exact refsBefore_top _ fun n hn => List.mem_append_right _ hn
    · intro n hn
      rw [List.map_append]
      exact List.mem_append_right _ (List.mem_append_left _ hn)
    · refine refsBefore_top _ fun n hn => ?_
      simp only [List.map_append, List.mem_append]
      rcases hclassNames n hn with hn | hn | hn
      · simp [hn]
      · simp [hn]
      · simp [hn]
    · rw [htopVendors, htopClasses]
      refine ⟨fun init hinit child hchild => ?_, trivial⟩
      simp only [internalDecl, List.mem_cons, List.not_mem_nil, or_false] at hinit
      rcases hinit with rfl | rfl
      · obtain rfl := Option.some.inj hchild
        simp
      · obtain rfl := Option.some.inj hchild
        simp
  have hvalid : ∀ d ∈ decls, ∀ init ∈ d.items, init.Valid := by
    intro d hd
    rcases (hmem d).mp hd with hd | hd | hd | hd | rfl
    · obtain ⟨tree, htree, hd⟩ := List.mem_flatMap.mp hd
      exact hclasses.valid_treeDecls htree d hd
    · obtain ⟨tree, htree, hd⟩ := List.mem_flatMap.mp hd
      exact hvendors.valid_treeDecls htree d hd
    · exact hvendors.valid_top _ d hd
    · exact hclasses.valid_top _ d hd
    · exact valid_internalDecl
  obtain ⟨o, hrun, -, hcompiled⟩ := foldlM_define hnames hrefs hvalid
  refine ⟨o, hrun, fun tree htree d hd => ?_, fun tree htree d hd => ?_, fun d hd => ?_,
    fun d hd => ?_, ?_⟩
  · exact hcompiled d ((hmem d).mpr (.inr (.inl (List.mem_flatMap.mpr ⟨tree, htree, hd⟩))))
  · exact hcompiled d ((hmem d).mpr (.inl (List.mem_flatMap.mpr ⟨tree, htree, hd⟩)))
  · exact hcompiled d ((hmem d).mpr (.inr (.inr (.inl hd))))
  · exact hcompiled d ((hmem d).mpr (.inr (.inr (.inr (.inl hd)))))
  · exact hcompiled _ ((hmem _).mpr (.inr (.inr (.inr (.inr rfl)))))

end source

end PciIds
end EfiApps
