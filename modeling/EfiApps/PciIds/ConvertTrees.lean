import EfiApps.PciIds.ConvertRun

/-!
# The trees in `convertpciids.pl`

Every tree becomes one declaration for its children and one for the children of each
of its children, as far as there are any; the topmost hash has an item for the tree
itself.
-/

namespace EfiApps
namespace PciIds

/-! ## Items and declarations -/

section entries

variable (σ : Side)

/-- The item of an ID on the lowest level. -/
def leafEntry (leaf : IdLeaf) : List UInt16 × PerlItem :=
  (keyText σ.low leaf.value, { name := leaf.name })

/-- The item of an ID on the middle level. -/
def branchEntry (curTop : List UInt16) (branch : IdBranch) : List UInt16 × PerlItem :=
  (keyText σ.mid branch.value,
    { name := branch.name
      child := if branch.children.isEmpty then none
        else some (σ.lowName curTop (keyText σ.mid branch.value)) })

/-- The item of a tree. -/
def treeEntry (tree : IdTree) : List UInt16 × PerlItem :=
  (keyText σ.top tree.value,
    { name := tree.name
      child := if tree.children.isEmpty then none
        else some (σ.midName (keyText σ.top tree.value)) })

/-- The declaration for what is below an ID on the middle level. -/
def branchDecls (curTop : List UInt16) (branch : IdBranch) : List ArrayDecl :=
  printed (σ.lowName curTop (keyText σ.mid branch.value)) (branch.children.map (leafEntry σ))

/-- The declarations for what is below a tree. -/
def treeDecls (tree : IdTree) : List ArrayDecl :=
  tree.children.flatMap (branchDecls σ (keyText σ.top tree.value)) ++
    printed (σ.midName (keyText σ.top tree.value))
      (tree.children.map (branchEntry σ (keyText σ.top tree.value)))

/-- The keys of a hash are distinct. -/
def Distinct (h : PerlHash) : Prop := (h.map Prod.fst).Nodup

end entries

/-! ## Changing a hash -/

section modify

variable {h : PerlHash} {key : List UInt16}

theorem modify_new (hnew : key ∉ h.map Prod.fst) (f : PerlItem → PerlItem) :
    h.modify key f = h ++ [(key, f {})] := by
  rw [PerlHash.modify, if_neg]
  intro hany
  obtain ⟨e, he, hkey⟩ := List.any_eq_true.mp hany
  exact hnew (List.mem_map.mpr ⟨e, he, by simpa using hkey⟩)

theorem modify_last (hnew : key ∉ h.map Prod.fst) (item : PerlItem) (f : PerlItem → PerlItem) :
    PerlHash.modify (h ++ [(key, item)]) key f = h ++ [(key, f item)] := by
  have hsame : h.map (fun e => if e.1 = key then (key, f e.2) else e) = h := by
    conv_rhs => rw [← List.map_id h]
    refine List.map_congr_left fun e he => if_neg fun hkey => hnew ?_
    exact List.mem_map.mpr ⟨e, he, hkey⟩
  rw [PerlHash.modify, if_pos (by simp), List.map_append, hsame]
  simp

end modify

/-! ## The lines of trees -/

section run

variable {σ : Side} {v : View}

theorem Distinct.not_mem {h h' : PerlHash} {e : List UInt16 × PerlItem}
    (hd : Distinct (h ++ e :: h')) : e.1 ∉ h.map Prod.fst := by
  rw [Distinct, List.map_append, List.map_cons, List.nodup_append] at hd
  exact fun hmem => hd.2.2 _ hmem _ List.mem_cons_self rfl

/-- The lines below an ID on the middle level. -/
theorem foldl_leaves {leaves : List IdLeaf} {mid : PerlHash} {item : PerlItem}
    (hmid : v.mid = mid ++ [(v.curMid, item)]) (hnew : v.curMid ∉ mid.map Prod.fst)
    (hdistinct : Distinct (v.low ++ leaves.map (leafEntry σ))) :
    (leaves.map (leafLine σ.low)).foldl (View.addItem σ) v =
      { v with
        low := v.low ++ leaves.map (leafEntry σ)
        mid := mid ++ [(v.curMid,
          { item with
            child := if leaves.isEmpty then item.child
              else some (σ.lowName v.curTop v.curMid) })] } := by
  induction leaves generalizing v item with
  | nil =>
      obtain ⟨low, mid', top, curMid, curTop, out⟩ := v
      simp only at hmid
      simp [hmid]
  | cons leaf leaves ih =>
      have hstep : v.addItem σ (leafLine σ.low leaf) =
          { v with
            low := v.low ++ [leafEntry σ leaf]
            mid := mid ++ [(v.curMid,
              { item with child := some (σ.lowName v.curTop v.curMid) })] } := by
        have hkey : keyText σ.low leaf.value ∉ v.low.map Prod.fst := hdistinct.not_mem
        rw [View.addItem, leafLine, if_pos rfl, View.addLow, hmid, modify_last hnew]
        dsimp only
        rw [modify_new hkey]
        rfl
      rw [List.map_cons, List.foldl_cons, hstep]
      generalize hv' : View.mk (v.low ++ [leafEntry σ leaf]) _ _ _ _ _ = v'
      rw [ih (v := v') (by rw [← hv']) (by rw [← hv']; exact hnew)
        (by rw [← hv']; simpa using hdistinct), ← hv']
      simp

/-- The lines of an ID on the middle level and of what is below it. -/
theorem foldl_branch {branch : IdBranch} {top : PerlHash} {item : PerlItem}
    (htop : v.top = top ++ [(v.curTop, item)]) (hnew : v.curTop ∉ top.map Prod.fst)
    (hkey : keyText σ.mid branch.value ∉ v.mid.map Prod.fst)
    (hbelow : Distinct (branch.children.map (leafEntry σ))) :
    (branchLines σ.mid σ.low branch).foldl (View.addItem σ) v =
      { low := branch.children.map (leafEntry σ)
        mid := v.mid ++ [branchEntry σ v.curTop branch]
        top := top ++ [(v.curTop, { item with child := some (σ.midName v.curTop) })]
        curMid := keyText σ.mid branch.value
        curTop := v.curTop
        out := (v.printLow σ).out } := by
  have hstep : v.addItem σ ⟨σ.mid, branch.value, branch.name⟩ =
      { low := []
        mid := v.mid ++ [(keyText σ.mid branch.value, { name := branch.name })]
        top := top ++ [(v.curTop, { item with child := some (σ.midName v.curTop) })]
        curMid := keyText σ.mid branch.value
        curTop := v.curTop
        out := (v.printLow σ).out } := by
    rw [View.addItem, if_neg σ.distinct.1.symm, if_pos rfl]
    simp only [View.addMid, View.printLow, htop]
    rw [modify_last hnew, modify_new hkey]
  rw [branchLines, List.foldl_cons, hstep, foldl_leaves rfl hkey (by simpa using hbelow)]
  simp [branchEntry]

/-- The lines of all that is below a tree. -/
theorem foldl_branches {branches : List IdBranch} {top : PerlHash} {item : PerlItem}
    (htop : v.top = top ++ [(v.curTop, item)]) (hnew : v.curTop ∉ top.map Prod.fst)
    (hdistinct : Distinct (v.mid ++ branches.map (branchEntry σ v.curTop)))
    (hbelow : ∀ branch ∈ branches, Distinct (branch.children.map (leafEntry σ))) :
    ∃ curMid, ((branches.flatMap (branchLines σ.mid σ.low)).foldl (View.addItem σ) v).printLow σ =
      { low := []
        mid := v.mid ++ branches.map (branchEntry σ v.curTop)
        top := top ++ [(v.curTop,
          { item with
            child := if branches.isEmpty then item.child else some (σ.midName v.curTop) })]
        curMid := curMid
        curTop := v.curTop
        out := (v.printLow σ).out ++ branches.flatMap (branchDecls σ v.curTop) } := by
  induction branches generalizing v item with
  | nil => exact ⟨v.curMid, by simp [View.printLow, htop]⟩
  | cons branch branches ih =>
      have hbranch := foldl_branch htop hnew hdistinct.not_mem (hbelow branch List.mem_cons_self)
      rw [List.flatMap_cons, List.foldl_append, hbranch]
      generalize hv' : View.mk (branch.children.map (leafEntry σ)) _ _ _ _ _ = v'
      obtain ⟨curMid, hrest⟩ := ih (v := v') (by rw [← hv']) (by rw [← hv']; exact hnew)
        (by rw [← hv']; simpa using hdistinct)
        fun branch' hmem => hbelow branch' (List.mem_cons_of_mem _ hmem)
      refine ⟨curMid, hrest.trans ?_⟩
      rw [← hv']
      simp [View.printLow, branchDecls]

/-- The keys below a tree are distinct. -/
structure TreeDistinct (σ : Side) (tree : IdTree) : Prop where
  branches : Distinct (tree.children.map (branchEntry σ (keyText σ.top tree.value)))
  leaves : ∀ branch ∈ tree.children, Distinct (branch.children.map (leafEntry σ))

/-- The lines of a tree. -/
theorem foldl_tree {tree : IdTree} (hkey : keyText σ.top tree.value ∉ v.top.map Prod.fst)
    (hbelow : TreeDistinct σ tree) :
    ∃ curMid, ((treeLines σ.top σ.mid σ.low tree).foldl (View.addItem σ) v).print σ =
      { low := []
        mid := []
        top := v.top ++ [treeEntry σ tree]
        curMid := curMid
        curTop := keyText σ.top tree.value
        out := (v.print σ).out ++ treeDecls σ tree } := by
  have hstep : v.addItem σ ⟨σ.top, tree.value, tree.name⟩ =
      { low := []
        mid := []
        top := v.top ++ [(keyText σ.top tree.value, { name := tree.name })]
        curMid := v.curMid
        curTop := keyText σ.top tree.value
        out := (v.print σ).out } := by
    rw [View.addItem, if_neg σ.distinct.2.2.symm, if_neg σ.distinct.2.1.symm]
    simp only [View.addTop, View.print, View.printLow, View.printMid]
    rw [modify_new hkey]
  rw [treeLines, List.foldl_cons, hstep]
  generalize hw : View.mk _ _ _ _ _ _ = w
  obtain ⟨curMid, hbranches⟩ := foldl_branches (v := w) (by rw [← hw]) (by rw [← hw]; exact hkey)
    (by rw [← hw]; simpa using hbelow.branches) hbelow.leaves
  refine ⟨curMid, ?_⟩
  rw [View.print, hbranches, ← hw]
  simp [View.printMid, View.printLow, treeEntry, treeDecls, printed]

/-- The lines of some trees. -/
theorem foldl_trees {trees : List IdTree} (hdistinct : Distinct (v.top ++ trees.map (treeEntry σ)))
    (hbelow : ∀ tree ∈ trees, TreeDistinct σ tree) :
    ∃ curMid curTop,
      ((trees.flatMap (treeLines σ.top σ.mid σ.low)).foldl (View.addItem σ) v).print σ =
        { low := []
          mid := []
          top := v.top ++ trees.map (treeEntry σ)
          curMid := curMid
          curTop := curTop
          out := (v.print σ).out ++ trees.flatMap (treeDecls σ) } := by
  induction trees generalizing v with
  | nil => exact ⟨v.curMid, v.curTop, by simp [View.print, View.printMid, View.printLow]⟩
  | cons tree trees ih =>
      obtain ⟨curMid, htree⟩ := foldl_tree hdistinct.not_mem (hbelow tree List.mem_cons_self)
      rw [List.flatMap_cons, List.foldl_append]
      generalize (treeLines σ.top σ.mid σ.low tree).foldl (View.addItem σ) v = v' at htree ⊢
      have htop : v'.top = v.top ++ [treeEntry σ tree] := congrArg View.top htree
      obtain ⟨curMid', curTop', hrest⟩ := ih (v := v') (by rw [htop]; simpa using hdistinct)
        fun tree' hmem => hbelow tree' (List.mem_cons_of_mem _ hmem)
      refine ⟨curMid', curTop', hrest.trans ?_⟩
      rw [htop, htree]
      simp

/-- The declarations of the hashes that were not printed yet. -/
def View.pending (σ : Side) (v : View) : List ArrayDecl :=
  printed (σ.lowName v.curTop v.curMid) v.low ++ printed (σ.midName v.curTop) v.mid

theorem print_out (σ : Side) (v : View) : (v.print σ).out = v.out ++ v.pending σ := by
  simp [View.print, View.printMid, View.printLow, View.pending]

end run

/-! ## Both sides -/

/-- The lines of trees of a side. -/
def Side.lines (σ : Side) (trees : List IdTree) : List IdLine :=
  trees.flatMap (treeLines σ.top σ.mid σ.low)

theorem kind_of_mem_lines (σ : Side) (trees : List IdTree) :
    ∀ i ∈ σ.lines trees, i.kind ∈ σ.kinds := by
  intro i hi
  obtain ⟨hlow, hmid, htop⟩ := mem_kinds σ
  obtain ⟨tree, -, hi⟩ := List.mem_flatMap.mp hi
  rcases List.mem_cons.mp hi with rfl | hi
  · exact htop
  · obtain ⟨branch, -, hi⟩ := List.mem_flatMap.mp hi
    rcases List.mem_cons.mp hi with rfl | hi
    · exact hmid
    · obtain ⟨leaf, -, rfl⟩ := List.mem_map.mp hi
      exact hlow

/-- The keys of some trees are distinct, on every level. -/
structure TreesDistinct (σ : Side) (trees : List IdTree) : Prop where
  tops : Distinct (trees.map (treeEntry σ))
  below : ∀ tree ∈ trees, TreeDistinct σ tree

/-- The lines of trees of a side, from a state in which its two lower hashes may be
pending. -/
theorem Quiet.foldl_lines {σ : Side} {st : Perl} (h : Quiet σ st) {trees : List IdTree}
    (hdistinct : Distinct (st.hash σ.top ++ trees.map (treeEntry σ)))
    (hbelow : ∀ tree ∈ trees, TreeDistinct σ tree) :
    SameBut σ st ((σ.lines trees).foldl Perl.addItem st) ∧
      ∃ curMid curTop, (((σ.lines trees).foldl Perl.addItem st).view σ).print σ =
        { low := []
          mid := []
          top := st.hash σ.top ++ trees.map (treeEntry σ)
          curMid := curMid
          curTop := curTop
          out := st.out ++ (st.view σ).pending σ ++ trees.flatMap (treeDecls σ) } := by
  obtain ⟨hview, hsame⟩ := h.view_foldl (kind_of_mem_lines σ trees)
  obtain ⟨curMid, curTop, htrees⟩ := foldl_trees (v := st.view σ) hdistinct hbelow
  refine ⟨hsame, curMid, curTop, ?_⟩
  rw [hview, Side.lines, htrees, print_out]
  rfl

/-- All hashes of the vendors are printed before the first class. -/
theorem view_printall_vendors (st : Perl) :
    (st.printall 3).view .vendors = ((st.view .vendors).print .vendors).printTop .vendors := by
  rw [View.print, ← view_printLow, ← view_printMid, ← view_printTop]
  rfl

/-- At the end the hashes of the classes are printed. -/
theorem Quiet.view_printall_classes {st : Perl} (h : Quiet .classes st) :
    (st.printall 6).view .classes = ((st.view .classes).print .classes).printTop .classes := by
  rw [View.print, ← view_printLow, ← view_printMid, ← view_printTop,
    show st.printall 6 = (((Side.classes.before.foldl Perl.printitems st).printitems
      Side.classes.low).printitems Side.classes.mid).printitems Side.classes.top from rfl,
    foldl_printitems_of_nil h]

/-- What is pending of the vendors may be printed before the next lines of classes, as
the first of them prints it. -/
theorem foldl_printall_vendors (st : Perl) (trees : List IdTree) :
    (((Side.classes.lines trees).foldl Perl.addItem st).printall 6) =
      ((Side.classes.lines trees).foldl Perl.addItem (st.printall 3)).printall 6 := by
  cases trees with
  | nil => exact (printall_printall (by decide) st).symm
  | cons tree trees =>
      have hfirst : (st.printall 3).addItem ⟨.baseClass, tree.value, tree.name⟩ =
          st.addItem ⟨.baseClass, tree.value, tree.name⟩ := by
        rw [Perl.addItem, Perl.addItem]
        dsimp only
        rw [printall_printall (by decide)]
      rw [Side.lines, List.flatMap_cons, treeLines, List.cons_append, List.foldl_cons,
        List.foldl_cons]
      exact congrArg (fun st' => (List.foldl Perl.addItem st' _).printall 6) hfirst.symm

/-- The declarations for a text whose vendors are not separated by classes.  Those of
the last class before the vendors may come in two parts. -/
theorem script_out {before vendors after : List IdTree}
    (hvendors : TreesDistinct .vendors vendors)
    (hclasses : TreesDistinct .classes (before ++ after)) :
    ∃ first rest, first ++ rest = before.flatMap (treeDecls .classes) ∧
      (((Side.classes.lines before ++ Side.vendors.lines vendors ++
          Side.classes.lines after).foldl Perl.addItem {}).printall 6).out =
        first ++ (vendors.flatMap (treeDecls .vendors) ++
          printed vendorsName (vendors.map (treeEntry .vendors))) ++ rest ++
          after.flatMap (treeDecls .classes) ++
            printed classesName ((before ++ after).map (treeEntry .classes)) := by
  have hbelow : ∀ tree ∈ before ++ after, TreeDistinct .classes tree := hclasses.below
  have htops := hclasses.tops
  rw [List.map_append] at htops
  -- The classes before the vendors: the last of them is pending.
  have hquiet : Quiet .classes {} := fun _ _ => rfl
  have hdistinct₁ : Distinct (before.map (treeEntry .classes)) := by
    rw [Distinct, List.map_append] at htops
    exact htops.of_append_left
  obtain ⟨hsame₁, curMid₁, curTop₁, hprint₁⟩ := hquiet.foldl_lines hdistinct₁
    fun tree htree => hbelow tree (List.mem_append_left _ htree)
  generalize hst₁ : (Side.classes.lines before).foldl Perl.addItem {} = st₁ at hsame₁ hprint₁
  have hout₁ : st₁.out ++ (st₁.view .classes).pending .classes =
      before.flatMap (treeDecls .classes) := by
    rw [show st₁.out = (st₁.view .classes).out from rfl, ← print_out, hprint₁]
    rfl
  have htop₁ : st₁.hash .baseClass = before.map (treeEntry .classes) := congrArg View.top hprint₁
  -- The vendors leave it pending.
  have hquiet₁ : Quiet .vendors st₁ := fun _ hk => nomatch hk
  have hnil₁ : ∀ j ∉ Side.classes.kinds, st₁.hash j = [] := hsame₁.hash
  obtain ⟨hsame₂, curMid₂, curTop₂, hprint₂⟩ := hquiet₁.foldl_lines
    (by rw [hnil₁ _ (by decide)]; exact hvendors.tops) hvendors.below
  generalize hst₂ : (Side.vendors.lines vendors).foldl Perl.addItem st₁ = st₂ at hsame₂ hprint₂
  have hpending₁ : (st₁.view .vendors).pending .vendors = [] := by
    rw [View.pending, show (st₁.view .vendors).low = [] from hnil₁ _ (by decide),
      show (st₁.view .vendors).mid = [] from hnil₁ _ (by decide)]
    rfl
  have htop₂ : (st₁.hash Side.vendors.top) = [] := hnil₁ _ (by decide)
  rw [hpending₁, htop₂, List.append_nil, List.nil_append] at hprint₂
  -- All hashes of the vendors are printed.
  have hview₃ := view_printall_vendors st₂
  rw [hprint₂] at hview₃
  have hout₃ : (st₂.printall 3).out = st₁.out ++ (vendors.flatMap (treeDecls .vendors) ++
      printed vendorsName (vendors.map (treeEntry .vendors))) := by
    rw [← List.append_assoc]
    exact congrArg View.out hview₃
  have hquiet₃ : Quiet .classes (st₂.printall 3) := by
    intro k hk
    rw [Perl.printall, foldl_printitems_hash]
    exact if_pos hk
  have hsame₃ : ∀ j ∉ Side.vendors.kinds, (st₂.printall 3).hash j = st₁.hash j ∧
      (st₂.printall 3).current j = st₁.current j := by
    intro j hj
    refine ⟨?_, ?_⟩
    · rw [← hsame₂.hash j hj, Perl.printall, foldl_printitems_hash]
      have hkinds : ∀ k ∈ printOrder.take 3, k ∈ Side.vendors.kinds := by decide
      exact if_neg fun hmem => hj (hkinds j hmem)
    · rw [← hsame₂.current j hj]
      simp [Perl.printall, printOrder, printitems_current]
  have hpending₃ : ((st₂.printall 3).view .classes).pending .classes =
      (st₁.view .classes).pending .classes := by
    simp only [View.pending, Perl.view]
    rw [(hsame₃ Side.classes.low (by decide)).1, (hsame₃ Side.classes.mid (by decide)).1,
      (hsame₃ Side.classes.mid (by decide)).2, (hsame₃ Side.classes.top (by decide)).2]
  have htop₃ : (st₂.printall 3).hash Side.classes.top = before.map (treeEntry .classes) :=
    (hsame₃ _ (by decide)).1.trans htop₁
  -- The classes after the vendors, and the end.
  obtain ⟨hsame₄, curMid₄, curTop₄, hprint₄⟩ := hquiet₃.foldl_lines (by rw [htop₃]; exact htops)
    fun tree htree => hbelow tree (List.mem_append_right _ htree)
  have hview₄ := (hquiet₃.of_sameBut hsame₄).view_printall_classes
  rw [hprint₄, hpending₃, htop₃, hout₃] at hview₄
  refine ⟨st₁.out, (st₁.view .classes).pending .classes, hout₁, ?_⟩
  rw [List.foldl_append, List.foldl_append, hst₁, hst₂, foldl_printall_vendors, List.map_append]
  exact congrArg View.out hview₄

end PciIds
end EfiApps
