import EfiApps.PciIds.Layout

/-!
# The table of a text

Both passes together turn a well-formed text into a table of exactly its trees, as
long as the two roots are empty when `ReadPciIds` is called.  That is the case
before the first successful call.
-/

namespace EfiApps
namespace PciIds

open PciMisc

section layout

variable {start count : ItemKind → Nat} {file buffer : Nat} {a a' : Arrays} {text : TextMemory}

/-! ## The lines of the trees -/

theorem lays_branch {k k' : ItemKind} (howner : k'.owner = .items k)
    (hfall : ∀ j ∈ k'.fallThrough, j ∈ k.fallThrough)
    (hlow : ∀ j ∈ [k'], j ≠ k ∧ .items j ≠ k.owner) (node : IdBranch) :
    Lays start file buffer (text buffer) k [k'] (fun m => DescribesBranch text m) [node]
      (branchLines k k' node) := by
  refine lays_node howner hfall hlow ?_
  rw [List.map_eq_flatMap]
  exact Lays.flatMap fun leaf _ => lays_leaf k' leaf

theorem lays_tree {k k' k'' : ItemKind} (howner : k'.owner = .items k)
    (howner' : k''.owner = .items k') (hfall : ∀ j ∈ k'.fallThrough, j ∈ k.fallThrough)
    (hfall' : ∀ j ∈ k''.fallThrough, j ∈ k'.fallThrough)
    (hlow : ∀ j ∈ [k', k''], j ≠ k ∧ .items j ≠ k.owner)
    (hlow' : ∀ j ∈ [k''], j ≠ k' ∧ .items j ≠ k'.owner) (tree : IdTree) :
    Lays start file buffer (text buffer) k [k', k''] (fun m => DescribesTree text m) [tree]
      (treeLines k k' k'' tree) :=
  lays_node howner hfall hlow (Lays.flatMap fun node _ => lays_branch howner' hfall' hlow' node)

theorem lays_vendor (tree : IdTree) :
    Lays start file buffer (text buffer) .vendor [.device, .subsystem]
      (fun m => DescribesTree text m) [tree] (Entry.vendor tree).lines :=
  lays_tree rfl rfl (by decide) (by decide) (by decide) (by decide) tree

theorem lays_baseClass (tree : IdTree) :
    Lays start file buffer (text buffer) .baseClass [.subclass, .progif]
      (fun m => DescribesTree text m) [tree] (Entry.baseClass tree).lines :=
  lays_tree rfl rfl (by decide) (by decide) (by decide) (by decide) tree

/-- The lines of all trees add the vendors and the classes. -/
theorem entries_grown (start : ItemKind → Nat) (file : Nat) {entries : List Entry}
    {placed : List Placed}
    (hmatches : List.Forall₂ (Placed.Matches (text buffer)) placed (entries.flatMap Entry.lines)) :
    OwnersOpen start file buffer a placed ∧
      Grown start file .vendor [.device, .subsystem] (fun m => DescribesTree text m)
        (entries.filterMap Entry.vendor?) a (a.pushAll start file buffer placed) ∧
      Grown start file .baseClass [.subclass, .progif] (fun m => DescribesTree text m)
        (entries.filterMap Entry.baseClass?) a (a.pushAll start file buffer placed) := by
  induction entries generalizing a placed with
  | nil =>
      obtain rfl := List.forall₂_nil_right_iff.mp hmatches
      exact ⟨trivial, .of_same rfl rfl fun _ _ => rfl, .of_same rfl rfl fun _ _ => rfl⟩
  | cons entry entries ih =>
      rw [List.flatMap_cons] at hmatches
      have hfirst := List.forall₂_take_append placed _ _ hmatches
      have hrest := List.forall₂_drop_append placed _ _ hmatches
      rw [← List.take_append_drop entry.lines.length placed, ownersOpen_append_iff,
        Arrays.pushAll_append]
      generalize List.take entry.lines.length placed = placed₁ at hfirst ⊢
      generalize List.drop entry.lines.length placed = placed₂ at hrest ⊢
      obtain ⟨howners, hvendors, hclasses⟩ := ih (a := a.pushAll start file buffer placed₁) hrest
      cases entry with
      | vendor tree =>
          obtain ⟨howners₁, hadded⟩ := lays_vendor tree a placed₁ (fun p hp => by cases hp) hfirst
          refine ⟨⟨howners₁, howners⟩, hadded.toGrown.trans hvendors, hclasses.after_same ?_ ?_ ?_⟩
          · exact hadded.other _ (by decide) (by decide) (by decide)
          · exact hadded.other _ (by decide) (by decide) (by decide)
          · exact fun j hj => hadded.other _ (by revert j; decide) (by revert j; decide)
              (by revert j; decide)
      | baseClass tree =>
          obtain ⟨howners₁, hadded⟩ := lays_baseClass tree a placed₁ (fun p hp => by cases hp) hfirst
          refine ⟨⟨howners₁, howners⟩, hvendors.after_same ?_ ?_ ?_, hadded.toGrown.trans hclasses⟩
          · exact hadded.other _ (by decide) (by decide) (by decide)
          · exact hadded.other _ (by decide) (by decide) (by decide)
          · exact fun j hj => hadded.other _ (by revert j; decide) (by revert j; decide)
              (by revert j; decide)

/-! ## The table holds the arrays -/

theorem length_push (x : Placed) (k : ItemKind) :
    ((a.push start file buffer x).records (.items k)).length =
      (a.records (.items k)).length + if x.kind = k then 1 else 0 := by
  by_cases hk : x.kind = k
  · subst hk
    rw [push_self, List.length_append, List.length_singleton, if_pos rfl]
  · rw [if_neg hk, Nat.add_zero]
    by_cases howner : .items k = x.kind.owner
    · rw [howner, push_owner, length_modifyLast]
    · rw [push_other x (fun heq => hk (Slot.items.inj heq).symm) howner]

theorem Fits.pushAll {t : Table} (h : Fits start count t a) (hsep : Separate start count)
    {placed : List Placed} (howners : OwnersOpen start file buffer a placed)
    (hroom : ∀ k, (a.records (.items k)).length + placed.countP (fun x => x.kind = k) ≤ count k) :
    Fits start count (placed.foldl (Table.add file buffer) t)
      (a.pushAll start file buffer placed) := by
  induction placed generalizing t a with
  | nil => exact h
  | cons x placed ih =>
      obtain ⟨howner, howners⟩ := howners
      have hself := hroom x.kind
      rw [List.countP_cons_of_pos (by simp)] at hself
      refine ih (h.push hsep howner (by omega)) howners fun k => ?_
      have hk := hroom k
      rw [length_push]
      rw [List.countP_cons] at hk
      simp only [decide_eq_true_eq] at hk
      omega

/-- The arrays before the first line. -/
def Arrays.empty (vendors classes : PciIdItem) : Arrays where
  records
    | .vendors => [vendors]
    | .classes => [classes]
    | .items _ => []
  opened _ := false

theorem fits_empty (start count : ItemKind → Nat) (vendors classes : PciIdItem) :
    Fits start count ⟨fun _ => {}, vendors, classes, start⟩ (.empty vendors classes) where
  cursor _ := rfl
  nonempty _ h := by cases h
  items _ _ _ := rfl
  named _ _ h := by cases h
  bounded _ := Nat.zero_le _
  vendors := rfl
  classes := rfl

theorem Fits.agrees {t : Table} (h : Fits start count t a) {m : ItemMemory}
    (hm : m file = t.items) (k : ItemKind) : Agrees start file m a k := by
  intro i hi
  rw [hm, h.items k i (by have := h.bounded k; omega), List.getD_eq_getElem _ _ hi]

/-- An empty root that has adopted its trees describes them. -/
theorem Grown.describesForest {k : ItemKind} {low : List ItemKind} {trees : List IdTree}
    (h : Grown start file k low (fun m => DescribesTree text m) trees a a')
    (hempty : a.records (.items k) = []) {root root' : PciIdItem}
    (hroot : a.records k.owner = [root]) (hroot' : a'.records k.owner = [root'])
    (hnone : root.children = none) (hzero : root.numChildren = 0) {m : ItemMemory}
    (hself : Agrees start file m a' k) (hlow : ∀ j ∈ low, Agrees start file m a' j) :
    DescribesForest text m root' trees := by
  obtain ⟨records, hrecords, hlength, hdescribes⟩ := h.self
  have howner := h.owner
  rw [hempty, List.nil_append] at hrecords
  rw [hroot, hroot', hempty] at howner
  obtain rfl : root' = adoptAll ⟨file, start k + 0⟩ trees.length root := List.singleton_inj.mp howner
  refine ⟨by rw [adoptAll, hzero, Nat.zero_add], ?_⟩
  cases trees with
  | nil => exact .inl ⟨rfl, hnone⟩
  | cons tree trees =>
      refine .inr ⟨⟨file, start k + 0⟩, by simp [adoptAll, hnone], fun i hi => ?_⟩
      have hforall := hdescribes m hlow
      have hi' : i < (a'.records (.items k)).length := by rw [hrecords, hlength]; exact hi
      dsimp only
      rw [Nat.add_zero, hself i hi']
      simp only [hrecords]
      exact hforall.get (hlength ▸ hi) hi

end layout

/-! ## Both passes -/

theorem head_ne_bom (line : Line) : ∀ u ∈ (line.units ++ [0x0a]).head?, u ≠ 0xfeff := by
  have hdigit : ∀ d < 16, hexDigit d ≠ 0xfeff := by decide
  cases line with
  | blank =>
      intro u hu
      obtain rfl : 0x0a = u := by simpa [Line.units] using hu
      decide
  | comment text =>
      intro u hu
      obtain rfl : 0x23 = u := by simpa [Line.units] using hu
      decide
  | item i =>
      obtain ⟨kind, value, name⟩ := i
      intro u hu
      cases kind with
      | vendor =>
          obtain rfl := Option.some.inj hu
          exact hdigit _ (Nat.mod_lt _ (by decide))
      | _ =>
          obtain rfl := Option.some.inj hu
          decide

/-- Where the lines of a text start. -/
theorem IdsText.start_spec (text : IdsText) {contents : Nat → UInt16}
    (htext : TextAt contents 0 text.units) :
    TextAt contents (if contents 0 = 0xfeff then 1 else 0) (renderLines text.lines) ∧
      (if contents 0 = 0xfeff then 1 else 0) + (renderLines text.lines).length =
        max (if contents 0 = 0xfeff then 1 else 0) text.units.length := by
  unfold IdsText.units at htext ⊢
  cases hbom : text.bom with
  | true =>
      rw [hbom, if_pos rfl] at htext
      obtain ⟨hfirst, hlines⟩ := textAt_cons_iff.mp htext
      rw [if_pos hfirst, if_pos rfl, List.length_append, List.length_singleton]
      exact ⟨hlines, by omega⟩
  | false =>
      rw [hbom, if_neg Bool.false_ne_true, List.nil_append] at htext
      rw [if_neg Bool.false_ne_true, List.nil_append]
      cases hlines : text.lines with
      | nil => exact ⟨textAt_nil, by simp [renderLines]⟩
      | cons line lines =>
          rw [hlines] at htext
          have hfirst : contents 0 ≠ 0xfeff := by
            have hhead := head_ne_bom line
            rw [show renderLines (line :: lines) = (line.units ++ [0x0a]) ++ renderLines lines from rfl]
              at htext
            have hline := (textAt_append_iff.mp htext).1
            cases hunits : line.units ++ [0x0a] with
            | nil => simp at hunits
            | cons u units =>
                rw [hunits] at hline hhead
                rw [(textAt_cons_iff.mp hline).1]
                exact hhead u (by simp)
          rw [if_neg hfirst]
          exact ⟨htext, by omega⟩

theorem foldl_countLine (lines : List Line) (count : ItemKind → Nat) (k : ItemKind) :
    lines.foldl countLine count k =
      count k + (lines.filterMap Line.item?).countP fun i => i.kind = k := by
  induction lines generalizing count with
  | nil => rfl
  | cons line lines ih =>
      rw [List.foldl_cons, ih]
      cases line with
      | blank => rfl
      | comment text => rfl
      | item i =>
          rw [show (Line.item i :: lines).filterMap Line.item? = i :: lines.filterMap Line.item?
            from rfl, List.countP_cons, countLine, Function.update_apply]
          by_cases hk : k = i.kind
          · simp [hk]
            omega
          · simp [hk, Ne.symm hk]

theorem countP_placed {mem : Nat → UInt16} {placed : List Placed} {lines : List IdLine}
    (h : List.Forall₂ (Placed.Matches mem) placed lines) (k : ItemKind) :
    placed.countP (fun x => x.kind = k) = lines.countP fun i => i.kind = k := by
  induction h with
  | nil => rfl
  | cons hx _ ih => rw [List.countP_cons, List.countP_cons, ih, hx.kind]

/-- The item has no children. -/
def PciIdItem.Empty (item : PciIdItem) : Prop := item.children = none ∧ item.numChildren = 0

/-- The second pass on the lines of a text, from empty roots. -/
theorem table_describes {entries : List Entry} {text : TextMemory} {buffer : Nat}
    {placed : List Placed}
    (hmatches : List.Forall₂ (Placed.Matches (text buffer)) placed (entries.flatMap Entry.lines))
    (file : Nat) {count : ItemKind → Nat}
    (hcount : ∀ k, placed.countP (fun x => x.kind = k) = count k) {vendors classes : PciIdItem}
    (hvendors : vendors.Empty) (hclasses : classes.Empty) {t : Table}
    (ht : t = placed.foldl (Table.add file buffer)
      ⟨fun _ => {}, vendors, classes, arrayStart count⟩) {m : ItemMemory} (hm : m file = t.items) :
    DescribesForest text m t.vendors (entries.filterMap Entry.vendor?) ∧
      DescribesForest text m t.classes (entries.filterMap Entry.baseClass?) := by
  obtain ⟨howners, hgrown, hgrown'⟩ :=
    entries_grown (a := .empty vendors classes) (arrayStart count) file hmatches
  have hfits := (fits_empty (arrayStart count) count vendors classes).pushAll
    (separate_arrayStart count) howners fun k => by simp [Arrays.empty, hcount k]
  rw [← ht] at hfits
  have hagrees := hfits.agrees hm
  exact ⟨hgrown.describesForest rfl rfl hfits.vendors hvendors.1 hvendors.2 (hagrees _)
      fun j _ => hagrees j,
    hgrown'.describesForest rfl rfl hfits.classes hclasses.1 hclasses.2 (hagrees _)
      fun j _ => hagrees j⟩

/-- Neither root has children. -/
structure EmptyRoots (s : Globals) : Prop where
  vendors : s.vendors.Empty
  classes : s.classes.Empty

/-- A text that is parsed while the roots are empty becomes the table of its trees. -/
theorem parsePciIds_describes (text : IdsText) {contents : Nat → UInt16}
    (htext : TextAt contents 0 text.units) {s : Globals} (buffer : Nat)
    (hempty : EmptyRoots s) :
    ∃ fuel₁, ∀ fuel ≥ fuel₁, ∃ s',
      parsePciIds fuel true buffer contents text.units.length s = .ok (.success, s') ∧
        DescribesForest s'.text s'.items s'.vendors text.vendors ∧
        DescribesForest s'.text s'.items s'.classes text.classes := by
  obtain ⟨hlines, hend⟩ := text.start_spec htext
  unfold parsePciIds
  dsimp only
  generalize (if contents 0 = 0xfeff then 1 else 0) = start at hlines hend ⊢
  have hpass : ∃ pass, firstPass contents start text.units.length = pass ∧
      pass.count = text.lines.foldl countLine (fun _ => 0) ∧ HeadersAt pass.mem start text.lines := by
    obtain ⟨pass, hrun, hcount, -, hheaders⟩ :=
      firstPass_lines text.valid (s := ⟨contents, start, fun _ => 0⟩) hlines
    refine ⟨pass, ?_, hcount, hheaders⟩
    rw [firstPass, ← hrun, show text.units.length - start = (renderLines text.lines).length by omega]
  obtain ⟨pass, hpass, hcount, hheaders⟩ := hpass
  rw [hpass]
  obtain ⟨placed, hmatches, hrun⟩ := secondPass_lines s.brk buffer hheaders hend
  have hcount' : ∀ k, placed.countP (fun x => x.kind = k) = pass.count k := by
    intro k
    rw [countP_placed hmatches, hcount, foldl_countLine, Nat.zero_add]
  refine ⟨text.lines.length, fun fuel hfuel => ?_⟩
  rw [if_neg Bool.true_eq_false.mp]
  simp only [hrun fuel hfuel, Run.ok_bind]
  have hmatches' : List.Forall₂
      (Placed.Matches (Function.update s.text buffer pass.mem buffer)) placed
      (text.entries.flatMap Entry.lines) := by
    rw [Function.update_self, ← text.items]
    exact hmatches
  refine ⟨_, rfl, table_describes hmatches' s.brk hcount' hempty.vendors hempty.classes ?_
    (Function.update_self ..)⟩
  dsimp only [Globals.allocateItems]
  rw [Function.update_self]

/-- `ReadPciIds` of a well-formed text, while the roots are empty. -/
theorem readPciIds_of_emptyRoots {s : Globals} (hempty : EmptyRoots s) (text : IdsText)
    {contents : Nat → UInt16} (htext : TextAt contents 0 text.units) :
    ∃ fuel₁, ∀ fuel ≥ fuel₁, ∃ s',
      readPciIds fuel (.success contents text.units.length) true s = .ok (.success, s') ∧
        DescribesForest s'.text s'.items s'.vendors text.vendors ∧
        DescribesForest s'.text s'.items s'.classes text.classes := by
  unfold readPciIds
  exact parsePciIds_describes text htext s.brk ⟨hempty.vendors, hempty.classes⟩

/-! ## The first successful call -/

/-- The states before the first successful call of `ReadPciIds`. -/
inductive BeforeSuccess : Globals → Prop
  | init : BeforeSuccess .init
  | free {s : Globals} (h : BeforeSuccess s) : BeforeSuccess (freePciIds s)
  | read {s s' : Globals} {fuel : Nat} {outcome : FileOutcome} {allocates : Bool}
      {status : EfiStatus} (h : BeforeSuccess s)
      (hrun : readPciIds fuel outcome allocates s = .ok (status, s'))
      (hfailed : status.isError = true) : BeforeSuccess s'

theorem freePciIds_roots (s : Globals) :
    (freePciIds s).vendors = s.vendors ∧ (freePciIds s).classes = s.classes := by
  obtain ⟨vendors, classes, buffer, file, text, items, live, size, brk⟩ := s
  cases buffer <;> cases file <;> exact ⟨rfl, rfl⟩

/-- A failed `ReadPciIds` leaves the roots alone. -/
theorem readPciIds_failed {s s' : Globals} {fuel : Nat} {outcome : FileOutcome}
    {allocates : Bool} {status : EfiStatus}
    (hrun : readPciIds fuel outcome allocates s = .ok (status, s'))
    (hfailed : status.isError = true) : s'.vendors = s.vendors ∧ s'.classes = s.classes := by
  unfold readPciIds at hrun
  dsimp only at hrun
  split at hrun
  · simp only [Except.ok.injEq, Prod.mk.injEq] at hrun
    obtain ⟨-, rfl⟩ := hrun
    exact ⟨rfl, rfl⟩
  · simp only [Except.ok.injEq, Prod.mk.injEq] at hrun
    obtain ⟨-, rfl⟩ := hrun
    exact ⟨rfl, rfl⟩
  · unfold parsePciIds at hrun
    dsimp only at hrun
    split at hrun
    · simp only [Except.ok.injEq, Prod.mk.injEq] at hrun
      obtain ⟨-, rfl⟩ := hrun
      exact freePciIds_roots _
    · rw [Run.bind_eq_ok] at hrun
      obtain ⟨t, -, hrun⟩ := hrun
      simp only [Except.ok.injEq, Prod.mk.injEq] at hrun
      obtain ⟨rfl, -⟩ := hrun
      cases hfailed

theorem BeforeSuccess.roots {s : Globals} (h : BeforeSuccess s) :
    s.vendors = Globals.init.vendors ∧ s.classes = Globals.init.classes := by
  induction h with
  | init => exact ⟨rfl, rfl⟩
  | @free s _ ih =>
      obtain ⟨hvendors, hclasses⟩ := freePciIds_roots s
      exact ⟨hvendors.trans ih.1, hclasses.trans ih.2⟩
  | read _ hrun hfailed ih =>
      obtain ⟨hvendors, hclasses⟩ := readPciIds_failed hrun hfailed
      exact ⟨hvendors.trans ih.1, hclasses.trans ih.2⟩

theorem emptyRoots_init : EmptyRoots .init := ⟨⟨rfl, rfl⟩, ⟨rfl, rfl⟩⟩

theorem BeforeSuccess.emptyRoots {s : Globals} (h : BeforeSuccess s) : EmptyRoots s := by
  obtain ⟨hvendors, hclasses⟩ := h.roots
  constructor
  · rw [hvendors]
    exact emptyRoots_init.vendors
  · rw [hclasses]
    exact emptyRoots_init.classes

/-- The first successful `ReadPciIds` of a well-formed text makes the roots describe
exactly the trees of the text. -/
theorem readPciIds_describes {s : Globals} (hs : BeforeSuccess s) (text : IdsText)
    {contents : Nat → UInt16} (htext : TextAt contents 0 text.units) :
    ∃ fuel₁, ∀ fuel ≥ fuel₁, ∃ s',
      readPciIds fuel (.success contents text.units.length) true s = .ok (.success, s') ∧
        DescribesForest s'.text s'.items s'.vendors text.vendors ∧
        DescribesForest s'.text s'.items s'.classes text.classes :=
  readPciIds_of_emptyRoots hs.emptyRoots text htext

/-- After a call that found no file. -/
theorem readPciIds_describes_small : ∃ fuel₁, ∀ fuel ≥ fuel₁, ∃ s',
    readPciIds fuel (.success (smallText.units.getD · 0) smallText.units.length) true
        { Globals.init with pciidsBuffer := none } = .ok (.success, s') ∧
      DescribesForest s'.text s'.items s'.vendors [smallVendor] ∧
      DescribesForest s'.text s'.items s'.classes [smallClass] :=
  readPciIds_describes
    (.read .init (show readPciIds 0 (.failed 14 none) true .init =
      .ok (.error 14, { Globals.init with pciidsBuffer := none }) from rfl) rfl)
    smallText (textAt_getD smallText.units)

end PciIds
end EfiApps
