import EfiApps.PciIds.Table
import Mathlib.Logic.Relation

/-!
# The lifetime of the table

`ReadPciIds` and `FreePciIds` replace the record array and the text buffer, but only
the second pass changes the two roots.  So the roots agree with the blocks only
as long as every call finds them empty: a call that finds children under a root
leaves them behind in blocks that are no longer the current ones.
-/

namespace EfiApps
namespace PciIds

open PciMisc

/-- A call of one of the two functions. -/
inductive Call
  | read (outcome : FileOutcome) (allocates : Bool)
  | free

/-- The call leads from one state to another. -/
def Call.Steps (s s' : Globals) : Call → Prop
  | .read outcome allocates =>
      ∃ fuel status, readPciIds fuel outcome allocates s = .ok (status, s')
  | .free => s' = freePciIds s

/-- A call with the states before and after it. -/
structure Transition where
  before : Globals
  call : Call
  after : Globals

/-- The calls since the globals were initialized. -/
inductive History : List Transition → Globals → Prop
  | init : History [] .init
  | call {transitions : List Transition} {s s' : Globals} {c : Call}
      (h : History transitions s) (hstep : c.Steps s s') :
      History (transitions ++ [⟨s, c, s'⟩]) s'

/-! ## What the roots refer to -/

/-- The item is in the array of children. -/
def IsChild (items : ItemMemory) (item child : PciIdItem) : Prop :=
  ∃ first i, item.children = some first ∧ i < item.numChildren ∧
    child = items first.block (first.offset + i)

/-- The pointer is to a string that ends in the block. -/
def Globals.StringIn (s : Globals) (buffer : Nat) (p : Ptr) : Prop :=
  p.block = buffer ∧ ∃ i, p.offset ≤ i ∧ i < s.size buffer ∧ s.text buffer i = 0

/-- Everything that can be reached from a root is inside one block of records and one
block of text. -/
structure RefersOnly (s : Globals) (file buffer : Nat) (root : PciIdItem) : Prop where
  children : ∀ item, Relation.ReflTransGen (IsChild s.items) root item →
    ∀ p, item.children = some p → p.block = file ∧ p.offset + item.numChildren ≤ s.size file
  name : ∀ item, Relation.TransGen (IsChild s.items) root item →
    ∀ p, item.name = some p → s.StringIn buffer p

/-- The root is empty or refers to the current blocks. -/
def RootSound (s : Globals) (root : PciIdItem) : Prop :=
  root.Empty ∨ ∃ file buffer, s.pciidsFile = some file ∧ s.pciidsBuffer = some buffer ∧
    s.live file = true ∧ s.live buffer = true ∧ RefersOnly s file buffer root

/-- Both roots are empty or refer to the current blocks. -/
structure RootsSound (s : Globals) : Prop where
  vendors : RootSound s s.vendors
  classes : RootSound s s.classes

/-- What is expected of a call: the roots are sound after it, and if it has read a
well-formed text they describe its trees. -/
structure Transition.Keeps (t : Transition) : Prop where
  sound : RootsSound t.after
  entries : ∀ contents (text : IdsText),
    t.call = .read (.success contents text.units.length) true → TextAt contents 0 text.units →
      DescribesForest t.after.text t.after.items t.after.vendors text.vendors ∧
        DescribesForest t.after.text t.after.items t.after.classes text.classes

/-! ## The second pass on any contents -/

section pass

variable {file buffer : Nat}

/-- All pointers in the records are to the two blocks. -/
def Within (file buffer : Nat) (items : Nat → PciIdItem) : Prop :=
  ∀ o, (∀ p, (items o).children = some p → p.block = file) ∧
    ∀ p, (items o).name = some p → p.block = buffer

/-- What the pass makes of a root: children that it had stay, and the first one that
an empty root gets is a record with a name. -/
structure RootKept (file : Nat) (items : Nat → PciIdItem) (root root' : PciIdItem) : Prop where
  value : root'.value = root.value
  name : root'.name = root.name
  old : ∀ p, root.children = some p → root'.children = some p
  num : root.numChildren ≤ root'.numChildren
  new : root.Empty → root'.Empty ∨ ∃ o, root'.children = some ⟨file, o⟩ ∧
    0 < root'.numChildren ∧ (items o).name.isSome

/-- What holds throughout the pass. -/
structure PassKeeps (file buffer : Nat) (vendors classes : PciIdItem) (t : Table) : Prop where
  within : Within file buffer t.items
  vendors : RootKept file t.items vendors t.vendors
  classes : RootKept file t.items classes t.classes

theorem Within.update {items : Nat → PciIdItem} (h : Within file buffer items) (o : Nat)
    {item : PciIdItem} (hchildren : ∀ p, item.children = some p → p.block = file)
    (hname : ∀ p, item.name = some p → p.block = buffer) :
    Within file buffer (Function.update items o item) := by
  intro o'
  rw [Function.update_apply]
  split
  · exact ⟨hchildren, hname⟩
  · exact h o'

/-- An item that adopts a record of the array still points into the array. -/
theorem adopt_block {r p : Ptr} {item : PciIdItem} (hr : r.block = file)
    (hitem : ∀ p, item.children = some p → p.block = file)
    (hp : (adopt r item).children = some p) : p.block = file := by
  cases hchildren : item.children with
  | none =>
      obtain rfl : r = p := by simpa [adopt, hchildren] using hp
      exact hr
  | some q =>
      obtain rfl : q = p := by simpa [adopt, hchildren] using hp
      exact hitem _ hchildren

theorem RootKept.refl (items : Nat → PciIdItem) (root : PciIdItem) : RootKept file items root root where
  value := rfl
  name := rfl
  old _ hp := hp
  num := le_rfl
  new hempty := .inl hempty

theorem RootKept.mono {items items' : Nat → PciIdItem} {root root' : PciIdItem}
    (h : RootKept file items root root')
    (hnamed : ∀ o, (items o).name.isSome → (items' o).name.isSome) :
    RootKept file items' root root' where
  value := h.value
  name := h.name
  old := h.old
  num := h.num
  new hempty := (h.new hempty).imp_right fun ⟨o, hchildren, hnum, hname⟩ =>
    ⟨o, hchildren, hnum, hnamed o hname⟩

theorem RootKept.adopt {items : Nat → PciIdItem} {root root' : PciIdItem}
    (h : RootKept file items root root') {o : Nat} (hnamed : (items o).name.isSome) :
    RootKept file items root (adopt ⟨file, o⟩ root') where
  value := h.value
  name := h.name
  old p hp := by
    have hold := h.old p hp
    simp [PciIds.adopt, hold]
  num := h.num.trans (Nat.le_succ _)
  new hempty := by
    rcases h.new hempty with hempty' | ⟨o', hchildren, hnum, hname⟩
    · exact .inr ⟨o, by simp [PciIds.adopt, hempty'.1], by simp [PciIds.adopt], hnamed⟩
    · exact .inr ⟨o', by simp [PciIds.adopt, hchildren], by simp [PciIds.adopt], hname⟩

theorem doincs_items (t : Table) (k : ItemKind) : (t.doincs k).items = t.items ∧
    (t.doincs k).vendors = t.vendors ∧ (t.doincs k).classes = t.classes := by
  unfold Table.doincs
  induction k.fallThrough generalizing t with
  | nil => exact ⟨rfl, rfl, rfl⟩
  | cons k' rest ih =>
      obtain ⟨hitems, hvendors, hclasses⟩ := ih (t.advance k')
      rw [List.foldl_cons, hitems, hvendors, hclasses]
      unfold Table.advance
      split <;> exact ⟨rfl, rfl, rfl⟩

theorem modify_items (t : Table) (o : Nat) (f : PciIdItem → PciIdItem) :
    (t.modify o f).items = Function.update t.items o (f (t.items o)) := rfl

section step

variable {vendors classes : PciIdItem} {t : Table}

theorem PassKeeps.doincs (h : PassKeeps file buffer vendors classes t) (k : ItemKind) :
    PassKeeps file buffer vendors classes (t.doincs k) := by
  obtain ⟨hitems, hvendors, hclasses⟩ := doincs_items t k
  constructor
  · rw [hitems]
    exact h.within
  · rw [hitems, hvendors]
    exact h.vendors
  · rw [hitems, hclasses]
    exact h.classes

/-- A record is changed and keeps its name, if it has one. -/
theorem PassKeeps.modify (h : PassKeeps file buffer vendors classes t) (o : Nat)
    {f : PciIdItem → PciIdItem}
    (hchildren : ∀ p, (f (t.items o)).children = some p → p.block = file)
    (hname : ∀ p, (f (t.items o)).name = some p → p.block = buffer)
    (hnamed : (t.items o).name.isSome → (f (t.items o)).name.isSome) :
    PassKeeps file buffer vendors classes (t.modify o f) := by
  have hmono : ∀ o', (t.items o').name.isSome → ((t.modify o f).items o').name.isSome := by
    intro o' ho'
    rw [modify_items, Function.update_apply]
    split
    · rename_i heq
      subst heq
      exact hnamed ho'
    · exact ho'
  exact ⟨h.within.update o hchildren hname, h.vendors.mono hmono, h.classes.mono hmono⟩

/-- A record adopts another one. -/
theorem PassKeeps.modify_adopt (h : PassKeeps file buffer vendors classes t) (o : Nat) {r : Ptr}
    (hr : r.block = file) : PassKeeps file buffer vendors classes (t.modify o (adopt r)) :=
  h.modify o (fun _ hp => adopt_block hr (h.within o).1 hp) (h.within o).2 id

theorem PassKeeps.adoptBy (h : PassKeeps file buffer vendors classes t) (k : ItemKind) {o : Nat}
    (hnamed : (t.items o).name.isSome) :
    PassKeeps file buffer vendors classes (t.adoptBy k ⟨file, o⟩) := by
  cases k with
  | vendor => exact ⟨h.within, h.vendors.adopt hnamed, h.classes⟩
  | baseClass => exact ⟨h.within, h.vendors, h.classes.adopt hnamed⟩
  | device => exact h.modify_adopt _ rfl
  | subsystem => exact h.modify_adopt _ rfl
  | subclass => exact h.modify_adopt _ rfl
  | progif => exact h.modify_adopt _ rfl

theorem PassKeeps.doone (h : PassKeeps file buffer vendors classes t) (k : ItemKind)
    (value : UInt64) (name : Nat) :
    PassKeeps file buffer vendors classes (doone file buffer t k value name) := by
  have hdoincs := h.doincs k
  unfold PciIds.doone
  refine (hdoincs.modify _ (hdoincs.within _).1 ?_ fun _ => rfl).adoptBy k ?_
  · rintro p ⟨⟩
    rfl
  · rw [modify_items, Function.update_self]
    rfl

/-- Whatever the buffer holds, the pass only makes pointers to the two blocks. -/
theorem PassKeeps.secondPass (h : PassKeeps file buffer vendors classes t) {mem : Nat → UInt16}
    {bufferEnd fuel l : Nat} {t' : Table}
    (hrun : secondPass file buffer mem bufferEnd fuel l t = .ok t') :
    PassKeeps file buffer vendors classes t' := by
  fun_induction PciIds.secondPass file buffer mem bufferEnd fuel l t with
  | case1 => cases hrun
  | case2 l t hl fuel hnul ih => exact ih h hrun
  | case3 l t hl fuel hline ih =>
      refine ih ?_ hrun
      unfold doLine
      split
      · exact h.doone _ _ _
      · exact h
  | case4 =>
      obtain rfl := Except.ok.inj hrun
      exact h

end step

theorem passKeeps_start (file buffer : Nat) (vendors classes : PciIdItem)
    (cursor : ItemKind → Nat) :
    PassKeeps file buffer vendors classes ⟨fun _ => {}, vendors, classes, cursor⟩ where
  within _ := ⟨fun _ hp => (nomatch hp), fun _ hp => (nomatch hp)⟩
  vendors := .refl _ _
  classes := .refl _ _

/-- More fuel does not change the pass. -/
theorem secondPass_mono {mem : Nat → UInt16} {bufferEnd fuel l : Nat} {t t' : Table}
    (h : secondPass file buffer mem bufferEnd fuel l t = .ok t') (n : Nat) :
    secondPass file buffer mem bufferEnd (fuel + n) l t = .ok t' := by
  fun_induction PciIds.secondPass file buffer mem bufferEnd fuel l t with
  | case1 => cases h
  | case2 l t hl fuel hnul ih =>
      rw [Nat.succ_add, secondPass_nul hl hnul]
      exact ih h
  | case3 l t hl fuel hline ih =>
      rw [Nat.succ_add, secondPass_line hl hline]
      exact ih h
  | case4 fuel l t hl =>
      rw [secondPass_end hl]
      exact h

end pass

theorem readPciIds_mono {fuel : Nat} {outcome : FileOutcome} {allocates : Bool} {s : Globals}
    {r : EfiStatus × Globals} (h : readPciIds fuel outcome allocates s = .ok r) (n : Nat) :
    readPciIds (fuel + n) outcome allocates s = .ok r := by
  cases outcome with
  | failed code buffer => cases buffer <;> exact h
  | success contents size =>
      unfold readPciIds parsePciIds at h ⊢
      dsimp only at h ⊢
      split at h
      · rename_i hfails
        rw [if_pos hfails]
        exact h
      · rename_i hallocates
        rw [if_neg hallocates]
        obtain ⟨t, hpass, hr⟩ := Run.bind_eq_ok.mp h
        exact Run.bind_eq_ok.mpr ⟨t, secondPass_mono hpass n, hr⟩

/-! ## What a call can do -/

/-- Both ways in which a call can end. -/
inductive Effect (s s' : Globals) : Prop
  /-- Without a new table: one of the blocks is no longer the one it was. -/
  | kept (hbrk : s.brk ≤ s'.brk) (htext : ∀ block < s.brk, s'.text block = s.text block)
      (hitems : ∀ block < s.brk, s'.items block = s.items block)
      (hvendors : s'.vendors = s.vendors) (hclasses : s'.classes = s.classes)
      (hblocks : s'.pciidsFile = none ∨ s'.pciidsBuffer = none ∨ s'.pciidsBuffer = some s.brk)
  /-- With a table in new blocks. -/
  | built {t : Table} (hpass : PassKeeps (s.brk + 1) s.brk s.vendors s.classes t)
      (hbrk : s'.brk = s.brk + 2) (htext : ∀ block < s.brk, s'.text block = s.text block)
      (hitems : s'.items = Function.update s.items (s.brk + 1) t.items)
      (hvendors : s'.vendors = t.vendors) (hclasses : s'.classes = t.classes)
      (hfile : s'.pciidsFile = some (s.brk + 1)) (hbuffer : s'.pciidsBuffer = some s.brk)
      (hlive : s'.live (s.brk + 1) = true ∧ s'.live s.brk = true)

/-- `FreePciIds` only frees and forgets. -/
theorem freePciIds_spec (s : Globals) :
    (freePciIds s).brk = s.brk ∧ (freePciIds s).text = s.text ∧ (freePciIds s).items = s.items ∧
      (freePciIds s).pciidsFile = none := by
  obtain ⟨vendors, classes, buffer, file, text, items, live, size, brk⟩ := s
  cases buffer <;> cases file <;> exact ⟨rfl, rfl, rfl, rfl⟩

theorem effect_freePciIds (s : Globals) : Effect s (freePciIds s) := by
  obtain ⟨hbrk, htext, hitems, hfile⟩ := freePciIds_spec s
  obtain ⟨hvendors, hclasses⟩ := freePciIds_roots s
  exact .kept hbrk.ge (fun block _ => congrFun htext block) (fun block _ => congrFun hitems block)
    hvendors hclasses (.inl hfile)

theorem effect_readPciIds {fuel : Nat} {outcome : FileOutcome} {allocates : Bool}
    {s s' : Globals} {status : EfiStatus}
    (hrun : readPciIds fuel outcome allocates s = .ok (status, s')) : Effect s s' := by
  unfold readPciIds at hrun
  dsimp only at hrun
  split at hrun
  · simp only [Except.ok.injEq, Prod.mk.injEq] at hrun
    obtain ⟨-, rfl⟩ := hrun
    exact .kept le_rfl (fun _ _ => rfl) (fun _ _ => rfl) rfl rfl (.inr (.inl rfl))
  · simp only [Except.ok.injEq, Prod.mk.injEq] at hrun
    obtain ⟨-, rfl⟩ := hrun
    exact .kept (Nat.le_succ _) (fun _ hblock => Function.update_of_ne hblock.ne _ _)
      (fun _ _ => rfl) rfl rfl (.inr (.inr rfl))
  · unfold parsePciIds at hrun
    dsimp only at hrun
    split at hrun
    · simp only [Except.ok.injEq, Prod.mk.injEq] at hrun
      obtain ⟨-, rfl⟩ := hrun
      obtain ⟨hbrk, htext, hitems, hfile⟩ := freePciIds_spec _
      refine .kept ?_ (fun block hblock => ?_) (fun block _ => congrFun hitems block)
        (freePciIds_roots _).1 (freePciIds_roots _).2 (.inl hfile)
      · rw [hbrk]
        exact Nat.le_succ _
      · rw [htext]
        dsimp only [Globals.allocateText]
        rw [Function.update_of_ne hblock.ne, Function.update_of_ne hblock.ne]
    · rw [Run.bind_eq_ok] at hrun
      obtain ⟨t, hpass, hrun⟩ := hrun
      simp only [Except.ok.injEq, Prod.mk.injEq] at hrun
      obtain ⟨-, rfl⟩ := hrun
      dsimp only [Globals.allocateItems, Globals.allocateText] at hpass ⊢
      rw [Function.update_self] at hpass
      refine .built ((passKeeps_start _ _ _ _ _).secondPass hpass) rfl (fun block hblock => ?_)
        (Function.update_idem ..) rfl rfl rfl rfl ⟨Function.update_self .., ?_⟩
      · dsimp only
        rw [Function.update_of_ne hblock.ne, Function.update_of_ne hblock.ne]
      · dsimp only
        rw [Function.update_of_ne (Nat.ne_of_lt (Nat.lt_succ_self s.brk)), Function.update_self]

theorem effect_of_steps {c : Call} {s s' : Globals} (h : c.Steps s s') : Effect s s' := by
  cases c with
  | read outcome allocates =>
      obtain ⟨fuel, status, hrun⟩ := h
      exact effect_readPciIds hrun
  | free =>
      rw [show s' = freePciIds s from h]
      exact effect_freePciIds s

/-! ## The roots throughout a run -/

/-- A root that is not empty has a first child, in blocks that were handed out. -/
def Anchored (s : Globals) (root : PciIdItem) : Prop :=
  root.Empty ∨ ∃ first, root.children = some first ∧ 0 < root.numChildren ∧ first.block < s.brk ∧
    ∃ name, (s.items first.block first.offset).name = some name ∧ name.block < s.brk

/-- Both roots are anchored, in every state of a run. -/
structure RootsAnchored (s : Globals) : Prop where
  vendors : Anchored s s.vendors
  classes : Anchored s s.classes

section root

variable {s s' : Globals} {root root' : PciIdItem}

theorem Anchored.mono (h : Anchored s root) (hbrk : s.brk ≤ s'.brk)
    (hitems : ∀ block < s.brk, s'.items block = s.items block) : Anchored s' root := by
  rcases h with hempty | ⟨first, hfirst, hnum, hblock, name, hname, hblock'⟩
  · exact .inl hempty
  · refine .inr ⟨first, hfirst, hnum, hblock.trans_le hbrk, name, ?_, hblock'.trans_le hbrk⟩
    rw [hitems _ hblock]
    exact hname

/-- A root with children is not sound after one of the blocks is no longer the one it
was. -/
theorem Anchored.not_rootSound_kept (h : Anchored s root) (hempty : ¬ root.Empty)
    (hitems : ∀ block < s.brk, s'.items block = s.items block)
    (hblocks : s'.pciidsFile = none ∨ s'.pciidsBuffer = none ∨ s'.pciidsBuffer = some s.brk) :
    ¬ RootSound s' root := by
  obtain ⟨first, hfirst, hnum, hblock, name, hname, hblock'⟩ := h.resolve_left hempty
  rintro (hempty' | ⟨file, buffer, hfile, hbuffer, -, -, hrefers⟩)
  · exact hempty hempty'
  · rcases hblocks with hnone | hnone | hnew
    · rw [hnone] at hfile
      cases hfile
    · rw [hnone] at hbuffer
      cases hbuffer
    · -- The first child has its name in a buffer that is older than this one.
      obtain rfl : buffer = s.brk := Option.some.inj (hbuffer.symm.trans hnew)
      have hchild : IsChild s'.items root (s'.items first.block (first.offset + 0)) :=
        ⟨first, 0, hfirst, hnum, rfl⟩
      rw [Nat.add_zero, hitems _ hblock] at hchild
      have hcurrent := (hrefers.name _ (.single hchild) name hname).1
      omega

/-- A root with children keeps its array when a new one is built. -/
theorem Anchored.not_rootSound_built (h : Anchored s root) (hempty : ¬ root.Empty)
    {items : Nat → PciIdItem} (hkept : RootKept (s.brk + 1) items root root')
    (hfile : s'.pciidsFile = some (s.brk + 1)) : ¬ RootSound s' root' := by
  obtain ⟨first, hfirst, hnum, hblock, -⟩ := h.resolve_left hempty
  have hfirst' := hkept.old first hfirst
  rintro (hempty' | ⟨file, buffer, hfile', -, -, -, hrefers⟩)
  · have hnone := hempty'.1
    rw [hfirst'] at hnone
    cases hnone
  · obtain rfl : file = s.brk + 1 := Option.some.inj (hfile'.symm.trans hfile)
    have hcurrent := (hrefers.children root' .refl first hfirst').1
    omega

/-- The blocks of a table that was built. -/
theorem Anchored.built (h : Anchored s root) {items : Nat → PciIdItem} (hbrk : s'.brk = s.brk + 2)
    (hitems : s'.items = Function.update s.items (s.brk + 1) items)
    (hwithin : Within (s.brk + 1) s.brk items)
    (hkept : RootKept (s.brk + 1) items root root') : Anchored s' root' := by
  rcases h with hempty | ⟨first, hfirst, hnum, hblock, name, hname, hblock'⟩
  · rcases hkept.new hempty with hempty' | ⟨o, hchildren, hnum, hnamed⟩
    · exact .inl hempty'
    · obtain ⟨name, hname⟩ := Option.isSome_iff_exists.mp hnamed
      have hblock := (hwithin o).2 name hname
      refine .inr ⟨⟨s.brk + 1, o⟩, hchildren, hnum, ?_, name, ?_, ?_⟩
      · rw [hbrk]
        exact Nat.lt_succ_self _
      · rw [hitems, Function.update_self]
        exact hname
      · omega
  · refine .inr ⟨first, hkept.old first hfirst, hnum.trans_le hkept.num, by omega, name, ?_, by omega⟩
    rw [hitems, Function.update_of_ne (by omega)]
    exact hname

end root

section effect

variable {s s' : Globals}

/-- The states of a run stay anchored. -/
theorem RootsAnchored.effect (h : RootsAnchored s) (heffect : Effect s s') : RootsAnchored s' := by
  cases heffect with
  | kept hbrk htext hitems hvendors hclasses hblocks =>
      constructor
      · rw [hvendors]
        exact h.vendors.mono hbrk hitems
      · rw [hclasses]
        exact h.classes.mono hbrk hitems
  | built hpass hbrk htext hitems hvendors hclasses hfile hbuffer hlive =>
      constructor
      · rw [hvendors]
        exact h.vendors.built hbrk hitems hpass.within hpass.vendors
      · rw [hclasses]
        exact h.classes.built hbrk hitems hpass.within hpass.classes

/-- Sound roots after a call were empty before it. -/
theorem RootsAnchored.emptyRoots (h : RootsAnchored s) (heffect : Effect s s')
    (hsound : RootsSound s') : EmptyRoots s := by
  obtain ⟨hsoundVendors, hsoundClasses⟩ := hsound
  cases heffect with
  | kept hbrk htext hitems hvendors hclasses hblocks =>
      rw [hvendors] at hsoundVendors
      rw [hclasses] at hsoundClasses
      constructor
      · by_contra hempty
        exact h.vendors.not_rootSound_kept hempty hitems hblocks hsoundVendors
      · by_contra hempty
        exact h.classes.not_rootSound_kept hempty hitems hblocks hsoundClasses
  | built hpass hbrk htext hitems hvendors hclasses hfile hbuffer hlive =>
      rw [hvendors] at hsoundVendors
      rw [hclasses] at hsoundClasses
      constructor
      · by_contra hempty
        exact h.vendors.not_rootSound_built hempty hpass.vendors hfile hsoundVendors
      · by_contra hempty
        exact h.classes.not_rootSound_built hempty hpass.classes hfile hsoundClasses

end effect

theorem rootsAnchored_init : RootsAnchored .init := ⟨.inl ⟨rfl, rfl⟩, .inl ⟨rfl, rfl⟩⟩

theorem History.rootsAnchored {transitions : List Transition} {s : Globals}
    (h : History transitions s) : RootsAnchored s := by
  induction h with
  | init => exact rootsAnchored_init
  | call _ hstep ih => exact ih.effect (effect_of_steps hstep)

theorem freePciIds_live {s : Globals} {file : Nat} (h : s.pciidsFile = some file) :
    (freePciIds s).live file = false := by
  obtain ⟨vendors, classes, buffer, file', text, items, live, size, brk⟩ := s
  obtain rfl : file' = some file := h
  cases buffer <;> exact Function.update_self ..

end PciIds
end EfiApps
