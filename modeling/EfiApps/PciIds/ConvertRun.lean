import EfiApps.PciIds.ConvertLines

/-!
# The run of `convertpciids.pl`

The vendors with what is below them, and the classes, are two sides that the script
treats alike.  A side has three hashes; those of the two lower levels are printed when
the next line of a level above comes, so at any time some of the lines are pending.

`View` is what the script holds of one side.  The view is followed through the lines
of some trees, up to what is pending; then the two sides are put together.
-/

namespace EfiApps
namespace PciIds

/-- A name with two parts, as `D_106b_0015`, tells its parts if the first one has a known
length. -/
theorem pairName_inj {start a b a' b' : List UInt16} (hlength : a.length = a'.length)
    (h : start ++ a ++ [0x5f] ++ b = start ++ a' ++ [0x5f] ++ b') : a = a' ∧ b = b' := by
  simp only [List.append_assoc] at h
  obtain ⟨ha, hb⟩ := List.append_inj (List.append_cancel_left h) hlength
  exact ⟨ha, List.append_cancel_left hb⟩

/-- Three kinds of lines that belong to each other, with the hashes that are printed
before theirs and the names of their arrays.  The first two characters of a name tell
the level. -/
structure Side where
  low : ItemKind
  mid : ItemKind
  top : ItemKind
  before : List ItemKind
  lowName : List UInt16 → List UInt16 → List UInt16
  midName : List UInt16 → List UInt16
  topName : List UInt16
  lowTag : List UInt16
  midTag : List UInt16
  lowParent : low.parent = some mid
  midParent : mid.parent = some top
  topParent : top.parent = none
  distinct : low ≠ mid ∧ mid ≠ top ∧ low ≠ top
  separate : ∀ k ∈ before, k ∉ [low, mid, top]
  printLow : printOrder.take low.level = before
  printMid : printOrder.take mid.level = before ++ [low]
  printTop : printOrder.take top.level = before ++ [low, mid]
  arrayLow : ∀ current, arrayName current low = lowName (current top) (current mid)
  arrayMid : ∀ current, arrayName current mid = midName (current top)
  arrayTop : ∀ current, arrayName current top = topName
  lowTagged : ∀ a b, (lowName a b).take 2 = lowTag
  midTagged : ∀ a, (midName a).take 2 = midTag
  tags : lowTag ≠ midTag
  lowInj : ∀ a b a' b', a.length = a'.length → lowName a b = lowName a' b' → a = a' ∧ b = b'
  midInj : ∀ a a', midName a = midName a' → a = a'

namespace Side

/-- The vendors. -/
def vendors : Side where
  low := .subsystem
  mid := .device
  top := .vendor
  before := []
  lowName vendor device := [0x44, 0x5f] ++ vendor ++ [0x5f] ++ device
  midName vendor := [0x56, 0x5f] ++ vendor
  topName := vendorsName
  lowTag := [0x44, 0x5f]
  midTag := [0x56, 0x5f]
  lowParent := rfl
  midParent := rfl
  topParent := rfl
  distinct := by decide
  separate := by decide
  printLow := rfl
  printMid := rfl
  printTop := rfl
  arrayLow _ := rfl
  arrayMid _ := rfl
  arrayTop _ := rfl
  lowTagged _ _ := rfl
  midTagged _ := rfl
  tags := by decide
  lowInj _ _ _ _ := pairName_inj
  midInj _ _ := List.append_cancel_left

/-- The classes: all hashes of the vendors are printed before theirs. -/
def classes : Side where
  low := .progif
  mid := .subclass
  top := .baseClass
  before := [.subsystem, .device, .vendor]
  lowName baseClass subclass := [0x53, 0x5f] ++ baseClass ++ [0x5f] ++ subclass
  midName baseClass := [0x43, 0x5f] ++ baseClass
  topName := classesName
  lowTag := [0x53, 0x5f]
  midTag := [0x43, 0x5f]
  lowParent := rfl
  midParent := rfl
  topParent := rfl
  distinct := by decide
  separate := by decide
  printLow := rfl
  printMid := rfl
  printTop := rfl
  arrayLow _ := rfl
  arrayMid _ := rfl
  arrayTop _ := rfl
  lowTagged _ _ := rfl
  midTagged _ := rfl
  tags := by decide
  lowInj _ _ _ _ := pairName_inj
  midInj _ _ := List.append_cancel_left

/-- The kinds of lines of a side. -/
def kinds (σ : Side) : List ItemKind := [σ.low, σ.mid, σ.top]

end Side

/-! ## The state of the script -/

/-- The declarations that a hash is printed as. -/
def printed (name : List UInt16) (h : PerlHash) : List ArrayDecl :=
  if h.isEmpty then [] else [⟨name, h.sort.map initializer⟩]

section perl

variable (st : Perl) (k j : ItemKind)

theorem printitems_hash :
    (st.printitems k).hash j = if j = k then [] else st.hash j := by
  unfold Perl.printitems
  split
  · rename_i hempty
    split
    · rename_i hk
      subst hk
      exact List.isEmpty_iff.mp hempty
    · rfl
  · dsimp only
    rw [Function.update_apply]

theorem printitems_current : (st.printitems k).current = st.current := by
  unfold Perl.printitems
  split <;> rfl

theorem printitems_out :
    (st.printitems k).out = st.out ++ printed (arrayName st.current k) (st.hash k) := by
  unfold Perl.printitems printed
  split
  · rw [List.append_nil]
  · rfl

theorem printitems_of_nil (h : st.hash k = []) : st.printitems k = st := by
  rw [Perl.printitems, h, List.isEmpty_nil, if_pos rfl]

variable (key name : List UInt16)

theorem assign_current : (st.assign k key name).current = Function.update st.current k key := by
  cases k <;> rfl

theorem assign_out : (st.assign k key name).out = st.out := by
  cases k <;> rfl

theorem assign_hash_self : (st.assign k key name).hash k =
    (st.hash k).modify key fun _ => { name := name } := by
  cases k <;> rfl

theorem assign_hash_parent {p : ItemKind} (hp : k.parent = some p) :
    (st.assign k key name).hash p = (st.hash p).modify (st.current p) fun item =>
      { item with child := some (arrayName (Function.update st.current k key) k) } := by
  cases k <;> cases hp <;> rfl

theorem assign_hash_other (hself : j ≠ k) (hparent : k.parent ≠ some j) :
    (st.assign k key name).hash j = st.hash j := by
  cases k <;> cases j <;> first | rfl | exact absurd rfl hself | exact absurd rfl hparent

end perl

/-! ## Views -/

/-- The hashes of a side, its variables and what was printed. -/
@[ext] structure View where
  low : PerlHash
  mid : PerlHash
  top : PerlHash
  curMid : List UInt16
  curTop : List UInt16
  out : List ArrayDecl

/-- What the script holds of a side. -/
def Perl.view (st : Perl) (σ : Side) : View where
  low := st.hash σ.low
  mid := st.hash σ.mid
  top := st.hash σ.top
  curMid := st.current σ.mid
  curTop := st.current σ.top
  out := st.out

namespace View

variable (σ : Side) (v : View)

/-- The lowest hash is printed. -/
def printLow : View :=
  { v with low := [], out := v.out ++ printed (σ.lowName v.curTop v.curMid) v.low }

/-- The middle hash is printed. -/
def printMid : View := { v with mid := [], out := v.out ++ printed (σ.midName v.curTop) v.mid }

/-- The topmost hash is printed. -/
def printTop : View := { v with top := [], out := v.out ++ printed σ.topName v.top }

/-- Both lower hashes are printed. -/
def print : View := (v.printLow σ).printMid σ

/-- A line of the lowest level. -/
def addLow (key name : List UInt16) : View :=
  { v with
    low := v.low.modify key fun _ => { name := name }
    mid := v.mid.modify v.curMid fun item =>
      { item with child := some (σ.lowName v.curTop v.curMid) } }

/-- A line of the middle level. -/
def addMid (key name : List UInt16) : View :=
  { v with
    curMid := key
    mid := v.mid.modify key fun _ => { name := name }
    top := v.top.modify v.curTop fun item => { item with child := some (σ.midName v.curTop) } }

/-- A line of the topmost level. -/
def addTop (key name : List UInt16) : View :=
  { v with
    curTop := key
    top := v.top.modify key fun _ => { name := name } }

/-- A line of a side. -/
def addItem (i : IdLine) : View :=
  if i.kind = σ.low then v.addLow σ (keyText σ.low i.value) i.name
  else if i.kind = σ.mid then (v.printLow σ).addMid σ (keyText σ.mid i.value) i.name
  else (v.print σ).addTop (keyText σ.top i.value) i.name

end View

section view

variable {σ : Side} {st : Perl}

theorem view_printLow : (st.printitems σ.low).view σ = (st.view σ).printLow σ := by
  obtain ⟨hlm, hmt, hlt⟩ := σ.distinct
  simp [Perl.view, View.printLow, printitems_hash, printitems_current, printitems_out, hlm.symm,
    hlt.symm, σ.arrayLow]

theorem view_printMid : (st.printitems σ.mid).view σ = (st.view σ).printMid σ := by
  obtain ⟨hlm, hmt, hlt⟩ := σ.distinct
  simp [Perl.view, View.printMid, printitems_hash, printitems_current, printitems_out, hlm,
    hmt.symm, σ.arrayMid]

theorem view_printTop : (st.printitems σ.top).view σ = (st.view σ).printTop σ := by
  obtain ⟨hlm, hmt, hlt⟩ := σ.distinct
  simp [Perl.view, View.printTop, printitems_hash, printitems_current, printitems_out, hmt, hlt,
    σ.arrayTop]

variable (key name : List UInt16)

theorem view_assignLow : (st.assign σ.low key name).view σ = (st.view σ).addLow σ key name := by
  obtain ⟨hlm, hmt, hlt⟩ := σ.distinct
  have hother := assign_hash_other st σ.low σ.top key name hlt.symm (by
    rw [σ.lowParent, ne_eq, Option.some.injEq]
    exact hmt)
  simp [Perl.view, View.addLow, assign_hash_self, assign_hash_parent _ _ _ _ σ.lowParent, hother,
    assign_current, assign_out, σ.arrayLow, hlm.symm, hlt.symm]

theorem view_assignMid : (st.assign σ.mid key name).view σ = (st.view σ).addMid σ key name := by
  obtain ⟨hlm, hmt, hlt⟩ := σ.distinct
  have hother := assign_hash_other st σ.mid σ.low key name hlm (by
    rw [σ.midParent, ne_eq, Option.some.injEq]
    exact hlt.symm)
  simp [Perl.view, View.addMid, assign_hash_self, assign_hash_parent _ _ _ _ σ.midParent, hother,
    assign_current, assign_out, σ.arrayMid, hmt.symm]

theorem view_assignTop : (st.assign σ.top key name).view σ = (st.view σ).addTop key name := by
  obtain ⟨hlm, hmt, hlt⟩ := σ.distinct
  have hnone : ∀ j, σ.top.parent ≠ some j := by
    intro j
    rw [σ.topParent]
    exact nofun
  simp [Perl.view, View.addTop, assign_hash_self,
    assign_hash_other st σ.top σ.low key name hlt (hnone _),
    assign_hash_other st σ.top σ.mid key name hmt (hnone _), assign_current, assign_out, hmt]

end view

/-! ## The lines of a side -/

/-- Nothing of another side is printed by the lines of a side. -/
def Quiet (σ : Side) (st : Perl) : Prop := ∀ k ∈ σ.before, st.hash k = []

theorem foldl_printitems_of_nil {ks : List ItemKind} {st : Perl} (h : ∀ k ∈ ks, st.hash k = []) :
    ks.foldl Perl.printitems st = st := by
  induction ks with
  | nil => rfl
  | cons k ks ih =>
      rw [List.foldl_cons, printitems_of_nil st k (h k List.mem_cons_self)]
      exact ih fun k' hk' => h k' (List.mem_cons_of_mem _ hk')

theorem foldl_printitems_hash (ks : List ItemKind) (st : Perl) (j : ItemKind) :
    (ks.foldl Perl.printitems st).hash j = if j ∈ ks then [] else st.hash j := by
  induction ks generalizing st with
  | nil => rfl
  | cons k ks ih =>
      rw [List.foldl_cons, ih, printitems_hash]
      by_cases hk : j = k
      · simp [hk]
      · simp [hk]

/-- What was printed once is not printed again. -/
theorem printall_printall {m n : Nat} (h : m ≤ n) (st : Perl) :
    (st.printall m).printall n = st.printall n := by
  have hsplit := (List.take_append_drop m (printOrder.take n)).symm
  rw [List.take_take, Nat.min_eq_left h] at hsplit
  generalize (printOrder.take n).drop m = rest at hsplit
  have hnil : ∀ k ∈ printOrder.take m, (st.printall m).hash k = [] := by
    intro k hk
    rw [Perl.printall, foldl_printitems_hash, if_pos hk]
  calc (st.printall m).printall n
      = rest.foldl Perl.printitems
          ((printOrder.take m).foldl Perl.printitems (st.printall m)) := by
        rw [Perl.printall, hsplit, List.foldl_append]
    _ = rest.foldl Perl.printitems (st.printall m) := by
        rw [foldl_printitems_of_nil hnil]
    _ = st.printall n := by
        rw [Perl.printall, Perl.printall, ← List.foldl_append, ← hsplit]

section side

variable {σ : Side} {st : Perl}

theorem Quiet.printall_low (h : Quiet σ st) : st.printall σ.low.level = st := by
  rw [Perl.printall, σ.printLow, foldl_printitems_of_nil h]

theorem Quiet.printall_mid (h : Quiet σ st) : st.printall σ.mid.level = st.printitems σ.low := by
  rw [Perl.printall, σ.printMid, List.foldl_append, foldl_printitems_of_nil h]
  rfl

theorem Quiet.printall_top (h : Quiet σ st) :
    st.printall σ.top.level = (st.printitems σ.low).printitems σ.mid := by
  rw [Perl.printall, σ.printTop, List.foldl_append, foldl_printitems_of_nil h]
  rfl

/-- A line of a side changes the view as it should. -/
theorem Quiet.view_addItem (h : Quiet σ st) {i : IdLine} (hi : i.kind ∈ σ.kinds) :
    (st.addItem i).view σ = (st.view σ).addItem σ i := by
  obtain ⟨kind, value, name⟩ := i
  obtain ⟨hlm, hmt, hlt⟩ := σ.distinct
  unfold Perl.addItem View.addItem
  simp only [Side.kinds, List.mem_cons, List.not_mem_nil, or_false] at hi
  rcases hi with rfl | rfl | rfl
  · rw [h.printall_low, view_assignLow, if_pos rfl]
  · rw [h.printall_mid, view_assignMid, view_printLow, if_neg hlm.symm, if_pos rfl]
  · rw [h.printall_top, view_assignTop, view_printMid, view_printLow, if_neg hlt.symm,
      if_neg hmt.symm]
    rfl

/-- What the lines of a side leave alone. -/
structure SameBut (σ : Side) (st st' : Perl) : Prop where
  hash : ∀ j ∉ σ.kinds, st'.hash j = st.hash j
  current : ∀ j ∉ σ.kinds, st'.current j = st.current j

theorem SameBut.refl (σ : Side) (st : Perl) : SameBut σ st st := ⟨fun _ _ => rfl, fun _ _ => rfl⟩

theorem SameBut.trans {st' st'' : Perl} (h : SameBut σ st st') (h' : SameBut σ st' st'') :
    SameBut σ st st'' :=
  ⟨fun j hj => (h'.hash j hj).trans (h.hash j hj),
    fun j hj => (h'.current j hj).trans (h.current j hj)⟩

theorem sameBut_printitems {k : ItemKind} (hk : k ∈ σ.kinds) :
    SameBut σ st (st.printitems k) where
  hash j hj := by
    rw [printitems_hash, if_neg]
    rintro rfl
    exact hj hk
  current j _ := by rw [printitems_current]

theorem sameBut_assign {k : ItemKind} (hk : k ∈ σ.kinds) (key name : List UInt16) :
    SameBut σ st (st.assign k key name) where
  hash j hj := by
    refine assign_hash_other st k j key name ?_ ?_
    · rintro rfl
      exact hj hk
    · intro hparent
      simp only [Side.kinds, List.mem_cons, List.not_mem_nil, or_false, not_or] at hk hj
      rcases hk with rfl | rfl | rfl
      · exact hj.2.1 (Option.some.inj (hparent.symm.trans σ.lowParent))
      · exact hj.2.2 (Option.some.inj (hparent.symm.trans σ.midParent))
      · rw [σ.topParent] at hparent
        cases hparent
  current j hj := by
    rw [assign_current, Function.update_apply, if_neg]
    rintro rfl
    exact hj hk

theorem mem_kinds (σ : Side) : σ.low ∈ σ.kinds ∧ σ.mid ∈ σ.kinds ∧ σ.top ∈ σ.kinds := by
  simp [Side.kinds]

theorem Quiet.sameBut_addItem (h : Quiet σ st) {i : IdLine} (hi : i.kind ∈ σ.kinds) :
    SameBut σ st (st.addItem i) := by
  obtain ⟨kind, value, name⟩ := i
  obtain ⟨hlow, hmid, htop⟩ := mem_kinds σ
  unfold Perl.addItem
  simp only [Side.kinds, List.mem_cons, List.not_mem_nil, or_false] at hi
  rcases hi with rfl | rfl | rfl
  · rw [h.printall_low]
    exact sameBut_assign hlow _ _
  · rw [h.printall_mid]
    exact (sameBut_printitems hlow).trans (sameBut_assign hmid _ _)
  · rw [h.printall_top]
    exact ((sameBut_printitems hlow).trans (sameBut_printitems hmid)).trans
      (sameBut_assign htop _ _)

/-- The hashes that are printed before those of a side are none of its own. -/
theorem Quiet.of_sameBut (h : Quiet σ st) {st' : Perl} (hsame : SameBut σ st st') :
    Quiet σ st' :=
  fun k hk => (hsame.hash k (σ.separate k hk)).trans (h k hk)

/-- The lines of a side, one after the other. -/
theorem Quiet.view_foldl (h : Quiet σ st) {lines : List IdLine} (hlines : ∀ i ∈ lines, i.kind ∈ σ.kinds) :
    (lines.foldl Perl.addItem st).view σ = lines.foldl (View.addItem σ) (st.view σ) ∧
      SameBut σ st (lines.foldl Perl.addItem st) := by
  induction lines generalizing st with
  | nil => exact ⟨rfl, .refl σ st⟩
  | cons i lines ih =>
      have hi := hlines i List.mem_cons_self
      have hsame := h.sameBut_addItem hi
      obtain ⟨hview, hsame'⟩ := ih (h.of_sameBut hsame)
        fun i' hi' => hlines i' (List.mem_cons_of_mem _ hi')
      rw [List.foldl_cons, List.foldl_cons, hview, h.view_addItem hi]
      exact ⟨rfl, hsame.trans hsame'⟩

end side

end PciIds
end EfiApps
