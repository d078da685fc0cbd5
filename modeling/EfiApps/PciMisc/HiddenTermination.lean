import EfiApps.PciMisc.HiddenSearch

/-!
# When the rounds of the search end

The loop over the bridges works off the tree of hidden functions breadth first: its list of
bridges is the list of the bridges of the tree that are still to be searched.  So a search
comes to an end exactly if the tree below the bridges that it begins with is finite and no
capability list in it is a ring; and the search after it finds nothing more.
-/

namespace EfiApps
namespace PciMisc

open Relation

/-! ## The work that is left -/

/-- The search gets past the bridge and finds nothing there. -/
structure BridgeView.Fruitless (hw : ConfigSpace) (v : BridgeView) : Prop where
  functions : v.functions hw = []
  root : ¬ v.Rootless

/-- What is to be done about the bridge `b` is `v`: what is seen there, or nothing if the
bridge has children. -/
def ToSearch (hw : ConfigSpace) (heap : Heap) (b : Addr) (v : BridgeView) : Prop :=
  (heap b).firstChild ≠ none ∧ v.Fruitless hw ∨ (heap b).firstChild = none ∧ SeenAs heap b v

/-- There is nothing more to find behind the bridge. -/
def Exhausted (hw : ConfigSpace) (heap : Heap) (b : Addr) : Prop :=
  ∃ v, ToSearch hw heap b v ∧ v.Fruitless hw

/-- The loop over the bridges is at `p`: the bridges before it are exhausted, and `work` is what
is to be done about the others. -/
structure Pending (hw : ConfigSpace) (heap : Heap) (brk : Addr) (bridges before rest : List Addr)
    (children : Addr → List Addr) (p : Option Addr) (work : List BridgeView) : Prop where
  tree : SettledTree heap bridges children brk
  split : bridges = before ++ rest
  linked : Linked (fun a => (heap a).chain) p rest
  work : List.Forall₂ (ToSearch hw heap) rest work
  exhausted : ∀ b ∈ before, Exhausted hw heap b

namespace BridgeView.Fruitless

variable {hw : ConfigSpace} {v : BridgeView}

theorem bridges (h : v.Fruitless hw) : v.bridges hw = [] := by
  rw [BridgeView.bridges, h.functions, List.filter_nil]

theorem passable (h : v.Fruitless hw) : v.Passable hw := by
  refine ⟨h.root, fun c hc => ?_⟩
  rw [h.functions] at hc
  cases hc

end BridgeView.Fruitless

/-- The bridge that is passed over. -/
def passedOver : BridgeView := ⟨{}, {}, 256, some (0, 0)⟩

theorem fruitless_passedOver (hw : ConfigSpace) : passedOver.Fruitless hw :=
  ⟨rfl, fun h => by cases h.1⟩

section pending

variable {hw : ConfigSpace} {bridges before rest : List Addr} {children : Addr → List Addr}
  {s s' : Search} {b : Addr} {v : BridgeView} {work : List BridgeView} {found : List Addr}

/-- The other bridges keep their first child. -/
theorem SearchedBehind.firstChild_eq (h : SearchedBehind hw bridges children b v s s' found)
    (htree : SettledTree s.bus.heap bridges children s.brk) {a : Addr} (ha : a ≠ b) :
    (s'.bus.heap a).firstChild = (s.bus.heap a).firstChild := by
  rw [h.tree.links.lists.firstChild, htree.links.lists.firstChild, Function.update_of_ne ha]

theorem SearchedBehind.toSearch (h : SearchedBehind hw bridges children b v s s' found)
    (htree : SettledTree s.bus.heap bridges children s.brk) {a : Addr} (ha : a ∈ bridges)
    (hab : a ≠ b) {w : BridgeView} (ha' : ToSearch hw s.bus.heap a w) :
    ToSearch hw s'.bus.heap a w := by
  unfold ToSearch
  rw [h.firstChild_eq htree hab]
  refine ha'.imp_right fun hseen => ⟨hseen.1, ?_⟩
  exact h.kept.seenAs htree.links (htree.links.lt_of_mem_bridges ha) hseen.2

/-- The bridge that has been searched is exhausted. -/
theorem SearchedBehind.exhausted (h : SearchedBehind hw bridges children b v s s' found)
    (htree : SettledTree s.bus.heap bridges children s.brk) (hb : b ∈ bridges)
    (hseen : SeenAs s.bus.heap b v) (hpass : v.Passable hw) (hnone : (s.bus.heap b).firstChild = none) :
    Exhausted hw s'.bus.heap b := by
  have hchildren : children b = [] := by
    rw [htree.links.lists.firstChild, List.head?_eq_none_iff] at hnone
    exact hnone
  have hfirst : (s'.bus.heap b).firstChild = found.head? := by
    rw [h.tree.links.lists.firstChild, Function.update_self, hchildren, List.nil_append]
  cases hfound : found with
  | nil =>
      have hlength := h.length
      rw [hfound] at hlength hfirst
      refine ⟨v, .inr ⟨hfirst, ?_⟩, List.length_eq_zero_iff.mp hlength.symm, hpass.1⟩
      exact h.kept.seenAs htree.links (htree.links.lt_of_mem_bridges hb) hseen
  | cons c found =>
      rw [hfound] at hfirst
      refine ⟨passedOver, .inl ⟨?_, fruitless_passedOver hw⟩, fruitless_passedOver hw⟩
      rw [hfirst]
      exact Option.some_ne_none c

/-- One round of the loop: the bridge is exhausted, and the bridges found behind it are to be
searched after all others. -/
theorem pending_step {fuel : Nat}
    (h : Pending hw s.bus.heap s.brk bridges before rest children (some b) (v :: work))
    (hrun : searchBridge (staticEnv hw) fuel b s = .ok s') :
    v.Passable hw ∧ s'.brk ≤ s.brk + 256 ∧
      s'.pciDeviceCount = s.pciDeviceCount + (v.functions hw).length ∧
      ∃ bridges' before' rest' children', Pending hw s'.bus.heap s'.brk bridges' before' rest'
        children' (s'.bus.heap b).chain (work ++ v.bridges hw) := by
  obtain ⟨htree, hsplit, hlinked, hwork, hexhausted⟩ := h
  cases hwork with
  | @cons c _ rest _ hc hwork =>
  obtain rfl : b = c := Option.some.inj hlinked.1
  have hlinkedRest := hlinked.2
  have hb : b ∈ bridges := by simp [hsplit]
  have hnodup : bridges.Nodup := htree.links.chain.linked.2.nodup
  rcases hc with ⟨hchild, hnothing⟩ | ⟨hnone, hseen⟩
  · -- The bridge has children.
    obtain rfl : s = s' := by
      rw [searchBridge, if_pos (Option.isSome_iff_ne_none.mpr hchild)] at hrun
      exact Except.ok.inj hrun
    refine ⟨hnothing.passable, Nat.le_add_right _ _, by rw [hnothing.functions]; rfl,
      bridges, before ++ [b], rest, children, htree, by simp [hsplit], hlinkedRest, ?_, ?_⟩
    · rw [hnothing.bridges, List.append_nil]
      exact hwork
    · intro c hc
      rcases List.mem_append.mp hc with hc | hc
      · exact hexhausted c hc
      · obtain rfl := List.mem_singleton.mp hc
        exact ⟨v, .inl ⟨hchild, hnothing⟩, hnothing⟩
  · -- It has none, and is searched.
    obtain ⟨hpass, found, hsearched⟩ := searchBridge_searched htree hb hseen hnone hrun
    have hother : ∀ c ∈ before ++ rest, c ≠ b := by
      rintro c hc rfl
      rw [hsplit, List.nodup_middle] at hnodup
      exact (List.nodup_cons.mp hnodup).1 hc
    have hmem : ∀ c ∈ before ++ rest, c ∈ bridges := by
      intro c hc
      rw [hsplit]
      rcases List.mem_append.mp hc with hc | hc
      · exact List.mem_append_left _ hc
      · exact List.mem_append_right _ (List.mem_cons_of_mem b hc)
    have hkeep : ∀ c ∈ before ++ rest, ∀ w, ToSearch hw s.bus.heap c w →
        ToSearch hw s'.bus.heap c w := fun c hc w h =>
      hsearched.toSearch htree (hmem c hc) (hother c hc) h
    refine ⟨hpass, hsearched.brk.2, hsearched.count.trans (by rw [hsearched.length]),
      _, before ++ [b], rest ++ found.filter fun a => (s'.bus.heap a).pciType1, _,
      hsearched.tree, by simp [hsplit], ?_, ?_, ?_⟩
    · have hchain : Linked (fun a => (s'.bus.heap a).chain) _
          (bridges ++ found.filter fun a => (s'.bus.heap a).pciType1) :=
        hsearched.tree.links.chain.linked.2
      rw [hsplit, List.append_assoc, List.cons_append] at hchain
      exact hchain.drop
    · refine List.rel_append ?_ ?_
      · have hold := (List.forall₂_and_left _ _).mpr ⟨fun c hc => hc, hwork⟩
        exact hold.imp fun c w h => hkeep c (List.mem_append_right _ h.1) w h.2
      · have hnew := (List.forall₂_and_left _ _).mpr ⟨fun c hc => hc, hsearched.seen⟩
        refine hnew.imp fun c w h => .inr ⟨?_, h.2⟩
        have hc := hsearched.fresh c (List.mem_filter.mp h.1).1
        have hne : c ≠ b := fun heq =>
          absurd (htree.links.lt_of_mem_bridges hb) (not_lt.mpr (heq ▸ hc))
        rw [hsearched.firstChild_eq htree hne, htree.links.lists.firstChild,
          htree.links.unused c hc]
        rfl
    · intro c hc
      rcases List.mem_append.mp hc with hc | hc
      · obtain ⟨w, hw', hnothing⟩ := hexhausted c hc
        exact ⟨w, hkeep c (List.mem_append_left _ hc) w hw', hnothing⟩
      · obtain rfl := List.mem_singleton.mp hc
        exact hsearched.exhausted htree hb hseen hpass hnone

end pending

/-! ## One search -/

/-- In the state `s`, with the loop at `p`, the work `work` is left. -/
def WorkLeft (hw : ConfigSpace) (s : Search) (p : Option Addr) (work : List BridgeView) : Prop :=
  ∃ bridges before rest children,
    Pending hw s.bus.heap s.brk bridges before rest children p work

section search

variable {hw : ConfigSpace} {s s' : Search} {p : Option Addr} {work : List BridgeView}
  {fuel n : Nat}

theorem WorkLeft.eq_none_iff (h : WorkLeft hw s p work) : p = none ↔ work = [] := by
  obtain ⟨bridges, before, rest, children, hpending⟩ := h
  have hlinked := hpending.linked
  cases hpending.work with
  | nil => exact iff_of_true hlinked rfl
  | cons _ _ =>
      refine iff_of_false ?_ (List.cons_ne_nil _ _)
      rw [hlinked.1]
      exact Option.some_ne_none _

theorem WorkLeft.step {b : Addr} {v : BridgeView} (h : WorkLeft hw s (some b) (v :: work))
    (hrun : searchBridge (staticEnv hw) fuel b s = .ok s') :
    v.Passable hw ∧ s'.brk ≤ s.brk + 256 ∧
      s'.pciDeviceCount = s.pciDeviceCount + (v.functions hw).length ∧
      WorkLeft hw s' (s'.bus.heap b).chain (work ++ v.bridges hw) := by
  obtain ⟨bridges, before, rest, children, hpending⟩ := h
  exact pending_step hpending hrun

/-- A search that has returned has got through its work. -/
theorem searchForHiddenDevices_drains (h : WorkLeft hw s (s.bus.heap hostBridge).chain work)
    (hrun : searchForHiddenDevices (staticEnv hw) fuel s = .ok s') :
    ∃ n, Drains (BridgeView.bridges hw) (BridgeView.Passable hw) work n := by
  unfold searchForHiddenDevices at hrun
  rw [Run.bind_eq_ok] at hrun
  obtain ⟨s₁, hloop, -⟩ := hrun
  refine (forEach_drains (J := WorkLeft hw) (fun s q hq => hq.eq_none_iff.mp rfl)
    (fun s a q hq hnil => ?_) (fun s s' a v rest hq hbody => ?_)
    (show WorkLeft hw { s with pciDeviceCount := 0 } _ work from h) hloop).1
  · exact absurd (hq.eq_none_iff.mpr hnil) (Option.some_ne_none a)
  · obtain ⟨hpass, -, -, hnext⟩ := hq.step hbody
    exact ⟨hpass, hnext⟩

/-- Nothing comes of work that is to search nothing. -/
def Idle (hw : ConfigSpace) (work : List BridgeView) : Prop := ∀ v ∈ work, v.Fruitless hw

theorem Idle.drains (h : Idle hw work) :
    Drains (BridgeView.bridges hw) (BridgeView.Passable hw) work work.length := by
  exact drains_of_spawn_nil fun v hv => ⟨(h v hv).passable, (h v hv).bridges⟩

/-- A round of the loop returns if it gets past the bridge. -/
theorem WorkLeft.returns {b : Addr} {v : BridgeView} (h : WorkLeft hw s (some b) (v :: work))
    (hpass : v.Passable hw) (hfuel : s.brk + 256 ≤ fuel) :
    (searchBridge (staticEnv hw) fuel b s).Returns := by
  obtain ⟨bridges, before, rest, children, htree, hsplit, hlinked, hwork, -⟩ := h
  cases hwork with
  | @cons c _ rest _ hc hwork =>
  obtain rfl : b = c := Option.some.inj hlinked.1
  rcases hc with ⟨hchild, -⟩ | ⟨-, hseen⟩
  · rw [searchBridge, if_pos (Option.isSome_iff_ne_none.mpr hchild)]
    exact Run.returns_ok s
  · exact searchBridge_returns htree (by simp [hsplit]) hseen hpass hfuel

/-- When no work is left, the next search has nothing to find. -/
theorem WorkLeft.exhausted (h : WorkLeft hw s none []) :
    endBridges s.bus.heap = s.bus.heap ∧
      ∃ work, WorkLeft hw s (s.bus.heap hostBridge).chain work ∧ Idle hw work ∧
        work.length ≤ s.brk := by
  obtain ⟨bridges, before, rest, children, htree, hsplit, -, hwork, hexhausted⟩ := h
  obtain rfl := List.forall₂_nil_right_iff.mp hwork
  rw [List.append_nil] at hsplit
  subst hsplit
  have hchain := htree.links.chain
  obtain ⟨work, hwork⟩ := exists_forall₂ hexhausted
  refine ⟨hchain.endBridges, work, ?_, fun v hv => ?_, ?_⟩
  · exact ⟨bridges, [], bridges, children, htree, rfl, hchain.linked.2,
      hwork.imp fun _ _ h => h.1, fun b hb => by cases hb⟩
  · obtain ⟨b, -, -, hnothing⟩ := exists_of_mem_right hwork hv
    exact hnothing
  · rw [← hwork.length_eq]
    exact TreeLinks.length_le hchain.linked.2.nodup fun b hb => htree.links.lt_of_mem_bridges hb

/-- With `n` rounds to go: there are addresses for them below `limit`, and if the search is
`idle`, there is nothing to find and nothing has been found. -/
structure RoundsLeft (hw : ConfigSpace) (limit : Nat) (idle : Prop) (n : Nat) (s : Search)
    (p : Option Addr) (work : List BridgeView) : Prop where
  left : WorkLeft hw s p work
  room : s.brk + 256 * n ≤ limit
  idle : idle → Idle hw work ∧ s.pciDeviceCount = 0

/-- There is room for a round. -/
theorem RoundsLeft.returns {limit : Nat} {idle : Prop} {b : Addr} {v : BridgeView}
    (h : RoundsLeft hw limit idle (n + 1) s (some b) (v :: work)) (hpass : v.Passable hw)
    (hfuel : limit ≤ fuel) : (searchBridge (staticEnv hw) fuel b s).Returns := by
  apply h.left.returns hpass
  calc s.brk + 256 ≤ s.brk + 256 * (n + 1) :=
        Nat.add_le_add_left (Nat.le_mul_of_pos_right 256 n.succ_pos) s.brk
    _ ≤ limit := h.room
    _ ≤ fuel := hfuel

theorem RoundsLeft.step {limit : Nat} {idle : Prop} {b : Addr} {v : BridgeView}
    (h : RoundsLeft hw limit idle (n + 1) s (some b) (v :: work))
    (hrun : searchBridge (staticEnv hw) fuel b s = .ok s') :
    RoundsLeft hw limit idle n s' (s'.bus.heap b).chain (work ++ v.bridges hw) := by
  obtain ⟨hleft, hroom, hidle⟩ := h
  obtain ⟨-, hbrk, hcount, hleft'⟩ := hleft.step hrun
  refine ⟨hleft', ?_, fun hi => ?_⟩
  · unfold Addr at *
    omega
  · obtain ⟨hidle, hzero⟩ := hidle hi
    have hnothing : v.Fruitless hw := hidle v List.mem_cons_self
    rw [hnothing.bridges, List.append_nil]
    refine ⟨fun w hw => hidle w (List.mem_cons_of_mem v hw), ?_⟩
    rw [hcount, hzero, hnothing.functions]
    rfl

/-- A search returns if it can get through its work, and leaves none for the next. -/
theorem searchForHiddenDevices_returns
    (h : WorkLeft hw s (s.bus.heap hostBridge).chain work)
    (hdrains : Drains (BridgeView.bridges hw) (BridgeView.Passable hw) work n)
    (hfuel : s.brk + 256 * n ≤ fuel) :
    ∃ s', searchForHiddenDevices (staticEnv hw) fuel s = .ok s' ∧ s'.brk ≤ s.brk + 256 * n ∧
      (Idle hw work → s'.pciDeviceCount = 0) ∧
      ∃ work', WorkLeft hw s' (s'.bus.heap hostBridge).chain work' ∧ Idle hw work' ∧
        work'.length ≤ s'.brk := by
  have hstart : RoundsLeft hw (s.brk + 256 * n) (Idle hw work) n { s with pciDeviceCount := 0 }
      (s.bus.heap hostBridge).chain work :=
    ⟨h, le_refl (s.brk + 256 * n), fun hidle => ⟨hidle, rfl⟩⟩
  have henough : n ≤ fuel := calc
    n ≤ 256 * n := Nat.le_mul_of_pos_left n (Nat.zero_lt_succ 255)
    _ ≤ s.brk + 256 * n := Nat.le_add_left _ _
    _ ≤ fuel := hfuel
  have hloop : ∃ s₁, forEach (fun s b => (s.bus.heap b).chain) (searchBridge (staticEnv hw) fuel) fuel
      (s.bus.heap hostBridge).chain { s with pciDeviceCount := 0 } = .ok s₁ ∧
        RoundsLeft hw (s.brk + 256 * n) (Idle hw work) 0 s₁ none [] :=
    forEach_of_drains (K := RoundsLeft hw (s.brk + 256 * n) (Idle hw work))
      (fun m t p ht => ht.left.eq_none_iff.mpr rfl)
      (fun m t v rest ht => absurd (ht.left.eq_none_iff.mp rfl) (List.cons_ne_nil v rest))
      (fun m t b v rest ht hv => ht.returns hv hfuel)
      (fun m t t' b v rest ht hbody => ht.step hbody) hdrains henough hstart
  obtain ⟨s₁, hrun, hleft, hbrk, hidle⟩ := hloop
  obtain ⟨hend, hnext⟩ := hleft.exhausted
  refine ⟨s₁, ?_, hbrk, fun hwork => (hidle hwork).2, hnext⟩
  unfold searchForHiddenDevices
  rw [hrun, Run.ok_bind, hend]

end search

/-! ## The rounds -/

/-- The bridge `b` as it is before the search, with the way up from it. -/
def bridgeView (heap : Heap) (path : List Addr) (b : Addr) (unused : Option (UInt8 × UInt8)) :
    BridgeView where
  device := heap b
  parentPci := ((heap b).parent.map fun p => (heap p).pci).getD {}
  level := path.length
  unused := unused

/-- The search begins with `v`, a bridge of the tree without children. -/
def StartsWith (heap : Heap) (bridges : List Addr) (v : BridgeView) : Prop :=
  ∃ b ∈ bridges, (heap b).firstChild = none ∧ ∃ path unused, PathUp heap path b unused ∧
    v = bridgeView heap path b unused

namespace BridgeView

variable {hw : ConfigSpace} {v : BridgeView}

/-- A function below the bridge has a capability list that is a ring without the capability
that the search looks for. -/
def FindsCapabilityRing (hw : ConfigSpace) (v : BridgeView) : Prop :=
  ∃ v', ReflTransGen (Spawns (bridges hw)) v v' ∧ ∃ c ∈ v'.functions hw,
    pciCapabilitySupport c.device = true ∧
      ReachesRing (nextCapability hw c.device pciCapabilityIdPciExp) (firstCapability hw c.device 0)

/-- The search comes to a bridge that needs buses, and there is no root bridge. -/
def FindsRootless (hw : ConfigSpace) (v : BridgeView) : Prop :=
  ∃ v', ReflTransGen (Spawns (bridges hw)) v v' ∧ v'.Rootless

theorem forall_passable_iff :
    (∀ v', ReflTransGen (Spawns (bridges hw)) v v' → v'.Passable hw) ↔
      ¬ v.FindsRootless hw ∧ ¬ v.FindsCapabilityRing hw := by
  have hfinite := finite_uInt8
  have hlists : ∀ v' : BridgeView, v'.CapabilityListsEnd hw ↔
      ¬ ∃ c ∈ v'.functions hw, pciCapabilitySupport c.device = true ∧
        ReachesRing (nextCapability hw c.device pciCapabilityIdPciExp)
          (firstCapability hw c.device 0) := by
    intro v'
    unfold CapabilityListsEnd CapabilityListEnds
    simp only [walkEnds_iff, not_exists, not_and]
  unfold FindsRootless FindsCapabilityRing Passable
  simp only [hlists, not_exists (p := fun _ => _ ∧ _), not_and]
  exact ⟨fun h => ⟨fun v' hv => (h v' hv).1, fun v' hv => (h v' hv).2⟩,
    fun h v' hv => ⟨h.1 v' hv, h.2 v' hv⟩⟩

end BridgeView

section rounds

variable {hw : ConfigSpace} {heap : Heap} {bridges : List Addr} {children : Addr → List Addr}
  {brk : Addr} {b : Addr} {path : List Addr} {unused : Option (UInt8 × UInt8)} {v : BridgeView}

/-- A bridge that is no root bridge has a record above it. -/
theorem PathUp.exists_parent (hpath : PathUp heap path b unused) (hb : b ≠ hostBridge)
    (hsegment : (heap b).isSegment = false) : ∃ p, (heap b).parent = some p := by
  cases unused with
  | some unused =>
      obtain ⟨root, hpath, -, -⟩ := hpath
      exact Option.ne_none_iff_exists'.mp (hpath.parent_ne_none (hpath.self_mem hsegment))
  | none =>
      cases path with
      | nil => exact absurd hpath.1 hb
      | cons c path =>
          obtain ⟨rfl, -, p, hp, -⟩ := hpath
          exact ⟨p, hp⟩

theorem seenAs_bridgeView (hb : b ≠ hostBridge) (hpath : PathUp heap path b unused) :
    SeenAs heap b (bridgeView heap path b unused) := by
  refine ⟨.refl _, ⟨path, hpath, rfl⟩, fun hsegment => ?_⟩
  obtain ⟨p, hp⟩ := hpath.exists_parent hb hsegment
  refine ⟨p, hp, ?_⟩
  unfold bridgeView
  rw [hp]
  rfl

theorem OrphanPath.linked (hhost : (heap hostBridge).parent = none)
    (hpath : OrphanPath heap path b) :
    Linked (fun a => if (heap a).isSegment then none else (heap a).parent) (some b)
      (path ++ [hostBridge]) := by
  induction path generalizing b with
  | nil =>
      obtain ⟨rfl, hsegment⟩ := hpath
      exact ⟨rfl, by simp [hsegment, hhost]⟩
  | cons c path ih =>
      obtain ⟨rfl, hsegment, p, hp, hrest⟩ := hpath
      exact ⟨rfl, by simpa [hsegment, hp] using ih hrest⟩

/-- The way up ends at a root bridge or at the host bridge. -/
theorem PathUp.linked (hhost : (heap hostBridge).parent = none)
    (hpath : PathUp heap path b unused) :
    ∃ top, Linked (fun a => if (heap a).isSegment then none else (heap a).parent) (some b)
        (path ++ [top]) ∧
      unused = if (heap top).isSegment then
        some ((heap top).bigUnusedStart, (heap top).bigUnusedEnd) else none := by
  cases unused with
  | none =>
      have htop : ∀ path b, OrphanPath heap path b → (heap hostBridge).isSegment = false := by
        intro path
        induction path with
        | nil => exact fun b h => h.1 ▸ h.2
        | cons c path ih =>
            rintro b ⟨-, -, p, -, hrest⟩
            exact ih p hrest
      refine ⟨hostBridge, OrphanPath.linked hhost hpath, ?_⟩
      rw [htop path b hpath, if_neg Bool.false_ne_true]
  | some unused =>
      obtain ⟨root, hpath, hroot, rfl⟩ := hpath
      exact ⟨root, hroot, (if_pos (hpath.isSegment_root hroot)).symm⟩

/-- A bridge has one way up. -/
theorem PathUp.unique (hhost : (heap hostBridge).parent = none) {path' : List Addr}
    {unused' : Option (UInt8 × UInt8)} (hpath : PathUp heap path b unused)
    (hpath' : PathUp heap path' b unused') : path' = path ∧ unused' = unused := by
  obtain ⟨top, hlinked, hunused⟩ := hpath.linked hhost
  obtain ⟨top', hlinked', hunused'⟩ := hpath'.linked hhost
  obtain ⟨hsame, hlast⟩ := List.append_inj' (hlinked'.unique hlinked) rfl
  obtain rfl := List.singleton_inj.mp hlast
  exact ⟨hsame, hunused'.trans hunused.symm⟩

/-- What is to be done about the bridge `b` when the rounds begin. -/
def StartItem (heap : Heap) (b : Addr) (v : BridgeView) : Prop :=
  (heap b).firstChild ≠ none ∧ v = passedOver ∨
    (heap b).firstChild = none ∧ ∃ path unused, PathUp heap path b unused ∧
      v = bridgeView heap path b unused

theorem StartItem.toSearch (h : StartItem heap b v) (hb : b ≠ hostBridge) :
    ToSearch hw heap b v := by
  rcases h with ⟨hchild, rfl⟩ | ⟨hnone, path, unused, hpath, rfl⟩
  · exact .inl ⟨hchild, fruitless_passedOver hw⟩
  · exact .inr ⟨hnone, seenAs_bridgeView hb hpath⟩

/-- The work that the rounds begin with. -/
theorem exists_startWork (hw : ConfigSpace) (htree : SettledTree heap bridges children brk) :
    ∃ work, WorkLeft hw (startRounds heap brk) (heap hostBridge).chain work ∧
      (∀ v, StartsWith heap bridges v → v ∈ work) ∧
      ∀ v ∈ work, v = passedOver ∨ StartsWith heap bridges v := by
  have hhost := htree.links.hostBridge_parent
  have hne : ∀ b ∈ bridges, b ≠ hostBridge := by
    rintro b hb rfl
    obtain ⟨p, hp⟩ := ((htree.links.bridge hostBridge).mp hb).1
    exact htree.links.host p hp
  have hitem : ∀ b ∈ bridges, ∃ v, b ∈ bridges ∧ StartItem heap b v := by
    intro b hb
    by_cases hnone : (heap b).firstChild = none
    · obtain ⟨path, unused, hpath⟩ := htree.path b hb
      exact ⟨_, hb, .inr ⟨hnone, path, unused, hpath, rfl⟩⟩
    · exact ⟨passedOver, hb, .inl ⟨hnone, rfl⟩⟩
  obtain ⟨work, hwork⟩ := exists_forall₂ hitem
  refine ⟨work, ⟨bridges, [], bridges, children, htree, rfl, htree.links.chain.linked.2,
    hwork.imp fun b _ h => h.2.toSearch (hne b h.1), fun b hb => by cases hb⟩, fun v hv => ?_,
    fun v hv => ?_⟩
  · obtain ⟨b, hb, hnone, path, unused, hpath, rfl⟩ := hv
    obtain ⟨w, hmem, -, hchild | ⟨-, path', unused', hpath', rfl⟩⟩ := exists_of_mem_left hwork hb
    · exact absurd hnone hchild.1
    · obtain ⟨rfl, rfl⟩ := hpath.unique hhost hpath'
      exact hmem
  · obtain ⟨b, hb, -, hchild | ⟨hnone, hstart⟩⟩ := exists_of_mem_right hwork hv
    · exact .inl hchild.2
    · exact .inr ⟨b, hb, hnone, hstart⟩

/-- Two rounds are enough if the first one gets through: the second one finds nothing. -/
theorem hiddenDeviceRounds_returns {s : Search} {work : List BridgeView} {m : Nat}
    (h : WorkLeft hw s (s.bus.heap hostBridge).chain work)
    (hdrains : Drains (BridgeView.bridges hw) (BridgeView.Passable hw) work m)
    {fuel n : Nat} (hfuel : 257 * (s.brk + 256 * m) ≤ fuel) (hn : 2 ≤ n) :
    (hiddenDeviceRounds (staticEnv hw) fuel n s).Returns := by
  obtain ⟨n, rfl⟩ : ∃ k, n = k + 2 := ⟨n - 2, by omega⟩
  have hfirst : s.brk + 256 * m ≤ fuel :=
    (Nat.le_mul_of_pos_left _ (Nat.zero_lt_succ 256)).trans hfuel
  obtain ⟨s₁, hrun, hbrk, -, work₁, hwork₁, hidle, hlength⟩ :=
    searchForHiddenDevices_returns h hdrains hfirst
  rw [hiddenDeviceRounds, hrun, Run.ok_bind]
  split
  · exact Run.returns_ok s₁
  · have hsecond : s₁.brk + 256 * work₁.length ≤ fuel := calc
      s₁.brk + 256 * work₁.length ≤ s₁.brk + 256 * s₁.brk :=
        Nat.add_le_add_left (Nat.mul_le_mul_left 256 hlength) _
      _ = 257 * s₁.brk := (Nat.succ_mul 256 s₁.brk ▸ Nat.add_comm _ _)
      _ ≤ 257 * (s.brk + 256 * m) := Nat.mul_le_mul_left 257 hbrk
      _ ≤ fuel := hfuel
    obtain ⟨s₂, hrun₂, -, hzero, -⟩ :=
      searchForHiddenDevices_returns hwork₁ hidle.drains hsecond
    rw [hiddenDeviceRounds, hrun₂, Run.ok_bind, if_pos (hzero hidle)]
    exact Run.returns_ok s₂

/-- If the rounds return, the first one has got through its work. -/
theorem hiddenDeviceRounds_drains {s : Search} {work : List BridgeView}
    (h : WorkLeft hw s (s.bus.heap hostBridge).chain work) {fuel n : Nat}
    (hreturns : (hiddenDeviceRounds (staticEnv hw) fuel n s).Returns) :
    ∃ m, Drains (BridgeView.bridges hw) (BridgeView.Passable hw) work m := by
  obtain ⟨s', hrun⟩ := hreturns
  cases n with
  | zero => cases hrun
  | succ n =>
      rw [hiddenDeviceRounds, Run.bind_eq_ok] at hrun
      obtain ⟨s₁, hsearch, -⟩ := hrun
      exact searchForHiddenDevices_drains h hsearch

/-- On hardware that does not change, the rounds end exactly if below no bridge that they
begin with there is a bridge that `VerifyBuses` leaves as it is and that leads, through such
bridges, back to its own place, or one that needs buses where there is no root bridge to take
them from, or a function with a capability list that is a ring. -/
theorem hiddenDeviceRounds_returns_iff (htree : SettledTree heap bridges children brk)
    (hw : ConfigSpace) :
    (∃ fuel₁ n₁, ∀ fuel ≥ fuel₁, ∀ n ≥ n₁,
      (hiddenDeviceRounds (staticEnv hw) fuel n (startRounds heap brk)).Returns) ↔
      ∀ v, StartsWith heap bridges v →
        ¬ v.EntersRing hw ∧ ¬ v.FindsRootless hw ∧ ¬ v.FindsCapabilityRing hw := by
  obtain ⟨work, hwork, hstart, hmem⟩ := exists_startWork hw htree
  constructor
  · rintro ⟨fuel, n, hreturns⟩ v hv
    have hdrains := hiddenDeviceRounds_drains hwork (hreturns fuel le_rfl n le_rfl)
    obtain ⟨hacc, hpass⟩ := drains_iff.mp hdrains v (hstart v hv)
    exact ⟨(BridgeView.acc_iff hw v).mp hacc, BridgeView.forall_passable_iff.mp hpass⟩
  · intro h
    obtain ⟨m, hdrains⟩ : ∃ m, Drains (BridgeView.bridges hw) (BridgeView.Passable hw) work m := by
      refine drains_iff.mpr fun v hv => ?_
      rcases hmem v hv with rfl | hv
      · -- A bridge with children leads to nothing.
        have hidle : Idle hw [passedOver] := by
          intro v hv
          rw [List.mem_singleton.mp hv]
          exact fruitless_passedOver hw
        exact drains_iff.mp ⟨1, hidle.drains⟩ passedOver List.mem_cons_self
      · obtain ⟨hring, hpass⟩ := h v hv
        exact ⟨(BridgeView.acc_iff hw v).mpr hring, BridgeView.forall_passable_iff.mpr hpass⟩
    exact ⟨257 * (brk + 256 * m), 2, fun fuel hfuel n hn =>
      hiddenDeviceRounds_returns hwork hdrains hfuel hn⟩

end rounds

/-! ## On a tree with one bridge -/

theorem pathUp_oneBridge : PathUp oneBridge [2] 2 (some (2, 11)) :=
  ⟨1, ⟨rfl, rfl, rfl, 1, rfl, rfl, by simp [oneBridge]⟩, ⟨rfl, rfl, rfl⟩, rfl⟩

theorem settledTree_oneBridge : SettledTree oneBridge [1, 2] oneBridgeChildren 3 where
  links := treeLinks_oneBridge
  path b hb := by
    rcases List.mem_cons.mp hb with rfl | hb
    · exact ⟨[], some (2, 11), 1, ⟨rfl, by simp [oneBridge]⟩, ⟨rfl, rfl⟩, rfl⟩
    · obtain rfl := List.mem_singleton.mp hb
      exact ⟨[2], some (2, 11), pathUp_oneBridge⟩
  settled := by
    rintro (_ | _ | _ | a) ha
    · exact absurd rfl ha
    · exact ⟨rfl, fun _ hsegment => by cases hsegment⟩
    · exact ⟨rfl, fun _ _ reg => by cases reg <;> rfl⟩
    · exact absurd rfl ha
  parentType := by
    rintro (_ | _ | _ | a) p hp
    · cases hp
    · obtain rfl := Option.some.inj hp
      rfl
    · obtain rfl := Option.some.inj hp
      rfl
    · cases hp

theorem startsWith_oneBridge {v : BridgeView} :
    StartsWith oneBridge [1, 2] v ↔ v = bridgeView oneBridge [2] 2 (some (2, 11)) := by
  constructor
  · rintro ⟨b, hb, hnone, path, unused, hpath, rfl⟩
    rcases List.mem_cons.mp hb with rfl | hb
    · cases hnone
    · obtain rfl := List.mem_singleton.mp hb
      obtain ⟨rfl, rfl⟩ := pathUp_oneBridge.unique rfl hpath
      rfl
  · rintro rfl
    exact ⟨2, by simp, rfl, [2], some (2, 11), pathUp_oneBridge, rfl⟩

/-- Behind the bridge is a function that is no bridge. -/
theorem hiddenDeviceRounds_returns_iff_oneBridge :
    ∃ fuel₁ n₁, ∀ fuel ≥ fuel₁, ∀ n ≥ n₁,
      (hiddenDeviceRounds (staticEnv (multiFunctionSpace fun f => f = 0)) fuel n
        (startRounds oneBridge 3)).Returns := by
  refine (hiddenDeviceRounds_returns_iff settledTree_oneBridge _).mpr fun v hv => ?_
  obtain rfl := startsWith_oneBridge.mp hv
  have hfunctions : ∀ c ∈ (bridgeView oneBridge [2] 2 (some (2, 11))).functions
      (multiFunctionSpace fun f => f = 0),
      c.device.pciType1 = false ∧ pciCapabilitySupport c.device = false := by
    decide +kernel
  have hbridges : ∀ w, ¬ Spawns (BridgeView.bridges (multiFunctionSpace fun f => f = 0))
      (bridgeView oneBridge [2] 2 (some (2, 11))) w := by
    intro w hspawns
    obtain ⟨hmem, htype⟩ := BridgeView.mem_bridges.mp hspawns
    rw [(hfunctions w hmem).1] at htype
    cases htype
  refine ⟨?_, ?_, ?_⟩
  · rintro ⟨w, hreaches, -⟩
    obtain ⟨u, hspawns, -⟩ := TransGen.head'_iff.mp hreaches
    exact hbridges u hspawns
  · rintro ⟨w, hreaches, hrootless⟩
    rcases ReflTransGen.cases_head hreaches with rfl | ⟨u, hspawns, -⟩
    · cases hrootless.1
    · exact hbridges u hspawns
  · rintro ⟨w, hreaches, c, hmem, hsupport, -⟩
    rcases ReflTransGen.cases_head hreaches with rfl | ⟨u, hspawns, -⟩
    · rw [(hfunctions c hmem).2] at hsupport
      cases hsupport
    · exact hbridges u hspawns

/-- Device 0 of bus 1 is a bridge with bus 1 behind it. -/
def ownBusSpace : ConfigSpace := fun r =>
  (.success, match r.path with
    | .rootBridgeIo _ bus d f =>
        if bus = 1 ∧ d = 0 ∧ f = 0 then
          if r.reg = 0 then [0x12348086, 0, 0, 0x00010000, 0, 0, 0x00010100] else [0]
        else [0xffffffff]
    | .pciIo _ => [0xffffffff])

/-- The search finds that bridge behind the bridge, behind itself, and so on. -/
theorem hiddenDeviceRounds_ownBus :
    SettledTree oneBridge [1, 2] oneBridgeChildren 3 ∧ ∀ fuel n,
      ¬ (hiddenDeviceRounds (staticEnv ownBusSpace) fuel n (startRounds oneBridge 3)).Returns := by
  refine ⟨settledTree_oneBridge, fun fuel n hreturns => ?_⟩
  let v := bridgeView oneBridge [2] 2 (some (2, 11))
  let c := v.behind ownBusSpace 1 (0, 0)
  let c' := c.behind ownBusSpace 1 (0, 0)
  have hc : c ∈ v.bridges ownBusSpace := BridgeView.mem_bridges.mpr
    ⟨BridgeView.mem_functions.mpr ⟨1, (0, 0), by decide +kernel, by decide +kernel, rfl⟩,
      by decide +kernel⟩
  have hc' : c' ∈ c.bridges ownBusSpace := BridgeView.mem_bridges.mpr
    ⟨BridgeView.mem_functions.mpr ⟨1, (0, 0), by decide +kernel, by decide +kernel, rfl⟩,
      by decide +kernel⟩
  have hring : c.OnBusRing ownBusSpace :=
    ⟨by decide +kernel, c', .single ⟨hc', by decide +kernel⟩, by decide +kernel⟩
  obtain ⟨work, hwork, hstart, -⟩ := exists_startWork ownBusSpace settledTree_oneBridge
  obtain ⟨hacc, -⟩ := drains_iff.mp (hiddenDeviceRounds_drains hwork hreturns) v
    (hstart v (startsWith_oneBridge.mpr rfl))
  exact (BridgeView.acc_iff ownBusSpace v).mp hacc ⟨c, .single hc, hring⟩

end PciMisc
end EfiApps
