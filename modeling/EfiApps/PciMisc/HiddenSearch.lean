import EfiApps.PciMisc.SettledTree

/-!
# The search behind one bridge

A bridge without children is searched on the bus that it has or that a move gives it, and
afterwards has exactly the functions below it that the tree of hidden functions has there.
All else in the records is as it was, except the links to the new records and the fields
that a move leaves its numbers in.
-/

namespace EfiApps
namespace PciMisc

/-! ## What `VerifyBuses` does -/

section verify

variable {st : BusState} {bridges : List Addr} {children : Addr → List Addr} {brk fuel : Nat}
  {b : Addr} {v : BridgeView}

theorem needToMoveBuses_seenAs (htree : SettledTree st.heap bridges children brk)
    (hb : b ∈ bridges) (hseen : SeenAs st.heap b v) :
    ∃ needed, needToMoveBuses st.heap b = .ok needed ∧ (needed = true ↔ ¬ v.Accepted) := by
  obtain ⟨hsame, -, hparent⟩ := hseen
  cases hsegment : (st.heap b).isSegment with
  | true =>
      refine ⟨false, by rw [needToMoveBuses, if_pos hsegment], ?_⟩
      have haccepted : v.Accepted := .inl (hsame.isSegment.symm.trans hsegment)
      simp [haccepted]
  | false =>
      obtain ⟨p, hp, hpci⟩ := hparent hsegment
      obtain ⟨needed, hneeded, hiff⟩ := needToMoveBuses_eq hsegment
        ((htree.links.bridge b).mp hb).2 hp (htree.parentType b p hp)
      refine ⟨needed, hneeded, hiff.trans (not_congr ?_)⟩
      unfold BusReached BridgeView.Accepted
      rw [← hsame.isSegment, hsegment, ← hsame.pci, ← hsame.busNumber, ← hpci]
      constructor
      · rintro ⟨hsecondary, hsubordinate, q, hq, hinside⟩
        obtain rfl := Option.some.inj (hp.symm.trans hq)
        exact .inr ⟨hsecondary, hsubordinate, hinside⟩
      · rintro (hroot | ⟨hsecondary, hsubordinate, hinside⟩)
        · cases hroot
        · exact ⟨hsecondary, hsubordinate, p, hp, hinside⟩

theorem verifyBuses_accepted (htree : SettledTree st.heap bridges children brk)
    (hb : b ∈ bridges) (hseen : SeenAs st.heap b v) (h : v.Accepted) (fuel : Nat) :
    verifyBuses fuel b st = .ok (.success, false, st) := by
  obtain ⟨needed, hneeded, hiff⟩ := needToMoveBuses_seenAs htree hb hseen
  obtain rfl : needed = false := by
    cases needed with
    | true => exact absurd h (hiff.mp rfl)
    | false => rfl
  unfold verifyBuses
  rw [hneeded]
  rfl

/-- A move takes its buses from a root bridge. -/
theorem renumberBuses_orphan {heap : Heap} {path : List Addr} {a : Addr}
    (hpath : OrphanPath heap path a) (hhost : (heap hostBridge).parent = none) (fuel n : Nat) :
    ¬ (renumberBuses fuel n a heap).Returns := by
  induction path generalizing a n with
  | nil =>
      obtain ⟨rfl, hsegment⟩ := hpath
      unfold renumberBuses
      rw [hsegment, if_neg Bool.false_ne_true]
      cases n with
      | zero => exact Run.not_returns_error _
      | succ n =>
          rw [hhost]
          exact Run.not_returns_error _
  | cons c path ih =>
      obtain ⟨rfl, hsegment, p, hp, hrest⟩ := hpath
      unfold renumberBuses
      rw [hsegment, if_neg Bool.false_ne_true]
      cases n with
      | zero => exact Run.not_returns_error _
      | succ n =>
          rintro ⟨heap', hrun⟩
          dsimp only at hrun
          rw [hp, Run.deref_some, Run.ok_bind, Run.bind_eq_ok] at hrun
          obtain ⟨heap₁, hparent, -⟩ := hrun
          exact ih hrest n ⟨heap₁, hparent⟩

/-- A bridge that is not accepted and is below no root bridge. -/
theorem verifyBuses_rootless (htree : SettledTree st.heap bridges children brk)
    (hb : b ∈ bridges) (hseen : SeenAs st.heap b v) (h : v.Rootless) (fuel : Nat) :
    ¬ (verifyBuses fuel b st).Returns := by
  obtain ⟨hnone, hnot⟩ := h
  obtain ⟨needed, hneeded, hiff⟩ := needToMoveBuses_seenAs htree hb hseen
  obtain rfl := hiff.mpr hnot
  obtain ⟨path, hpath, -⟩ := hseen.path
  rw [hnone] at hpath
  rintro ⟨r, hrun⟩
  unfold verifyBuses at hrun
  rw [hneeded, Run.ok_bind, if_pos rfl, Run.bind_eq_ok] at hrun
  obtain ⟨moved, hmove, -⟩ := hrun
  unfold moveBuses at hmove
  rw [Run.bind_eq_ok] at hmove
  obtain ⟨heap₁, hrenumber, -⟩ := hmove
  exact renumberBuses_orphan hpath htree.links.hostBridge_parent fuel fuel ⟨heap₁, hrenumber⟩

/-- The move of a bridge that is not accepted. -/
theorem verifyBuses_move (htree : SettledTree st.heap bridges children brk)
    (hb : b ∈ bridges) (hseen : SeenAs st.heap b v) (h : ¬ v.Accepted) (hroot : ¬ v.Rootless)
    (hfuel : brk ≤ fuel) :
    ∃ st', match v.movedBus with
      | none => verifyBuses fuel b st = .ok (.outOfResources, false, st') ∧
          SameButNew st.heap st'.heap
      | some bus => ∃ path, BridgePath st.heap path b ∧ b ∈ path ∧
          verifyBuses fuel b st = .ok (.success, true, st') ∧ MovedPath st.heap path st'.heap ∧
          (st'.heap b).pci.secondaryBus = bus := by
  obtain ⟨needed, hneeded, hiff⟩ := needToMoveBuses_seenAs htree hb hseen
  obtain rfl := hiff.mpr h
  obtain ⟨hsame, ⟨path, hpath, hlevel⟩, -⟩ := hseen
  obtain ⟨unused, hsome⟩ : ∃ unused, v.unused = some unused :=
    Option.ne_none_iff_exists'.mp fun hnone => hroot ⟨hnone, h⟩
  rw [hsome] at hpath
  obtain ⟨root, hpath, hroot, hunused⟩ := hpath
  have hbelow : path ≠ [] := by
    rintro rfl
    exact h (.inl (hsame.isSegment.symm.trans hpath.1))
  have hmem : b ∈ path := by
    apply hpath.self_mem
    rw [hsame.isSegment]
    exact Bool.eq_false_iff.mpr fun hroot => h (.inl hroot)
  have hfew : TooFewBuses st.heap path root ↔ BridgeView.TooFewBuses unused v.level := by
    unfold TooFewBuses BridgeView.TooFewBuses
    rw [← hlevel, ← hunused]
  obtain ⟨st', hmove⟩ := moveBuses_effect htree.links hfuel hpath hroot hbelow
  refine ⟨st', ?_⟩
  unfold verifyBuses BridgeView.movedBus
  rw [hneeded, Run.ok_bind, hsome]
  simp only [hfew, if_true, Option.bind_some] at hmove ⊢
  by_cases hfull : BridgeView.TooFewBuses unused v.level
  · rw [if_pos hfull] at hmove ⊢
    rw [hmove.1]
    exact ⟨rfl, hmove.2⟩
  · rw [if_neg hfull] at hmove ⊢
    obtain ⟨hrun, hmoved, hsecondary⟩ := hmove
    rw [hrun]
    refine ⟨path, hpath, hmem, rfl, hmoved, ?_⟩
    rw [← hlevel, ← hunused, ← hsecondary, UInt8.ofNat_toNat]
    rfl

end verify

/-! ## What the scan sees -/

/-- The records have the same behind them. -/
structure SameBehind (r r' : PciIoDevice) : Prop where
  pciRootBridgeIo : r'.pciRootBridgeIo = r.pciRootBridgeIo
  segmentNumber : r'.segmentNumber = r.segmentNumber
  secondaryBus : r'.pci.secondaryBus = r.pci.secondaryBus
  isPciMultiFunc : r'.pci.isPciMultiFunc = r.pci.isPciMultiFunc

namespace SameBehind

variable {hw : ConfigSpace} {r r' : PciIoDevice}

theorem behind_eq (h : SameBehind r r') (d f : UInt8) : behind r' d f = behind r d f := by
  unfold behind
  rw [h.pciRootBridgeIo, h.segmentNumber, h.secondaryBus]

theorem withHeader_eq (h : SameBehind r r') (d f : UInt8) :
    withHeader hw r' d f = withHeader hw r d f := by
  rw [withHeader, withHeader, headerOf, headerOf, h.behind_eq]

theorem readable_iff (h : SameBehind r r') (d f : UInt8) :
    Readable hw r' d f ↔ Readable hw r d f := by
  rw [Readable, Readable, Responds, Responds, h.behind_eq]

theorem scannedFunctions_eq (h : SameBehind r r') :
    scannedFunctions hw r' = scannedFunctions hw r := by
  have hprobed : ∀ d functions, probedFunctions hw r' d functions = probedFunctions hw r d functions := by
    intro d functions
    induction functions with
    | nil => rfl
    | cons f rest ih => simp only [probedFunctions, h.readable_iff, h.isPciMultiFunc, ih]
  unfold scannedFunctions
  simp only [hprobed]

end SameBehind

/-- The scan takes an address for each function that it tries. -/
theorem tryFunction_brk {env : HiddenEnv} {fuel : Nat} {b : Addr} {d f : UInt8} {s s' : Search}
    {stop : Bool} (h : tryFunction env fuel b d f s = .ok (s', stop)) : s'.brk ≤ s.brk + 1 := by
  rcases tryFunction_cases h with ⟨-, hbrk, -⟩ | ⟨-, -, -, -, -, -, hbrk, -⟩
  · exact hbrk.2
  · exact hbrk.le

theorem searchFunctions_brk {env : HiddenEnv} {fuel : Nat} {b : Addr} {d : UInt8}
    {functions : List UInt8} {s s' : Search}
    (h : searchFunctions env fuel b d functions s = .ok s') :
    s'.brk ≤ s.brk + functions.length := by
  induction functions generalizing s with
  | nil =>
      obtain rfl := Except.ok.inj h
      exact Nat.le_add_right _ _
  | cons f rest ih =>
      rw [searchFunctions, Run.bind_eq_ok] at h
      obtain ⟨⟨s₁, stop⟩, htry, h⟩ := h
      have hfirst := tryFunction_brk htry
      simp only [List.length_cons]
      dsimp only at h
      split at h
      · obtain rfl := Except.ok.inj h
        unfold Addr at *
        omega
      · have hrest := ih h
        unfold Addr at *
        omega

theorem searchDevices_brk {env : HiddenEnv} {fuel : Nat} {b : Addr} {s s' : Search}
    (h : searchDevices env fuel b s = .ok s') : s'.brk ≤ s.brk + 256 := by
  have hstep : ∀ devices, ∀ d ∈ deviceNumbers, ∀ t t' : Search,
      t.brk ≤ s.brk + 8 * devices.length →
        searchFunctions env fuel b d functionNumbers t = .ok t' →
          t'.brk ≤ s.brk + 8 * (devices ++ [d]).length := by
    intro devices d _ t t' ht hrun
    have hlength : functionNumbers.length = 8 := rfl
    have hfunctions := searchFunctions_brk hrun
    rw [hlength] at hfunctions
    rw [List.length_append, List.length_singleton]
    unfold Addr at *
    omega
  have hstart : s.brk ≤ s.brk + 8 * ([] : List UInt8).length := Nat.le_add_right _ _
  have hend := foldlM_visited hstep hstart h
  have hlength : deviceNumbers.length = 32 := rfl
  rw [List.nil_append, hlength] at hend
  exact hend

/-! ## The search behind a bridge -/

/-- The search behind the bridge `b`, seen as `v`, has gone from `s` to `s'`: there is a new
record for each function that the tree has below `v`, and the bridges among them are seen as
those below `v`. -/
structure SearchedBehind (hw : ConfigSpace) (bridges : List Addr) (children : Addr → List Addr)
    (b : Addr) (v : BridgeView) (s s' : Search) (found : List Addr) : Prop where
  tree : SettledTree s'.bus.heap (bridges ++ found.filter fun a => (s'.bus.heap a).pciType1)
    (Function.update children b (children b ++ found)) s'.brk
  kept : KeptHeap s.bus.heap s'.bus.heap s.brk
  seen : List.Forall₂ (SeenAs s'.bus.heap) (found.filter fun a => (s'.bus.heap a).pciType1)
    (v.bridges hw)
  fresh : ∀ a ∈ found, s.brk ≤ a
  length : found.length = (v.functions hw).length
  count : s'.pciDeviceCount = s.pciDeviceCount + found.length
  brk : s.brk ≤ s'.brk ∧ s'.brk ≤ s.brk + 256

section scanned

variable {hw : ConfigSpace} {bridges : List Addr} {children : Addr → List Addr} {b : Addr}
  {s₀ s : Search} {done : List (UInt8 × UInt8)} {found : List Addr}

/-- A record that was there keeps its place. -/
theorem Scanned.parent_eq (h : Scanned hw bridges children b s₀ done found s)
    (htree : TreeLinks s₀.bus.heap bridges children s₀.brk) {a : Addr} (ha : a < s₀.brk) :
    (s.bus.heap a).parent = (s₀.bus.heap a).parent := by
  refine Option.ext fun p => ?_
  show (s.bus.heap a).parent = some p ↔ (s₀.bus.heap a).parent = some p
  rw [← h.links.mem_children_iff, ← htree.mem_children_iff]
  by_cases hp : p = b
  · subst hp
    rw [Function.update_self, List.mem_append]
    refine or_iff_left fun hmem => ?_
    exact absurd ha (not_lt.mpr (h.fresh a hmem).1)
  · rw [Function.update_of_ne hp]

theorem Scanned.keptHeap (h : Scanned hw bridges children b s₀ done found s)
    (htree : TreeLinks s₀.bus.heap bridges children s₀.brk) :
    KeptHeap s₀.bus.heap s.bus.heap s₀.brk where
  kept a ha := .of_eraseLinks (h.kept a ha)
  parent _ ha := h.parent_eq htree ha

/-- A new record is one that the scan has found. -/
theorem Scanned.mem_found (h : Scanned hw bridges children b s₀ done found s)
    (htree : TreeLinks s₀.bus.heap bridges children s₀.brk) {a : Addr} (ha : s₀.brk ≤ a)
    (hparent : (s.bus.heap a).parent ≠ none) : a ∈ found := by
  obtain ⟨p, hp⟩ := Option.ne_none_iff_exists'.mp hparent
  have hmem := h.links.parent a p hp
  by_cases hpb : p = b
  · subst hpb
    rw [Function.update_self] at hmem
    refine (List.mem_append.mp hmem).resolve_left fun hold => ?_
    exact htree.not_mem ha p hold
  · rw [Function.update_of_ne hpb] at hmem
    exact absurd hmem (htree.not_mem ha p)

/-- What the scan has found, record by record. -/
theorem Scanned.foundAs (h : Scanned hw bridges children b s₀ done found s) {a : Addr}
    (ha : a ∈ found) :
    (s.bus.heap a).isSegment = false ∧ (s.bus.heap a).Settled ∧ (s.bus.heap a).parent = some b := by
  obtain ⟨f, -, hf⟩ := exists_of_mem_right h.records ha
  refine ⟨hf.same.isSegment, hf.settled, h.links.lists.owner b a ?_⟩
  rw [Function.update_self]
  exact List.mem_append_right _ ha

end scanned

section search

variable {hw : ConfigSpace} {bridges : List Addr} {children : Addr → List Addr} {b : Addr}
  {v : BridgeView} {s s₂ : Search} {bus₁ bus₂ : BusState} {bus : UInt8} {found : List Addr}

/-- A bridge that has been found is seen as the tree has it. -/
theorem seenAs_found {heap heap' : Heap} {brk a : Addr} {f : UInt8 × UInt8}
    (htree : TreeLinks heap bridges children brk) (hseen : SeenAs heap b v) (hb : b < brk)
    (hkept : KeptHeap heap heap' brk) (hsame : (v.behind hw bus f).device.SameFunction (heap' a))
    (htype : (heap' a).pciType1 = true) (hparent : (heap' a).parent = some b) :
    SeenAs heap' a (v.behind hw bus f) := by
  obtain ⟨hb', ⟨path, hpath, hlevel⟩, -⟩ := hseen
  have hsegment : (heap' a).isSegment = false := hsame.isSegment
  refine ⟨hsame, ⟨a :: path, ?_, ?_⟩, fun _ => ⟨b, hparent, ?_⟩⟩
  · exact (hkept.pathUp htree hpath).cons hsegment htype hparent
  · rw [List.length_cons, hlevel]
    rfl
  · exact (hkept.kept b hb).pci.trans hb'.pci

/-- A settled tree stays one when settled functions without children of their own have been
attached to one of its bridges. -/
theorem SettledTree.grow {heap heap' : Heap} {brk brk' : Addr} {found : List Addr}
    (htree : SettledTree heap bridges children brk) (hb : b ∈ bridges)
    (hlinks : TreeLinks heap' (bridges ++ found.filter fun a => (heap' a).pciType1)
      (Function.update children b (children b ++ found)) brk')
    (hkept : KeptHeap heap heap' brk)
    (hcases : ∀ a, (heap' a).parent ≠ none → a < brk ∨ a ∈ found)
    (hfound : ∀ a ∈ found, (heap' a).isSegment = false ∧ (heap' a).Settled ∧
      (heap' a).parent = some b) :
    SettledTree heap' (bridges ++ found.filter fun a => (heap' a).pciType1)
      (Function.update children b (children b ++ found)) brk' := by
  obtain ⟨path, unused, hpath⟩ := htree.path b hb
  have hpath' := hkept.pathUp htree.links hpath
  refine ⟨hlinks, fun c hc => ?_, fun a ha => ?_, fun a p hp => ?_⟩
  · rcases List.mem_append.mp hc with hc | hc
    · obtain ⟨path₁, unused₁, hpath₁⟩ := htree.path c hc
      exact ⟨path₁, unused₁, hkept.pathUp htree.links hpath₁⟩
    · obtain ⟨hc, htype⟩ := List.mem_filter.mp hc
      obtain ⟨hsegment, -, hparent⟩ := hfound c hc
      exact ⟨c :: path, unused, hpath'.cons hsegment htype hparent⟩
  · rcases hcases a ha with hold | hin
    · rw [hkept.parent a hold] at ha
      exact (hkept.kept a hold).settled (htree.settled a ha)
    · exact (hfound a hin).2.1
  · rcases hcases a (by simp [hp]) with hold | hin
    · rw [hkept.parent a hold] at hp
      rw [(hkept.kept p (htree.links.parent_lt hp)).pciType1]
      exact htree.parentType a p hp
    · obtain rfl : b = p := Option.some.inj ((hfound a hin).2.2.symm.trans hp)
      rw [(hkept.kept b (htree.links.lt_of_mem_bridges hb)).pciType1]
      exact ((htree.links.bridge b).mp hb).2

/-- The functions that a scan has attached are those of the tree, record by record. -/
theorem Scanned.functions {found : List Addr} {s s₂ : Search} {heap₂ : Heap}
    (hscan : Scanned hw bridges children b s (scannedFunctions hw (s.bus.heap b)) found s₂)
    (hbus : v.searchedBus = some bus)
    (hbehind : SameBehind (v.device.setBridgeBus .secondary bus) (s.bus.heap b))
    (hnew : ∀ a ∈ found, (s₂.bus.heap a).Kept (heap₂ a)) :
    List.Forall₂ (fun a c => a ∈ found ∧ ∃ f, c = v.behind hw bus f ∧
      c.device.SameFunction (heap₂ a)) found (v.functions hw) := by
  have hrecords := (List.forall₂_and_left _ _).mpr
    ⟨fun a ha => ha, (hscan.records.flip : List.Forall₂ _ found _)⟩
  rw [hbehind.scannedFunctions_eq] at hrecords
  unfold BridgeView.functions
  rw [hbus]
  rw [List.forall₂_map_right_iff]
  refine hrecords.imp fun a f h => ⟨h.1, f, rfl, ?_⟩
  have hsame := h.2.same.trans (hnew a h.1).toSameFunction
  rwa [hbehind.withHeader_eq] at hsame

/-- The records after a scan on the bus that the tree has for the bridge. -/
theorem searchedBehind_of_scanned (htree : SettledTree s.bus.heap bridges children s.brk)
    (hb : b ∈ bridges) (hseen : SeenAs s.bus.heap b v) (hbus : v.searchedBus = some bus)
    (hbehind : SameBehind (v.device.setBridgeBus .secondary bus) (bus₁.heap b))
    (hlinks : TreeLinks bus₁.heap bridges children s.brk)
    (hscan : Scanned hw bridges children b { s with bus := bus₁ }
      (scannedFunctions hw (bus₁.heap b)) found s₂)
    (hle : s₂.brk ≤ s.brk + 256) (hkept : KeptHeap s.bus.heap bus₂.heap s.brk)
    (hnew : ∀ a ∈ found, (s₂.bus.heap a).Kept (bus₂.heap a))
    (hsame : SameButBuses s₂.bus.heap bus₂.heap) :
    SearchedBehind hw bridges children b v s { s₂ with bus := bus₂ } found := by
  have hlinks₂ : TreeLinks bus₂.heap
      (bridges ++ found.filter fun a => (bus₂.heap a).pciType1)
      (Function.update children b (children b ++ found)) s₂.brk := by
    simp only [hsame.pciType1]
    exact hscan.links.sameButBuses hsame
  have hlt := htree.links.lt_of_mem_bridges hb
  have hfound : ∀ a ∈ found, (bus₂.heap a).isSegment = false ∧ (bus₂.heap a).Settled ∧
      (bus₂.heap a).parent = some b := by
    intro a ha
    obtain ⟨hsegment, hsettled, hparent⟩ := hscan.foundAs ha
    exact ⟨(hnew a ha).isSegment.trans hsegment, (hnew a ha).settled hsettled,
      (hsame.parent a).trans hparent⟩
  have hcases : ∀ a, (bus₂.heap a).parent ≠ none → a < s.brk ∨ a ∈ found := by
    intro a ha
    rcases Nat.lt_or_ge a s.brk with hold | hold
    · exact .inl hold
    · exact .inr (hscan.mem_found hlinks hold (by rwa [← hsame.parent]))
  have hrecords := hscan.functions hbus hbehind hnew
  constructor
  · exact htree.grow hb hlinks₂ hkept hcases hfound
  · exact hkept
  · have hbridges := List.rel_filter (p := fun a => (bus₂.heap a).pciType1)
      (q := fun c => c.device.pciType1) (fun a c h => ?_) hrecords
    · have hseen₂ := (List.forall₂_and_left _ _).mpr
        ⟨fun a ha => (List.mem_filter.mp ha).2, hbridges⟩
      refine hseen₂.imp fun a c h => ?_
      obtain ⟨htype, ha, f, rfl, hsame⟩ := h
      exact seenAs_found htree.links hseen hlt hkept hsame htype (hfound a ha).2.2
    · obtain ⟨-, f, -, hsame⟩ := h
      show (bus₂.heap a).pciType1 = true ↔ c.device.pciType1 = true
      rw [hsame.pciType1]
  · exact fun a ha => (hscan.fresh a ha).1
  · exact hrecords.length_eq
  · exact hscan.count
  · exact ⟨hscan.brk, hle⟩

/-- The records after a move that failed, of a bridge that is not searched then. -/
theorem searchedBehind_nothing (htree : SettledTree s.bus.heap bridges children s.brk)
    (hnothing : v.functions hw = []) (hsame : SameButNew s.bus.heap bus₁.heap) :
    SearchedBehind hw bridges children b v s { s with bus := bus₁ } [] := by
  have hbuses := hsame.sameButBuses
  have hkept : KeptHeap s.bus.heap bus₁.heap s.brk :=
    ⟨fun a _ => hsame.kept a, fun a _ => hbuses.parent a⟩
  have htree₁ : SettledTree bus₁.heap bridges children s.brk := by
    refine ⟨htree.links.sameButBuses hbuses, fun c hc => ?_, fun a ha => ?_, fun a p hp => ?_⟩
    · obtain ⟨path, unused, hpath⟩ := htree.path c hc
      exact ⟨path, unused, hkept.pathUp htree.links hpath⟩
    · rw [hbuses.parent] at ha
      exact (hsame.kept a).settled (htree.settled a ha)
    · rw [hbuses.parent] at hp
      rw [hbuses.pciType1]
      exact htree.parentType a p hp
  constructor
  · rw [List.filter_nil, List.append_nil, List.append_nil, Function.update_eq_self]
    exact htree₁
  · exact hkept
  · rw [BridgeView.bridges, hnothing]
    exact .nil
  · nofun
  · rw [hnothing]
    rfl
  · rfl
  · exact ⟨le_rfl, Nat.le_add_right _ _⟩

/-! ## The three ways through the loop body -/

theorem BridgeView.capabilityListsEnd_iff {r : PciIoDevice} (hbus : v.searchedBus = some bus)
    (hbehind : SameBehind (v.device.setBridgeBus .secondary bus) r) :
    v.CapabilityListsEnd hw ↔ ∀ f ∈ scannedFunctions hw r, CapabilitiesEnd hw r f.1 f.2 := by
  unfold BridgeView.CapabilityListsEnd BridgeView.functions CapabilitiesEnd
  rw [hbus, hbehind.scannedFunctions_eq]
  simp only [List.forall_mem_map, hbehind.withHeader_eq]
  rfl

/-- A bridge that is accepted is searched on its own bus. -/
theorem SeenAs.sameBehind {heap : Heap} (h : SeenAs heap b v) :
    SameBehind (v.device.setBridgeBus .secondary v.device.pci.secondaryBus) (heap b) := by
  obtain ⟨⟨hio, hsegment, -, -, -, hpci, -, -⟩, -, -⟩ := h
  refine ⟨hio, hsegment, ?_, ?_⟩
  · rw [hpci]
    rfl
  · rw [hpci]
    rfl

/-- A bridge that has been moved is searched on the bus that the move gave it. -/
theorem SeenAs.sameBehind_moved {heap heap' : Heap} {path : List Addr} (h : SeenAs heap b v)
    (hmoved : MovedPath heap path heap') (hbus : (heap' b).pci.secondaryBus = bus) :
    SameBehind (v.device.setBridgeBus .secondary bus) (heap' b) := by
  obtain ⟨⟨hio, hsegment, -, -, -, hpci, -, -⟩, -, -⟩ := h
  have hsegment' : (heap' b).segmentNumber = (heap b).segmentNumber :=
    (congrArg PciIoDevice.segmentNumber (hmoved.same b) :)
  have hmulti : (heap' b).pci.isPciMultiFunc = (heap b).pci.isPciMultiFunc :=
    (congrArg (fun d => d.pci.isPciMultiFunc) (hmoved.same b) :)
  refine ⟨(hmoved.same.pciRootBridgeIo b).trans hio, hsegment'.trans hsegment, hbus, ?_⟩
  rw [hmulti, hpci]
  rfl

/-- What a round of the loop leaves behind when it has returned, for a bridge without
children. -/
theorem searchBridge_searched (htree : SettledTree s.bus.heap bridges children s.brk)
    (hb : b ∈ bridges) (hseen : SeenAs s.bus.heap b v) (hnone : (s.bus.heap b).firstChild = none)
    {fuel : Nat} {s' : Search} (h : searchBridge (staticEnv hw) fuel b s = .ok s') :
    v.Passable hw ∧ ∃ found, SearchedBehind hw bridges children b v s s' found := by
  unfold searchBridge at h
  rw [if_neg (by simp [hnone]), Run.bind_eq_ok] at h
  obtain ⟨⟨status, moved, bus₁⟩, hverify, h⟩ := h
  have hroot : ¬ v.Rootless := fun hrootless =>
    verifyBuses_rootless htree hb hseen hrootless fuel ⟨_, hverify⟩
  by_cases haccepted : v.Accepted
  · -- The bridge is searched as it is.
    rw [verifyBuses_accepted htree hb hseen haccepted fuel] at hverify
    simp only [Except.ok.injEq, Prod.mk.injEq] at hverify
    obtain ⟨rfl, rfl, rfl⟩ := hverify
    have hbus : v.searchedBus = some v.device.pci.secondaryBus := if_pos haccepted
    simp only [EfiStatus.isError_success, Bool.false_eq_true, if_false, Run.bind_eq_ok] at h
    obtain ⟨s₂, hdevices, h⟩ := h
    obtain rfl := Except.ok.inj h
    obtain ⟨⟨found, hscan⟩, hends⟩ := searchDevices_scanned s htree.links hb hdevices
    refine ⟨⟨hroot, (BridgeView.capabilityListsEnd_iff hbus hseen.sameBehind).mpr hends⟩, found, ?_⟩
    exact searchedBehind_of_scanned htree hb hseen hbus hseen.sameBehind htree.links hscan
      (searchDevices_brk hdevices) (hscan.keptHeap htree.links) (fun a _ => .of_eraseLinks rfl)
      (.refl _)
  · obtain ⟨st, hmove⟩ :=
      verifyBuses_move htree hb hseen haccepted hroot (Nat.le_max_right fuel s.brk)
    have hmore := verifyBuses_extendedBy (Nat.le_max_left fuel s.brk) b s.bus _ hverify
    have hsearched : v.searchedBus = v.movedBus := if_neg haccepted
    cases hbus : v.movedBus with
    | none =>
        -- There is no bus for it, and it is passed over.
        rw [hbus] at hmove hsearched
        obtain ⟨hrun, hsame⟩ := hmove
        rw [hrun] at hmore
        simp only [Except.ok.injEq, Prod.mk.injEq] at hmore
        obtain ⟨rfl, rfl, rfl⟩ := hmore
        obtain rfl := Except.ok.inj h
        have hnothing : v.functions hw = [] := by
          rw [BridgeView.functions, hsearched]
        refine ⟨⟨hroot, ?_⟩, [], searchedBehind_nothing htree hnothing hsame⟩
        intro c hc
        rw [hnothing] at hc
        cases hc
    | some bus =>
        -- It is moved, searched and moved back.
        rw [hbus] at hmove hsearched
        obtain ⟨path, hpath, hmem, hrun, hmoved, hsecondary⟩ := hmove
        rw [hrun] at hmore
        simp only [Except.ok.injEq, Prod.mk.injEq] at hmore
        obtain ⟨rfl, rfl, rfl⟩ := hmore
        have hbehind := hseen.sameBehind_moved hmoved hsecondary
        have hlinks₁ := htree.links.sameButBuses hmoved.same
        simp only [EfiStatus.isError_success, Bool.false_eq_true, if_false, if_true,
          Run.bind_eq_ok] at h
        obtain ⟨s₂, hdevices, ⟨status, bus₂⟩, hunmove, h⟩ := h
        obtain rfl := Except.ok.inj h
        obtain ⟨⟨found, hscan⟩, hends⟩ := searchDevices_scanned { s with bus := st }
          hlinks₁ hb hdevices
        refine ⟨⟨hroot, (BridgeView.capabilityListsEnd_iff hsearched hbehind).mpr hends⟩, found, ?_⟩
        have hkept₂ := hscan.keptHeap hlinks₁
        have hpath₂ := hkept₂.bridgePath hlinks₁ (hpath.sameButBuses hmoved.same)
        obtain ⟨st₂, hback, hmovedBack⟩ := unmoveBuses_effect hscan.links
          (Nat.le_max_right fuel s₂.brk) hpath₂
        have hmore₂ := unmoveBuses_extendedBy (Nat.le_max_left fuel s₂.brk) b s₂.bus _ hunmove
        rw [hback] at hmore₂
        simp only [Except.ok.injEq, Prod.mk.injEq] at hmore₂
        obtain ⟨rfl, rfl⟩ := hmore₂
        have hparent : ∀ a < s.brk, (s₂.bus.heap a).parent = (s.bus.heap a).parent := fun a ha =>
          (hkept₂.parent a ha).trans (hmoved.same.parent a)
        have hle : s₂.brk ≤ s.brk + 256 := searchDevices_brk (s := { s with bus := st }) hdevices
        refine searchedBehind_of_scanned htree hb hseen hsearched hbehind hlinks₁ hscan hle
          ⟨fun a ha => ?_, fun a ha => ?_⟩ (fun a ha => ?_) hmovedBack.same
        · exact hmovedBack.kept_old hmoved hpath (hscan.kept a ha) (hparent a ha) (htree.settled a)
        · exact (hmovedBack.same.parent a).trans (hparent a ha)
        · refine hmovedBack.kept_new (fun hin => ?_) (hscan.foundAs ha).2.1
          have hlt : a < s.brk := htree.links.lt_of_parent (hpath.parent_ne_none hin)
          exact absurd hlt (not_lt.mpr (hscan.fresh a ha).1)

/-- The round does return if it gets past the bridge. -/
theorem searchBridge_returns (htree : SettledTree s.bus.heap bridges children s.brk)
    (hb : b ∈ bridges) (hseen : SeenAs s.bus.heap b v) (hpass : v.Passable hw)
    {fuel : Nat} (hfuel : s.brk + 256 ≤ fuel) : (searchBridge (staticEnv hw) fuel b s).Returns := by
  obtain ⟨hroot, hends⟩ := hpass
  have hbrk : s.brk ≤ fuel := (Nat.le_add_right _ _).trans hfuel
  have hcapabilities : 256 ≤ fuel := (Nat.le_add_left _ _).trans hfuel
  have hlists : ∀ {r bus}, v.searchedBus = some bus →
      SameBehind (v.device.setBridgeBus .secondary bus) r → ∀ f ∈ scannedFunctions hw r, ∀ t,
        (locateCapabilityRegBlock hw.reader fuel (withHeader hw r f.1 f.2)
          pciCapabilityIdPciExp 0 t).Returns := by
    intro r bus hbus hbehind f hf t
    have hlist := (BridgeView.capabilityListsEnd_iff hbus hbehind).mp hends f hf
    exact CapabilityListEnds.returns_of_le hlist hcapabilities t
  unfold searchBridge
  split
  · exact Run.returns_ok _
  · by_cases haccepted : v.Accepted
    · rw [verifyBuses_accepted htree hb hseen haccepted fuel]
      obtain ⟨s₂, hdevices⟩ := searchDevices_returns s fuel htree.links hb
        (hlists (if_pos haccepted) hseen.sameBehind)
      simp only [Run.ok_bind, EfiStatus.isError_success, Bool.false_eq_true, if_false, hdevices]
      exact Run.returns_ok _
    · obtain ⟨st, hmove⟩ := verifyBuses_move htree hb hseen haccepted hroot hbrk
      have hsearched : v.searchedBus = v.movedBus := if_neg haccepted
      cases hbus : v.movedBus with
      | none =>
          rw [hbus] at hmove
          rw [hmove.1]
          exact Run.returns_ok _
      | some bus =>
          rw [hbus] at hmove hsearched
          obtain ⟨path, hpath, -, hrun, hmoved, hsecondary⟩ := hmove
          have hlinks₁ := htree.links.sameButBuses hmoved.same
          obtain ⟨s₂, hdevices⟩ := searchDevices_returns { s with bus := st } fuel
            hlinks₁ hb (hlists hsearched (hseen.sameBehind_moved hmoved hsecondary))
          obtain ⟨⟨found, hscan⟩, -⟩ := searchDevices_scanned { s with bus := st }
            hlinks₁ hb hdevices
          have hpath₂ := (hscan.keptHeap hlinks₁).bridgePath hlinks₁ (hpath.sameButBuses hmoved.same)
          obtain ⟨st₂, hback, -⟩ := unmoveBuses_effect hscan.links
            ((searchDevices_brk hdevices).trans hfuel) hpath₂
          rw [hrun]
          simp only [Run.ok_bind, EfiStatus.isError_success, Bool.false_eq_true, if_false, if_true,
            hdevices, hback]
          exact Run.returns_ok _

end search

end PciMisc
end EfiApps
