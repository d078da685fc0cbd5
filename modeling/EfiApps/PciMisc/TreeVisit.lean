import EfiApps.PciMisc.TreeIterate

/-!
# What `PciTreeIterate` visits

The loop over the devices of a segment is followed along the forest that the
links hold: after the last child of a record it climbs from that record, so one
induction on the forest describes the whole loop.  An empty segment leaves the
loop with `NULL`, and a root bridge that is not a child of the host bridge and
has children is visited for ever; `pciTreeIterate_visits_iff` says that nothing
else goes wrong.
-/

namespace EfiApps
namespace PciMisc

/-- The links below the host bridge hold the forest, whose roots are root
bridges. -/
structure DeviceTree (heap : Heap) (forest : Forest Addr) : Prop where
  represents : forest.Represents heap.links hostBridge (heap hostBridge).firstChild
  lastChild : (heap hostBridge).lastChild = forest.roots.getLast?
  parent : (heap hostBridge).parent = none
  segment : ∀ r ∈ forest.roots, (heap r).isSegment = true

/-- A root bridge of the forest has no children. -/
def Tame (heap : Heap) (f : Forest Addr) : Prop :=
  ∀ a ∈ f.preorder, (heap a).isSegment = true → (heap a).firstChild = none

theorem tame_node_iff {heap : Heap} {a : Addr} {children siblings : Forest Addr} :
    Tame heap (.node a children siblings) ↔
      ((heap a).isSegment = true → (heap a).firstChild = none) ∧
        Tame heap children ∧ Tame heap siblings := by
  simp only [Tame, Forest.preorder_node, List.mem_cons, List.mem_append]
  constructor
  · intro h
    exact ⟨h a (.inl rfl), fun b hb => h b (.inr (.inl hb)), fun b hb => h b (.inr (.inr hb))⟩
  · rintro ⟨ha, hchildren, hsiblings⟩ b (rfl | hb | hb)
    · exact ha
    · exact hchildren b hb
    · exact hsiblings b hb

section Visit

variable {σ : Type _} {v : Visitor σ} {doPrint : Bool} {indentMaxLength : UInt64} {heap₀ : Heap}

@[simp] theorem outdent_state (it : Iteration σ) : (outdent doPrint it).state = it.state := by
  cases doPrint <;> rfl

@[simp] theorem indent_state (d : PciIoDevice) (it : Iteration σ) :
    (indent doPrint d it).state = it.state := by
  cases doPrint <;> rfl

@[simp] theorem printDevice_state (d : PciIoDevice) (it : Iteration σ) :
    (printDevice doPrint indentMaxLength d it).state = it.state := by
  cases doPrint <;> rfl

@[simp] theorem startSegment_state (d : PciIoDevice) (it : Iteration σ) :
    (startSegment doPrint d it).state = it.state := by
  cases doPrint <;> rfl

theorem Visitor.call_eq_ok {a : Addr} {it it' : Iteration σ} :
    v.call a it = .ok it' ↔
      ∃ state, v.callback a it.state = .ok state ∧ it' = { it with state := state } := by
  unfold Visitor.call
  rw [Run.bind_eq_ok]
  simp only [Except.ok.injEq, eq_comm]

/-! ## Climbing -/

/-- Where `climb` ends, in terms of the ancestors it passes. -/
def climbPath (doPrint : Bool) (heap : Heap) :
    List Addr → Iteration σ → Option Addr × Iteration σ
  | [], it => (none, it)
  | p :: path, it =>
      if (heap p).isSegment then (some p, it)
      else
        match (heap p).nextSibling with
        | some q => (some q, outdent doPrint it)
        | none => climbPath doPrint heap path (outdent doPrint it)

theorem climb_eq {path : List Addr} {fuel : Nat} {a : Addr} {it : Iteration σ}
    (hsame : SameTree heap₀ (v.heap it.state))
    (hpath : Linked heap₀.links.parent (heap₀ a).parent path) (hfuel : path.length ≤ fuel) :
    climb v doPrint fuel a it = .ok (climbPath doPrint heap₀ path it) := by
  induction path generalizing fuel a it with
  | nil =>
      have hparent : (v.heap it.state a).parent = none := (hsame.parent a).trans hpath
      unfold climb
      rw [hparent]
      rfl
  | cons p path ih =>
      obtain ⟨hp, hpath⟩ := hpath
      have hparent : (v.heap it.state a).parent = some p := (hsame.parent a).trans hp
      unfold climb climbPath
      simp only [hparent, hsame.isSegment, outdent_state, hsame.nextSibling]
      split
      · rfl
      · cases hnext : (heap₀ p).nextSibling with
        | some q => rfl
        | none =>
            cases fuel with
            | zero => simp at hfuel
            | succ fuel => exact ih (by simpa using hsame) hpath (by simpa using hfuel)

/-- More iterations do not change where the climb ends. -/
theorem climb_mono {fuel : Nat} {a : Addr} {it : Iteration σ} {r : Option Addr × Iteration σ}
    (h : climb v doPrint fuel a it = .ok r) (k : Nat) :
    climb v doPrint (fuel + k) a it = .ok r := by
  induction fuel generalizing a it with
  | zero =>
      unfold climb at h ⊢
      cases hparent : (v.heap it.state a).parent with
      | none => simpa only [hparent] using h
      | some p =>
          cases hsegment : (v.heap it.state p).isSegment with
          | true => simpa only [hparent, hsegment, if_true] using h
          | false =>
              simp only [hparent, hsegment, outdent_state] at h ⊢
              cases hnext : (v.heap it.state p).nextSibling with
              | some q => simpa only [hnext] using h
              | none => simp [hnext] at h
  | succ fuel ih =>
      rw [Nat.succ_add]
      unfold climb at h ⊢
      cases hparent : (v.heap it.state a).parent with
      | none => simpa only [hparent] using h
      | some p =>
          cases hsegment : (v.heap it.state p).isSegment with
          | true => simpa only [hparent, hsegment, if_true] using h
          | false =>
              simp only [hparent, hsegment, outdent_state] at h ⊢
              cases hnext : (v.heap it.state p).nextSibling with
              | some q => simpa only [hnext] using h
              | none =>
                  simp only [hnext, Bool.false_eq_true, if_false] at h ⊢
                  exact ih h

theorem nextDevice_mono {fuel : Nat} {a : Addr} {it : Iteration σ}
    {r : Option Addr × Iteration σ} (h : nextDevice v doPrint fuel a it = .ok r) (k : Nat) :
    nextDevice v doPrint (fuel + k) a it = .ok r := by
  unfold nextDevice at h ⊢
  split at h
  · exact h
  · split at h
    · exact h
    · exact climb_mono h k

/-- More iterations do not change where the loop over the devices ends. -/
theorem visitDevices_mono {fuel n : Nat} {p : Option Addr} {it : Iteration σ}
    {r : Option Addr × Iteration σ}
    (h : visitDevices v doPrint indentMaxLength fuel n p it = .ok r) (k m : Nat) :
    visitDevices v doPrint indentMaxLength (fuel + k) (n + m) p it = .ok r := by
  induction n generalizing p it with
  | zero =>
      cases p with
      | none => simpa [visitDevices] using h
      | some a => simp [visitDevices] at h
  | succ n ih =>
      cases p with
      | none => simpa [visitDevices] using h
      | some a =>
          rw [Nat.succ_add]
          simp only [visitDevices, Run.bind_eq_ok] at h ⊢
          obtain ⟨it₁, hcall, ⟨next, it₂⟩, hnext, d, hd, h⟩ := h
          refine ⟨it₁, hcall, (next, it₂), nextDevice_mono hnext k, d, hd, ?_⟩
          split at h
          · rename_i hhost
            rwa [if_pos hhost]
          · rename_i hhost
            rw [if_neg hhost]
            exact ih h

/-! ## A forest at a time -/

/-- The loop over the devices, entered again from where the climb ended. -/
def resume (v : Visitor σ) (doPrint : Bool) (indentMaxLength : UInt64) (fuel n : Nat)
    (next : Option Addr × Iteration σ) : Run (Option Addr × Iteration σ) := do
  let d ← Run.deref next.1
  if (v.heap next.2.state d).parent = some hostBridge then .ok (some d, next.2)
  else visitDevices v doPrint indentMaxLength fuel n (some d) next.2

theorem resume_child {fuel n : Nat} {d owner : Addr} {it : Iteration σ}
    (hsame : SameTree heap₀ (v.heap it.state)) (hparent : heap₀.links.parent d = some owner)
    (howner : owner ≠ hostBridge) :
    resume v doPrint indentMaxLength fuel n (some d, it) =
      visitDevices v doPrint indentMaxLength fuel n (some d) it := by
  have hd : (v.heap it.state d).parent = some owner := (hsame.parent d).trans hparent
  simp [resume, hd, howner]

/-- What is kept about the indentation and the printed lines of a record with
the given ancestors. -/
structure IndentInvariant (v : Visitor σ) (doPrint : Bool) (indentMaxLength : UInt64)
    (heap₀ : Heap) (I : List Addr → Iteration σ → Prop) : Prop where
  visit : ∀ {path a it it'}, SameTree heap₀ (v.heap it.state) →
    Linked heap₀.links.parent (some a) (a :: path) → I path it →
    v.call a (printDevice doPrint indentMaxLength (v.heap it.state a) it) = .ok it' → I path it'
  indent : ∀ {path a it}, SameTree heap₀ (v.heap it.state) → I path it →
    I (a :: path) (indent doPrint (v.heap it.state a) it)
  outdent : ∀ {path a it}, I (a :: path) it → I path (outdent doPrint it)
  start : ∀ {a it it'}, SameTree heap₀ (v.heap it.state) → I [hostBridge] it →
    v.call a (startSegment doPrint (v.heap it.state a) it) = .ok it' → I [a, hostBridge] it'
  finish : ∀ {a it}, I [a, hostBridge] it → I [hostBridge] it

/-- The callbacks of a list of devices, one after the other. -/
def Visitor.callAll (v : Visitor σ) (devices : List Addr) (state : σ) : Run σ :=
  devices.foldlM (fun state a => v.callback a state) state

theorem Visitor.callAll_cons_eq_ok {a : Addr} {devices : List Addr} {state state' : σ} :
    v.callAll (a :: devices) state = .ok state' ↔
      ∃ state₁, v.callback a state = .ok state₁ ∧ v.callAll devices state₁ = .ok state' := by
  rw [Visitor.callAll, List.foldlM_cons, Run.bind_eq_ok]
  rfl

theorem Visitor.callAll_append_eq_ok {devices devices' : List Addr} {state state' : σ} :
    v.callAll (devices ++ devices') state = .ok state' ↔
      ∃ state₁, v.callAll devices state = .ok state₁ ∧ v.callAll devices' state₁ = .ok state' := by
  rw [Visitor.callAll, List.foldlM_append, Run.bind_eq_ok]
  rfl

theorem Visitor.callAll_sameTree {devices : List Addr} {state state' : σ}
    (h : v.callAll devices state = .ok state') : SameTree (v.heap state) (v.heap state') := by
  induction devices generalizing state with
  | nil =>
      obtain rfl := Except.ok.inj h
      exact .refl _
  | cons a devices ih =>
      obtain ⟨state₁, hcall, h⟩ := Visitor.callAll_cons_eq_ok.mp h
      exact (v.keepsTree hcall).trans (ih h)

variable {I : List Addr → Iteration σ → Prop}

/-- No record of the forest is the host bridge: that one has no parent. -/
theorem ne_hostBridge_of_parent (hhost : (heap₀ hostBridge).parent = none) {a owner : Addr}
    (hparent : heap₀.links.parent a = some owner) : a ≠ hostBridge := by
  rintro rfl
  rw [show heap₀.links.parent hostBridge = none from hhost] at hparent
  cases hparent

/-- One iteration of the loop over the devices: the line and the callback. -/
theorem visitDevices_first (hI : IndentInvariant v doPrint indentMaxLength heap₀ I) {a : Addr}
    {path : List Addr} {it : Iteration σ} {state : σ}
    (hpath : Linked heap₀.links.parent (some a) (a :: path))
    (hsame : SameTree heap₀ (v.heap it.state)) (hit : I path it)
    (hcall : v.callback a it.state = .ok state) :
    ∃ it₁, it₁.state = state ∧ SameTree heap₀ (v.heap it₁.state) ∧ I path it₁ ∧
      ∀ fuel n, visitDevices v doPrint indentMaxLength fuel (n + 1) (some a) it = (do
        let next ← nextDevice v doPrint fuel a it₁
        resume v doPrint indentMaxLength fuel n next) := by
  obtain ⟨it₁, hcall₁⟩ : ∃ it₁, v.call a
      (printDevice doPrint indentMaxLength (v.heap it.state a) it) = .ok it₁ :=
    ⟨_, Visitor.call_eq_ok.mpr ⟨state, by simpa using hcall, rfl⟩⟩
  have hstate : it₁.state = state := by
    obtain ⟨state', hcall', rfl⟩ := Visitor.call_eq_ok.mp hcall₁
    rw [printDevice_state, hcall] at hcall'
    exact (Except.ok.inj hcall').symm
  refine ⟨it₁, hstate, ?_, hI.visit hsame hpath hit hcall₁, fun fuel n => ?_⟩
  · rw [hstate]
    exact hsame.trans (v.keepsTree hcall)
  · simp only [visitDevices, hcall₁, Run.ok_bind]
    rfl

/-- After a record without children comes its next sibling, or the end of the climb. -/
theorem nextDevice_leaf {a : Addr} {path : List Addr} {it : Iteration σ} {fuel : Nat}
    (hsame : SameTree heap₀ (v.heap it.state)) (hfirst : heap₀.links.firstChild a = none)
    (hpath : Linked heap₀.links.parent (heap₀ a).parent path) (hfuel : path.length ≤ fuel) :
    nextDevice v doPrint fuel a it = .ok (match (heap₀ a).nextSibling with
      | some q => (some q, it)
      | none => climbPath doPrint heap₀ path it) := by
  unfold nextDevice
  rw [(hsame.firstChild a).trans hfirst, hsame.nextSibling]
  cases (heap₀ a).nextSibling with
  | some q => rfl
  | none => exact climb_eq hsame hpath hfuel

/-- After a record with children comes the first of them. -/
theorem nextDevice_child {a c : Addr} {it : Iteration σ} {fuel : Nat}
    (hsame : SameTree heap₀ (v.heap it.state)) (hfirst : heap₀.links.firstChild a = some c) :
    nextDevice v doPrint fuel a it = .ok (some c, indent doPrint (v.heap it.state a) it) := by
  unfold nextDevice
  rw [(hsame.firstChild a).trans hfirst]

/-- The loop over the devices, entered at the first root of a forest without
populated root bridges, makes the callbacks of the forest in preorder and goes
on where the climb from its last root ends. -/
theorem visitDevices_forest (hI : IndentInvariant v doPrint indentMaxLength heap₀ I)
    (hhost : (heap₀ hostBridge).parent = none) {f : Forest Addr} {owner : Addr}
    {path : List Addr} {p : Option Addr} {it : Iteration σ} {state : σ} {fuel : Nat}
    (hf : f.Represents heap₀.links owner p) (hne : f ≠ .nil) (howner : owner ≠ hostBridge)
    (hpath : Linked heap₀.links.parent (some owner) (owner :: path)) (htame : Tame heap₀ f)
    (hfuel : path.length + f.size ≤ fuel) (hsame : SameTree heap₀ (v.heap it.state))
    (hit : I (owner :: path) it) (hcalls : v.callAll f.preorder it.state = .ok state) :
    ∃ it', it'.state = state ∧ I (owner :: path) it' ∧
      ∀ n, visitDevices v doPrint indentMaxLength fuel (f.size + n) p it =
        resume v doPrint indentMaxLength fuel n
          (climbPath doPrint heap₀ (owner :: path) it') := by
  induction f generalizing owner path p it state with
  | nil => exact absurd rfl hne
  | node a children siblings ihc ihs =>
      obtain ⟨rfl, hparent, -, hchildren, hsiblings⟩ := hf
      obtain ⟨hatame, hctame, hstame⟩ := tame_node_iff.mp htame
      obtain ⟨state₁, hcall, hcalls⟩ := Visitor.callAll_cons_eq_ok.mp hcalls
      obtain ⟨state₂, hccalls, hscalls⟩ := Visitor.callAll_append_eq_ok.mp hcalls
      have hapath : Linked heap₀.links.parent (some a) (a :: owner :: path) :=
        ⟨rfl, hparent ▸ hpath⟩
      simp only [Forest.size] at hfuel ⊢
      -- What is left once the children are done.
      have hsiblings' : ∀ it₂ : Iteration σ, it₂.state = state₂ → I (owner :: path) it₂ →
          ∃ it', it'.state = state ∧ I (owner :: path) it' ∧
            ∀ n, resume v doPrint indentMaxLength fuel (siblings.size + n)
                (match (heap₀ a).nextSibling with
                  | some q => (some q, it₂)
                  | none => climbPath doPrint heap₀ (owner :: path) it₂) =
              resume v doPrint indentMaxLength fuel n
                (climbPath doPrint heap₀ (owner :: path) it') := by
        intro it₂ hstate hit₂
        cases siblings with
        | nil =>
            have hnext : (heap₀ a).nextSibling = none := hsiblings
            obtain rfl : state₂ = state := Except.ok.inj hscalls
            exact ⟨it₂, hstate, hit₂, fun n => by simp [hnext, Forest.size]⟩
        | node q children' siblings' =>
            have hnext : (heap₀ a).nextSibling = some q := hsiblings.1
            have hsame₂ : SameTree heap₀ (v.heap it₂.state) := by
              rw [hstate]
              exact hsame.trans ((v.keepsTree hcall).trans (Visitor.callAll_sameTree hccalls))
            obtain ⟨it', hstate', hit', hrun⟩ := ihs hsiblings (by simp) howner hpath hstame
              (by omega) hsame₂ hit₂ (hstate ▸ hscalls)
            refine ⟨it', hstate', hit', fun n => ?_⟩
            rw [hnext, ← hrun n, hsiblings.1]
            exact resume_child hsame₂ hsiblings.2.1 howner
      obtain ⟨it₁, hstate₁, hsame₁, hit₁, hfirst⟩ := visitDevices_first hI hapath hsame hit hcall
      have hstep : ∀ n, visitDevices v doPrint indentMaxLength fuel
          (1 + children.size + siblings.size + n) (some a) it = (do
            let next ← nextDevice v doPrint fuel a it₁
            resume v doPrint indentMaxLength fuel (children.size + (siblings.size + n)) next) := by
        intro n
        rw [show 1 + children.size + siblings.size + n =
          children.size + (siblings.size + n) + 1 by omega]
        exact hfirst fuel _
      cases children with
      | nil =>
          obtain rfl : state₁ = state₂ := Except.ok.inj hccalls
          obtain ⟨it', hstate', hit', hrun⟩ := hsiblings' it₁ hstate₁ hit₁
          refine ⟨it', hstate', hit', fun n => ?_⟩
          rw [hstep n, nextDevice_leaf hsame₁ hchildren hapath.2 (by simp; omega), Run.ok_bind,
            ← hrun n]
          simp [Forest.size]
      | node c children' siblings' =>
          have hsome : heap₀.links.firstChild a = some c := hchildren.1
          have hahost := ne_hostBridge_of_parent hhost hparent
          obtain ⟨it₂, hstate₂, hit₂, hrun₂⟩ := ihc hchildren (by simp) hahost hapath hctame
            (by simp [Forest.size] at hfuel ⊢; omega)
            (show SameTree heap₀ (v.heap (indent doPrint (v.heap it₁.state a) it₁).state) by
              simpa using hsame₁)
            (hI.indent hsame₁ hit₁) (by simpa [hstate₁] using hccalls)
          obtain ⟨it', hstate', hit', hrun⟩ := hsiblings' (outdent doPrint it₂)
            (by simpa using hstate₂) (hI.outdent hit₂)
          refine ⟨it', hstate', hit', fun n => ?_⟩
          have hsegment : (heap₀ a).isSegment = false := by
            by_contra hsegment
            have hnone := hatame (by simpa using hsegment)
            rw [show (heap₀ a).firstChild = some c from hsome] at hnone
            cases hnone
          rw [hstep n, nextDevice_child hsame₁ hsome, Run.ok_bind,
            resume_child (by simpa using hsame₁) hchildren.2.1 hahost, ← hsome,
            hrun₂ (siblings.size + n), ← hrun n]
          -- The climb from the last child of `a` passes `a`.
          rw [climbPath, if_neg (by simp [hsegment])]

/-- Nothing is kept about the printed lines. -/
theorem indentInvariant_trivial :
    IndentInvariant v doPrint indentMaxLength heap₀ fun _ _ => True :=
  ⟨fun _ _ _ _ => trivial, fun _ _ => trivial, fun _ => trivial, fun _ _ _ => trivial,
    fun _ => trivial⟩

/-- Every callback returns. -/
def Visitor.Total (v : Visitor σ) : Prop := ∀ a state, (v.callback a state).Returns

theorem Visitor.Total.callAll (h : v.Total) (devices : List Addr) (state : σ) :
    (v.callAll devices state).Returns := by
  induction devices generalizing state with
  | nil => exact ⟨state, rfl⟩
  | cons a devices ih =>
      obtain ⟨state₁, hcall⟩ := h a state
      obtain ⟨state', hcalls⟩ := ih state₁
      exact ⟨state', Visitor.callAll_cons_eq_ok.mpr ⟨state₁, hcall, hcalls⟩⟩

/-- The run of `visitDevices_forest`, for a loop that is known to return. -/
theorem visitDevices_forest_returns (htotal : v.Total)
    (hhost : (heap₀ hostBridge).parent = none) {f : Forest Addr} {owner : Addr}
    {path : List Addr} {p : Option Addr} {it : Iteration σ} {fuel n : Nat}
    (hf : f.Represents heap₀.links owner p) (hne : f ≠ .nil) (howner : owner ≠ hostBridge)
    (hpath : Linked heap₀.links.parent (some owner) (owner :: path)) (htame : Tame heap₀ f)
    (hsame : SameTree heap₀ (v.heap it.state)) {r : Option Addr × Iteration σ}
    (hrun : visitDevices v doPrint indentMaxLength fuel n p it = .ok r) :
    ∃ it' fuel', v.callAll f.preorder it.state = .ok it'.state ∧
      resume v doPrint indentMaxLength fuel' n (climbPath doPrint heap₀ (owner :: path) it') =
        .ok r := by
  obtain ⟨state, hcalls⟩ := htotal.callAll f.preorder it.state
  obtain ⟨it', hstate, -, hforest⟩ := visitDevices_forest
    (indentInvariant_trivial : IndentInvariant v doPrint indentMaxLength heap₀ _)
    hhost hf hne howner hpath htame
    (show path.length + f.size ≤ fuel + (path.length + f.size) by omega) hsame trivial hcalls
  refine ⟨it', _, hstate ▸ hcalls, (hforest n).symm.trans ?_⟩
  rw [Nat.add_comm f.size n]
  exact visitDevices_mono hrun _ _

/-- One iteration of the loop over the devices that is known to return. -/
theorem visitDevices_some_returns {fuel n : Nat} {a : Addr} {it : Iteration σ}
    {r : Option Addr × Iteration σ}
    (hrun : visitDevices v doPrint indentMaxLength fuel n (some a) it = .ok r) :
    ∃ k it₁ next, n = k + 1 ∧ v.callback a it.state = .ok it₁.state ∧
      nextDevice v doPrint fuel a it₁ = .ok next ∧
      resume v doPrint indentMaxLength fuel k next = .ok r := by
  cases n with
  | zero => simp [visitDevices] at hrun
  | succ k =>
      simp only [visitDevices, Run.bind_eq_ok] at hrun
      obtain ⟨it₁, hcall, next, hnext, d, hd, hrun⟩ := hrun
      refine ⟨k, it₁, next, rfl, ?_, hnext, ?_⟩
      · obtain ⟨state, hcallback, rfl⟩ := Visitor.call_eq_ok.mp hcall
        simpa using hcallback
      · rw [resume, hd]
        exact hrun

/-- A loop that returns from a record with children goes on to the first child. -/
theorem visitDevices_descend {fuel n : Nat} {a c : Addr} {it : Iteration σ}
    {r : Option Addr × Iteration σ} (hsame : SameTree heap₀ (v.heap it.state))
    (hfirst : heap₀.links.firstChild a = some c) (hparent : heap₀.links.parent c = some a)
    (ha : a ≠ hostBridge)
    (hrun : visitDevices v doPrint indentMaxLength fuel n (some a) it = .ok r) :
    ∃ k it₁, n = k + 1 ∧ SameTree heap₀ (v.heap it₁.state) ∧
      visitDevices v doPrint indentMaxLength fuel k (some c) it₁ = .ok r := by
  obtain ⟨k, it₁, next, rfl, hcall, hnext, hrun⟩ := visitDevices_some_returns hrun
  have hsame₁ := hsame.trans (v.keepsTree hcall)
  have hsame₂ : SameTree heap₀ (v.heap (indent doPrint (v.heap it₁.state a) it₁).state) := by
    simpa using hsame₁
  rw [nextDevice_child hsame₁ hfirst] at hnext
  obtain rfl := Except.ok.inj hnext
  exact ⟨k, _, rfl, hsame₂, (resume_child hsame₂ hparent ha).symm.trans hrun⟩

/-- A loop that returns from a record without children goes on to the next sibling. -/
theorem visitDevices_across {fuel n : Nat} {a q owner : Addr} {it : Iteration σ}
    {r : Option Addr × Iteration σ} (hsame : SameTree heap₀ (v.heap it.state))
    (hfirst : heap₀.links.firstChild a = none) (hnext : heap₀.links.nextSibling a = some q)
    (hparent : heap₀.links.parent q = some owner) (howner : owner ≠ hostBridge)
    (hrun : visitDevices v doPrint indentMaxLength fuel n (some a) it = .ok r) :
    ∃ k it₁, n = k + 1 ∧ SameTree heap₀ (v.heap it₁.state) ∧
      visitDevices v doPrint indentMaxLength fuel k (some q) it₁ = .ok r := by
  obtain ⟨k, it₁, next, rfl, hcall, hstep, hrun⟩ := visitDevices_some_returns hrun
  have hsame₁ := hsame.trans (v.keepsTree hcall)
  simp only [nextDevice, (hsame₁.firstChild a).trans hfirst, (hsame₁.nextSibling a).trans hnext]
    at hstep
  obtain rfl := Except.ok.inj hstep
  exact ⟨k, it₁, rfl, hsame₁, (resume_child hsame₁ hparent howner).symm.trans hrun⟩

section back

variable {a owner c : Addr} {path : List Addr} {children siblings : Forest Addr}
  {r : Option Addr × Iteration σ}

/-- Once the children of a record are done, the loop is back at the record. -/
theorem visitDevices_back (htotal : v.Total) (hhost : (heap₀ hostBridge).parent = none)
    (hf : (Forest.node c children siblings).Represents heap₀.links a (heap₀.links.firstChild a))
    (ha : a ≠ hostBridge) (hpath : Linked heap₀.links.parent (some a) (a :: path))
    (htame : Tame heap₀ (.node c children siblings)) {fuel n : Nat} {it : Iteration σ}
    (hsame : SameTree heap₀ (v.heap it.state))
    (hrun : visitDevices v doPrint indentMaxLength fuel n (some a) it = .ok r) :
    ∃ k fuel' it', n = k + 1 ∧ SameTree heap₀ (v.heap it'.state) ∧
      resume v doPrint indentMaxLength fuel' k (climbPath doPrint heap₀ (a :: path) it') =
        .ok r := by
  obtain ⟨k, it₁, rfl, hsame₁, hrun⟩ := visitDevices_descend hsame hf.1 hf.2.1 ha hrun
  obtain ⟨it', fuel', hcalls, hrun⟩ := visitDevices_forest_returns htotal hhost hf (by simp) ha
    hpath htame hsame₁ (hf.1 ▸ hrun)
  exact ⟨k, fuel', it', rfl, hsame₁.trans (Visitor.callAll_sameTree hcalls), hrun⟩

/-- If the record is a root bridge, it is then visited again, and so for ever. -/
theorem visitDevices_segment (htotal : v.Total) (hhost : (heap₀ hostBridge).parent = none)
    (hf : (Forest.node c children siblings).Represents heap₀.links a (heap₀.links.firstChild a))
    (hparent : heap₀.links.parent a = some owner) (howner : owner ≠ hostBridge)
    (hpath : Linked heap₀.links.parent (some a) (a :: path))
    (htame : Tame heap₀ (.node c children siblings)) (hsegment : (heap₀ a).isSegment = true)
    (fuel n : Nat) (it : Iteration σ) (hsame : SameTree heap₀ (v.heap it.state)) :
    visitDevices v doPrint indentMaxLength fuel n (some a) it ≠ .ok r := by
  induction n generalizing fuel it with
  | zero =>
      intro hrun
      simp [visitDevices] at hrun
  | succ n ih =>
      intro hrun
      obtain ⟨k, fuel', it', hk, hsame', hrun⟩ := visitDevices_back htotal hhost hf
        (ne_hostBridge_of_parent hhost hparent) hpath htame hsame hrun
      obtain rfl : n = k := Nat.succ.inj hk
      rw [climbPath, if_pos hsegment, resume_child hsame' hparent howner] at hrun
      exact ih fuel' it' hsame' hrun

end back

/-- A populated root bridge in the forest is visited for ever. -/
theorem visitDevices_untamed (htotal : v.Total) (hhost : (heap₀ hostBridge).parent = none)
    {f : Forest Addr} {owner : Addr} {path : List Addr} {p : Option Addr} {it : Iteration σ}
    {fuel n : Nat} (hf : f.Represents heap₀.links owner p) (howner : owner ≠ hostBridge)
    (hpath : Linked heap₀.links.parent (some owner) (owner :: path)) (hwild : ¬ Tame heap₀ f)
    (hsame : SameTree heap₀ (v.heap it.state)) :
    ¬ (visitDevices v doPrint indentMaxLength fuel n p it).Returns := by
  induction f generalizing owner path p it fuel n with
  | nil => exact absurd (fun a ha => absurd ha (by simp)) hwild
  | node a children siblings ihc ihs =>
      obtain ⟨rfl, hparent, -, hchildren, hsiblings⟩ := hf
      have hapath : Linked heap₀.links.parent (some a) (a :: owner :: path) :=
        ⟨rfl, hparent ▸ hpath⟩
      have hahost := ne_hostBridge_of_parent hhost hparent
      rintro ⟨r, hrun⟩
      cases children with
      | nil =>
          have hnone : heap₀.links.firstChild a = none := hchildren
          have hswild : ¬ Tame heap₀ siblings := fun hstame =>
            hwild (tame_node_iff.mpr ⟨fun _ => hnone, fun b hb => absurd hb (by simp), hstame⟩)
          cases siblings with
          | nil => exact hswild fun b hb => absurd hb (by simp)
          | node q children' siblings' =>
              obtain ⟨k, it₁, -, hsame₁, hrun⟩ :=
                visitDevices_across hsame hnone hsiblings.1 hsiblings.2.1 howner hrun
              exact ihs hsiblings howner hpath hswild hsame₁ ⟨r, hsiblings.1 ▸ hrun⟩
      | node c children' siblings' =>
          -- The root bridge is below `a`, or `a` itself, or behind it.
          by_cases hctame : Tame heap₀ (.node c children' siblings')
          · cases hsegment : (heap₀ a).isSegment with
            | true =>
                exact visitDevices_segment htotal hhost hchildren hparent howner hapath hctame
                  hsegment fuel n it hsame hrun
            | false =>
                have hswild : ¬ Tame heap₀ siblings := fun hstame =>
                  hwild (tame_node_iff.mpr ⟨by simp [hsegment], hctame, hstame⟩)
                cases siblings with
                | nil => exact hswild fun b hb => absurd hb (by simp)
                | node q children'' siblings'' =>
                    obtain ⟨k, fuel', it', -, hsame', hrun⟩ := visitDevices_back htotal hhost
                      hchildren hahost hapath hctame hsame hrun
                    have hnext : (heap₀ a).nextSibling = some q := hsiblings.1
                    have hsame'' : SameTree heap₀ (v.heap (outdent doPrint it').state) := by
                      simpa using hsame'
                    rw [climbPath, if_neg (by simp [hsegment]), hnext] at hrun
                    dsimp only at hrun
                    rw [resume_child hsame'' hsiblings.2.1 howner, ← hnext] at hrun
                    exact ihs hsiblings howner hpath hswild hsame'' ⟨r, hrun⟩
          · obtain ⟨k, it₁, -, hsame₁, hrun⟩ :=
              visitDevices_descend hsame hchildren.1 hchildren.2.1 hahost hrun
            exact ihc hchildren hahost hapath hctame hsame₁ ⟨r, hchildren.1 ▸ hrun⟩

/-! ## All segments -/

/-- Every segment has a device, and no root bridge below a segment has children. -/
def Populated (heap : Heap) (forest : Forest Addr) : Prop :=
  ∀ t ∈ forest.trees, t.2 ≠ .nil ∧ Tame heap t.2

theorem populated_node_iff {heap : Heap} {a : Addr} {children siblings : Forest Addr} :
    Populated heap (.node a children siblings) ↔
      children ≠ .nil ∧ Tame heap children ∧ Populated heap siblings := by
  simp only [Populated, Forest.trees_node, List.forall_mem_cons, and_assoc]

/-- The climb in a segment ends at its root bridge, and the loop over the
devices with it. -/
theorem resume_segment {fuel n : Nat} {r : Addr} {path : List Addr} {it : Iteration σ}
    (hsame : SameTree heap₀ (v.heap it.state)) (hsegment : (heap₀ r).isSegment = true)
    (hparent : heap₀.links.parent r = some hostBridge) :
    resume v doPrint indentMaxLength fuel n (climbPath doPrint heap₀ (r :: path) it) =
      .ok (some r, it) := by
  have hr : (v.heap it.state r).parent = some hostBridge := (hsame.parent r).trans hparent
  rw [climbPath, if_pos hsegment]
  simp [resume, hr]

/-- On populated segments the loop makes the callbacks in preorder. -/
theorem visitSegments_forest (hI : IndentInvariant v doPrint indentMaxLength heap₀ I)
    (hhost : (heap₀ hostBridge).parent = none) {f : Forest Addr} {p : Option Addr}
    {it : Iteration σ} {state : σ} {fuel n : Nat}
    (hf : f.Represents heap₀.links hostBridge p)
    (hsegment : ∀ r ∈ f.roots, (heap₀ r).isSegment = true) (hpopulated : Populated heap₀ f)
    (hfuel : f.size < fuel) (hn : f.size ≤ n) (hsame : SameTree heap₀ (v.heap it.state))
    (hit : I [hostBridge] it) (hcalls : v.callAll f.preorder it.state = .ok state) :
    ∃ it', visitSegments v doPrint indentMaxLength fuel n p it = .ok it' ∧
      it'.state = state ∧ I [hostBridge] it' := by
  induction f generalizing p it n with
  | nil =>
      obtain rfl : p = none := hf
      obtain rfl := Except.ok.inj hcalls
      cases n <;> exact ⟨it, rfl, rfl, hit⟩
  | node r children siblings _ ih =>
      obtain ⟨rfl, hparent, -, hchildren, hsiblings⟩ := hf
      obtain ⟨hne, htame, hpopulated⟩ := populated_node_iff.mp hpopulated
      obtain ⟨state₁, hcall, hcalls⟩ := Visitor.callAll_cons_eq_ok.mp hcalls
      obtain ⟨state₂, hccalls, hscalls⟩ := Visitor.callAll_append_eq_ok.mp hcalls
      have hr : (heap₀ r).isSegment = true := hsegment r (by simp)
      have hrhost : r ≠ hostBridge := by
        rintro rfl
        rw [show heap₀.links.parent hostBridge = none from hhost] at hparent
        cases hparent
      have hpath : Linked heap₀.links.parent (some r) [r, hostBridge] :=
        ⟨rfl, hparent, hhost⟩
      simp only [Forest.size] at hfuel hn
      obtain ⟨n, rfl⟩ : ∃ k, n = k + 1 := ⟨n - 1, by omega⟩
      obtain ⟨it₁, hcall₁⟩ : ∃ it₁, v.call r (startSegment doPrint (v.heap it.state r) it) =
          .ok it₁ :=
        ⟨_, Visitor.call_eq_ok.mpr ⟨state₁, by simpa using hcall, rfl⟩⟩
      have hstate₁ : it₁.state = state₁ := by
        obtain ⟨state, hcall', rfl⟩ := Visitor.call_eq_ok.mp hcall₁
        rw [startSegment_state, hcall] at hcall'
        exact (Except.ok.inj hcall').symm
      have hsame₁ : SameTree heap₀ (v.heap it₁.state) := by
        rw [hstate₁]
        exact hsame.trans (v.keepsTree hcall)
      -- The devices of the segment, then its siblings.
      obtain ⟨it₂, hstate₂, hit₂, hrun⟩ := visitDevices_forest hI hhost hchildren hne hrhost hpath
        htame (show [hostBridge].length + children.size ≤ fuel by simp; omega) hsame₁
        (hI.start hsame hit hcall₁) (hstate₁ ▸ hccalls)
      have hsame₂ : SameTree heap₀ (v.heap it₂.state) := by
        rw [hstate₂]
        exact hsame₁.trans (hstate₁ ▸ Visitor.callAll_sameTree hccalls)
      have hdevices : visitDevices v doPrint indentMaxLength fuel fuel
          (v.heap it₁.state r).firstChild it₁ = .ok (some r, it₂) := by
        have hend := hrun (fuel - children.size)
        rw [show children.size + (fuel - children.size) = fuel by omega,
          resume_segment hsame₂ hr hparent] at hend
        rw [hsame₁.firstChild]
        exact hend
      obtain ⟨it', hsegments, hstate', hit'⟩ := ih hsiblings
        (fun b hb => hsegment b (by simp [hb])) hpopulated (by omega)
        (show siblings.size ≤ n by omega) hsame₂ (hI.finish hit₂) (hstate₂ ▸ hscalls)
      refine ⟨it', ?_, hstate', hit'⟩
      simp only [visitSegments, hcall₁, Run.ok_bind, hdevices, Run.deref_some,
        hsame₂.nextSibling]
      exact hsegments

/-- A segment that is not populated keeps the loop from returning. -/
theorem visitSegments_unpopulated (htotal : v.Total) (hhost : (heap₀ hostBridge).parent = none)
    {f : Forest Addr} {p : Option Addr} {it : Iteration σ} {fuel n : Nat}
    (hf : f.Represents heap₀.links hostBridge p)
    (hsegment : ∀ r ∈ f.roots, (heap₀ r).isSegment = true) (hempty : ¬ Populated heap₀ f)
    (hsame : SameTree heap₀ (v.heap it.state)) :
    ¬ (visitSegments v doPrint indentMaxLength fuel n p it).Returns := by
  induction f generalizing p it n with
  | nil => exact absurd (fun t ht => absurd ht (by simp)) hempty
  | node r children siblings _ ih =>
      obtain ⟨rfl, hparent, -, hchildren, hsiblings⟩ := hf
      have hr : (heap₀ r).isSegment = true := hsegment r (by simp)
      have hrhost : r ≠ hostBridge := by
        rintro rfl
        rw [show heap₀.links.parent hostBridge = none from hhost] at hparent
        cases hparent
      have hpath : Linked heap₀.links.parent (some r) [r, hostBridge] :=
        ⟨rfl, hparent, hhost⟩
      rintro ⟨it', hrun⟩
      cases n with
      | zero => simp [visitSegments] at hrun
      | succ n =>
          simp only [visitSegments, Run.bind_eq_ok] at hrun
          obtain ⟨it₁, hcall, ⟨last, it₂⟩, hdevices, d, hd, hrun⟩ := hrun
          have hsame₁ : SameTree heap₀ (v.heap it₁.state) := by
            obtain ⟨state, hcallback, rfl⟩ := Visitor.call_eq_ok.mp hcall
            rw [startSegment_state] at hcallback
            exact hsame.trans (v.keepsTree hcallback)
          rw [hsame₁.firstChild] at hdevices
          by_cases hne : children = .nil
          · -- The loop over the devices ends with `NULL` at once.
            subst hne
            rw [show (heap₀ r).firstChild = none from hchildren] at hdevices
            have hlast : (none, it₁) = (last, it₂) := by
              cases fuel <;> exact Except.ok.inj hdevices
            obtain ⟨rfl, rfl⟩ := Prod.mk.inj hlast
            simp at hd
          · by_cases htame : Tame heap₀ children
            · obtain ⟨it₃, fuel', hcalls, hend⟩ := visitDevices_forest_returns htotal hhost
                hchildren hne hrhost hpath htame hsame₁ hdevices
              have hsame₃ := hsame₁.trans (Visitor.callAll_sameTree hcalls)
              rw [resume_segment hsame₃ hr hparent] at hend
              obtain ⟨rfl, rfl⟩ := Prod.mk.inj (Except.ok.inj hend)
              obtain rfl : r = d := by simpa using hd
              rw [hsame₃.nextSibling] at hrun
              refine ih hsiblings (fun b hb => hsegment b (by simp [hb])) ?_ hsame₃ ⟨it', hrun⟩
              exact fun hpopulated => hempty (populated_node_iff.mpr ⟨hne, htame, hpopulated⟩)
            · exact visitDevices_untamed htotal hhost hchildren hrhost hpath htame hsame₁
                ⟨_, hdevices⟩

end Visit

/-! ## `PciTreeIterate` -/

/-- The list of bridges ends, and its bridges are in the forest. -/
def BridgesInTree (heap : Heap) (forest : Forest Addr) : Prop :=
  ∃ bridges, Linked (fun a => (heap a).chain) (heap hostBridge).chain bridges ∧
    ∀ b ∈ bridges, b ∈ forest.preorder ∧ (heap b).pciType1 = true

theorem DeviceTree.hostPath {heap : Heap} {forest : Forest Addr} (h : DeviceTree heap forest) :
    Linked heap.links.parent (some hostBridge) [hostBridge] :=
  ⟨rfl, h.parent⟩

theorem DeviceTree.nodup {heap : Heap} {forest : Forest Addr} (h : DeviceTree heap forest) :
    forest.preorder.Nodup :=
  h.represents.nodup h.hostPath

theorem bridgeDepth_returns {heap : Heap} {b : Addr} {path : List Addr} {fuel : Nat}
    (hpath : Linked (fun a => (heap a).parent) (heap b).parent path)
    (hfuel : path.length ≤ fuel) : (bridgeDepth fuel heap b).Returns :=
  forEach_returns (fun _ _ _ => ⟨_, rfl⟩) 0 hpath hfuel

theorem widenIndent_returns {heap : Heap} {forest : Forest Addr} (htree : DeviceTree heap forest)
    {b : Addr} (hb : b ∈ forest.preorder) (htype : (heap b).pciType1 = true) {fuel : Nat}
    (hfuel : forest.size < fuel) (indentMaxLength : UInt64) :
    (widenIndent fuel heap b indentMaxLength).Returns := by
  obtain ⟨l, r, -, hpath, hlength⟩ := htree.represents.ancestors htree.hostPath hb
  obtain ⟨depth, hdepth⟩ : (bridgeDepth fuel heap b).Returns := by
    cases l with
    | nil =>
        obtain ⟨hbr, hpath⟩ := hpath
        obtain rfl := Option.some.inj hbr
        exact bridgeDepth_returns hpath (by simp; omega)
    | cons c l =>
        obtain ⟨hbc, hpath⟩ := hpath
        obtain rfl := Option.some.inj hbc
        exact bridgeDepth_returns hpath (by simp at hlength ⊢; omega)
  rw [widenIndent, hdepth, Run.ok_bind, if_neg (by simp [htype])]
  dsimp only
  split <;> exact ⟨_, rfl⟩

theorem findIndentMaxLength_returns {heap : Heap} {forest : Forest Addr}
    (htree : DeviceTree heap forest) (hbridges : BridgesInTree heap forest) :
    ∃ fuel₁, ∀ fuel ≥ fuel₁, (findIndentMaxLength fuel heap).Returns := by
  obtain ⟨bridges, hchain, hmem⟩ := hbridges
  refine ⟨max bridges.length (forest.size + 1), fun fuel hfuel => ?_⟩
  refine forEach_returns (fun b hb indentMaxLength => ?_) 0 hchain (by omega)
  obtain ⟨hb, htype⟩ := hmem b hb
  exact widenIndent_returns htree hb htype (by omega) indentMaxLength

/-- On populated segments `PciTreeIterate` makes the callbacks of the tree in
preorder, whatever they do. -/
theorem pciTreeIterate_populated {heap : Heap} {forest : Forest Addr}
    (htree : DeviceTree heap forest) {doPrint : Bool}
    (hbridges : doPrint = true → BridgesInTree heap forest) (hpopulated : Populated heap forest) :
    ∃ fuel₁, ∀ {σ : Type} (v : Visitor σ) (state state' : σ), v.heap state = heap →
      v.callAll forest.preorder state = .ok state' → ∀ fuel ≥ fuel₁, ∃ it,
        pciTreeIterate v doPrint fuel state = .ok it ∧ it.state = state' := by
  obtain ⟨fuel₁, hindent⟩ : ∃ fuel₁, ∀ fuel ≥ fuel₁,
      (indentWidth doPrint fuel heap).Returns := by
    cases doPrint with
    | false => exact ⟨0, fun _ _ => ⟨0, rfl⟩⟩
    | true => exact findIndentMaxLength_returns htree (hbridges rfl)
  refine ⟨max fuel₁ (forest.size + 1), fun v state state' hheap hcalls fuel hfuel => ?_⟩
  subst hheap
  obtain ⟨indentMaxLength, hwidth⟩ := hindent fuel (by omega)
  obtain ⟨it, hsegments, hstate, -⟩ := visitSegments_forest
    (indentInvariant_trivial :
      IndentInvariant v doPrint indentMaxLength (v.heap state) fun _ _ => True)
    htree.parent htree.represents htree.segment hpopulated (show forest.size < fuel by omega)
    (show forest.size ≤ fuel by omega)
    (show SameTree (v.heap state) (v.heap (Iteration.start state).state) from .refl _) trivial
    hcalls
  refine ⟨it, ?_, hstate⟩
  rw [pciTreeIterate, hwidth, Run.ok_bind]
  exact hsegments

/-- `PciTreeIterate` returns and makes the callback exactly once on every device
of the tree, in depth-first preorder, if and only if every segment has a device
and no root bridge below a segment has children. -/
theorem pciTreeIterate_visits_iff {σ : Type} (v : Visitor σ) (htotal : v.Total) (doPrint : Bool)
    {state : σ} {forest : Forest Addr} (htree : DeviceTree (v.heap state) forest)
    (hbridges : doPrint = true → BridgesInTree (v.heap state) forest) :
    (forest.preorder.Nodup ∧ ∃ fuel₁, ∀ fuel ≥ fuel₁, ∃ it,
        pciTreeIterate v doPrint fuel state = .ok it ∧
          v.callAll forest.preorder state = .ok it.state) ↔
      Populated (v.heap state) forest := by
  constructor
  · rintro ⟨-, fuel₁, hrun⟩
    by_contra hempty
    obtain ⟨it, hrun, -⟩ := hrun fuel₁ le_rfl
    unfold pciTreeIterate at hrun
    obtain ⟨indentMaxLength, -, hsegments⟩ := Run.bind_eq_ok.mp hrun
    exact visitSegments_unpopulated htotal htree.parent htree.represents htree.segment hempty
      (.refl _) ⟨it, hsegments⟩
  · intro hpopulated
    refine ⟨htree.nodup, ?_⟩
    obtain ⟨fuel₁, hiterate⟩ := pciTreeIterate_populated htree hbridges hpopulated
    obtain ⟨state', hcalls⟩ := htotal.callAll forest.preorder state
    refine ⟨fuel₁, fun fuel hfuel => ?_⟩
    obtain ⟨it, hrun, hstate⟩ := hiterate v state state' rfl hcalls fuel hfuel
    exact ⟨it, hrun, hstate ▸ hcalls⟩

/-- A callback that only notes the device it is called on. -/
def noteDevices (heap : Heap) : Visitor (List Addr) where
  heap _ := heap
  callback a notes := .ok (notes ++ [a])
  keepsTree _ := .refl heap

/-- Two segments.  The first has a bridge, a bridge behind it and a function behind both, the
second one function. -/
def twoSegments : Heap
  | 0 => { firstChild := some 1, lastChild := some 2, chain := some 1, pciType1 := true }
  | 1 =>
      { parent := some hostBridge, isSegment := true, pciType1 := true, chain := some 2
        firstChild := some 3, lastChild := some 3, nextSibling := some 2 }
  | 2 =>
      { parent := some hostBridge, isSegment := true, pciType1 := true, chain := some 3
        segmentNumber := 1, firstChild := some 6, lastChild := some 6 }
  | 3 =>
      { parent := some 1, pciType1 := true, chain := some 4
        firstChild := some 4, lastChild := some 4 }
  | 4 => { parent := some 3, pciType1 := true, firstChild := some 5, lastChild := some 5 }
  | 5 => { parent := some 4 }
  | 6 => { parent := some 2, segmentNumber := 1 }
  | _ => {}

/-- The tree of `twoSegments`. -/
def twoSegmentsForest : Forest Addr :=
  .node 1 (.node 3 (.node 4 (.node 5 .nil .nil) .nil) .nil) (.node 2 (.node 6 .nil .nil) .nil)

theorem deviceTree_twoSegments : DeviceTree twoSegments twoSegmentsForest :=
  ⟨⟨rfl, rfl, rfl, ⟨rfl, rfl, rfl, ⟨rfl, rfl, rfl, ⟨rfl, rfl, rfl, rfl, rfl⟩, rfl⟩, rfl⟩,
    ⟨rfl, rfl, rfl, ⟨rfl, rfl, rfl, rfl, rfl⟩, rfl⟩⟩, rfl, rfl, by decide⟩

theorem populated_twoSegments : Populated twoSegments twoSegmentsForest := by
  simp [twoSegmentsForest, Populated, Tame, twoSegments]

theorem chain_twoSegments :
    Linked (fun a => (twoSegments a).chain) (twoSegments hostBridge).chain [1, 2, 3, 4] :=
  ⟨rfl, rfl, rfl, rfl, rfl⟩

theorem pciTreeIterate_visits_iff_twoSegments :
    ∃ fuel₁, ∀ fuel ≥ fuel₁, ∃ it,
      pciTreeIterate (noteDevices twoSegments) true fuel [] = .ok it ∧
        it.state = [1, 3, 4, 5, 2, 6] := by
  obtain ⟨-, fuel₁, hrun⟩ := (pciTreeIterate_visits_iff (noteDevices twoSegments)
    (fun _ _ => ⟨_, rfl⟩) true
    (show DeviceTree ((noteDevices twoSegments).heap []) twoSegmentsForest from
      deviceTree_twoSegments)
    fun _ => ⟨[1, 2, 3, 4], chain_twoSegments, by decide⟩).mpr populated_twoSegments
  refine ⟨fuel₁, fun fuel hfuel => ?_⟩
  obtain ⟨it, hit, hcalls⟩ := hrun fuel hfuel
  exact ⟨it, hit, (Except.ok.inj hcalls).symm⟩

/-- The host bridge with one root bridge, whose first child is given. -/
def oneSegment (child : Option Addr) : Heap
  | 0 => { firstChild := some 1, lastChild := some 1, chain := some 1, pciType1 := true }
  | 1 =>
      { parent := some hostBridge, isSegment := true, pciType1 := true
        firstChild := child, lastChild := child }
  | _ => { parent := some 1 }

/-- On an empty segment the traversal dereferences `NULL`. -/
theorem pciTreeIterate_emptySegment :
    DeviceTree (oneSegment none) (.node 1 .nil .nil) ∧
      ∀ fuel, pciTreeIterate (noteDevices (oneSegment none)) false (fuel + 1) [] =
        .error .nullDereference :=
  ⟨⟨⟨rfl, rfl, rfl, rfl, rfl⟩, rfl, rfl, by simp [oneSegment]⟩, fun _ => rfl⟩

end PciMisc
end EfiApps
