import EfiApps.LinkRate.FixPCIeLinkRate
import EfiApps.PciMisc.IndentWidth

/-!
# Which links are retrained

The traversal is in preorder, so the callback on a first child comes right after
the callback on its parent, and the pointer carried between them is the parent.
The calls of `SetMaxLinkSpeed` are therefore known from the states between the
callbacks, and each of them makes at most the two register writes of `LinkWrite`.
-/

namespace EfiApps
namespace LinkRate

open PciMisc Relation

/-! ## One call of `SetMaxLinkSpeed` -/

/-- `s'` is reached from `s` by accesses of `SetMaxLinkSpeed (p, c)`. -/
structure Retrains (p c : Addr) (s s' : LinkState) : Prop where
  heap : SameButLinkCopies s.heap s'.heap
  registers : ReflTransGen (LinkWrite s.heap p c) s.registers s'.registers
  parentDevice : s'.parentDevice = s.parentDevice
  calls : s'.calls = s.calls

variable {hw : LinkHardware} {p c a : Addr} {r : LinkRegister} {f : UInt16 → UInt16}
variable {s s' s'' : LinkState}

namespace Retrains

theorem refl (s : LinkState) : Retrains p c s s := ⟨.refl _, .refl, rfl, rfl⟩

theorem trans (h : Retrains p c s s') (h' : Retrains p c s' s'') : Retrains p c s s'' where
  heap := h.heap.trans h'.heap
  registers := h.registers.trans
    (ReflTransGen.mono (fun _ _ hwrite => hwrite.congr h.heap) _ _ h'.registers)
  parentDevice := h'.parentDevice.trans h.parentDevice
  calls := h'.calls.trans h.calls

end Retrains

theorem retrains_readLink : Retrains p c s (readLink hw a r s).2 := by
  unfold readLink
  split
  · exact ⟨.refl _, .refl, rfl, rfl⟩
  · exact ⟨(SameButLinkCopies.refl s.heap).modify a r _, .refl, rfl, rfl⟩

/-- A control register that was read holds what the copy holds now. -/
theorem linkCopy_readLink (hw : LinkHardware) (a : Addr) (s : LinkState) (hr : r ≠ .linkStatus)
    (hok : (readLink hw a r s).1.isError = false) :
    ∃ path, (s.heap a).configPath = some path ∧
      linkCopy ((readLink hw a r s).2.heap a) r = s.registers (path, linkOffset (s.heap a) r) := by
  unfold readLink at hok ⊢
  cases hpath : (s.heap a).configPath with
  | none =>
      rw [hpath] at hok
      cases hok
  | some path =>
      rw [hpath] at hok
      dsimp only at hok ⊢
      refine ⟨path, rfl, ?_⟩
      rw [Heap.modify_self, linkCopy_setLinkCopy, if_neg]
      rw [hok]
      simp [hr]

/-- `Modify` changes nothing or the one register it is about. -/
theorem modifyLink_spec (hw : LinkHardware) (a : Addr) (f : UInt16 → UInt16) (s : LinkState)
    (hr : r ≠ .linkStatus) :
    SameButLinkCopies s.heap (modifyLink hw a r f s).2.heap ∧
      (modifyLink hw a r f s).2.parentDevice = s.parentDevice ∧
      (modifyLink hw a r f s).2.calls = s.calls ∧
      ((modifyLink hw a r f s).2.registers = s.registers ∨
        ∃ path, (s.heap a).configPath = some path ∧
          (modifyLink hw a r f s).2.registers =
            Function.update s.registers (path, linkOffset (s.heap a) r)
              (f (s.registers (path, linkOffset (s.heap a) r)))) := by
  have hread : Retrains a a s (readLink hw a r s).2 := retrains_readLink
  have hregisters : (readLink hw a r s).2.registers = s.registers := by
    unfold readLink
    split <;> rfl
  have hcopy := linkCopy_readLink hw a s hr
  unfold modifyLink
  generalize readLink hw a r s = read at hread hregisters hcopy ⊢
  obtain ⟨status, s₁⟩ := read
  dsimp only at hread hregisters hcopy ⊢
  split
  · exact ⟨hread.heap, hread.parentDevice, hread.calls, .inl hregisters⟩
  · rename_i hok
    obtain ⟨path, hpath, hcopy⟩ := hcopy (by simpa using hok)
    have hsame := hread.heap.modify a r (f (linkCopy (s₁.heap a) r))
    unfold writeLink
    dsimp only
    rw [hsame.configPath, hpath]
    dsimp only
    refine ⟨hsame, hread.parentDevice, hread.calls, ?_⟩
    split
    · exact .inl hregisters
    · refine .inr ⟨path, rfl, ?_⟩
      rw [hsame.linkOffset, Heap.modify_self, linkCopy_setLinkCopy, hcopy, hregisters]

/-- What a read of the status register keeps, a poll keeps. -/
theorem pollLinkTraining_keeps {P : LinkState → Prop}
    (hread : ∀ s, P s → P (readLink hw a .linkStatus s).2) {fuel : Nat} (hs : P s)
    (h : pollLinkTraining hw a fuel s = .ok s') : P s' := by
  induction fuel generalizing s with
  | zero =>
      unfold pollLinkTraining at h
      dsimp only at h
      split at h
      · obtain rfl := Except.ok.inj h
        exact hread s hs
      · split at h
        · cases h
        · obtain rfl := Except.ok.inj h
          exact hread s hs
  | succ fuel ih =>
      unfold pollLinkTraining at h
      dsimp only at h
      split at h
      · obtain rfl := Except.ok.inj h
        exact hread s hs
      · split at h
        · exact ih (hread s hs) h
        · obtain rfl := Except.ok.inj h
          exact hread s hs

theorem retrains_pollLinkTraining {fuel : Nat}
    (h : pollLinkTraining hw a fuel s = .ok s') : Retrains p c s s' :=
  pollLinkTraining_keeps (P := Retrains p c s) (fun _ hs => hs.trans retrains_readLink) (.refl s) h

/-- `SetMaxLinkSpeed` makes no other writes than its two. -/
theorem retrains_setMaxLinkSpeed {fuel : Nat} (h : setMaxLinkSpeed hw fuel p c s = .ok s') :
    Retrains p c s s' := by
  have htarget : Retrains p c s (modifyLink hw p .linkControl2
      (setTargetLinkSpeed (targetLinkSpeedValue (s.heap p) (s.heap c))) s).2 := by
    obtain ⟨hheap, hparent, hcalls, hregisters⟩ := modifyLink_spec hw p
      (setTargetLinkSpeed (targetLinkSpeedValue (s.heap p) (s.heap c))) s
      (show LinkRegister.linkControl2 ≠ .linkStatus by decide)
    refine ⟨hheap, ?_, hparent, hcalls⟩
    rcases hregisters with hsame | ⟨path, hpath, hwrite⟩
    · rw [hsame]
    · rw [hwrite]
      have hmin : targetLinkSpeedValue (s.heap p) (s.heap c) =
          min (maxLinkSpeed (s.heap p)) (maxLinkSpeed (s.heap c)) := by
        unfold targetLinkSpeedValue
        split <;> omega
      rw [hmin]
      exact .single (.target hpath _)
  have hretrain : ∀ s : LinkState,
      Retrains p c s (modifyLink hw p .linkControl setRetrainLink s).2 := by
    intro s
    obtain ⟨hheap, hparent, hcalls, hregisters⟩ := modifyLink_spec hw p setRetrainLink s
      (show LinkRegister.linkControl ≠ .linkStatus by decide)
    refine ⟨hheap, ?_, hparent, hcalls⟩
    rcases hregisters with hsame | ⟨path, hpath, hwrite⟩
    · rw [hsame]
    · rw [hwrite]
      exact .single (.retrain hpath _)
  unfold setMaxLinkSpeed at h
  dsimp only at h
  split at h
  · obtain rfl := Except.ok.inj h
    exact htarget
  · rw [Run.bind_eq_ok] at h
    obtain ⟨s₁, hpoll, h⟩ := h
    have hpolled := (htarget.trans (retrains_pollLinkTraining hpoll)).trans (hretrain s₁)
    split at h
    · obtain rfl := Except.ok.inj h
      exact hpolled
    · rw [Run.bind_eq_ok] at h
      obtain ⟨s₂, hpoll, h⟩ := h
      obtain rfl := Except.ok.inj h
      exact (hpolled.trans (retrains_pollLinkTraining hpoll)).trans retrains_readLink

/-! ## The log of the writes -/

/-- The writes that one call makes at most. -/
def callWrites (call : Addr × Addr) : List (Addr × LinkRegister) :=
  [(call.1, .linkControl2), (call.1, .linkControl)]

theorem writes_readLink : (readLink hw a r s).2.writes = s.writes := by
  unfold readLink
  split
  · exact (s.writes_note _).trans (List.append_nil _)
  · exact (s.writes_note _).trans (List.append_nil _)

theorem writes_writeLink : (writeLink hw a r s).2.writes = s.writes ++ [(a, r)] := by
  unfold writeLink
  split
  · exact s.writes_note _
  · exact s.writes_note _

/-- `Modify` makes one write, or none. -/
theorem writes_modifyLink (hw : LinkHardware) (a : Addr) (r : LinkRegister) (f : UInt16 → UInt16)
    (s : LinkState) :
    ∃ l, l.Sublist [(a, r)] ∧ (modifyLink hw a r f s).2.writes = s.writes ++ l := by
  have hread : (readLink hw a r s).2.writes = s.writes := writes_readLink
  unfold modifyLink
  dsimp only
  split
  · exact ⟨[], List.nil_sublist _, hread.trans (List.append_nil _).symm⟩
  · refine ⟨[(a, r)], .refl _, ?_⟩
    rw [writes_writeLink]
    exact congrArg (· ++ [(a, r)]) hread

theorem writes_pollLinkTraining {fuel : Nat} (h : pollLinkTraining hw a fuel s = .ok s') :
    s'.writes = s.writes :=
  pollLinkTraining_keeps (P := fun t => t.writes = s.writes)
    (fun _ ht => writes_readLink.trans ht) rfl h

/-- `SetMaxLinkSpeed` makes each of its two writes once at most. -/
theorem writes_setMaxLinkSpeed {fuel : Nat} (h : setMaxLinkSpeed hw fuel p c s = .ok s') :
    ∃ l, l.Sublist (callWrites (p, c)) ∧ s'.writes = s.writes ++ l := by
  obtain ⟨target, htarget, hwrites⟩ := writes_modifyLink hw p .linkControl2
    (setTargetLinkSpeed (targetLinkSpeedValue (s.heap p) (s.heap c))) s
  unfold setMaxLinkSpeed at h
  dsimp only at h
  split at h
  · obtain rfl := Except.ok.inj h
    exact ⟨target, htarget.trans (.cons_cons _ (List.nil_sublist _)), hwrites⟩
  · rw [Run.bind_eq_ok] at h
    obtain ⟨s₁, hpoll, h⟩ := h
    obtain ⟨retrain, hretrain, hwrites₁⟩ := writes_modifyLink hw p .linkControl setRetrainLink s₁
    rw [writes_pollLinkTraining hpoll, hwrites, List.append_assoc] at hwrites₁
    refine ⟨target ++ retrain, htarget.append hretrain, ?_⟩
    split at h
    · obtain rfl := Except.ok.inj h
      exact hwrites₁
    · rw [Run.bind_eq_ok] at h
      obtain ⟨s₂, hpoll₂, h⟩ := h
      obtain rfl := Except.ok.inj h
      rw [writes_readLink, writes_pollLinkTraining hpoll₂, hwrites₁]

/-! ## One callback -/

/-- The call of `SetMaxLinkSpeed` that the callback on a device makes. -/
def callOf (s : LinkState) (a : Addr) : List (Addr × Addr) :=
  match s.parentDevice with
  | none => []
  | some p =>
      if (s.heap a).isSegment = false ∧ belowMaxLinkSpeed (s.heap a) = true then [(p, a)] else []

theorem mem_callOf : (p, c) ∈ callOf s a ↔ c = a ∧ s.parentDevice = some p ∧
    (s.heap a).isSegment = false ∧ belowMaxLinkSpeed (s.heap a) = true := by
  unfold callOf
  cases s.parentDevice with
  | none => simp
  | some q =>
      dsimp only
      split
      · rename_i hcalled
        simp [hcalled, and_comm, eq_comm]
      · rename_i hnot
        simp [hnot]

/-- A write of one of the calls. -/
def CallWrite (heap : Heap) (calls : List (Addr × Addr)) (registers registers' : Registers) :
    Prop :=
  ∃ call ∈ calls, LinkWrite heap call.1 call.2 registers registers'

/-- What the callback on `a` does. -/
structure CalledBack (a : Addr) (s s' : LinkState) : Prop where
  heap : SameButLinkCopies s.heap s'.heap
  calls : s'.calls = s.calls ++ callOf s a
  registers : ReflTransGen (CallWrite s.heap s'.calls) s.registers s'.registers
  writes : ∃ l, l.Sublist ((callOf s a).flatMap callWrites) ∧ s'.writes = s.writes ++ l
  parentDevice : s'.parentDevice =
    if (s.heap a).isSegment then none else nextParentDevice (s'.heap a) a

theorem calledBack_fixPCIeLinkRate {fuel : Nat} (h : fixPCIeLinkRate hw fuel a s = .ok s') :
    CalledBack a s s' := by
  have hnoWrite : ∃ l, l.Sublist ((callOf s a).flatMap callWrites) ∧ s.writes = s.writes ++ l :=
    ⟨[], List.nil_sublist _, (List.append_nil _).symm⟩
  unfold fixPCIeLinkRate at h
  split at h
  · rename_i hsegment
    obtain rfl := Except.ok.inj h
    refine ⟨.refl _, ?_, .refl, hnoWrite, by simp [hsegment]⟩
    unfold callOf
    split <;> simp [hsegment]
  · rename_i hsegment
    rw [Run.bind_eq_ok] at h
    obtain ⟨s₁, hretrain, h⟩ := h
    obtain rfl := Except.ok.inj h
    have hparent : (if (s.heap a).isSegment then none else nextParentDevice (s₁.heap a) a) =
        nextParentDevice (s₁.heap a) a := if_neg hsegment
    unfold retrainBelow at hretrain
    split at hretrain
    · rename_i hnone
      obtain rfl := Except.ok.inj hretrain
      exact ⟨.refl _, by simp [callOf, hnone], .refl, hnoWrite, hparent.symm⟩
    · rename_i p hsome
      split at hretrain
      · rename_i hbelow
        have hcall := retrains_setMaxLinkSpeed hretrain
        have hcalls : s₁.calls = s.calls ++ callOf s a := by
          rw [hcall.calls, callOf, hsome]
          simp [hsegment, hbelow]
        refine ⟨hcall.heap, hcalls, ?_, ?_, hparent.symm⟩
        · refine ReflTransGen.mono (fun _ _ hwrite => ?_) _ _ hcall.registers
          exact ⟨(p, a), by rw [hcall.calls]; simp, hwrite⟩
        · have hcallOf : callOf s a = [(p, a)] := by
            rw [callOf, hsome]
            simp [hsegment, hbelow]
          rw [hcallOf, List.flatMap_singleton]
          obtain ⟨l, hl, hwrites⟩ := writes_setMaxLinkSpeed hretrain
          exact ⟨l, hl, hwrites⟩
      · rename_i hbelow
        obtain rfl := Except.ok.inj hretrain
        exact ⟨.refl _, by simp [callOf, hsome, hbelow], .refl, hnoWrite, hparent.symm⟩

/-- `FixPCIeLinkRate` as the callback of `PciTreeIterate`. -/
def linkRateVisitor (hw : LinkHardware) (fuel : Nat) : Visitor LinkState where
  heap := LinkState.heap
  callback := fixPCIeLinkRate hw fuel
  keepsTree h := (calledBack_fixPCIeLinkRate h).heap.sameTree

/-- It leaves the bridges as they are, so the lines that are printed between the callbacks
keep to the column. -/
def linkRatePrintVisitor (hw : LinkHardware) (fuel : Nat) : PrintVisitor LinkState where
  toVisitor := linkRateVisitor hw fuel
  keepsBridges h :=
    have hsame := (calledBack_fixPCIeLinkRate h).heap
    ⟨hsame.field fun _ => rfl, hsame.field (f := fun d => d.pci.secondaryBus) fun _ => rfl,
      hsame.field (f := fun d => d.pci.subordinateBus) fun _ => rfl⟩

/-! ## Any number of callbacks -/

/-- The callback on `c` comes right after the one on `p`, in the state `t`, and
calls `SetMaxLinkSpeed (p, c)`. -/
def CallsBetween (v : Visitor LinkState) (devices : List Addr) (s : LinkState) (p c : Addr) :
    Prop :=
  ∃ before after t, devices = before ++ p :: c :: after ∧
    v.callAll (before ++ [p]) s = .ok t ∧
    ((t.heap p).isSegment = false ∧ nextParentDevice (t.heap p) p = some p) ∧
    (t.heap c).isSegment = false ∧ belowMaxLinkSpeed (t.heap c) = true

/-- What the callbacks on a list of devices do. -/
structure Ran (v : Visitor LinkState) (devices : List Addr) (s s' : LinkState) : Prop where
  heap : SameButLinkCopies s.heap s'.heap
  registers : ReflTransGen (CallWrite s.heap s'.calls) s.registers s'.registers
  writes : ∃ l, l.Sublist (s'.calls.flatMap callWrites) ∧ s'.writes = s.writes ++ l
  calls : ∀ p c, (p, c) ∈ s'.calls ↔ CallsBetween v devices s p c
  once : (s'.calls.map Prod.snd).Sublist devices
  parentDevice : ∀ a ∈ devices.getLast?, s'.parentDevice =
    if (s'.heap a).isSegment then none else nextParentDevice (s'.heap a) a

theorem nextParentDevice_eq_some {d : PciIoDevice} {a b : Addr}
    (h : nextParentDevice d a = some b) : b = a := by
  unfold nextParentDevice at h
  split at h
  · exact (Option.some.inj h).symm
  · cases h

theorem callsBetween_concat {v : Visitor LinkState} {devices : List Addr} :
    CallsBetween v (devices ++ [a]) s p c ↔
      CallsBetween v devices s p c ∨ (c = a ∧ ∃ before t, devices = before ++ [p] ∧
        v.callAll devices s = .ok t ∧
        ((t.heap p).isSegment = false ∧ nextParentDevice (t.heap p) p = some p) ∧
        (t.heap c).isSegment = false ∧ belowMaxLinkSpeed (t.heap c) = true) := by
  constructor
  · rintro ⟨before, after, t, hdevices, hcalls, hp, hc⟩
    rcases List.eq_nil_or_concat' after with rfl | ⟨after, b, rfl⟩
    · have hinit : devices ++ [a] = (before ++ [p]) ++ [c] := by simpa using hdevices
      obtain ⟨rfl, hlast⟩ := List.append_inj' hinit rfl
      obtain rfl : a = c := by simpa using hlast
      exact .inr ⟨rfl, before, t, rfl, hcalls, hp, hc⟩
    · have hinit : devices ++ [a] = (before ++ p :: c :: after) ++ [b] := by simpa using hdevices
      obtain ⟨rfl, -⟩ := List.append_inj' hinit rfl
      exact .inl ⟨before, after, t, rfl, hcalls, hp, hc⟩
  · rintro (⟨before, after, t, rfl, hcalls, hp, hc⟩ | ⟨rfl, before, t, rfl, hcalls, hp, hc⟩)
    · exact ⟨before, after ++ [a], t, by simp, hcalls, hp, hc⟩
    · exact ⟨before, [], t, by simp, hcalls, hp, hc⟩

theorem ran_callAll {fuel : Nat} {devices : List Addr} (hcalls : s.calls = [])
    (hhead : ∀ a ∈ devices.head?, (s.heap a).isSegment = true)
    (h : (linkRateVisitor hw fuel).callAll devices s = .ok s') :
    Ran (linkRateVisitor hw fuel) devices s s' := by
  induction devices using List.reverseRecOn generalizing s' with
  | nil =>
      obtain rfl := Except.ok.inj h
      refine ⟨.refl _, .refl, ⟨[], List.nil_sublist _, (List.append_nil _).symm⟩, fun p c => ?_,
        by simp [hcalls], by simp⟩
      simp [hcalls, CallsBetween]
  | append_singleton devices a ih =>
      obtain ⟨t, hdevices, hlast⟩ := Visitor.callAll_append_eq_ok.mp h
      obtain ⟨t', hcall, hnil⟩ := Visitor.callAll_cons_eq_ok.mp hlast
      obtain rfl := Except.ok.inj hnil
      have hran := ih (fun b hb => hhead b (by simp at hb ⊢; simp [hb])) hdevices
      have hback : CalledBack a t t' := calledBack_fixPCIeLinkRate hcall
      have hcallOf : ∀ p c, (p, c) ∈ callOf t a ↔ c = a ∧ ∃ before t₁, devices = before ++ [p] ∧
          (linkRateVisitor hw fuel).callAll devices s = .ok t₁ ∧
          ((t₁.heap p).isSegment = false ∧ nextParentDevice (t₁.heap p) p = some p) ∧
          (t₁.heap c).isSegment = false ∧ belowMaxLinkSpeed (t₁.heap c) = true := by
        intro p c
        rcases List.eq_nil_or_concat' devices with rfl | ⟨before, q, rfl⟩
        · -- The first device is a root bridge.
          have hsegment : (t.heap a).isSegment = true := by
            rw [hran.heap.isSegment]
            exact hhead a (by simp)
          simp [mem_callOf, hsegment]
        · have hparent := hran.parentDevice q (by simp)
          rw [mem_callOf]
          refine and_congr_right fun hca => ?_
          subst hca
          constructor
          · rintro ⟨hp, hc⟩
            rw [hp] at hparent
            split at hparent
            · cases hparent
            · rename_i hq
              obtain rfl := nextParentDevice_eq_some hparent.symm
              exact ⟨before, t, rfl, hdevices, ⟨by simpa using hq, hparent.symm⟩, hc⟩
          · rintro ⟨before', t₁, hlist, ht₁, ⟨hp, hnext⟩, hc⟩
            obtain ⟨-, hpq⟩ := List.append_inj' hlist rfl
            obtain rfl : q = p := by simpa using hpq
            obtain rfl : t = t₁ := Except.ok.inj (hdevices.symm.trans ht₁)
            exact ⟨by rw [hparent, if_neg (by simp [hp]), hnext], hc⟩
      obtain ⟨l, hl, hwrites⟩ := hran.writes
      obtain ⟨l', hl', hwrites'⟩ := hback.writes
      refine ⟨hran.heap.trans hback.heap, ?_, ⟨l ++ l', ?_, ?_⟩, fun p c => ?_, ?_, ?_⟩
      · refine ReflTransGen.trans
          (ReflTransGen.mono (fun _ _ => ?_) _ _ hran.registers)
          (ReflTransGen.mono (fun _ _ => ?_) _ _ hback.registers)
        · rintro ⟨call, hmem, hwrite⟩
          exact ⟨call, by simp [hback.calls, hmem], hwrite⟩
        · rintro ⟨call, hmem, hwrite⟩
          exact ⟨call, hmem, hwrite.congr hran.heap⟩
      · rw [hback.calls, List.flatMap_append]
        exact hl.append hl'
      · rw [hwrites', hwrites, List.append_assoc]
      · rw [hback.calls, List.mem_append, hran.calls, hcallOf, callsBetween_concat]
      · rw [hback.calls, List.map_append]
        refine hran.once.append ?_
        unfold callOf
        split
        · simp
        · split <;> simp
      · intro b hb
        obtain rfl : a = b := by simpa using hb
        rw [hback.parentDevice, hback.heap.isSegment]

/-! ## The loops end -/

/-- A read of the status register sooner or later fails or finds the training
finished. -/
def FinishesTraining (hw : LinkHardware) : Prop :=
  ∀ time, ∃ later ≥ time, (hw.read later).1.isError = true ∨
    linkTraining (hw.read later).2 = false

theorem readLink_linkStatus (hok : (readLink hw a .linkStatus s).1.isError = false) :
    (hw.read s.time).1.isError = false ∧
      linkCopy ((readLink hw a .linkStatus s).2.heap a) .linkStatus = (hw.read s.time).2 ∧
      (readLink hw a .linkStatus s).2.time = s.time + 1 := by
  unfold readLink at hok ⊢
  cases hpath : (s.heap a).configPath with
  | none =>
      rw [hpath] at hok
      cases hok
  | some path =>
      rw [hpath] at hok
      dsimp only at hok ⊢
      rw [Heap.modify_self, linkCopy_setLinkCopy, if_pos (.inr rfl)]
      exact ⟨hok, rfl, rfl⟩

theorem pollLinkTraining_returns (hfinish : FinishesTraining hw) (a : Addr) (s : LinkState) :
    ∃ s' fuel₁, ∀ fuel ≥ fuel₁, pollLinkTraining hw a fuel s = .ok s' := by
  obtain ⟨later, hlater, hdone⟩ := hfinish s.time
  obtain ⟨k, rfl⟩ := Nat.exists_eq_add_of_le hlater
  clear hlater
  -- `k` reads are left until the one that ends the loop.
  induction k generalizing s with
  | zero =>
      refine ⟨(readLink hw a .linkStatus s).2, 0, fun fuel _ => ?_⟩
      unfold pollLinkTraining
      dsimp only
      split
      · rfl
      · rename_i hok
        obtain ⟨hread, hcopy, -⟩ := readLink_linkStatus (by simpa using hok)
        rw [if_neg]
        rw [hcopy]
        rcases hdone with herror | hdone
        · rw [Nat.add_zero, hread] at herror
          cases herror
        · simpa using hdone
  | succ k ih =>
      cases hok : (readLink hw a .linkStatus s).1.isError with
      | true =>
          refine ⟨(readLink hw a .linkStatus s).2, 0, fun fuel _ => ?_⟩
          unfold pollLinkTraining
          dsimp only
          rw [if_pos hok]
      | false =>
          obtain ⟨-, -, htime⟩ := readLink_linkStatus hok
          obtain ⟨s', fuel₁, hrun⟩ := ih (readLink hw a .linkStatus s).2
            (by rwa [htime, Nat.add_right_comm, Nat.add_assoc])
          cases htraining : linkTraining
              (linkCopy ((readLink hw a .linkStatus s).2.heap a) .linkStatus) with
          | true =>
              refine ⟨s', fuel₁ + 1, fun fuel hfuel => ?_⟩
              obtain ⟨fuel, rfl⟩ : ∃ n, fuel = n + 1 := ⟨fuel - 1, by omega⟩
              unfold pollLinkTraining
              dsimp only
              rw [hok, if_neg Bool.false_ne_true, if_pos htraining]
              exact hrun fuel (by omega)
          | false =>
              refine ⟨(readLink hw a .linkStatus s).2, 0, fun fuel _ => ?_⟩
              unfold pollLinkTraining
              dsimp only
              rw [hok, if_neg Bool.false_ne_true, htraining, if_neg Bool.false_ne_true]

theorem setMaxLinkSpeed_returns (hfinish : FinishesTraining hw) (p c : Addr) (s : LinkState) :
    ∃ s' fuel₁, ∀ fuel ≥ fuel₁, setMaxLinkSpeed hw fuel p c s = .ok s' := by
  unfold setMaxLinkSpeed
  dsimp only
  generalize modifyLink hw p .linkControl2
    (setTargetLinkSpeed (targetLinkSpeedValue (s.heap p) (s.heap c))) s = modified
  split
  · exact ⟨_, 0, fun _ _ => rfl⟩
  · obtain ⟨s₁, fuel₁, hpoll₁⟩ := pollLinkTraining_returns hfinish p modified.2
    obtain ⟨s₂, fuel₂, hpoll₂⟩ :=
      pollLinkTraining_returns hfinish p (modifyLink hw p .linkControl setRetrainLink s₁).2
    by_cases hbreak : (modifyLink hw p .linkControl setRetrainLink s₁).1.isError = true
    · refine ⟨(modifyLink hw p .linkControl setRetrainLink s₁).2, fuel₁, fun fuel hfuel => ?_⟩
      rw [hpoll₁ fuel hfuel, Run.ok_bind, if_pos hbreak]
    · refine ⟨(readLink hw c .linkStatus s₂).2, max fuel₁ fuel₂, fun fuel hfuel => ?_⟩
      rw [hpoll₁ fuel (by omega), Run.ok_bind, if_neg hbreak, hpoll₂ fuel (by omega), Run.ok_bind]

theorem fixPCIeLinkRate_returns (hfinish : FinishesTraining hw) (a : Addr) (s : LinkState) :
    ∃ s' fuel₁, ∀ fuel ≥ fuel₁, fixPCIeLinkRate hw fuel a s = .ok s' := by
  unfold fixPCIeLinkRate retrainBelow
  split
  · exact ⟨_, 0, fun _ _ => rfl⟩
  · split
    · exact ⟨_, 0, fun _ _ => rfl⟩
    · rename_i p _
      split
      · obtain ⟨s₁, fuel₁, hrun⟩ :=
          setMaxLinkSpeed_returns hfinish p a { s with calls := s.calls ++ [(p, a)] }
        exact ⟨_, fuel₁, fun fuel hfuel => by rw [hrun fuel hfuel, Run.ok_bind]⟩
      · exact ⟨_, 0, fun _ _ => rfl⟩

theorem callAll_returns (hfinish : FinishesTraining hw) (devices : List Addr) (s : LinkState) :
    ∃ s' fuel₁, ∀ fuel ≥ fuel₁, (linkRateVisitor hw fuel).callAll devices s = .ok s' := by
  induction devices generalizing s with
  | nil => exact ⟨s, 0, fun _ _ => rfl⟩
  | cons a devices ih =>
      obtain ⟨s₁, fuel₁, hcall⟩ := fixPCIeLinkRate_returns hfinish a s
      obtain ⟨s', fuel₂, hcalls⟩ := ih s₁
      refine ⟨s', max fuel₁ fuel₂, fun fuel hfuel => ?_⟩
      exact Visitor.callAll_cons_eq_ok.mpr ⟨s₁, hcall fuel (by omega), hcalls fuel (by omega)⟩

/-! ## A full run -/

/-- The state at the start of the callback on `a`. -/
def StateBefore (v : Visitor LinkState) (devices : List Addr) (s : LinkState) (a : Addr)
    (t : LinkState) : Prop :=
  ∃ before after, devices = before ++ a :: after ∧ v.callAll before s = .ok t

/-- The state at the end of the callback on `a`. -/
def StateAfter (v : Visitor LinkState) (devices : List Addr) (s : LinkState) (a : Addr)
    (t : LinkState) : Prop :=
  ∃ before after, devices = before ++ a :: after ∧ v.callAll (before ++ [a]) s = .ok t

/-- A PCI Express function, which a root bridge is not, whose link is slower than
it could be. -/
def IsSlow (d : PciIoDevice) : Prop :=
  d.isSegment = false ∧ d.isPciExp = true ∧ currentLinkSpeed d < maxLinkSpeed d

instance : DecidablePred IsSlow := fun _ => inferInstanceAs (Decidable (_ ∧ _ ∧ _))

/-- A slow root port or downstream port. -/
def IsSlowPort (d : PciIoDevice) : Prop :=
  IsSlow d ∧ (devicePortType d = pcieDevicePortTypeRootPort ∨
    devicePortType d = pcieDevicePortTypeDownstreamPort)

instance : DecidablePred IsSlowPort := fun _ => inferInstanceAs (Decidable (_ ∧ _))

theorem isSlow_iff {d : PciIoDevice} :
    IsSlow d ↔ d.isSegment = false ∧ belowMaxLinkSpeed d = true := by
  simp [IsSlow, belowMaxLinkSpeed]

theorem isSlowPort_iff {d : PciIoDevice} {b : Addr} (hfirst : d.firstChild = some b) (a : Addr) :
    IsSlowPort d ↔ d.isSegment = false ∧ nextParentDevice d a = some a := by
  simp only [IsSlowPort, isSlow_iff, nextParentDevice, hfirst, isDownstreamFacing, Option.isSome_some,
    Bool.true_and, Bool.and_eq_true, Bool.or_eq_true, decide_eq_true_eq, Option.ite_none_right_eq_some,
    and_true, and_assoc]

/-- The pairs of `CallsBetween`, by the state before and after each callback. -/
theorem callsBetween_iff {fuel : Nat} {forest : Forest Addr} (htree : DeviceTree s.heap forest) :
    CallsBetween (linkRateVisitor hw fuel) forest.preorder s p c ↔
      (s.heap p).firstChild = some c ∧
        (∃ t, StateAfter (linkRateVisitor hw fuel) forest.preorder s p t ∧
          IsSlowPort (t.heap p)) ∧
        ∃ t, StateBefore (linkRateVisitor hw fuel) forest.preorder s c t ∧ IsSlow (t.heap c) := by
  have hfirst : ∀ {devices t}, (linkRateVisitor hw fuel).callAll devices s = .ok t → ∀ a,
      (t.heap a).firstChild = (s.heap a).firstChild := fun hcalls =>
    (Visitor.callAll_sameTree hcalls).firstChild
  constructor
  · rintro ⟨before, after, t, hdevices, hcalls, hp, hc⟩
    obtain ⟨b, hb⟩ : ∃ b, (s.heap p).firstChild = some b := by
      rw [← hfirst hcalls p, ← Option.isSome_iff_exists]
      have hnext := hp.2
      unfold nextParentDevice at hnext
      split at hnext
      · rename_i hcond
        simp only [Bool.and_eq_true] at hcond
        exact hcond.1.1
      · cases hnext
    obtain rfl : c = b := by
      have hhead := htree.represents.head?_of_firstChild hdevices hb
      simpa using hhead
    refine ⟨hb, ⟨t, ⟨before, c :: after, hdevices, hcalls⟩, ?_⟩, t, ⟨before ++ [p], after, ?_, hcalls⟩,
      isSlow_iff.mpr hc⟩
    · exact (isSlowPort_iff ((hfirst hcalls p).trans hb) p).mpr hp
    · simpa using hdevices
  · rintro ⟨hb, ⟨t, ⟨before, after, hdevices, hcalls⟩, hp⟩, t', ⟨before', after', hdevices', hcalls'⟩,
      hc⟩
    have hhead := htree.represents.head?_of_firstChild hdevices hb
    cases after with
    | nil => cases hhead
    | cons d after =>
        obtain rfl : d = c := Option.some.inj hhead
        -- `c` occurs once, so its callback starts where the one on `p` ends.
        have hnodup := htree.nodup
        have hsplit : before' ++ d :: after' = (before ++ [p]) ++ d :: after := by
          rw [← hdevices', hdevices]
          simp
        rw [hdevices'] at hnodup
        have hnotAfter : d ∉ after' := (List.nodup_cons.mp hnodup.of_append_right).1
        have hnotBefore : d ∉ before' := fun hmem =>
          (List.nodup_append.mp hnodup).2.2 d hmem d (by simp) rfl
        obtain ⟨rfl, -, -⟩ := (List.append_cons_inj_of_notMem hnotBefore hnotAfter).mp hsplit
        obtain rfl : t = t' := Except.ok.inj (hcalls.symm.trans hcalls')
        exact ⟨before, after, t, hdevices, hcalls,
          (isSlowPort_iff ((hfirst hcalls p).trans hb) p).mp hp, isSlow_iff.mp hc⟩

/-- The bits that any number of writes of calls may change. -/
theorem callBit_of_callWrites {heap : Heap} {calls : List (Addr × Addr)}
    {registers registers' : Registers} (h : ReflTransGen (CallWrite heap calls) registers registers')
    {location : ConfigPath × Nat} {i : Nat}
    (hchanged : (registers' location).toBitVec.getLsbD i ≠ (registers location).toBitVec.getLsbD i) :
    ∃ call ∈ calls, CallBit heap call.1 location i := by
  induction h with
  | refl => exact absurd rfl hchanged
  | @tail before after _ hwrite ih =>
      by_cases hbefore : (before location).toBitVec.getLsbD i =
          (registers location).toBitVec.getLsbD i
      · obtain ⟨call, hcall, hwrite⟩ := hwrite
        rw [← hbefore] at hchanged
        exact ⟨call, hcall, hwrite.callBit hchanged⟩
      · exact ih hbefore

/-- A full run retrains exactly the links between a slow port and its slow first
child, each port at most once.  Each call writes the target speed and the retrain bit of its
port, in this order and once at most, and no other bit of a register changes. -/
theorem fixPCIeLinkRate_retrains (hfinish : FinishesTraining hw) (doPrint : Bool)
    {forest : Forest Addr} (htree : DeviceTree s.heap forest)
    (hbridges : doPrint = true → BridgesInTree s.heap forest)
    (hpopulated : Populated s.heap forest) (hcalls : s.calls = []) :
    ∃ fuel₁, ∀ fuel ≥ fuel₁, ∃ it,
      pciTreeIterate (linkRateVisitor hw fuel) doPrint fuel s = .ok it ∧
      (∀ p c, (p, c) ∈ it.state.calls ↔ (s.heap p).firstChild = some c ∧
        (∃ t, StateAfter (linkRateVisitor hw fuel) forest.preorder s p t ∧
          IsSlowPort (t.heap p)) ∧
        ∃ t, StateBefore (linkRateVisitor hw fuel) forest.preorder s c t ∧ IsSlow (t.heap c)) ∧
      (it.state.calls.map Prod.fst).Nodup ∧
      ReflTransGen (CallWrite s.heap it.state.calls) s.registers it.state.registers ∧
      (∃ l, l.Sublist (it.state.calls.flatMap callWrites) ∧ it.state.writes = s.writes ++ l) ∧
      ∀ location i, (it.state.registers location).toBitVec.getLsbD i ≠
          (s.registers location).toBitVec.getLsbD i →
        ∃ call ∈ it.state.calls, CallBit s.heap call.1 location i := by
  obtain ⟨s', fuel₁, hrun⟩ := callAll_returns hfinish forest.preorder s
  obtain ⟨fuel₂, hiterate⟩ := pciTreeIterate_populated htree hbridges hpopulated
  refine ⟨max fuel₁ fuel₂, fun fuel hfuel => ?_⟩
  have hall := hrun fuel (by omega)
  obtain ⟨it, hit, rfl⟩ := hiterate (linkRateVisitor hw fuel) s s' rfl hall fuel (by omega)
  have hhead : ∀ a ∈ forest.preorder.head?, (s.heap a).isSegment = true := by
    intro a ha
    cases forest with
    | nil => cases ha
    | node r children siblings =>
        obtain rfl : r = a := by simpa using ha
        exact htree.segment r (by simp)
  have hran := ran_callAll hcalls hhead hall
  have hpairs : ∀ p c, (p, c) ∈ it.state.calls ↔ _ := fun p c =>
    (hran.calls p c).trans (callsBetween_iff htree)
  refine ⟨it, hit, hpairs, ?_, hran.registers, hran.writes, fun _ _ hchanged =>
    callBit_of_callWrites hran.registers hchanged⟩
  -- A port is determined by its first child, and no child occurs twice.
  refine List.Nodup.of_map (fun p => (s.heap p).firstChild) ?_
  have hmap : (it.state.calls.map Prod.fst).map (fun p => (s.heap p).firstChild) =
      (it.state.calls.map Prod.snd).map some := by
    rw [List.map_map, List.map_map]
    exact List.map_congr_left fun call hcall => ((hpairs call.1 call.2).mp hcall).1
  rw [hmap]
  exact (hran.once.nodup htree.nodup).map (Option.some_injective _)

/-- Hardware that answers every read with zero and takes every write. -/
def quietLinks : LinkHardware := ⟨fun _ => (.success, 0), fun _ => (.success, true)⟩

/-- A root bridge with a root port, and a device behind the port; the link runs
at speed 1, the port could do 3 and the device 2. -/
def slowLink : Heap
  | 0 => { firstChild := some 1, lastChild := some 1 }
  | 1 =>
      { parent := some hostBridge, isSegment := true, firstChild := some 2, lastChild := some 2 }
  | 2 =>
      { parent := some 1, firstChild := some 3, lastChild := some 3, isPciExp := true
        pciIo := some 7
        pciExpressCap := { capability := 0x42, linkCapability := 3, linkStatus := 1 } }
  | 3 =>
      { parent := some 2, isPciExp := true, pciIo := some 8
        pciExpressCap := { linkCapability := 2, linkStatus := 1 } }
  | _ => {}

/-- The state before the run. -/
def slowStart : LinkState := ⟨slowLink, fun _ => 0, 0, none, [], []⟩

theorem fixPCIeLinkRate_retrains_slowLink :
    ∃ fuel₁, ∀ fuel ≥ fuel₁, ∃ it,
      pciTreeIterate (linkRateVisitor quietLinks fuel) false fuel slowStart = .ok it ∧
        (2, 3) ∈ it.state.calls := by
  have hfinish : FinishesTraining quietLinks := fun time =>
    ⟨time, le_rfl, .inr (show linkTraining 0 = false by decide)⟩
  have htree : DeviceTree slowStart.heap (.node 1 (.node 2 (.node 3 .nil .nil) .nil) .nil) :=
    ⟨⟨rfl, rfl, rfl, ⟨rfl, rfl, rfl, ⟨rfl, rfl, rfl, rfl, rfl⟩, rfl⟩, rfl⟩, rfl, rfl,
      by simp [slowStart, slowLink]⟩
  obtain ⟨fuel₁, hrun⟩ := fixPCIeLinkRate_retrains hfinish false htree (by simp)
    (by simp [Populated, Tame, slowStart, slowLink]) rfl
  refine ⟨fuel₁, fun fuel hfuel => ?_⟩
  obtain ⟨it, hit, hcalls, -⟩ := hrun fuel hfuel
  refine ⟨it, hit, (hcalls 2 3).mpr ⟨rfl, ?_, ?_⟩⟩
  · exact ⟨_, ⟨[1], [3], rfl, rfl⟩, by decide +kernel⟩
  · exact ⟨_, ⟨[1, 2], [], rfl, rfl⟩, by decide +kernel⟩

end LinkRate
end EfiApps
