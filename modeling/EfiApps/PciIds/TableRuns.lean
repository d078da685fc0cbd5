import EfiApps.PciIds.TableBounds

/-!
# Runs of the two functions

A call that finds the roots empty does what is expected of it, if the passes keep to the file
and to the records that were counted; a call that finds children under a root does not.
-/

namespace EfiApps
namespace PciIds

open PciMisc

/-! ## The condition -/

section condition

variable (contents : Nat → UInt16) (size : Nat)

/-- The first pass keeps to the file. -/
structure FirstInside : Prop where
  nonempty : 0 < size
  lines : ∀ m ∈ fileMarks contents size, ∀ k, m.kind = some k → m.first + k.extent ≤ size

/-- Both passes keep to the file, no kind gets more records than the first pass has counted, and
every name ends in the file. -/
structure FillsInside : Prop where
  inside : StaysInside contents size
  lengths : PassesItems contents size
  counts : ∀ k n, textItems contents size k n ≤ skippedItems contents size k n
  names : ∀ l, ReadsAt contents size l →
    ∀ k, ItemKind.ofTypeCode (markedText contents size l) = some k →
      ∃ i, l + k.nameOffset ≤ i ∧ i < size ∧ markedText contents size i = 0

end condition

/-- The passes of a call keep to the file and to the records. -/
def Call.Inside : Call → Prop
  | .read (.success contents size) true => FillsInside contents size
  | .read (.success contents size) false => FirstInside contents size
  | _ => True

/-! ## A table that was built -/

/-- What a successful call of `ReadPciIds` has built. -/
structure Built (contents : Nat → UInt16) (size : Nat) (s s' : Globals) (t : Table) : Prop where
  vendors : s'.vendors = t.vendors
  classes : s'.classes = t.classes
  items : s'.items (s.brk + 1) = t.items
  text : s'.text s.brk = markedText contents size
  records : s'.size (s.brk + 1) =
    recordCount (firstPass contents (textStart contents) size).count
  units : s'.size s.brk = size
  file : s'.pciidsFile = some (s.brk + 1)
  buffer : s'.pciidsBuffer = some s.brk
  live : s'.live (s.brk + 1) = true ∧ s'.live s.brk = true

section calls

variable {contents : Nat → UInt16} {size fuel : Nat} {s s' : Globals} {status : EfiStatus}

theorem built_of_readPciIds
    (hrun : readPciIds fuel (.success contents size) true s = .ok (status, s')) :
    Built contents size s s' ((visited contents size fuel).foldl
      (fun t l => doLine (s.brk + 1) s.brk (markedText contents size) l t)
      (startTable contents size s)) := by
  unfold readPciIds parsePciIds at hrun
  dsimp only at hrun
  rw [if_neg Bool.true_eq_false.mp, Run.bind_eq_ok] at hrun
  obtain ⟨t, hpass, hrun⟩ := hrun
  simp only [Except.ok.injEq, Prod.mk.injEq] at hrun
  obtain ⟨-, rfl⟩ := hrun
  have hpass : secondPass (s.brk + 1) s.brk (markedText contents size) size fuel
      (textStart contents) (startTable contents size s) = .ok t := by
    rw [← hpass]
    dsimp only [Globals.allocateItems, Globals.allocateText]
    rw [Function.update_self]
    rfl
  rw [secondPass_eq] at hpass
  split at hpass
  · cases hpass
  · obtain rfl := Except.ok.inj hpass
    have hne : s.brk ≠ s.brk + 1 := Nat.ne_of_lt (Nat.lt_succ_self _)
    constructor
    · rfl
    · rfl
    · exact Function.update_self ..
    · exact Function.update_self ..
    · exact Function.update_self ..
    · exact (Function.update_of_ne hne _ _).trans (Function.update_self ..)
    · rfl
    · rfl
    · exact ⟨Function.update_self .., (Function.update_of_ne hne _ _).trans (Function.update_self ..)⟩

/-- Other calls leave the roots alone. -/
theorem roots_of_steps {c : Call} (hstep : c.Steps s s')
    (hother : ∀ contents size, c ≠ .read (.success contents size) true) :
    s'.vendors = s.vendors ∧ s'.classes = s.classes := by
  cases c with
  | free =>
      rw [show s' = freePciIds s from hstep]
      exact freePciIds_roots s
  | read outcome allocates =>
      obtain ⟨fuel, status, hrun⟩ := hstep
      apply readPciIds_failed hrun
      unfold readPciIds at hrun
      dsimp only at hrun
      split at hrun
      · simp only [Except.ok.injEq, Prod.mk.injEq] at hrun
        rw [← hrun.1]
        rfl
      · simp only [Except.ok.injEq, Prod.mk.injEq] at hrun
        rw [← hrun.1]
        rfl
      · rename_i contents size
        cases allocates with
        | true => exact absurd rfl (hother contents size)
        | false =>
            unfold parsePciIds at hrun
            simp only [if_pos, Except.ok.injEq, Prod.mk.injEq] at hrun
            rw [← hrun.1]
            rfl

/-- As many records of each kind are written as were counted, at most. -/
theorem FillsInside.count_le (h : FillsInside contents size) (k : ItemKind) (n : Nat) :
    ((visited contents size n).countP fun l =>
      ItemKind.ofTypeCode (markedText contents size l) = some k) ≤
      (firstPass contents (textStart contents) size).count k := by
  have hadd := countP_visited_add (k := k) (n := n) h.lengths
  have hcounts := h.counts k n
  have hwritten : (recordsWritten contents size .init k n).length = _ :=
    length_recordsWritten .init
  rw [recordsWritten, length_recordsOf] at hwritten
  omega

/-- What is built from empty roots is inside its blocks. -/
theorem Built.rootsSound {t : Table} (h : Built contents size s s' t) (hempty : EmptyRoots s)
    (hinside : FillsInside contents size) (fuel : Nat)
    (ht : t = (visited contents size fuel).foldl
      (fun t l => doLine (s.brk + 1) s.brk (markedText contents size) l t)
      (startTable contents size s)) : RootsSound s' := by
  have hstart : Tally (s.brk + 1) (s'.StringIn s.brk)
      (firstPass contents (textStart contents) size).count (fun _ => 0)
      (startTable contents size s) := tally_start hempty.vendors hempty.classes
  have hnames : ∀ l ∈ visited contents size fuel, ∀ k,
      ItemKind.ofTypeCode (markedText contents size l) = some k →
        s'.StringIn s.brk ⟨s.brk, l + k.nameOffset⟩ := by
    intro l hl k hk
    obtain ⟨i, -, hi⟩ := mem_positions.mp hl
    obtain ⟨j, hj⟩ := hinside.names l ⟨i, hi⟩ k hk
    refine ⟨rfl, j, ?_⟩
    rw [h.units, h.text]
    exact hj
  obtain ⟨written, htally⟩ := hstart.doLines
    (fun k => by
      rw [Nat.zero_add]
      exact hinside.count_le k fuel) hnames
  rw [← ht] at htally
  constructor
  · rw [h.vendors]
    exact .inr ⟨_, _, h.file, h.buffer, h.live.1, h.live.2,
      htally.refersOnly h.items h.records htally.vendors⟩
  · rw [h.classes]
    exact .inr ⟨_, _, h.file, h.buffer, h.live.1, h.live.2,
      htally.refersOnly h.items h.records htally.classes⟩

/-- From empty roots, a call leads to sound ones. -/
theorem rootsSound_of_emptyRoots {c : Call} (hempty : EmptyRoots s) (hinside : c.Inside)
    (hstep : c.Steps s s') : RootsSound s' := by
  by_cases hread : ∃ contents size, c = .read (.success contents size) true
  · obtain ⟨contents, size, rfl⟩ := hread
    obtain ⟨fuel, status, hrun⟩ := hstep
    exact (built_of_readPciIds hrun).rootsSound hempty hinside fuel rfl
  · obtain ⟨hvendors, hclasses⟩ := roots_of_steps hstep
      fun contents size heq => hread ⟨contents, size, heq⟩
    constructor
    · rw [hvendors]
      exact .inl hempty.vendors
    · rw [hclasses]
      exact .inl hempty.classes

/-- A call that finds the roots empty does what is expected of it. -/
theorem keeps_of_emptyRoots {c : Call} (hempty : EmptyRoots s) (hinside : c.Inside)
    (hstep : c.Steps s s') : Transition.Keeps ⟨s, c, s'⟩ where
  sound := rootsSound_of_emptyRoots hempty hinside hstep
  entries := by
    rintro contents text hcall htext
    obtain rfl : c = .read (.success contents text.units.length) true := hcall
    obtain ⟨fuel, status, hrun⟩ := hstep
    obtain ⟨fuel₁, hread⟩ := readPciIds_of_emptyRoots hempty text htext
    obtain ⟨s₁, hrun₁, hdescribes⟩ := hread (fuel + fuel₁) (Nat.le_add_left ..)
    have hsame := readPciIds_mono hrun fuel₁
    obtain ⟨-, rfl⟩ := Prod.mk.inj (Except.ok.inj (hsame.symm.trans hrun₁))
    exact hdescribes

end calls

/-! ## Runs -/

/-- In every run, the calls do what is expected of them if each of them finds both roots empty
and keeps to the file and the records; and only if each of them finds both roots empty. -/
theorem keeps_of_emptyRoots_inside {transitions : List Transition} {s : Globals}
    (h : History transitions s) :
    ((∀ t ∈ transitions, EmptyRoots t.before ∧ t.call.Inside) → ∀ t ∈ transitions, t.Keeps) ∧
      ((∀ t ∈ transitions, t.Keeps) → ∀ t ∈ transitions, EmptyRoots t.before) := by
  induction h with
  | init => simp
  | @call transitions s s' c h hstep ih =>
      simp only [List.forall_mem_append, List.forall_mem_singleton]
      constructor
      · rintro ⟨hbefore, hempty, hinside⟩
        exact ⟨ih.1 hbefore, keeps_of_emptyRoots hempty hinside hstep⟩
      · rintro ⟨hbefore, hkeeps⟩
        exact ⟨ih.2 hbefore, h.rootsAnchored.emptyRoots (effect_of_steps hstep) hkeeps.sound⟩

end PciIds
end EfiApps
