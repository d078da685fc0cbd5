import Mathlib.Logic.Relation
import EfiApps.Lib.CycleRing

/-!
# A producer and a consumer on a linked ring

The ring has `cap` entries and, after them, a link that leads back to the first one and
tells the consumer to expect the other cycle state from there on.  The link has a cycle
bit too: the producer turns it when it goes on to the next lap itself.

The producer's program is the list of what it does in its own order.  The consumer only
reads.  A run interleaves the two in any way, one store or one look at a time.
-/

namespace EfiApps
namespace LinkedRing

variable {α : Type*}

/-! ## The parties -/

/-- How the consumer reads a cell: the cycle bit, and for a link the cell that it leads to
and whether it toggles the expected state. -/
structure EntryFormat (α : Type*) where
  bit : α → Bool
  link : α → Option (Nat × Bool)

/-- Where the consumer is and which cycle state it expects there. -/
structure Consumer where
  slot : Nat
  state : Bool
  deriving DecidableEq, Repr

/-- What the consumer sees at its cell. -/
inductive Sight (α : Type*)
  | nothing
  | entry (a : α)
  | link (target : Nat) (toggle : Bool)

/-- The consumer looks at its cell. -/
def Consumer.look (f : EntryFormat α) (cell : Nat → α) (r : Consumer) : Sight α :=
  if f.bit (cell r.slot) ≠ r.state then .nothing
  else
    match f.link (cell r.slot) with
    | some (target, toggle) => .link target toggle
    | none => .entry (cell r.slot)

/-- What the producer does: it stores to a cell, waits until the consumer has taken all
entries, or moves the consumer. -/
inductive Op (α : Type*)
  | store (slot : Nat) (a : α)
  | await
  | moveConsumer (slot : Nat) (state : Bool)

/-- A state of the two.  `handed` are the entries that were handed over, `base` is how many
of them there were when the consumer was last moved, and `taken` is what it has taken since
then. -/
structure RingSystem (α : Type*) where
  todo : List (Op α)
  cell : Nat → α
  handed : List α
  base : Nat
  taken : List α
  consumer : Consumer

/-- The index of the entry that the consumer takes next. -/
def RingSystem.position (s : RingSystem α) : Nat := s.base + s.taken.length

/-- The consumer is less than a lap behind. -/
def RingSystem.Roomy (cap : Nat) (s : RingSystem α) : Prop := s.handed.length < s.position + cap

/-- A store hands an entry over if it turns the cycle bit of a cell that is not the link. -/
def handedBy (f : EntryFormat α) (cap : Nat) (cell : Nat → α) (slot : Nat) (a : α)
    (handed : List α) : List α :=
  if slot < cap ∧ f.bit a ≠ f.bit (cell slot) then handed ++ [a] else handed

/-- The system after a store. -/
def RingSystem.stored (f : EntryFormat α) (cap : Nat) (s : RingSystem α) (slot : Nat) (a : α)
    (rest : List (Op α)) : RingSystem α :=
  { s with
    todo := rest
    cell := Function.update s.cell slot a
    handed := handedBy f cap s.cell slot a s.handed }

/-- One step of either party.  The producer changes a cell only where `room` allows it. -/
inductive Step (f : EntryFormat α) (cap : Nat) (room : RingSystem α → Prop) :
    RingSystem α → RingSystem α → Prop
  | store {s : RingSystem α} {slot : Nat} {a : α} {rest : List (Op α)}
      (htodo : s.todo = .store slot a :: rest) (hroom : s.cell slot ≠ a → room s) :
      Step f cap room s (s.stored f cap slot a rest)
  | await {s : RingSystem α} {rest : List (Op α)} (htodo : s.todo = .await :: rest)
      (htaken : s.position = s.handed.length) : Step f cap room s { s with todo := rest }
  | moveConsumer {s : RingSystem α} {slot : Nat} {state : Bool} {rest : List (Op α)}
      (htodo : s.todo = .moveConsumer slot state :: rest) :
      Step f cap room s
        { s with
          todo := rest
          base := s.handed.length
          taken := []
          consumer := ⟨slot, state⟩ }
  | take {s : RingSystem α} {a : α} (hlook : s.consumer.look f s.cell = .entry a) :
      Step f cap room s
        { s with
          taken := s.taken ++ [a]
          consumer := ⟨s.consumer.slot + 1, s.consumer.state⟩ }
  | follow {s : RingSystem α} {target : Nat} {toggle : Bool}
      (hlook : s.consumer.look f s.cell = .link target toggle) :
      Step f cap room s { s with consumer := ⟨target, s.consumer.state ^^ toggle⟩ }

/-! ## The producer's discipline -/

/-- What the producer has done so far: the cells, the entries handed over, how many links
it has turned, and how many entries it knew to be taken. -/
structure Produced (α : Type*) where
  cell : Nat → α
  handed : List α
  closed : Nat
  known : Nat

/-- What the producer may do.  It works on the cell of the next entry, whatever it does
there before the cycle bit turns, and turns the link after the last entry of a lap. -/
inductive Allowed (f : EntryFormat α) (cap : Nat) : Produced α → Op α → Produced α → Prop
  | same {p : Produced α} {slot : Nat} : Allowed f cap p (.store slot (p.cell slot)) p
  | prepare {p : Produced α} {a : α} (hclosed : p.closed = p.handed.length / cap)
      (hbit : f.bit a = f.bit (p.cell (p.handed.length % cap))) :
      Allowed f cap p (.store (p.handed.length % cap) a)
        { p with cell := Function.update p.cell (p.handed.length % cap) a }
  | handOver {p : Produced α} {a : α} (hclosed : p.closed = p.handed.length / cap)
      (hbit : f.bit a ≠ f.bit (p.cell (p.handed.length % cap))) (hplain : f.link a = none) :
      Allowed f cap p (.store (p.handed.length % cap) a)
        { p with
          cell := Function.update p.cell (p.handed.length % cap) a
          handed := p.handed ++ [a] }
  | closeLap {p : Produced α} {a : α} (hfull : p.handed.length = (p.closed + 1) * cap)
      (hbit : f.bit a ≠ f.bit (p.cell cap)) (hlink : f.link a = some (0, true)) :
      Allowed f cap p (.store cap a)
        { p with cell := Function.update p.cell cap a, closed := p.closed + 1 }
  | await {p : Produced α} : Allowed f cap p .await { p with known := p.handed.length }
  | moveConsumer {p : Produced α} (hclosed : p.closed = p.handed.length / cap) :
      Allowed f cap p
        (.moveConsumer (p.handed.length % cap) (lapBit cap p.handed.length))
        { p with known := p.handed.length }

/-- A whole program keeps to the discipline; `burst` may bound what it does without
waiting. -/
inductive Obeys (f : EntryFormat α) (cap : Nat) (burst : Produced α → Prop) :
    Produced α → List (Op α) → Produced α → Prop
  | nil (p : Produced α) : Obeys f cap burst p [] p
  | cons {p p' p'' : Produced α} {op : Op α} {rest : List (Op α)} (hop : Allowed f cap p op p')
      (hburst : ∀ slot a, op = .store slot a → p.cell slot ≠ a → burst p)
      (hrest : Obeys f cap burst p' rest p'') : Obeys f cap burst p (op :: rest) p''

/-- The producer hands over less than a lap of entries before it waits or moves the
consumer. -/
def ShortBurst (cap : Nat) (p : Produced α) : Prop := p.handed.length < p.known + cap

namespace Obeys

variable {f : EntryFormat α} {cap : Nat} {burst : Produced α → Prop} {p q r : Produced α}

theorem append {first second : List (Op α)} (hfirst : Obeys f cap burst p first q)
    (hsecond : Obeys f cap burst q second r) : Obeys f cap burst p (first ++ second) r := by
  induction hfirst with
  | nil => exact hsecond
  | cons hop hburst _ ih => exact .cons hop hburst (ih hsecond)

/-- What has been handed over stays so. -/
theorem handed_prefix {ops : List (Op α)} (h : Obeys f cap burst p ops q) :
    p.handed <+: q.handed := by
  induction h with
  | nil p => exact List.prefix_rfl
  | cons hop _ _ ih =>
      cases hop with
      | handOver => exact (List.prefix_append _ _).trans ih
      | _ => exact ih

theorem single {op : Op α} (hop : Allowed f cap p op q)
    (hburst : ∀ slot a, op = .store slot a → p.cell slot ≠ a → burst p) :
    Obeys f cap burst p [op] q :=
  .cons hop hburst (.nil _)

end Obeys

/-! ## The invariant -/

/-- Where the consumer may be when it takes entry `c` next: at the cell of the entry, or
still at the link before it. -/
def Place (cap closed c : Nat) (r : Consumer) : Prop :=
  r = ⟨c % cap, lapBit cap c⟩ ∨
    ∃ laps, c = (laps + 1) * cap ∧ r = ⟨cap, decide (laps % 2 = 0)⟩ ∧ closed ≤ laps + 1

/-- What holds of the producer's side and of the consumer in every state of a run: `closed`
links have been turned, `known` entries are known to be taken, and the producer's program
ends in `q`. -/
structure Coherent (f : EntryFormat α) (cap : Nat) (burst : Produced α → Prop)
    (q : Produced α) (s : RingSystem α) (closed known : Nat) : Prop where
  obeys : Obeys f cap burst ⟨s.cell, s.handed, closed, known⟩ s.todo q
  known_le : known ≤ s.position
  outstanding : Outstanding f.bit cap s.handed s.position s.cell
  opened : closed * cap ≤ s.handed.length
  notFull : s.handed.length ≤ (closed + 1) * cap
  gate : f.bit (s.cell cap) = decide (closed % 2 = 1)
  link : f.link (s.cell cap) = some (0, true)
  plain : ∀ a ∈ s.handed, f.link a = none
  place : Place cap closed s.position s.consumer
  base_le : s.base ≤ s.handed.length
  inOrder : s.taken <+: s.handed.drop s.base

section Look

variable {f : EntryFormat α} {cap : Nat} {burst : Produced α → Prop} {q : Produced α}
  {s : RingSystem α} {closed known : Nat}

/-- In its lap the consumer sees the next entry as soon as it has been handed over. -/
theorem Coherent.look_inLap (h : Coherent f cap burst q s closed known) (hcap : 0 < cap)
    (hplace : s.consumer = ⟨s.position % cap, lapBit cap s.position⟩) :
    s.consumer.look f s.cell =
      if hlt : s.position < s.handed.length then .entry s.handed[s.position] else .nothing := by
  have hready := h.outstanding.ready_iff hcap
  rw [hplace, Consumer.look]
  by_cases hlt : s.position < s.handed.length
  · have hcell := h.outstanding.kept s.position hlt (Nat.le_refl _)
    have hplain := h.plain _ (List.getElem_mem hlt)
    rw [if_neg (not_not.mpr (hready.mpr hlt)), dif_pos hlt]
    simp only [hcell, hplain]
  · rw [if_pos (mt hready.mp hlt), dif_neg hlt]

/-- At the link it goes on as soon as the producer has. -/
theorem Coherent.look_atLink (h : Coherent f cap burst q s closed known) {laps : Nat}
    (hplace : s.consumer = ⟨cap, decide (laps % 2 = 0)⟩) (hpos : s.position = (laps + 1) * cap)
    (hcap : 0 < cap) (hclosed : closed ≤ laps + 1) :
    s.consumer.look f s.cell = if closed = laps + 1 then .link 0 true else .nothing := by
  have hlaps : laps ≤ closed := by
    have hle : (laps + 1) * cap ≤ (closed + 1) * cap := by
      have := h.outstanding.le
      have := h.notFull
      omega
    have := Nat.le_of_mul_le_mul_right hle hcap
    omega
  rw [hplace, Consumer.look]
  by_cases hgone : closed = laps + 1
  · have hbit : f.bit (s.cell cap) = decide (laps % 2 = 0) := by
      rw [h.gate, decide_eq_decide]
      omega
    rw [if_neg (not_not.mpr hbit), if_pos hgone]
    simp only [h.link]
  · have hbit : f.bit (s.cell cap) ≠ decide (laps % 2 = 0) := by
      rw [h.gate, Ne, decide_eq_decide]
      omega
    rw [if_pos hbit, if_neg hgone]

/-- The consumer takes nothing but the next entry. -/
theorem Coherent.entry_eq (h : Coherent f cap burst q s closed known) (hcap : 0 < cap) {a : α}
    (hlook : s.consumer.look f s.cell = .entry a) :
    s.consumer = ⟨s.position % cap, lapBit cap s.position⟩ ∧
      ∃ hlt : s.position < s.handed.length, s.handed[s.position] = a := by
  rcases h.place with hplace | ⟨laps, hpos, hplace, hclosed⟩
  · refine ⟨hplace, ?_⟩
    rw [h.look_inLap hcap hplace] at hlook
    split_ifs at hlook with hlt
    exact ⟨hlt, Sight.entry.inj hlook⟩
  · rw [h.look_atLink hplace hpos hcap hclosed] at hlook
    split_ifs at hlook

/-- It follows no link but the one at the end of a lap that the producer has left. -/
theorem Coherent.follow_eq (h : Coherent f cap burst q s closed known) (hcap : 0 < cap)
    {target : Nat} {toggle : Bool} (hlook : s.consumer.look f s.cell = .link target toggle) :
    target = 0 ∧ toggle = true ∧
      ∃ laps, s.position = (laps + 1) * cap ∧ s.consumer = ⟨cap, decide (laps % 2 = 0)⟩ := by
  rcases h.place with hplace | ⟨laps, hpos, hplace, hclosed⟩
  · rw [h.look_inLap hcap hplace] at hlook
    split_ifs at hlook
  · rw [h.look_atLink hplace hpos hcap hclosed] at hlook
    split_ifs at hlook
    injection hlook with htarget htoggle
    exact ⟨htarget.symm, htoggle.symm, laps, hpos, hplace⟩

/-- If it sees nothing, it has taken everything. -/
theorem Coherent.idle (h : Coherent f cap burst q s closed known) (hcap : 0 < cap)
    (hlook : s.consumer.look f s.cell = .nothing) : s.position = s.handed.length := by
  have hle := h.outstanding.le
  rcases h.place with hplace | ⟨laps, hpos, hplace, hclosed⟩
  · rw [h.look_inLap hcap hplace] at hlook
    split_ifs at hlook with hlt
    omega
  · rw [h.look_atLink hplace hpos hcap hclosed] at hlook
    split_ifs at hlook with hgone
    have hle' : (closed + 1) * cap ≤ (laps + 1) * cap := Nat.mul_le_mul_right cap (by omega)
    have := h.notFull
    omega

/-- Nothing is handed over but what the program hands over in the end. -/
theorem Coherent.handed_prefix (h : Coherent f cap burst q s closed known) :
    s.handed <+: q.handed :=
  h.obeys.handed_prefix

/-- What the consumer has taken since it was last moved. -/
theorem Coherent.taken_eq (h : Coherent f cap burst q s closed known) :
    s.taken = (s.handed.drop s.base).take s.taken.length :=
  List.prefix_iff_eq_take.mp h.inOrder

end Look

/-! ## Steps and runs -/

section Stores

variable {f : EntryFormat α} {cap : Nat} {burst : Produced α → Prop} {s : RingSystem α}
  {closed known : Nat} {p q : Produced α} {a : α} {rest : List (Op α)}

/-- A store that changes nothing. -/
theorem RingSystem.stored_same {slot : Nat} (hsame : s.cell slot = a) :
    s.stored f cap slot a rest = { s with todo := rest } := by
  simp [RingSystem.stored, handedBy, ← hsame]

/-- Preparing the cell of the next entry keeps the invariant. -/
theorem Coherent.prepare (h : Coherent f cap burst q s closed known) (hcap : 0 < cap)
    (hbit : f.bit a = f.bit (s.cell (s.handed.length % cap))) (hroom : s.Roomy cap)
    (hrest : Obeys f cap burst
      ⟨Function.update s.cell (s.handed.length % cap) a, s.handed, closed, known⟩ rest q) :
    Coherent f cap burst q (s.stored f cap (s.handed.length % cap) a rest) closed known := by
  have hlarge : cap ≠ s.handed.length % cap := by
    have := Nat.mod_lt s.handed.length hcap
    omega
  have hnone : handedBy f cap s.cell (s.handed.length % cap) a s.handed = s.handed := by
    simp [handedBy, hbit]
  unfold RingSystem.stored
  rw [hnone]
  exact
    { h with
      obeys := hrest
      outstanding := h.outstanding.prepare hcap hroom hbit
      gate := (congrArg f.bit (Function.update_of_ne hlarge _ _)).trans h.gate
      link := (congrArg f.link (Function.update_of_ne hlarge _ _)).trans h.link }

/-- Handing an entry over keeps the invariant. -/
theorem Coherent.handOver (h : Coherent f cap burst q s closed known) (hcap : 0 < cap)
    (hclosed : closed = s.handed.length / cap)
    (hbit : f.bit a ≠ f.bit (s.cell (s.handed.length % cap))) (hplain : f.link a = none)
    (hroom : s.Roomy cap)
    (hrest : Obeys f cap burst
      ⟨Function.update s.cell (s.handed.length % cap) a, s.handed ++ [a], closed, known⟩
      rest q) :
    Coherent f cap burst q (s.stored f cap (s.handed.length % cap) a rest) closed known := by
  have hmod := Nat.mod_lt s.handed.length hcap
  have hlarge : cap ≠ s.handed.length % cap := by omega
  have hnew : handedBy f cap s.cell (s.handed.length % cap) a s.handed = s.handed ++ [a] :=
    if_pos ⟨hmod, hbit⟩
  have hlap : f.bit a = lapBit cap s.handed.length := by
    rw [h.outstanding.bit_next hcap] at hbit
    simpa using hbit
  have hlt : s.handed.length < (closed + 1) * cap := by
    rw [hclosed, Nat.add_one_mul]
    exact Nat.lt_div_mul_add hcap
  have hlength : (s.handed ++ [a]).length = s.handed.length + 1 := by simp
  unfold RingSystem.stored
  rw [hnew]
  exact
    { h with
      obeys := hrest
      outstanding := h.outstanding.handOver hcap hroom hlap
      opened := by
        rw [hlength]
        exact Nat.le_succ_of_le h.opened
      notFull := by
        rw [hlength]
        exact hlt
      gate := (congrArg f.bit (Function.update_of_ne hlarge _ _)).trans h.gate
      link := (congrArg f.link (Function.update_of_ne hlarge _ _)).trans h.link
      plain := by
        intro b hb
        rcases List.mem_append.mp hb with hb | hb
        · exact h.plain b hb
        · rw [List.mem_singleton.mp hb, hplain]
      base_le := by
        rw [hlength]
        exact Nat.le_succ_of_le h.base_le
      inOrder := by
        rw [List.drop_append_of_le_length h.base_le]
        exact h.inOrder.trans (List.prefix_append _ _) }

/-- Turning the link keeps the invariant: the consumer is at most one link behind. -/
theorem Coherent.closeLap (h : Coherent f cap burst q s closed known) (hcap : 0 < cap)
    (hfull : s.handed.length = (closed + 1) * cap) (hbit : f.bit a ≠ f.bit (s.cell cap))
    (hlink : f.link a = some (0, true)) (hroom : s.Roomy cap)
    (hrest : Obeys f cap burst
      ⟨Function.update s.cell cap a, s.handed, closed + 1, known⟩ rest q) :
    Coherent f cap burst q (s.stored f cap cap a rest) (closed + 1) known := by
  have hnone : handedBy f cap s.cell cap a s.handed = s.handed := by simp [handedBy]
  have hgate : f.bit a = decide ((closed + 1) % 2 = 1) := by
    rw [h.gate] at hbit
    rcases Nat.mod_two_eq_zero_or_one closed with heven | hodd
    · simpa [heven, Nat.add_mod] using hbit
    · simpa [hodd, Nat.add_mod] using hbit
  unfold RingSystem.stored
  rw [hnone]
  exact
    { h with
      obeys := hrest
      outstanding := by
        apply h.outstanding.congr hcap
        intro i hi
        exact Function.update_of_ne (by omega) _ _
      opened := Nat.le_of_eq hfull.symm
      notFull := by
        rw [hfull]
        exact Nat.mul_le_mul_right cap (by omega)
      gate := (congrArg f.bit (Function.update_self _ _ _)).trans hgate
      link := (congrArg f.link (Function.update_self _ _ _)).trans hlink
      place := by
        rcases h.place with hplace | ⟨laps, hpos, hplace, _⟩
        · exact Or.inl hplace
        · refine Or.inr ⟨laps, hpos, hplace, ?_⟩
          have hlt : (closed + 1) * cap < (laps + 2) * cap := by
            have hbehind : s.handed.length < s.position + cap := hroom
            rw [hfull, hpos] at hbehind
            rwa [Nat.add_mul laps 2, Nat.two_mul, ← Nat.add_assoc, ← Nat.add_one_mul]
          have := Nat.lt_of_mul_lt_mul_right hlt
          omega }

/-- A store of the producer keeps the invariant. -/
theorem Coherent.store {slot : Nat} (h : Coherent f cap burst q s closed known) (hcap : 0 < cap)
    (hop : Allowed f cap ⟨s.cell, s.handed, closed, known⟩ (.store slot a) p)
    (hrest : Obeys f cap burst p rest q) (hroom : s.cell slot ≠ a → s.Roomy cap) :
    ∃ closed', Coherent f cap burst q (s.stored f cap slot a rest) closed' known := by
  by_cases hsame : s.cell slot = a
  · rw [RingSystem.stored_same hsame]
    refine ⟨closed, { h with obeys := ?_ }⟩
    subst hsame
    cases hop with
    | same => exact hrest
    | prepare => simpa using hrest
    | handOver _ hbit => exact absurd rfl hbit
    | closeLap _ hbit => exact absurd rfl hbit
  · cases hop with
    | same => exact absurd rfl hsame
    | prepare _ hbit => exact ⟨closed, h.prepare hcap hbit (hroom hsame) hrest⟩
    | handOver hclosed hbit hplain =>
        exact ⟨closed, h.handOver hcap hclosed hbit hplain (hroom hsame) hrest⟩
    | closeLap hfull hbit hlink =>
        exact ⟨closed + 1, h.closeLap hcap hfull hbit hlink (hroom hsame) hrest⟩

end Stores

section Runs

variable {f : EntryFormat α} {cap : Nat} {burst : Produced α → Prop} {q : Produced α}
  {s s' : RingSystem α} {closed known : Nat}

/-- Having taken an entry, the consumer is at the cell of the next one, or at the link. -/
theorem Coherent.place_take (h : Coherent f cap burst q s closed known) (hcap : 0 < cap) :
    Place cap closed (s.position + 1) ⟨s.position % cap + 1, lapBit cap s.position⟩ := by
  by_cases hend : s.position % cap + 1 = cap
  · -- The entry was the last one of its lap.
    refine Or.inr ⟨s.position / cap, ?_, ?_, ?_⟩
    · have := Nat.div_add_mod s.position cap
      rw [Nat.add_one_mul, Nat.mul_comm]
      omega
    · rw [hend]
      rfl
    · have hlt : closed * cap < (s.position / cap + 2) * cap := by
        have := h.opened
        have := h.outstanding.room
        have := Nat.lt_div_mul_add (a := s.position) hcap
        rw [Nat.add_mul]
        omega
      have := Nat.lt_of_mul_lt_mul_right hlt
      omega
  · refine Or.inl ?_
    rw [succ_mod hcap, lapBit_succ hcap, if_neg hend, if_neg hend]

/-- The consumer takes an entry. -/
theorem Coherent.take {a : α} (h : Coherent f cap burst q s closed known) (hcap : 0 < cap)
    (hlook : s.consumer.look f s.cell = .entry a) :
    Coherent f cap burst q
      { s with
        taken := s.taken ++ [a]
        consumer := ⟨s.consumer.slot + 1, s.consumer.state⟩ } closed known := by
  obtain ⟨hplace, hlt, hentry⟩ := h.entry_eq hcap hlook
  have hpos : s.base + (s.taken ++ [a]).length = s.position + 1 := by
    simp [RingSystem.position, Nat.add_assoc]
  refine
    { h with
      known_le := ?_
      outstanding := ?_
      place := ?_
      inOrder := ?_ }
  · show known ≤ s.base + (s.taken ++ [a]).length
    have := h.known_le
    omega
  · show Outstanding _ _ _ (s.base + (s.taken ++ [a]).length) _
    rw [hpos]
    exact h.outstanding.take hlt
  · show Place _ _ (s.base + (s.taken ++ [a]).length) ⟨s.consumer.slot + 1, _⟩
    rw [hpos, hplace]
    exact h.place_take hcap
  · -- The entry is the one after the prefix that was taken before.
    apply isPrefix_concat h.inOrder
    rw [List.getElem?_drop, ← hentry]
    exact List.getElem?_eq_getElem hlt

/-- The consumer follows the link. -/
theorem Coherent.follow {target : Nat} {toggle : Bool}
    (h : Coherent f cap burst q s closed known) (hcap : 0 < cap)
    (hlook : s.consumer.look f s.cell = .link target toggle) :
    Coherent f cap burst q { s with consumer := ⟨target, s.consumer.state ^^ toggle⟩ }
      closed known := by
  obtain ⟨rfl, rfl, laps, hpos, hplace⟩ := h.follow_eq hcap hlook
  refine { h with place := Or.inl ?_ }
  have hmod : s.position % cap = 0 := by rw [hpos, Nat.mul_mod_left]
  have hlap : lapBit cap s.position = !decide (laps % 2 = 0) := by
    rw [lapBit, hpos, Nat.mul_div_cancel _ hcap, ← decide_not, decide_eq_decide]
    omega
  show _ = Consumer.mk (s.position % cap) (lapBit cap s.position)
  rw [hmod, hlap, hplace]
  simp

/-- The consumer is moved to the next entry. -/
theorem Coherent.moveConsumer {rest : List (Op α)}
    (h : Coherent f cap burst q s closed known)
    (hrest : Obeys f cap burst ⟨s.cell, s.handed, closed, s.handed.length⟩ rest q) :
    Coherent f cap burst q
      { s with
        todo := rest
        base := s.handed.length
        taken := []
        consumer := ⟨s.handed.length % cap, lapBit cap s.handed.length⟩ }
      closed s.handed.length :=
  { h with
    obeys := hrest
    known_le := Nat.le_refl _
    outstanding := h.outstanding.skip
    place := Or.inl rfl
    base_le := Nat.le_refl _
    inOrder := List.nil_prefix }

/-- One step of a run keeps the invariant. -/
theorem Coherent.step (hcap : 0 < cap) (h : Coherent f cap burst q s closed known)
    (hstep : Step f cap (RingSystem.Roomy cap) s s') :
    ∃ closed' known', Coherent f cap burst q s' closed' known' := by
  have hobeys := h.obeys
  cases hstep with
  | store htodo hroom =>
      rw [htodo] at hobeys
      cases hobeys with
      | cons hop _ hrest =>
          obtain ⟨closed', hnext⟩ := h.store hcap hop hrest hroom
          exact ⟨closed', known, hnext⟩
  | await htodo htaken =>
      rw [htodo] at hobeys
      cases hobeys with
      | cons hop _ hrest =>
          cases hop
          exact ⟨closed, s.handed.length,
            { h with obeys := hrest, known_le := Nat.le_of_eq htaken.symm }⟩
  | moveConsumer htodo =>
      rw [htodo] at hobeys
      cases hobeys with
      | cons hop _ hrest =>
          cases hop
          exact ⟨closed, _, h.moveConsumer hrest⟩
  | take hlook => exact ⟨closed, known, h.take hcap hlook⟩
  | follow hlook => exact ⟨closed, known, h.follow hcap hlook⟩

/-- A run keeps the invariant. -/
theorem Coherent.run (hcap : 0 < cap) (h : Coherent f cap burst q s closed known)
    (hrun : Relation.ReflTransGen (Step f cap (RingSystem.Roomy cap)) s s') :
    ∃ closed' known', Coherent f cap burst q s' closed' known' := by
  induction hrun with
  | refl => exact ⟨closed, known, h⟩
  | tail _ hstep ih =>
      obtain ⟨_, _, hprev⟩ := ih
      exact hprev.step hcap hstep

/-- With short bursts the consumer is less than a lap behind whenever the producer
stores, in whatever order the two take their steps. -/
theorem Coherent.roomy (h : Coherent f cap (ShortBurst cap) q s closed known)
    (hstep : Step f cap (fun _ => True) s s') : Step f cap (RingSystem.Roomy cap) s s' := by
  cases hstep with
  | @store slot a rest htodo _ =>
      apply Step.store htodo
      intro hnew
      have hobeys := h.obeys
      rw [htodo] at hobeys
      cases hobeys with
      | cons _ hburst _ =>
          have hshort : s.handed.length < known + cap := hburst slot a rfl hnew
          have := h.known_le
          show s.handed.length < s.position + cap
          omega
  | await htodo htaken => exact .await htodo htaken
  | moveConsumer htodo => exact .moveConsumer htodo
  | take hlook => exact .take hlook
  | follow hlook => exact .follow hlook

/-- With short bursts nothing else is needed of the order of the steps. -/
theorem Coherent.run_of_shortBurst (hcap : 0 < cap)
    (h : Coherent f cap (ShortBurst cap) q s closed known)
    (hrun : Relation.ReflTransGen (Step f cap (fun _ => True)) s s') :
    ∃ closed' known', Coherent f cap (ShortBurst cap) q s' closed' known' := by
  induction hrun with
  | refl => exact ⟨closed, known, h⟩
  | tail _ hstep ih =>
      obtain ⟨_, _, hprev⟩ := ih
      exact hprev.step hcap (hprev.roomy hstep)

/-- What a run is to keep: of the entries `all` that the program hands over, some first ones
have been handed over; since it was last moved the consumer has taken the entries from there
on, each once and in their order; it takes the next one if it takes any; and it sees nothing
only if it has taken everything. -/
structure Faithful (f : EntryFormat α) (all : List α) (s : RingSystem α) : Prop where
  handed : s.handed <+: all
  finished : s.todo = [] → s.handed = all
  taken : s.taken = (s.handed.drop s.base).take s.taken.length
  next : ∀ a, s.consumer.look f s.cell = .entry a → s.handed[s.position]? = some a
  idle : s.consumer.look f s.cell = .nothing → s.position = s.handed.length

theorem Coherent.faithful (h : Coherent f cap burst q s closed known) (hcap : 0 < cap) :
    Faithful f q.handed s where
  handed := h.handed_prefix
  finished hnil := by
    have hobeys := h.obeys
    rw [hnil] at hobeys
    cases hobeys
    rfl
  taken := h.taken_eq
  next a hlook := by
    obtain ⟨_, hlt, hentry⟩ := h.entry_eq hcap hlook
    rw [List.getElem?_eq_getElem hlt, hentry]
  idle hlook := h.idle hcap hlook

/-- The consumer starts at the first cell, and expects the bit to be set. -/
def RingSystem.start (todo : List (Op α)) (cell : Nat → α) : RingSystem α where
  todo := todo
  cell := cell
  handed := []
  base := 0
  taken := []
  consumer := ⟨0, true⟩

/-- A ring without entries, whose cycle bits are all clear. -/
theorem coherent_start {todo : List (Op α)} {cell : Nat → α}
    (hbits : ∀ i, i ≤ cap → f.bit (cell i) = false) (hlink : f.link (cell cap) = some (0, true))
    (htodo : Obeys f cap burst ⟨cell, [], 0, 0⟩ todo q) :
    Coherent f cap burst q (.start todo cell) 0 0 where
  obeys := htodo
  known_le := Nat.le_refl _
  outstanding := Outstanding.empty fun i hi => hbits i (Nat.le_of_lt hi)
  opened := Nat.le_of_eq (Nat.zero_mul _)
  notFull := Nat.zero_le _
  gate := by simp [RingSystem.start, hbits cap (Nat.le_refl _)]
  link := hlink
  plain a ha := absurd ha (by simp [RingSystem.start])
  place := Or.inl (by simp [RingSystem.start, RingSystem.position, lapBit])
  base_le := Nat.le_refl _
  inOrder := List.nil_prefix

end Runs

end LinkedRing
end EfiApps
