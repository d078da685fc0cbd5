import EfiApps.Lib.Ascent

/-!
# Walks that may run into a ring

A C loop follows pointers that come from outside, so nothing keeps it from going round
for ever.  Over finitely many places it returns exactly if it does not come to a ring.

The loop may carry anything along that does not decide where it goes next; `loop` has
its fuel, its place and the rest of its state.
-/

namespace EfiApps

open Relation

variable {α : Type _} {next : α → Option α} {a b : α}

/-- The walk along `next` ends. -/
def WalkEnds (next : α → Option α) (a : α) : Prop := ∃ l, Linked next (some a) l

/-- The walk along `next` comes to a place from which it comes back to that place. -/
def ReachesRing (next : α → Option α) (a : α) : Prop :=
  ∃ b, ReflTransGen (ParentStep next) a b ∧ OnRing next b

theorem walkEnds_of_none (h : next a = none) : WalkEnds next a := ⟨[a], rfl, h⟩

theorem walkEnds_step (h : next a = some b) : WalkEnds next a ↔ WalkEnds next b := by
  constructor
  · rintro ⟨l, hl⟩
    cases l with
    | nil => cases hl
    | cons c l =>
        obtain ⟨hc, hl⟩ := hl
        obtain rfl : a = c := Option.some.inj hc
        rw [h] at hl
        exact ⟨l, hl⟩
  · rintro ⟨l, hl⟩
    refine ⟨a :: l, rfl, ?_⟩
    rw [h]
    exact hl

theorem walkEnds_reaches (h : ReflTransGen (ParentStep next) a b) (ha : WalkEnds next a) :
    WalkEnds next b := by
  induction h with
  | refl => exact ha
  | tail _ hstep ih => exact (walkEnds_step hstep).mp ih

/-- Going round a ring never ends. -/
theorem OnRing.not_walkEnds (h : OnRing next a) : ¬ WalkEnds next a := by
  rintro ⟨l, hl⟩
  induction l generalizing a with
  | nil => cases hl
  | cons c l ih =>
      obtain ⟨hc, hl⟩ := hl
      obtain rfl : a = c := Option.some.inj hc
      obtain ⟨d, had, -⟩ := TransGen.head'_iff.mp h
      have hd : next a = some d := had
      rw [hd] at hl
      exact ih (h.parent hd) hl

/-- The walk as one towards `none`. -/
theorem walkEnds_of_climbsTo (h : ClimbsTo (Option.map next) none (some a)) :
    WalkEnds next a := by
  obtain ⟨l, hl⟩ := h
  induction l generalizing a with
  | nil => cases hl.1
  | cons c l ih =>
      obtain ⟨hc, hl⟩ := hl
      obtain rfl : some a = c := Option.some.inj hc
      cases hnext : next a with
      | none => exact walkEnds_of_none hnext
      | some b =>
          rw [Option.map_some, hnext] at hl
          exact (walkEnds_step hnext).mpr (ih hl)

theorem onRing_of_map {o : Option α} (h : OnRing (Option.map next) o) :
    ∃ b, o = some b ∧ OnRing next b := by
  have hlift : ∀ {o o' : Option α}, TransGen (ParentStep (Option.map next)) o o' →
      ∃ b, o = some b ∧ ∀ c, o' = some c → TransGen (ParentStep next) b c := by
    intro o o' h
    induction h using TransGen.head_induction_on with
    | @single o h =>
        cases o with
        | none => cases h
        | some b => exact ⟨b, rfl, fun c hc => .single ((Option.some.inj h).trans hc)⟩
    | @head o o₁ h _ ih =>
        obtain ⟨b, rfl, hb⟩ := ih
        cases o with
        | none => cases h
        | some c => exact ⟨c, rfl, fun e he => .head (Option.some.inj h) (hb e he)⟩
  obtain ⟨b, rfl, hb⟩ := hlift h
  exact ⟨b, rfl, hb b rfl⟩

/-- Over finitely many places a walk ends exactly if it comes to no ring. -/
theorem walkEnds_iff [Finite α] (next : α → Option α) (a : α) :
    WalkEnds next a ↔ ¬ ReachesRing next a := by
  constructor
  · rintro h ⟨b, hb, hring⟩
    exact hring.not_walkEnds (walkEnds_reaches hb h)
  · intro h
    -- All places that the walk comes to, as nodes below the root `none`.
    let reached : Set (Option α) := some '' {b | ReflTransGen (ParentStep next) a b}
    have hclosed : ∀ o ∈ reached, ∃ o', Option.map next o = some o' ∧ (o' = none ∨ o' ∈ reached) := by
      rintro _ ⟨b, hb, rfl⟩
      refine ⟨next b, rfl, ?_⟩
      cases hnext : next b with
      | none => exact .inl rfl
      | some c => exact .inr ⟨c, ReflTransGen.tail hb hnext, rfl⟩
    have hfinite : reached.Finite := (Set.toFinite _).image some
    have hclimbs := (forall_climbsTo_iff (Option.map next) hfinite rfl hclosed).mpr
    refine walkEnds_of_climbsTo (hclimbs ?_ _ ⟨a, .refl, rfl⟩)
    rintro _ ⟨b, hb, rfl⟩ hring
    obtain ⟨c, hc, hring⟩ := onRing_of_map hring
    obtain rfl := Option.some.inj hc
    exact h ⟨b, hb, hring⟩

section loop

variable {τ β : Type _} {loop : Nat → α → τ → Run β}

/-- A loop along a walk over the places `l` returns with fuel for each of them, whatever it
carries along. -/
theorem returns_of_linked
    (hstep : ∀ fuel a b t, next a = some b → ∃ t', loop (fuel + 1) a t = loop fuel b t')
    (hend : ∀ fuel a t, next a = none → (loop (fuel + 1) a t).Returns) {l : List α}
    (hl : Linked next (some a) l) {fuel : Nat} (hfuel : l.length ≤ fuel) (t : τ) :
    (loop fuel a t).Returns := by
  induction l generalizing a fuel t with
  | nil => cases hl
  | cons c l ih =>
      obtain ⟨hc, hl⟩ := hl
      obtain rfl : a = c := Option.some.inj hc
      obtain ⟨fuel, rfl⟩ : ∃ k, fuel = k + 1 := ⟨fuel - 1, by simp at hfuel; omega⟩
      cases hnext : next a with
      | none => exact hend fuel a t hnext
      | some b =>
          obtain ⟨t', ht⟩ := hstep fuel a b t hnext
          rw [hnext] at hl
          rw [ht]
          exact ih hl (by simpa using hfuel) t'

/-- A loop along a walk that ends returns. -/
theorem WalkEnds.returns
    (hstep : ∀ fuel a b t, next a = some b → ∃ t', loop (fuel + 1) a t = loop fuel b t')
    (hend : ∀ fuel a t, next a = none → (loop (fuel + 1) a t).Returns) (h : WalkEnds next a) :
    ∃ fuel₁, ∀ fuel ≥ fuel₁, ∀ t, (loop fuel a t).Returns := by
  obtain ⟨l, hl⟩ := h
  exact ⟨l.length, fun fuel hfuel t => returns_of_linked hstep hend hl hfuel t⟩

/-- A loop that has returned has walked to an end. -/
theorem walkEnds_of_returns
    (hzero : ∀ a b t, next a = some b → loop 0 a t = .error .outOfFuel)
    (hstep : ∀ fuel a b t, next a = some b → ∃ t', loop (fuel + 1) a t = loop fuel b t')
    {fuel : Nat} {t : τ} (h : (loop fuel a t).Returns) : WalkEnds next a := by
  induction fuel generalizing a t with
  | zero =>
      cases hnext : next a with
      | none => exact walkEnds_of_none hnext
      | some b => simp [hzero a b t hnext] at h
  | succ fuel ih =>
      cases hnext : next a with
      | none => exact walkEnds_of_none hnext
      | some b =>
          obtain ⟨t', ht⟩ := hstep fuel a b t hnext
          rw [ht] at h
          exact (walkEnds_step hnext).mpr (ih h)

end loop

end EfiApps
