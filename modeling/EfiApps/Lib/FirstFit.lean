import Mathlib.Order.Bounds.Basic
import Mathlib.Order.Nat

/-!
# The first run of free units

A scan looks at the units one by one and keeps where the run of free units that it is in has
started.  It ends at the first run that is long enough, or at the last unit.
-/

namespace EfiApps

/-- The `n` units from `s` on are free. -/
def Fits (used : Nat → Bool) (total n s : Nat) : Prop :=
  s + n ≤ total ∧ ∀ u, s ≤ u → u < s + n → used u = false

/-- No earlier run of `n` units is free. -/
def FirstFit (used : Nat → Bool) (total n s : Nat) : Prop :=
  IsLeast {s | Fits used total n s} s

/-- The scan has looked at the units below `p`: those from `start` on are free, and no run of
`n` free units starts before them. -/
structure Scanned (used : Nat → Bool) (n start p : Nat) : Prop where
  le : start ≤ p
  short : p < start + n
  free : ∀ u, start ≤ u → u < p → used u = false
  before : ∀ s, s < start → ∃ u, s ≤ u ∧ u < s + n ∧ used u = true

namespace Scanned

variable {used : Nat → Bool} {total n start p : Nat}

theorem init (hn : 0 < n) : Scanned used n 0 0 where
  le := Nat.le_refl _
  short := by omega
  free u _ hu := absurd hu (Nat.not_lt_zero u)
  before s hs := absurd hs (Nat.not_lt_zero s)

/-- A used unit ends the run. -/
theorem restart (h : Scanned used n start p) (hused : used p = true) :
    Scanned used n (p + 1) (p + 1) where
  le := Nat.le_refl _
  short := by
    have hshort := h.short
    have hle := h.le
    omega
  free u hu hu' := by omega
  before s hs := by
    by_cases hstart : s < start
    · exact h.before s hstart
    · have hshort := h.short
      exact ⟨p, by omega, by omega, hused⟩

/-- A free unit goes on with the run. -/
theorem next (h : Scanned used n start p) (hfree : used p = false) (hshort : p + 1 < start + n) :
    Scanned used n start (p + 1) where
  le := Nat.le_succ_of_le h.le
  short := hshort
  free u hu hu' := by
    rcases Nat.lt_succ_iff_lt_or_eq.mp hu' with hlt | rfl
    · exact h.free u hu hlt
    · exact hfree
  before := h.before

/-- The run is long enough. -/
theorem firstFit (h : Scanned used n start p) (hfree : used p = false) (hlong : start + n ≤ p + 1)
    (hp : p < total) : FirstFit used total n start := by
  constructor
  · refine ⟨by omega, fun u hu hu' => ?_⟩
    rcases Nat.lt_or_ge u p with hlt | hge
    · exact h.free u hu hlt
    · obtain rfl : u = p := by omega
      exact hfree
  · intro s hs
    by_contra hless
    obtain ⟨u, hu, hu', hused⟩ := h.before s (Nat.lt_of_not_le hless)
    rw [hs.2 u hu hu'] at hused
    cases hused

/-- The scan ends without a run. -/
theorem none_fits (h : Scanned used n start p) (hp : total ≤ p) (s : Nat) :
    ¬Fits used total n s := by
  intro hs
  by_cases hstart : s < start
  · obtain ⟨u, hu, hu', hused⟩ := h.before s hstart
    rw [hs.2 u hu hu'] at hused
    cases hused
  · have hshort := h.short
    have hroom := hs.1
    omega

end Scanned

end EfiApps
