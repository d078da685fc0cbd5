import Mathlib.Order.Basic

/-!
# The longest run of free places

A scan over the places below a bound that looks for the longest stretch of free ones:
it skips places that are not free, then measures the free ones that follow, and keeps
the better of that run and the best one so far.
-/

namespace EfiApps

/-- `while (i < n && p (i)) i++`. -/
def scanWhile (p : Nat → Bool) (n i : Nat) : Nat :=
  if i < n ∧ p i = true then scanWhile p n (i + 1) else i
termination_by n - i

section scanWhile

variable (p : Nat → Bool) (n i : Nat)

theorem le_scanWhile : i ≤ scanWhile p n i := by
  fun_induction scanWhile p n i with
  | case1 i _ ih => omega
  | case2 => exact Nat.le_refl _

theorem scanWhile_le (h : i ≤ n) : scanWhile p n i ≤ n := by
  fun_induction scanWhile p n i with
  | case1 i hi ih => exact ih hi.1
  | case2 => exact h

/-- The places that the scan passes. -/
theorem scanWhile_passed {j : Nat} (hij : i ≤ j) (hj : j < scanWhile p n i) : p j = true := by
  fun_induction scanWhile p n i with
  | case1 i hi ih =>
      rcases Nat.eq_or_lt_of_le hij with rfl | hlt
      · exact hi.2
      · exact ih hlt hj
  | case2 => omega

/-- The place that it stops at. -/
theorem scanWhile_stop (h : scanWhile p n i < n) : p (scanWhile p n i) = false := by
  fun_induction scanWhile p n i with
  | case1 i _ ih => exact ih h
  | case2 i hi => simpa [h] using hi

end scanWhile

variable {free : Nat → Bool}

/-- The `length` places from `start` on are below `n` and free. -/
structure FreeRun (free : Nat → Bool) (n start length : Nat) : Prop where
  inside : start + length ≤ n
  free : ∀ i, start ≤ i → i < start + length → free i = true

/-- No run of free places below `n` is longer. -/
structure LongestRun (free : Nat → Bool) (n start length : Nat) : Prop where
  run : FreeRun free n start length
  longest : ∀ start' length', FreeRun free n start' length' → length' ≤ length

theorem longestRun_zero : LongestRun free 0 0 0 := by
  constructor
  · exact ⟨Nat.le_refl _, fun i _ hi => absurd hi (by omega)⟩
  · intro start' length' h
    have := h.inside
    omega

/-- The scan goes on at a place that no run goes across. -/
def RunsEnd (free : Nat → Bool) (i : Nat) : Prop := i = 0 ∨ free i = false

/-- One round of the scan: the places from `i` to `u` are not free, those from `u` to `e`
are. -/
theorem LongestRun.extend {i u e start length : Nat} (h : LongestRun free i start length)
    (hends : RunsEnd free i) (hiu : i ≤ u) (hue : u ≤ e)
    (hused : ∀ j, i ≤ j → j < u → free j = false)
    (hfree : ∀ j, u ≤ j → j < e → free j = true) :
    LongestRun free e (if e - u > length then u else start)
      (if e - u > length then e - u else length) := by
  -- A run below `e` ends at `i` at the latest, or starts at `u` at the earliest.
  have hsplit : ∀ start' length', FreeRun free e start' length' →
      length' ≤ length ∨ length' ≤ e - u := by
    intro start' length' hrun
    have hinside := hrun.inside
    by_cases hleft : start' + length' ≤ i
    · exact .inl (h.longest _ _ ⟨hleft, hrun.free⟩)
    · right
      by_contra hlong
      have hmax : free (max start' i) = false := by
        by_cases hu : max start' i < u
        · exact hused _ (by omega) hu
        · -- Then `u` is `i`, and the run starts before it.
          have hi : max start' i = i := by omega
          rw [hi]
          exact hends.resolve_left (by omega)
      rw [hrun.free _ (by omega) (by omega)] at hmax
      cases hmax
  have hrun := h.run.inside
  split
  · constructor
    · exact ⟨by omega, fun j hj hj' => hfree j hj (by omega)⟩
    · intro start' length' h'
      rcases hsplit _ _ h' with h' | h' <;> omega
  · constructor
    · exact ⟨by omega, h.run.free⟩
    · intro start' length' h'
      rcases hsplit _ _ h' with h' | h' <;> omega

end EfiApps
