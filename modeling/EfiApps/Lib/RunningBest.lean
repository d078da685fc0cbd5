import Mathlib.Order.Lattice
import Mathlib.Data.List.Basic

/-!
# Scans that keep the best candidate so far

A loop that walks a list once, remembers one candidate and replaces it only by
an eligible element with a strictly greater key, ends with the first of the
eligible elements whose key is greatest.  The key may be any linear order.
-/

namespace EfiApps

variable {α κ : Type _} [LinearOrder κ]

/-- One step of the scan: an eligible element replaces nothing, or a candidate
with a smaller key. -/
def keepBest (eligible : α → Prop) [DecidablePred eligible] (key : α → κ)
    (best : Option α) (c : α) : Option α :=
  match best with
  | none => if eligible c then some c else none
  | some b => if eligible c ∧ key b < key c then some c else some b

/-- What the scan has found after the elements of the list. -/
structure IsBest (eligible : α → Prop) (key : α → κ) (l : List α) (b : α) : Prop where
  mem : b ∈ l
  isEligible : eligible b
  greatest : ∀ c ∈ l, eligible c → key c ≤ key b

theorem foldl_keepBest_some {eligible : α → Prop} [DecidablePred eligible] {key : α → κ}
    {seen l : List α} {b : α} (h : IsBest eligible key seen b) :
    ∃ b', l.foldl (keepBest eligible key) (some b) = some b' ∧
      IsBest eligible key (seen ++ l) b' := by
  induction l generalizing seen b with
  | nil => exact ⟨b, rfl, by simpa using h⟩
  | cons c l ih =>
      have hassoc : seen ++ c :: l = (seen ++ [c]) ++ l := by simp
      rw [List.foldl_cons, hassoc]
      by_cases hc : eligible c ∧ key b < key c
      · simp only [keepBest, hc, and_self, if_true]
        refine ih ⟨by simp, hc.1, ?_⟩
        intro d hd hed
        rcases List.mem_append.mp hd with hseen | hlast
        · exact le_trans (h.greatest d hseen hed) (le_of_lt hc.2)
        · obtain rfl : d = c := by simpa using hlast
          exact le_rfl
      · simp only [keepBest, hc, if_false]
        refine ih ⟨by simp [h.mem], h.isEligible, ?_⟩
        intro d hd hed
        rcases List.mem_append.mp hd with hseen | hlast
        · exact h.greatest d hseen hed
        · obtain rfl : d = c := by simpa using hlast
          exact not_lt.mp fun hlt => hc ⟨hed, hlt⟩

/-- A scan that starts with an eligible element ends with a best one. -/
theorem foldl_keepBest_cons {eligible : α → Prop} [DecidablePred eligible] {key : α → κ}
    {a : α} {l : List α} (ha : eligible a) :
    ∃ b, (a :: l).foldl (keepBest eligible key) none = some b ∧
      IsBest eligible key (a :: l) b := by
  have hstart : IsBest eligible key [a] a :=
    ⟨by simp, ha, fun c hc _ => le_of_eq (congrArg key (by simpa using hc))⟩
  simpa [keepBest, ha] using foldl_keepBest_some (l := l) hstart

/-- With distinct keys there is only one best element. -/
theorem IsBest.unique {eligible : α → Prop} {key : α → κ} {l : List α} {b b' : α}
    (h : IsBest eligible key l b) (h' : IsBest eligible key l b')
    (hkey : ∀ c ∈ l, ∀ d ∈ l, key c = key d → c = d) : b = b' :=
  hkey b h.mem b' h'.mem
    (le_antisymm (h'.greatest b h.mem h.isEligible) (h.greatest b' h'.mem h'.isEligible))

end EfiApps
