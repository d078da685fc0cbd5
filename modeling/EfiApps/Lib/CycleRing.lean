import Mathlib.Data.List.Basic
import Mathlib.Logic.Function.Basic

/-!
# Rings whose entries carry a cycle bit

A producer and a consumer share `cap` cells.  Entry `n` goes to the cell `n % cap`, in
lap `n / cap`, and its cycle bit is the state of that lap: set in the first lap, clear in
the second, and so on.  The two share no counter.  The consumer knows an entry that it has
not taken yet by its cycle bit alone, and that is enough as long as the producer is not a
whole lap ahead.
-/

namespace EfiApps

variable {α : Type*}

/-- A prefix goes on with the element after it. -/
theorem isPrefix_concat {l m : List α} {a : α} (h : l <+: m) (ha : m[l.length]? = some a) :
    l ++ [a] <+: m := by
  obtain ⟨more, rfl⟩ := h
  rw [List.getElem?_append_right (Nat.le_refl _), Nat.sub_self] at ha
  cases more with
  | nil => exact absurd ha (by simp)
  | cons b more =>
      obtain rfl : b = a := by simpa using ha
      exact ⟨more, by simp⟩

/-! ## Laps -/

/-- The cycle state of the lap of entry `n`. -/
def lapBit (cap n : Nat) : Bool := decide (n / cap % 2 = 0)

/-- The cycle bit of cell `i` when `n` entries have been handed over. -/
def bitAfter (cap n i : Nat) : Bool := if i < n % cap then lapBit cap n else !lapBit cap n

theorem div_mod_window {cap : Nat} (q : Nat) {r d : Nat} (hr : r < cap) (hd : d ≤ cap) :
    (cap * q + r + d) / cap = (if r + d < cap then q else q + 1) ∧
      (cap * q + r + d) % cap = if r + d < cap then r + d else r + d - cap := by
  have hcap : 0 < cap := by omega
  by_cases hlt : r + d < cap
  · rw [if_pos hlt, if_pos hlt, Nat.add_assoc, Nat.mul_add_div hcap, Nat.mul_add_mod,
      Nat.div_eq_of_lt hlt, Nat.mod_eq_of_lt hlt]
    exact ⟨rfl, rfl⟩
  · have hrest : r + d - cap < cap := by omega
    have hsplit : cap * q + r + d = cap * (q + 1) + (r + d - cap) := by
      rw [Nat.mul_succ]
      omega
    rw [if_neg hlt, if_neg hlt, hsplit, Nat.mul_add_div hcap, Nat.mul_add_mod,
      Nat.div_eq_of_lt hrest, Nat.mod_eq_of_lt hrest]
    exact ⟨rfl, rfl⟩

section Laps

variable {cap : Nat} (hcap : 0 < cap)
include hcap

theorem div_mod_add (c : Nat) {d : Nat} (hd : d ≤ cap) :
    (c + d) / cap = (if c % cap + d < cap then c / cap else c / cap + 1) ∧
      (c + d) % cap = if c % cap + d < cap then c % cap + d else c % cap + d - cap := by
  have hwindow := div_mod_window (c / cap) (Nat.mod_lt c hcap) hd
  rwa [Nat.div_add_mod] at hwindow

/-- Counting on by one moves to the next cell, or to the first cell of the next lap. -/
theorem succ_mod (n : Nat) :
    (n + 1) % cap = if n % cap + 1 = cap then 0 else n % cap + 1 := by
  have hlt := Nat.mod_lt n hcap
  rw [(div_mod_add hcap n hcap).2]
  split_ifs <;> omega

theorem succ_div (n : Nat) :
    (n + 1) / cap = if n % cap + 1 = cap then n / cap + 1 else n / cap := by
  have hlt := Nat.mod_lt n hcap
  rw [(div_mod_add hcap n hcap).1]
  split_ifs <;> omega

theorem lapBit_succ (n : Nat) :
    lapBit cap (n + 1) = if n % cap + 1 = cap then !lapBit cap n else lapBit cap n := by
  unfold lapBit
  rw [succ_div hcap n]
  split_ifs with hend
  · rw [← decide_not, decide_eq_decide]
    omega
  · rfl

/-- Handing over entry `n` changes the cycle bit of its cell and of no other. -/
theorem bitAfter_succ {n i : Nat} (hi : i < cap) :
    bitAfter cap (n + 1) i = if i = n % cap then lapBit cap n else bitAfter cap n i := by
  have hlt := Nat.mod_lt n hcap
  unfold bitAfter
  rw [lapBit_succ hcap n, succ_mod hcap n]
  by_cases hend : n % cap + 1 = cap
  · simp only [if_pos hend, Nat.not_lt_zero, if_false, Bool.not_not]
    split_ifs <;> first | rfl | omega
  · simp only [if_neg hend]
    split_ifs <;> first | rfl | omega

/-- The consumer that stands at entry `c` sees the state of its lap exactly if the entry
has been handed over. -/
theorem bitAfter_eq_lapBit_iff {c n : Nat} (hle : c ≤ n) (hn : n ≤ c + cap) :
    bitAfter cap n (c % cap) = lapBit cap c ↔ c < n := by
  obtain ⟨d, rfl⟩ := Nat.exists_eq_add_of_le hle
  have hd : d ≤ cap := by omega
  have hlt := Nat.mod_lt c hcap
  obtain ⟨hdiv, hmod⟩ := div_mod_add hcap c hd
  have hflip : decide ((c / cap + 1) % 2 = 0) = !decide (c / cap % 2 = 0) := by
    rw [← decide_not, decide_eq_decide]
    omega
  unfold bitAfter lapBit
  rw [hdiv, hmod]
  by_cases hsame : c % cap + d < cap
  · -- Both in one lap.
    simp only [if_pos hsame]
    by_cases hzero : d = 0
    · simp [hzero]
    · rw [if_pos (by omega)]
      exact ⟨fun _ => by omega, fun _ => rfl⟩
  · -- The producer is in the next lap, and not past the consumer's cell.
    simp only [if_neg hsame]
    rw [if_neg (by omega), hflip, Bool.not_not]
    exact ⟨fun _ => by omega, fun _ => rfl⟩

/-- Two entries less than a lap apart are in different cells. -/
theorem mod_ne_of_lt {j n : Nat} (hlt : j < n) (hn : n < j + cap) : j % cap ≠ n % cap := by
  obtain ⟨d, rfl⟩ := Nat.exists_eq_add_of_lt hlt
  have hmod := Nat.mod_lt j hcap
  rw [Nat.add_assoc, (div_mod_add hcap j (by omega)).2]
  split_ifs <;> omega

/-- Within one lap of entry `a` the cycle state has changed exactly if the cell has
wrapped. -/
theorem lapBit_eq_iff_mod_le {a b : Nat} (hle : a ≤ b) (hb : b < a + cap) :
    lapBit cap b = lapBit cap a ↔ a % cap ≤ b % cap := by
  obtain ⟨d, rfl⟩ := Nat.exists_eq_add_of_le hle
  have hlt := Nat.mod_lt a hcap
  obtain ⟨hdiv, hmod⟩ := div_mod_add hcap a (d := d) (by omega)
  unfold lapBit
  rw [hdiv, hmod, decide_eq_decide]
  by_cases hsame : a % cap + d < cap
  · simp only [if_pos hsame]
    exact ⟨fun _ => Nat.le_add_right _ _, fun _ => trivial⟩
  · simp only [if_neg hsame]
    constructor
    · intro hbits
      omega
    · intro hwrap
      omega

end Laps

/-! ## What the cells hold -/

/-- The entries of `handed` have been handed over and the first `taken` of them taken:
every cell has the cycle bit that this leaves in it, and the entries that have not been
taken are in their cells. -/
structure Outstanding (bit : α → Bool) (cap : Nat) (handed : List α) (taken : Nat)
    (cell : Nat → α) : Prop where
  le : taken ≤ handed.length
  room : handed.length ≤ taken + cap
  bits : ∀ i, i < cap → bit (cell i) = bitAfter cap handed.length i
  kept : ∀ j (h : j < handed.length), taken ≤ j → cell (j % cap) = handed[j]

namespace Outstanding

variable {bit : α → Bool} {cap : Nat} {handed : List α} {taken : Nat} {cell : Nat → α}

/-- Nothing has been handed over if all cycle bits are clear. -/
theorem empty (h : ∀ i, i < cap → bit (cell i) = false) :
    Outstanding bit cap [] 0 cell where
  le := Nat.le_refl _
  room := Nat.zero_le _
  bits i hi := by simp [h i hi, bitAfter, lapBit]
  kept j hj := absurd hj (Nat.not_lt_zero j)

/-- Only the cells of the ring matter. -/
theorem congr {cell' : Nat → α} (h : Outstanding bit cap handed taken cell) (hcap : 0 < cap)
    (hcell : ∀ i, i < cap → cell' i = cell i) : Outstanding bit cap handed taken cell' where
  le := h.le
  room := h.room
  bits i hi := by rw [hcell i hi, h.bits i hi]
  kept j hj hle := by rw [hcell _ (Nat.mod_lt j hcap), h.kept j hj hle]

/-- The cell of the next entry may be overwritten while its cycle bit stays, if the entry
that it held a lap before has been taken. -/
theorem prepare (h : Outstanding bit cap handed taken cell) (hcap : 0 < cap)
    (hroom : handed.length < taken + cap) {a : α}
    (ha : bit a = bit (cell (handed.length % cap))) :
    Outstanding bit cap handed taken (Function.update cell (handed.length % cap) a) where
  le := h.le
  room := h.room
  bits i hi := by
    by_cases heq : i = handed.length % cap
    · rw [heq, Function.update_self, ha, h.bits _ (heq ▸ hi)]
    · rw [Function.update_of_ne heq, h.bits i hi]
  kept j hj hle := by
    rw [Function.update_of_ne (mod_ne_of_lt hcap hj (by omega)), h.kept j hj hle]

/-- An entry is handed over by the store that turns the cycle bit of its cell. -/
theorem handOver (h : Outstanding bit cap handed taken cell) (hcap : 0 < cap)
    (hroom : handed.length < taken + cap) {a : α} (ha : bit a = lapBit cap handed.length) :
    Outstanding bit cap (handed ++ [a]) taken
      (Function.update cell (handed.length % cap) a) where
  le := by
    rw [List.length_append]
    exact Nat.le_trans h.le (Nat.le_add_right _ _)
  room := by
    rw [List.length_append, List.length_singleton]
    omega
  bits i hi := by
    rw [List.length_append, List.length_singleton, bitAfter_succ hcap hi]
    by_cases heq : i = handed.length % cap
    · rw [if_pos heq, heq, Function.update_self, ha]
    · rw [if_neg heq, Function.update_of_ne heq, h.bits i hi]
  kept j hj hle := by
    rw [List.length_append, List.length_singleton] at hj
    rcases Nat.lt_succ_iff_lt_or_eq.mp hj with hlt | heq
    · rw [Function.update_of_ne (mod_ne_of_lt hcap hlt (by omega)), h.kept j hlt hle,
        List.getElem_append_left hlt]
    · subst heq
      simp

/-- The cycle bit of the consumer's cell says whether there is an entry to take. -/
theorem ready_iff (h : Outstanding bit cap handed taken cell) (hcap : 0 < cap) :
    bit (cell (taken % cap)) = lapBit cap taken ↔ taken < handed.length := by
  rw [h.bits _ (Nat.mod_lt taken hcap)]
  exact bitAfter_eq_lapBit_iff hcap h.le h.room

/-- The cycle bit of the producer's cell is not yet that of its lap. -/
theorem bit_next (h : Outstanding bit cap handed taken cell) (hcap : 0 < cap) :
    bit (cell (handed.length % cap)) = !lapBit cap handed.length := by
  rw [h.bits _ (Nat.mod_lt _ hcap), bitAfter, if_neg (Nat.lt_irrefl _)]

/-- The consumer takes the entry of its cell. -/
theorem take (h : Outstanding bit cap handed taken cell) (hlt : taken < handed.length) :
    Outstanding bit cap handed (taken + 1) cell where
  le := hlt
  room := by
    have := h.room
    omega
  bits := h.bits
  kept j hj hle := h.kept j hj (by omega)

/-- The consumer may be moved on over entries that it has not taken. -/
theorem skip (h : Outstanding bit cap handed taken cell) :
    Outstanding bit cap handed handed.length cell where
  le := Nat.le_refl _
  room := Nat.le_add_right _ _
  bits := h.bits
  kept j hj hle := absurd hj (by omega)

end Outstanding

end EfiApps
