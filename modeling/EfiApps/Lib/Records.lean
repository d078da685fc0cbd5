import Mathlib.Data.List.Basic

/-!
# Records one after another

A program walks over a sequence of values that holds records, and each record tells how long it
is.  It knows only where it is.  From there on the sequence is that of the records that are
still to come.

A loop goes on to the next record until it comes to one that it looks for.
-/

namespace EfiApps

variable {ρ β ε : Type _} {values : ρ → List β} {sequence : List β} {p k fuel : Nat} {r : ρ}
  {rs : List ρ}

/-- From `p` on there are these records. -/
def RecordsAt (values : ρ → List β) (sequence : List β) (p : Nat) (rs : List ρ) : Prop :=
  sequence.drop p = rs.flatMap values

theorem recordsAt_append (l : List β) (rs : List ρ) :
    RecordsAt values (l ++ rs.flatMap values) l.length rs := List.drop_left

theorem RecordsAt.getElem? (h : RecordsAt values sequence p (r :: rs))
    (hk : k < (values r).length) : sequence[p + k]? = (values r)[k]? := by
  unfold RecordsAt at h
  rw [← List.getElem?_drop, h, List.flatMap_cons, List.getElem?_append_left hk]

/-- Nothing is behind the last record. -/
theorem RecordsAt.getElem?_nil (h : RecordsAt values sequence p []) :
    sequence[p + k]? = none := by
  unfold RecordsAt at h
  rw [← List.getElem?_drop, h]
  rfl

theorem RecordsAt.next (h : RecordsAt values sequence p (r :: rs)) :
    RecordsAt values sequence (p + (values r).length) rs := by
  unfold RecordsAt at h ⊢
  rw [← List.drop_drop, h, List.flatMap_cons, List.drop_left]

/-- Before the first record that is wanted there is none that is. -/
theorem filter_dropWhile_not (wanted : ρ → Bool) (rs : List ρ) :
    (rs.dropWhile fun r => !wanted r).filter wanted = rs.filter wanted := by
  induction rs with
  | nil => rfl
  | cons r rs ih =>
      cases hwanted : wanted r with
      | true => rw [List.dropWhile_cons_of_neg (by simp [hwanted])]
      | false =>
          rw [List.dropWhile_cons_of_pos (by simp [hwanted]), ih,
            List.filter_cons_of_neg (by simp [hwanted])]

theorem wanted_of_dropWhile_not {wanted : ρ → Bool} {rest : List ρ}
    (h : (rs.dropWhile fun r => !wanted r) = r :: rest) : wanted r = true := by
  have hnonempty : (rs.dropWhile fun r => !wanted r) ≠ [] := by
    rw [h]
    exact List.cons_ne_nil _ _
  have hhead := List.head_dropWhile_not _ hnonempty
  simpa [h] using hhead

/-- A loop that stops where the test holds; `outOfFuel` if it goes on for too long. -/
def skipUntil (stop : Nat → Except ε Bool) (next : Nat → Except ε Nat) (outOfFuel : ε) :
    Nat → Nat → Except ε Nat
  | 0, _ => .error outOfFuel
  | fuel + 1, p => do
      if ← stop p then return p
      skipUntil stop next outOfFuel fuel (← next p)

/-- A search has come to the first of these records, or there is none. -/
def SkipsTo (values : ρ → List β) (sequence : List β) (outside : ε) (result : Except ε Nat) :
    List ρ → Prop
  | [] => result = .error outside
  | r :: rest => ∃ q, result = .ok q ∧ RecordsAt values sequence q (r :: rest)

section Skip

variable {stop : Nat → Except ε Bool} {next : Nat → Except ε Nat} {outOfFuel outside : ε}
  {wanted : ρ → Bool}

/-- Over records, the loop comes to the first one that is wanted, or leaves the sequence. -/
theorem skipUntil_records
    (hstop : ∀ {p r rs}, RecordsAt values sequence p (r :: rs) → stop p = .ok (wanted r))
    (hnext : ∀ {p r rs}, RecordsAt values sequence p (r :: rs) → wanted r = false →
      next p = .ok (p + (values r).length))
    (hend : ∀ {p}, RecordsAt values sequence p [] → stop p = .error outside)
    (h : RecordsAt values sequence p rs) (hfuel : rs.length < fuel) :
    SkipsTo values sequence outside (skipUntil stop next outOfFuel fuel p)
      (rs.dropWhile fun r => !wanted r) := by
  induction rs generalizing p fuel with
  | nil =>
      obtain ⟨fuel, rfl⟩ := Nat.exists_eq_succ_of_ne_zero (Nat.ne_zero_of_lt hfuel)
      show skipUntil stop next outOfFuel (fuel + 1) p = .error outside
      rw [skipUntil, hend h]
      rfl
  | cons r rs ih =>
      obtain ⟨fuel, rfl⟩ := Nat.exists_eq_succ_of_ne_zero (Nat.ne_zero_of_lt hfuel)
      rw [List.length_cons] at hfuel
      cases hwanted : wanted r with
      | true =>
          rw [List.dropWhile_cons_of_neg (by simp [hwanted])]
          refine ⟨p, ?_, h⟩
          rw [skipUntil, hstop h, hwanted]
          rfl
      | false =>
          have hloop : skipUntil stop next outOfFuel (fuel + 1) p =
              skipUntil stop next outOfFuel fuel (p + (values r).length) := by
            rw [skipUntil, hstop h, hwanted]
            show (next p >>= fun q => skipUntil stop next outOfFuel fuel q) = _
            rw [hnext h hwanted]
            rfl
          rw [List.dropWhile_cons_of_pos (by simp [hwanted]), hloop]
          exact ih h.next (by omega)

end Skip

end EfiApps
