import Mathlib.Data.List.Nodup
import Mathlib.Logic.Function.Basic

/-!
# Loops over NULL-terminated linked lists

A C program walks a linked list with `for (c = start; c; c = c->next) body`.
The loop may fail to return: it can dereference `NULL`, and it can follow a
cycle for ever.  `Run` makes both outcomes values, `forEach` is the loop itself
with the number of iterations it may still take, and `Linked` says that
following `next` from a pointer meets exactly the cells of a list and then
`NULL`.

Nothing here mentions a particular record: cells are an arbitrary type, and the
loop state is an arbitrary type from which the `next` field can be read.
-/

namespace EfiApps

/-- Why a modelled C function did not return. -/
inductive Halt
  | nullDereference
  | outOfFuel
  deriving DecidableEq, Repr

/-- The outcome of a C function that may not return. -/
abbrev Run (α : Type _) := Except Halt α

namespace Run

/-- The outcome is a proper return. -/
def Returns {α : Type _} (r : Run α) : Prop := ∃ a, r = .ok a

@[simp] theorem returns_ok {α : Type _} (a : α) : Returns (Except.ok a : Run α) := ⟨a, rfl⟩

@[simp] theorem not_returns_error {α : Type _} (e : Halt) :
    ¬ Returns (Except.error e : Run α) := by
  rintro ⟨a, ha⟩
  cases ha

/-- Dereference a pointer. -/
def deref {α : Type _} : Option α → Run α
  | some a => .ok a
  | none => .error .nullDereference

@[simp] theorem deref_some {α : Type _} (a : α) : deref (some a) = .ok a := rfl

@[simp] theorem deref_none {α : Type _} :
    deref (none : Option α) = .error .nullDereference := rfl

@[simp] theorem ok_bind {α β : Type _} (a : α) (f : α → Run β) :
    (Except.ok a >>= f) = f a := rfl

@[simp] theorem error_bind {α β : Type _} (e : Halt) (f : α → Run β) :
    ((Except.error e : Run α) >>= f) = .error e := rfl

theorem bind_eq_ok {α β : Type _} {x : Run α} {f : α → Run β} {b : β} :
    x >>= f = .ok b ↔ ∃ a, x = .ok a ∧ f a = .ok b := by
  cases x with
  | ok a => simp
  | error e => simp

end Run

section Linked

variable {α : Type _} {σ : Type _}

/-- Following `next` from the pointer meets exactly the cells of the list, in
order, and then `NULL`. -/
def Linked (next : α → Option α) : Option α → List α → Prop
  | p, [] => p = none
  | p, a :: l => p = some a ∧ Linked next (next a) l

@[simp] theorem linked_nil_iff (next : α → Option α) (p : Option α) :
    Linked next p [] ↔ p = none := Iff.rfl

@[simp] theorem linked_cons_iff (next : α → Option α) (p : Option α) (a : α) (l : List α) :
    Linked next p (a :: l) ↔ p = some a ∧ Linked next (next a) l := Iff.rfl

instance decidableLinked [DecidableEq α] (next : α → Option α) :
    ∀ (p : Option α) (l : List α), Decidable (Linked next p l)
  | p, [] => inferInstanceAs (Decidable (p = none))
  | p, a :: l =>
      have := decidableLinked next (next a) l
      inferInstanceAs (Decidable (p = some a ∧ Linked next (next a) l))

/-- A pointer starts at most one list. -/
theorem Linked.unique {next : α → Option α} {p : Option α} {l l' : List α}
    (h : Linked next p l) (h' : Linked next p l') : l = l' := by
  induction l generalizing p l' with
  | nil =>
      cases l' with
      | nil => rfl
      | cons b l' => simp_all
  | cons a l ih =>
      cases l' with
      | nil => simp_all
      | cons b l' =>
          obtain ⟨rfl, htail⟩ := h
          obtain ⟨hhead, htail'⟩ := h'
          obtain rfl := Option.some.inj hhead
          rw [ih htail htail']

/-- The list depends only on the `next` fields of its own cells. -/
theorem Linked.congr {next next' : α → Option α} {p : Option α} {l : List α}
    (h : Linked next p l) (hsame : ∀ a ∈ l, next' a = next a) : Linked next' p l := by
  induction l generalizing p with
  | nil => exact h
  | cons a l ih =>
      obtain ⟨hp, htail⟩ := h
      refine ⟨hp, ?_⟩
      rw [hsame a (by simp)]
      exact ih htail fun b hb => hsame b (by simp [hb])

/-- The tail of a list that starts at a later cell. -/
theorem Linked.drop {next : α → Option α} {p : Option α} {l₁ l₂ : List α} {a : α}
    (h : Linked next p (l₁ ++ a :: l₂)) : Linked next (next a) l₂ := by
  induction l₁ generalizing p with
  | nil => exact h.2
  | cons b l₁ ih => exact ih h.2

/-- A linked list has no repeated cell: a repeated cell would never reach `NULL`. -/
theorem Linked.nodup {next : α → Option α} {p : Option α} {l : List α}
    (h : Linked next p l) : l.Nodup := by
  induction l generalizing p with
  | nil => exact List.nodup_nil
  | cons a l ih =>
      refine List.nodup_cons.mpr ⟨?_, ih h.2⟩
      intro hmem
      obtain ⟨s, t, hst⟩ := List.append_of_mem hmem
      have htail := h.2
      rw [hst] at htail
      -- The list after the first `a` and the list after the second one start at the same pointer.
      have heq : l = t := h.2.unique htail.drop
      have hlen := congrArg List.length (hst.symm.trans heq)
      simp at hlen
      omega

/-- Storing a fresh last cell in the `next` field of the old last cell appends it. -/
theorem Linked.append [DecidableEq α] {next : α → Option α} {p : Option α} {l : List α}
    {a b : α} (h : Linked next p (l ++ [a])) (hb : b ∉ l ++ [a]) (hend : next b = none) :
    Linked (Function.update next a (some b)) p (l ++ [a, b]) := by
  induction l generalizing p with
  | nil =>
      have hab : b ≠ a := by simpa using hb
      simpa [hab, hend] using h.1
  | cons c l ih =>
      have hca : c ≠ a := by
        intro hca
        subst hca
        exact (List.nodup_cons.mp h.nodup).1 (by simp)
      refine ⟨h.1, ?_⟩
      rw [Function.update_of_ne hca]
      exact ih h.2 (by simp at hb ⊢; tauto)

/-- `for (c = start; c; c = c->next) body`, allowed the given number of
iterations.  The body runs before `next` is read, as in C. -/
def forEach (next : σ → α → Option α) (body : α → σ → Run σ) :
    Nat → Option α → σ → Run σ
  | _, none, s => .ok s
  | 0, some _, _ => .error .outOfFuel
  | fuel + 1, some a, s => do
      let s ← body a s
      forEach next body fuel (next s a) s

/-- The loop visits the cells of a linked list in order, provided the body
neither fails nor changes the `next` field of a cell of the list.  `P` is what
the body may rely on, and keeps. -/
theorem forEach_linked (next : σ → α → Option α) {body : α → σ → Run σ}
    (step : σ → α → σ) (P : σ → Prop) {l : List α}
    (hbody : ∀ a ∈ l, ∀ s, P s → body a s = .ok (step s a))
    (hkeep : ∀ a ∈ l, ∀ s, P s → P (step s a))
    (hnext : ∀ a ∈ l, ∀ s, P s → ∀ b ∈ l, next (step s a) b = next s b)
    {fuel : Nat} {p : Option α} {s : σ}
    (hP : P s) (hlinked : Linked (next s) p l) (hfuel : l.length ≤ fuel) :
    forEach next body fuel p s = .ok (l.foldl step s) := by
  induction l generalizing fuel p s with
  | nil =>
      obtain rfl : p = none := hlinked
      cases fuel <;> rfl
  | cons a l ih =>
      obtain ⟨rfl, htail⟩ := hlinked
      cases fuel with
      | zero => simp at hfuel
      | succ fuel =>
          simp only [forEach, hbody a (by simp) s hP, Run.ok_bind, List.foldl_cons]
          rw [hnext a (by simp) s hP a (by simp)]
          refine ih (fun b hb => hbody b (by simp [hb])) (fun b hb => hkeep b (by simp [hb]))
            (fun b hb s hs c hc => hnext b (by simp [hb]) s hs c (by simp [hc]))
            (hkeep a (by simp) s hP) ?_ (by simpa using hfuel)
          exact htail.congr fun b hb => hnext a (by simp) s hP b (by simp [hb])

/-- An invariant of the pointer and the loop state that every iteration keeps holds
when the loop has returned, with `NULL` for the pointer. -/
theorem forEach_invariant {next : σ → α → Option α} {body : α → σ → Run σ}
    {I : Option α → σ → Prop}
    (hbody : ∀ a s s', I (some a) s → body a s = .ok s' → I (next s' a) s')
    {fuel : Nat} {p : Option α} {s s' : σ} (hI : I p s)
    (h : forEach next body fuel p s = .ok s') : I none s' := by
  induction fuel generalizing p s with
  | zero =>
      cases p with
      | none =>
          obtain rfl := Except.ok.inj h
          exact hI
      | some a => cases h
  | succ fuel ih =>
      cases p with
      | none =>
          obtain rfl := Except.ok.inj h
          exact hI
      | some a =>
          rw [forEach, Run.bind_eq_ok] at h
          obtain ⟨s₁, hs₁, h⟩ := h
          exact ih (hbody a s s₁ hI hs₁) h

/-- A loop over a list that it does not change returns if its body does. -/
theorem forEach_returns {next : α → Option α} {body : α → σ → Run σ} {l : List α}
    (hbody : ∀ a ∈ l, ∀ s, (body a s).Returns) {fuel : Nat} {p : Option α} (s : σ)
    (hlinked : Linked next p l) (hfuel : l.length ≤ fuel) :
    (forEach (fun _ => next) body fuel p s).Returns := by
  induction l generalizing fuel p s with
  | nil =>
      obtain rfl : p = none := hlinked
      cases fuel <;> exact ⟨s, rfl⟩
  | cons a l ih =>
      obtain ⟨rfl, htail⟩ := hlinked
      cases fuel with
      | zero => simp at hfuel
      | succ fuel =>
          obtain ⟨s', hs'⟩ := hbody a (by simp) s
          simp only [forEach, hs', Run.ok_bind]
          exact ih (fun b hb => hbody b (by simp [hb])) s' htail (by simpa using hfuel)

/-! A loop that returns, judged by what it has visited: `I done s` says what is true of the
state `s` when the cells `done` are behind it. -/

/-- The invariant holds when a loop over a list that it does not change has returned. -/
theorem forEach_visited {next : σ → α → Option α} {body : α → σ → Run σ}
    {f : α → Option α} {I : List α → σ → Prop} {l : List α}
    (hnext : ∀ done s, I done s → ∀ a ∈ l, next s a = f a)
    (hbody : ∀ done, ∀ a ∈ l, ∀ s s', I done s → body a s = .ok s' → I (done ++ [a]) s')
    {fuel : Nat} {p : Option α} {done : List α} {s s' : σ} (hI : I done s)
    (hlinked : Linked f p l) (h : forEach next body fuel p s = .ok s') : I (done ++ l) s' := by
  induction l generalizing fuel p done s with
  | nil =>
      obtain rfl : p = none := hlinked
      cases fuel <;>
        · obtain rfl := Except.ok.inj h
          simpa using hI
  | cons a l ih =>
      obtain ⟨rfl, htail⟩ := hlinked
      cases fuel with
      | zero => cases h
      | succ fuel =>
          rw [forEach, Run.bind_eq_ok] at h
          obtain ⟨s₁, hs₁, h⟩ := h
          have hI₁ := hbody done a (by simp) s s₁ hI hs₁
          rw [hnext _ _ hI₁ a (by simp)] at h
          have := ih (fun done s hs b hb => hnext done s hs b (by simp [hb]))
            (fun done b hb => hbody done b (by simp [hb])) hI₁ htail h
          simpa using this

/-- It does return if its body does. -/
theorem forEach_visits {next : σ → α → Option α} {body : α → σ → Run σ}
    {f : α → Option α} {I : List α → σ → Prop} {l : List α}
    (hnext : ∀ done s, I done s → ∀ a ∈ l, next s a = f a)
    (hbody : ∀ done, ∀ a ∈ l, ∀ s s', I done s → body a s = .ok s' → I (done ++ [a]) s')
    (hreturns : ∀ done, ∀ a ∈ l, ∀ s, I done s → (body a s).Returns)
    {fuel : Nat} {p : Option α} {done : List α} {s : σ} (hI : I done s)
    (hlinked : Linked f p l) (hfuel : l.length ≤ fuel) :
    (forEach next body fuel p s).Returns := by
  induction l generalizing fuel p done s with
  | nil =>
      obtain rfl : p = none := hlinked
      cases fuel <;> exact ⟨s, rfl⟩
  | cons a l ih =>
      obtain ⟨rfl, htail⟩ := hlinked
      cases fuel with
      | zero => simp at hfuel
      | succ fuel =>
          obtain ⟨s₁, hs₁⟩ := hreturns done a (by simp) s hI
          have hI₁ := hbody done a (by simp) s s₁ hI hs₁
          rw [forEach, hs₁, Run.ok_bind, hnext _ _ hI₁ a (by simp)]
          exact ih (fun done s hs b hb => hnext done s hs b (by simp [hb]))
            (fun done b hb => hbody done b (by simp [hb]))
            (fun done b hb => hreturns done b (by simp [hb])) hI₁ htail (by simpa using hfuel)

/-- The same for a loop over an array. -/
theorem foldlM_visited {body : σ → α → Run σ} {I : List α → σ → Prop} {l : List α}
    (hbody : ∀ done, ∀ a ∈ l, ∀ s s', I done s → body s a = .ok s' → I (done ++ [a]) s')
    {done : List α} {s s' : σ} (hI : I done s) (h : l.foldlM body s = .ok s') :
    I (done ++ l) s' := by
  induction l generalizing done s with
  | nil =>
      obtain rfl := Except.ok.inj h
      simpa using hI
  | cons a l ih =>
      rw [List.foldlM_cons, Run.bind_eq_ok] at h
      obtain ⟨s₁, hs₁, h⟩ := h
      have := ih (fun done b hb => hbody done b (by simp [hb])) (hbody done a (by simp) s s₁ hI hs₁) h
      simpa using this

theorem foldlM_visits {body : σ → α → Run σ} {I : List α → σ → Prop} {l : List α}
    (hbody : ∀ done, ∀ a ∈ l, ∀ s s', I done s → body s a = .ok s' → I (done ++ [a]) s')
    (hreturns : ∀ done, ∀ a ∈ l, ∀ s, I done s → (body s a).Returns)
    {done : List α} {s : σ} (hI : I done s) : (l.foldlM body s).Returns := by
  induction l generalizing done s with
  | nil => exact ⟨s, rfl⟩
  | cons a l ih =>
      obtain ⟨s₁, hs₁⟩ := hreturns done a (by simp) s hI
      rw [List.foldlM_cons, hs₁, Run.ok_bind]
      exact ih (fun done b hb => hbody done b (by simp [hb]))
        (fun done b hb => hreturns done b (by simp [hb])) (hbody done a (by simp) s s₁ hI hs₁)

/-- Enough fuel for each element of a list is enough for all of them. -/
theorem exists_forall_mem_of_eventually {P : α → Nat → Prop} {l : List α}
    (h : ∀ a ∈ l, ∃ fuel₁, ∀ fuel ≥ fuel₁, P a fuel) :
    ∃ fuel₁, ∀ fuel ≥ fuel₁, ∀ a ∈ l, P a fuel := by
  induction l with
  | nil => exact ⟨0, by simp⟩
  | cons a l ih =>
      obtain ⟨m, hm⟩ := h a (by simp)
      obtain ⟨n, hn⟩ := ih fun c hc => h c (by simp [hc])
      refine ⟨m + n, fun fuel hfuel c hc => ?_⟩
      rcases List.mem_cons.mp hc with rfl | hc
      · exact hm fuel (by omega)
      · exact hn fuel (by omega) c hc

end Linked

end EfiApps
