import EfiApps.Lib.RelatedLists
import Mathlib.Logic.Hydra

/-!
# Lists of work that grows

A loop takes the first piece of work off a list and puts the pieces that it leads to at
the end of the list.  It gets through exactly if no chain of pieces goes on for ever and it
gets stuck in none of the pieces it comes to.

In a C program the list is a linked list that the body of the loop appends to.
-/

namespace EfiApps

open Relation

section Drains

variable {α : Type _} (spawn : α → List α) (ok : α → Prop)

/-- The loop gets through the list in `n` rounds. -/
inductive Drains : List α → Nat → Prop
  | nil : Drains [] 0
  | cons {a : α} {rest : List α} {n : Nat} (ha : ok a) (h : Drains (rest ++ spawn a) n) :
      Drains (a :: rest) (n + 1)

/-- The piece `b` is one that `a` leads to. -/
def Spawns (a b : α) : Prop := b ∈ spawn a

variable {spawn ok}

/-- What the loop has got through leads to no endless chain and to nothing it gets stuck in. -/
theorem Drains.acc {l : List α} {n : Nat} (h : Drains spawn ok l n) :
    ∀ a ∈ l, Acc (flip (Spawns spawn)) a ∧ ∀ b, ReflTransGen (Spawns spawn) a b → ok b := by
  induction h with
  | nil => simp
  | @cons a rest n ha _ ih =>
      have hspawned : ∀ b ∈ spawn a, Acc (flip (Spawns spawn)) b ∧
          ∀ c, ReflTransGen (Spawns spawn) b c → ok c :=
        fun b hb => ih b (List.mem_append_right rest hb)
      intro b hb
      rcases List.mem_cons.mp hb with rfl | hb
      · refine ⟨.intro b fun c hc => (hspawned c hc).1, fun c hc => ?_⟩
        rcases ReflTransGen.cases_head hc with rfl | ⟨d, hd, hc⟩
        · exact ha
        · exact (hspawned d hd).2 c hc
      · exact ih b (List.mem_append_left _ hb)

/-- Pieces that lead to no endless chain, as one multiset. -/
theorem acc_cutExpand {l : List α} (h : ∀ a ∈ l, Acc (flip (Spawns spawn)) a) :
    Acc (CutExpand fun b a => Spawns spawn a b ∧ Acc (flip (Spawns spawn)) a)
      (l : Multiset α) := by
  -- No piece leads to itself if it leads to no endless chain.
  have hirrefl : Std.Irrefl fun b a => Spawns spawn a b ∧ Acc (flip (Spawns spawn)) a := by
    refine ⟨fun a h => ?_⟩
    obtain ⟨hself, hacc⟩ := h
    induction hacc with
    | intro a _ ih => exact ih a hself hself
  refine acc_of_singleton fun a ha => Acc.cutExpand ?_
  exact Subrelation.accessible (fun hba => hba.1) (h a (Multiset.mem_coe.mp ha))

theorem drains_of_acc {l : List α} (h : ∀ a ∈ l, Acc (flip (Spawns spawn)) a)
    (hok : ∀ a ∈ l, ∀ b, ReflTransGen (Spawns spawn) a b → ok b) : ∃ n, Drains spawn ok l n := by
  have hacc := acc_cutExpand h
  generalize hs : (l : Multiset α) = s at hacc
  induction hacc generalizing l with
  | intro s _ ih =>
      cases l with
      | nil => exact ⟨0, .nil⟩
      | cons a rest =>
          have hrest : ∀ b ∈ rest ++ spawn a, Acc (flip (Spawns spawn)) b ∧
              ∀ c, ReflTransGen (Spawns spawn) b c → ok c := by
            intro b hb
            rcases List.mem_append.mp hb with hb | hb
            · exact ⟨h b (List.mem_cons_of_mem a hb), hok b (List.mem_cons_of_mem a hb)⟩
            · exact ⟨(h a (by simp)).inv hb, fun c hc => hok a (by simp) c (.head hb hc)⟩
          have hsmaller : CutExpand (fun b a => Spawns spawn a b ∧ Acc (flip (Spawns spawn)) a)
              ((rest ++ spawn a : List α) : Multiset α) s := by
            refine ⟨spawn a, a, fun b hb => ⟨Multiset.mem_coe.mp hb, h a (by simp)⟩, ?_⟩
            rw [← hs, ← Multiset.coe_add, ← Multiset.cons_coe, ← Multiset.singleton_add, add_comm,
              ← add_assoc]
          obtain ⟨n, hn⟩ := ih _ hsmaller (fun b hb => (hrest b hb).1) (fun b hb => (hrest b hb).2) rfl
          exact ⟨n + 1, .cons (hok a (by simp) a .refl) hn⟩

theorem drains_iff {l : List α} :
    (∃ n, Drains spawn ok l n) ↔
      ∀ a ∈ l, Acc (flip (Spawns spawn)) a ∧ ∀ b, ReflTransGen (Spawns spawn) a b → ok b := by
  constructor
  · rintro ⟨n, h⟩
    exact h.acc
  · intro h
    exact drains_of_acc (fun a ha => (h a ha).1) fun a ha => (h a ha).2

/-- Work that leads to nothing takes a round for each piece. -/
theorem drains_of_spawn_nil {l : List α} (h : ∀ a ∈ l, ok a ∧ spawn a = []) :
    Drains spawn ok l l.length := by
  induction l with
  | nil => exact .nil
  | cons a l ih =>
      obtain ⟨ha, hnil⟩ := h a (by simp)
      refine .cons ha ?_
      rw [hnil, List.append_nil]
      exact ih fun b hb => h b (List.mem_cons_of_mem a hb)

end Drains

section forEach

variable {α β : Type _} {σ : Type _} {next : σ → α → Option α} {body : α → σ → Run σ}
  {spawn : β → List β} {ok : β → Prop}

/-- A loop over a list that it appends to has got through the work `q` when it returns.
`J s p q` says that in the state `s`, with the loop at `p`, the work `q` is left. -/
theorem forEach_drains {J : σ → Option α → List β → Prop}
    (hnil : ∀ s q, J s none q → q = [])
    (hcons : ∀ s a q, J s (some a) q → q ≠ [])
    (hstep : ∀ s s' a x rest, J s (some a) (x :: rest) → body a s = .ok s' →
      ok x ∧ J s' (next s' a) (rest ++ spawn x))
    {fuel : Nat} {p : Option α} {s s' : σ} {q : List β} (hJ : J s p q)
    (h : forEach next body fuel p s = .ok s') : (∃ n, Drains spawn ok q n) ∧ J s' none [] := by
  induction fuel generalizing p s q with
  | zero =>
      cases p with
      | none =>
          obtain rfl := Except.ok.inj h
          obtain rfl := hnil s q hJ
          exact ⟨⟨0, .nil⟩, hJ⟩
      | some a => cases h
  | succ fuel ih =>
      cases p with
      | none =>
          obtain rfl := Except.ok.inj h
          obtain rfl := hnil s q hJ
          exact ⟨⟨0, .nil⟩, hJ⟩
      | some a =>
          rw [forEach, Run.bind_eq_ok] at h
          obtain ⟨s₁, hbody, h⟩ := h
          obtain ⟨x, rest, rfl⟩ := List.exists_cons_of_ne_nil (hcons s a q hJ)
          obtain ⟨hx, hJ₁⟩ := hstep s s₁ a x rest hJ hbody
          obtain ⟨⟨n, hn⟩, hend⟩ := ih hJ₁ h
          exact ⟨⟨n + 1, .cons hx hn⟩, hend⟩

/-- It does return if it gets through the work. `K n` is what the body may rely on with `n`
rounds to go. -/
theorem forEach_of_drains {K : Nat → σ → Option α → List β → Prop}
    (hnil : ∀ n s p, K n s p [] → p = none)
    (hcons : ∀ n s x rest, ¬ K n s none (x :: rest))
    (hreturns : ∀ n s a x rest, K (n + 1) s (some a) (x :: rest) → ok x → (body a s).Returns)
    (hstep : ∀ n s s' a x rest, K (n + 1) s (some a) (x :: rest) → body a s = .ok s' →
      K n s' (next s' a) (rest ++ spawn x))
    {n fuel : Nat} {p : Option α} {s : σ} {q : List β} (hdrains : Drains spawn ok q n)
    (hfuel : n ≤ fuel) (hK : K n s p q) :
    ∃ s', forEach next body fuel p s = .ok s' ∧ K 0 s' none [] := by
  induction hdrains generalizing p s fuel with
  | nil =>
      obtain rfl := hnil 0 s p hK
      refine ⟨s, ?_, hK⟩
      cases fuel <;> rfl
  | @cons x rest n hx _ ih =>
      cases p with
      | none => exact absurd hK (hcons _ s x rest)
      | some a =>
          obtain ⟨fuel, rfl⟩ : ∃ k, fuel = k + 1 := ⟨fuel - 1, by omega⟩
          obtain ⟨s₁, hbody⟩ := hreturns n s a x rest hK hx
          rw [forEach, hbody, Run.ok_bind]
          exact ih (by omega) (hstep n s s₁ a x rest hK hbody)

end forEach

end EfiApps
