import Mathlib.Algebra.BigOperators.Group.Finset.Basic
import Mathlib.Algebra.BigOperators.Intervals
import Mathlib.Algebra.Order.BigOperators.Group.Finset

/-!
# Timed triples

A machine goes from one state to the next. A triple says that from each state of its
precondition the machine makes a given number of steps, without getting stuck, into a state
of its postcondition. The rules compose triples in sequence and in loops, and the numbers of
steps add up.
-/
namespace TimedTriples

variable {σ : Type*} {next : σ → σ → Prop}

/-- `n` steps lead from one state to the other. -/
inductive Reaches (next : σ → σ → Prop) : ℕ → σ → σ → Prop where
  | refl (s : σ) : Reaches next 0 s s
  | head {n : ℕ} {s t u : σ} (first : next s t) (rest : Reaches next n t u) :
      Reaches next (n + 1) s u

def Triple (next : σ → σ → Prop) (n : ℕ) (P Q : σ → Prop) : Prop :=
  ∀ s, P s → ∃ t, Reaches next n s t ∧ Q t

section Reaches
variable {n m : ℕ} {s t u : σ}

theorem Reaches.one (h : next s t) : Reaches next 1 s t := .head h (.refl t)

theorem Reaches.trans (h : Reaches next n s t) (h' : Reaches next m t u) :
    Reaches next (n + m) s u := by
  induction h with
  | refl s => rwa [Nat.zero_add]
  | head first rest ih =>
    rw [Nat.add_right_comm]
    exact .head first (ih h')

end Reaches

section Rules
variable {n m : ℕ} {P P' Q Q' R : σ → Prop}

theorem Triple.skip : Triple next 0 P P := fun s hs => ⟨s, .refl s, hs⟩

theorem Triple.step (h : ∀ s, P s → ∃ t, next s t ∧ Q t) : Triple next 1 P Q := by
  intro s hs
  obtain ⟨t, hnext, ht⟩ := h s hs
  exact ⟨t, .one hnext, ht⟩

theorem Triple.seq (h : Triple next n P Q) (h' : Triple next m Q R) :
    Triple next (n + m) P R := by
  intro s hs
  obtain ⟨t, hst, ht⟩ := h s hs
  obtain ⟨u, htu, hu⟩ := h' t ht
  exact ⟨u, hst.trans htu, hu⟩

theorem Triple.conseq (h : Triple next n P Q) (hP : ∀ s, P' s → P s) (hQ : ∀ s, Q s → Q' s) :
    Triple next n P' Q' := by
  intro s hs
  obtain ⟨t, hst, ht⟩ := h s (hP s hs)
  exact ⟨t, hst, hQ t ht⟩

theorem Triple.time (h : Triple next n P Q) (heq : n = m) : Triple next m P Q := heq ▸ h

/-- Rounds one after the other, each with its own number of steps. -/
theorem Triple.rounds {I : ℕ → σ → Prop} {cost : ℕ → ℕ} {count : ℕ}
    (round : ∀ k < count, Triple next (cost k) (I k) (I (k + 1))) :
    Triple next (∑ k ∈ Finset.range count, cost k) (I 0) (I count) := by
  induction count with
  | zero => exact .skip
  | succ count ih =>
    have hbefore := ih fun k hk => round k (Nat.lt_succ_of_lt hk)
    rw [Finset.sum_range_succ]
    exact hbefore.seq (round count (Nat.lt_succ_self count))

/-- A loop that is left at its end: what stands there starts all rounds but the first, and
after the last round goes on. -/
theorem Triple.doWhile {I J : ℕ → σ → Prop} {cost : ℕ → ℕ} {count test : ℕ} (hpos : 0 < count)
    (body : ∀ k < count, Triple next (cost k) (I k) (J k))
    (again : ∀ k, k + 1 < count → Triple next test (J k) (I (k + 1)))
    (leave : Triple next test (J (count - 1)) Q) :
    Triple next (∑ k ∈ Finset.range count, (cost k + test)) (I 0) Q := by
  obtain ⟨last, rfl⟩ : ∃ last, count = last + 1 := ⟨count - 1, by omega⟩
  have hround : ∀ k < last, Triple next (cost k + test) (I k) (I (k + 1)) := fun k hk =>
    (body k (by omega)).seq (again k (by omega))
  have hlast : Triple next (cost last + test) (I last) Q := (body last (by omega)).seq leave
  rw [Finset.sum_range_succ]
  exact (Triple.rounds hround).seq hlast

end Rules

end TimedTriples
