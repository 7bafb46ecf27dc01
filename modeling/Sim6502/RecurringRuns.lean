import Mathlib.Data.Fintype.Pigeonhole
import Sim6502.TimedTriples

/-!
# Runs that recur

A machine that always knows its next state, and that can tell only finitely many of the states
of a run apart, goes on for ever exactly when it comes back to a state. From there on the run
is periodic.
-/
namespace TimedTriples

variable {σ : Type*} {next : σ → σ → Prop}

/-- The run never gets stuck. -/
def Forever (next : σ → σ → Prop) (s : σ) : Prop := ∀ n, ∃ t, Reaches next n s t

/-- There is at most one next state. -/
def Deterministic (next : σ → σ → Prop) : Prop := ∀ s t u, next s t → next s u → t = u

section Runs
variable {s t u : σ} {n m i j : ℕ}

theorem Reaches.split (h : Reaches next (n + m) s u) :
    ∃ t, Reaches next n s t ∧ Reaches next m t u := by
  induction n generalizing s with
  | zero =>
    rw [Nat.zero_add] at h
    exact ⟨s, .refl s, h⟩
  | succ n ih =>
    rw [Nat.succ_add] at h
    cases h with
    | head first rest =>
      obtain ⟨t, hbefore, hbehind⟩ := ih rest
      exact ⟨t, .head first hbefore, hbehind⟩

theorem Reaches.repeat (h : Reaches next n s s) (m : ℕ) : Reaches next (m * n) s s := by
  induction m with
  | zero =>
    rw [Nat.zero_mul]
    exact .refl s
  | succ m ih =>
    rw [Nat.succ_mul]
    exact ih.trans h

variable (deterministic : Deterministic next)
include deterministic

theorem Reaches.unique (h : Reaches next n s t) (h' : Reaches next n s u) : t = u := by
  induction h with
  | refl s =>
    cases h' with
    | refl => rfl
  | head first rest ih =>
    cases h' with
    | head first' rest' =>
      obtain rfl := deterministic _ _ _ first first'
      exact ih rest'

/-- Two visits of a state make up a cycle. -/
theorem Reaches.cycle (h : Reaches next i s t) (h' : Reaches next j s t) (hlt : i < j) :
    Reaches next (j - i) t t := by
  rw [← Nat.add_sub_cancel' hlt.le] at h'
  obtain ⟨u, hbefore, hbehind⟩ := h'.split
  obtain rfl := hbefore.unique deterministic h
  exact hbehind

/-- A run that comes back to a state does not end. -/
theorem Reaches.forever (h : Reaches next i s t) (h' : Reaches next j s t) (hlt : i < j) :
    Forever next s := by
  intro n
  have hcycle := (h.cycle deterministic h' hlt).repeat n
  have hlong : n ≤ i + n * (j - i) := by
    have hone : 1 ≤ j - i := by omega
    calc n = n * 1 := (Nat.mul_one n).symm
      _ ≤ n * (j - i) := Nat.mul_le_mul_left n hone
      _ ≤ i + n * (j - i) := Nat.le_add_left _ _
  have hrun := h.trans hcycle
  rw [← Nat.add_sub_cancel' hlong] at hrun
  obtain ⟨u, hbefore, -⟩ := hrun.split
  exact ⟨u, hbefore⟩

/-- From there on it is periodic. -/
theorem Reaches.periodic (h : Reaches next i s t) (h' : Reaches next j s t) (k : ℕ) :
    Reaches next (i + k) s u ↔ Reaches next (j + k) s u := by
  constructor
  · intro hu
    obtain ⟨v, hv, hbehind⟩ := hu.split
    rw [hv.unique deterministic h] at hbehind
    exact h'.trans hbehind
  · intro hu
    obtain ⟨v, hv, hbehind⟩ := hu.split
    rw [hv.unique deterministic h'] at hbehind
    exact h.trans hbehind

end Runs

/-- A run of as many steps as there are states comes back to one of them. -/
theorem Reaches.recurs {β : Type*} [Fintype β] {s u : σ} (h : Reaches next (Fintype.card β) s u)
    (image : σ → β)
    (tells : ∀ n m t u, Reaches next n s t → Reaches next m s u → image t = image u → t = u) :
    ∃ i j t, i < j ∧ j ≤ Fintype.card β ∧ Reaches next i s t ∧ Reaches next j s t := by
  have hreached (k : Fin (Fintype.card β + 1)) : ∃ t, Reaches next k s t := by
    have hk := Nat.le_of_lt_succ k.isLt
    rw [← Nat.add_sub_cancel' hk] at h
    obtain ⟨t, hbefore, -⟩ := h.split
    exact ⟨t, hbefore⟩
  choose state hstate using hreached
  obtain ⟨i, j, hne, heq⟩ := Fintype.exists_ne_map_eq_of_card_lt
    (fun k : Fin (Fintype.card β + 1) => image (state k)) (by rw [Fintype.card_fin]; omega)
  have hsame : state i = state j := tells i j _ _ (hstate i) (hstate j) heq
  have hval : (i : ℕ) ≠ j := fun h => hne (Fin.ext h)
  rcases Nat.lt_or_gt_of_ne hval with hlt | hlt
  · refine ⟨i, j, state i, hlt, Nat.le_of_lt_succ j.isLt, hstate i, ?_⟩
    rw [hsame]
    exact hstate j
  · refine ⟨j, i, state j, hlt, Nat.le_of_lt_succ i.isLt, hstate j, ?_⟩
    rw [← hsame]
    exact hstate i

end TimedTriples
