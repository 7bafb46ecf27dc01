import Mathlib.Data.Nat.Notation
import Mathlib.Order.Defs.Unbundled

/-!
# Stateful computations that fail and emit events

A computation is run at a state. It ends with a value or with an error, and in
both cases it leaves a state and the list of events it emitted, oldest first.
An error keeps the effects that came before it, as a thrown exception does.
-/
namespace EventComputation

structure Outcome (σ ε ω α : Type) where
  result : Except ε α
  state : σ
  events : List ω

variable {σ τ ε ω α β γ : Type}

/-- The same outcome with earlier events in front. -/
def Outcome.after (earlier : List ω) (o : Outcome σ ε ω α) : Outcome σ ε ω α :=
  { o with events := earlier ++ o.events }

@[simp] theorem Outcome.after_mk (earlier events : List ω) (r : Except ε α) (s : σ) :
    Outcome.after earlier ⟨r, s, events⟩ = ⟨r, s, earlier ++ events⟩ := rfl

@[simp] theorem Outcome.result_after (earlier : List ω) (o : Outcome σ ε ω α) :
    (o.after earlier).result = o.result := rfl

@[simp] theorem Outcome.state_after (earlier : List ω) (o : Outcome σ ε ω α) :
    (o.after earlier).state = o.state := rfl

@[simp] theorem Outcome.events_after (earlier : List ω) (o : Outcome σ ε ω α) :
    (o.after earlier).events = earlier ++ o.events := rfl

@[simp] theorem Outcome.after_nil (o : Outcome σ ε ω α) : o.after [] = o := rfl

/-- An outcome with earlier events in front is the later outcome. -/
theorem Outcome.of_after_eq {earlier events : List ω} {o : Outcome σ ε ω α} {r : Except ε α} {s : σ}
    (h : o.after earlier = ⟨r, s, events⟩) :
    ∃ later, o = ⟨r, s, later⟩ ∧ events = earlier ++ later := by
  obtain ⟨rfl, rfl, rfl⟩ := Outcome.mk.inj h
  exact ⟨o.events, rfl, rfl⟩

structure Routine (σ ε ω α : Type) where
  run : σ → Outcome σ ε ω α

namespace Routine

/-- An error stops the sequence; the state and events reached so far stay. -/
def bind (x : Routine σ ε ω α) (f : α → Routine σ ε ω β) : Routine σ ε ω β where
  run s := match x.run s with
    | ⟨.ok a, t, events⟩ => ((f a).run t).after events
    | ⟨.error e, t, events⟩ => ⟨.error e, t, events⟩

instance : Monad (Routine σ ε ω) where
  pure a := ⟨fun s => ⟨.ok a, s, []⟩⟩
  bind := bind

def get : Routine σ ε ω σ := ⟨fun s => ⟨.ok s, s, []⟩⟩

def modify (f : σ → σ) : Routine σ ε ω Unit := ⟨fun s => ⟨.ok (), f s, []⟩⟩

def emit (event : ω) : Routine σ ε ω Unit := ⟨fun s => ⟨.ok (), s, [event]⟩⟩

/-- Run a computation on a component of a larger state. -/
def zoom (component : σ → τ) (replace : σ → τ → σ) (x : Routine τ ε ω α) :
    Routine σ ε ω α where
  run s :=
    let o := x.run (component s)
    ⟨o.result, replace s o.state, o.events⟩

@[simp] theorem run_pure (a : α) (s : σ) :
    (pure a : Routine σ ε ω α).run s = ⟨.ok a, s, []⟩ := rfl

@[simp] theorem run_get (s : σ) : (get : Routine σ ε ω σ).run s = ⟨.ok s, s, []⟩ := rfl

@[simp] theorem run_modify (f : σ → σ) (s : σ) :
    (modify f : Routine σ ε ω Unit).run s = ⟨.ok (), f s, []⟩ := rfl

@[simp] theorem run_emit (event : ω) (s : σ) :
    (emit event : Routine σ ε ω Unit).run s = ⟨.ok (), s, [event]⟩ := rfl

theorem run_zoom (component : σ → τ) (replace : σ → τ → σ) (x : Routine τ ε ω α) (s : σ) :
    (zoom component replace x).run s =
      ⟨(x.run (component s)).result, replace s (x.run (component s)).state,
        (x.run (component s)).events⟩ := rfl

theorem run_bind (x : Routine σ ε ω α) (f : α → Routine σ ε ω β) (s : σ) :
    (x >>= f).run s = match x.run s with
      | ⟨.ok a, t, events⟩ => ((f a).run t).after events
      | ⟨.error e, t, events⟩ => ⟨.error e, t, events⟩ := rfl

/-- A first part that succeeds hands its value and state to the rest. -/
theorem run_bind_of_ok {x : Routine σ ε ω α} {s t : σ} {a : α} {events : List ω}
    (h : x.run s = ⟨.ok a, t, events⟩) (f : α → Routine σ ε ω β) :
    (x >>= f).run s = ((f a).run t).after events := by
  rw [run_bind, h]

theorem run_bind_of_error {x : Routine σ ε ω α} {s t : σ} {e : ε} {events : List ω}
    (h : x.run s = ⟨.error e, t, events⟩) (f : α → Routine σ ε ω β) :
    (x >>= f).run s = ⟨.error e, t, events⟩ := by
  rw [run_bind, h]

@[simp] theorem pure_bind (a : α) (f : α → Routine σ ε ω β) : (pure a >>= f) = f a := rfl

/-- A sequence that succeeds went through its first part. -/
theorem of_run_bind_ok {x : Routine σ ε ω α} {f : α → Routine σ ε ω β} {s u : σ} {b : β}
    {events : List ω} (h : (x >>= f).run s = ⟨.ok b, u, events⟩) :
    ∃ a t earlier later, x.run s = ⟨.ok a, t, earlier⟩ ∧ (f a).run t = ⟨.ok b, u, later⟩ ∧
      events = earlier ++ later := by
  rcases hx : x.run s with ⟨_ | a, t, earlier⟩
  · rw [run_bind_of_error hx] at h
    cases h
  · rw [run_bind_of_ok hx] at h
    obtain ⟨later, hlater, hevents⟩ := Outcome.of_after_eq h
    exact ⟨a, t, earlier, later, rfl, hlater, hevents⟩

/-- A computation is what it does at each state. -/
theorem ext_run {x y : Routine σ ε ω α} (h : ∀ s, x.run s = y.run s) : x = y := by
  cases x
  cases y
  exact congrArg mk (funext h)

theorem after_after (earlier later : List ω) (o : Outcome σ ε ω α) :
    (o.after later).after earlier = o.after (earlier ++ later) := by
  simp [Outcome.after]

/-- Stated by name only: as an instance the monad laws would change what `simp` leaves. -/
theorem bind_assoc (x : Routine σ ε ω α) (f : α → Routine σ ε ω β) (g : β → Routine σ ε ω γ) :
    (x >>= f) >>= g = x >>= fun a => f a >>= g := by
  apply ext_run
  intro s
  rcases hx : x.run s with ⟨_ | a, t, events⟩
  · rw [run_bind_of_error (run_bind_of_error hx f), run_bind_of_error hx]
  · rw [run_bind_of_ok hx, run_bind, run_bind_of_ok hx, run_bind]
    rcases hf : (f a).run t with ⟨_ | b, u, later⟩
    · rfl
    · exact (after_after events later _).symm

@[simp] theorem run_ite (c : Prop) [Decidable c] (x y : Routine σ ε ω α) (s : σ) :
    (if c then x else y).run s = if c then x.run s else y.run s := by
  split <;> rfl

/-! ## Pre- and postconditions

`Preserves R x`: whatever `x` ends with, the state it leaves is `R`-related to
the state it was run at. `Emits p x`: every event of `x` satisfies `p`. Neither
asks for success, so both rules for sequences hold on the error path as well. -/

def Preserves (R : σ → σ → Prop) (x : Routine σ ε ω α) : Prop :=
  ∀ s, R s (x.run s).state

def Emits (p : ω → Prop) (x : Routine σ ε ω α) : Prop :=
  ∀ s, ∀ e ∈ (x.run s).events, p e

section Preserves
variable {R : σ → σ → Prop}

theorem Preserves.pure [Std.Refl R] (a : α) :
    Preserves R (Pure.pure a : Routine σ ε ω α) := fun s => refl s

theorem Preserves.get [Std.Refl R] : Preserves R (get : Routine σ ε ω σ) := fun s => refl s

theorem Preserves.bind [IsTrans σ R] {x : Routine σ ε ω α} {f : α → Routine σ ε ω β}
    (hx : Preserves R x) (hf : ∀ a, Preserves R (f a)) : Preserves R (x >>= f) := by
  intro s
  rcases h : x.run s with ⟨_ | a, t, events⟩
  · rw [run_bind_of_error h]
    simpa [h] using hx s
  · rw [run_bind_of_ok h]
    exact IsTrans.trans _ t _ (by simpa [h] using hx s) (hf a t)

end Preserves

section Emits
variable {p : ω → Prop}

theorem Emits.pure (a : α) : Emits p (Pure.pure a : Routine σ ε ω α) := by
  intro s e he
  simp at he

theorem Emits.get : Emits p (get : Routine σ ε ω σ) := by
  intro s e he
  simp at he

theorem Emits.bind {x : Routine σ ε ω α} {f : α → Routine σ ε ω β}
    (hx : Emits p x) (hf : ∀ a, Emits p (f a)) : Emits p (x >>= f) := by
  intro s e he
  rcases h : x.run s with ⟨_ | a, t, events⟩
  · rw [run_bind_of_error h] at he
    exact hx s e (by simpa [h] using he)
  · rw [run_bind_of_ok h] at he
    rcases List.mem_append.mp he with he | he
    · exact hx s e (by simpa [h] using he)
    · exact hf a t e he

theorem Emits.mono {q : ω → Prop} {x : Routine σ ε ω α} (hx : Emits p x)
    (h : ∀ e, p e → q e) : Emits q x :=
  fun s e he => h e (hx s e he)

end Emits

/-! ## Runs

`Iterates x n s events t`: running `x` again and again from `s` succeeds `n`
times, emits `events` altogether and ends in `t`. -/

inductive Iterates (x : Routine σ ε ω α) : ℕ → σ → List ω → σ → Prop where
  | refl (s : σ) : Iterates x 0 s [] s
  | step {n : ℕ} {s t u : σ} {a : α} {events later : List ω}
      (head : x.run s = ⟨.ok a, t, events⟩) (tail : Iterates x n t later u) :
      Iterates x (n + 1) s (events ++ later) u

section Iterates
variable {x : Routine σ ε ω α} {s t u : σ} {n m : ℕ} {events later : List ω}

theorem Iterates.trans (h : Iterates x n s events t) (h' : Iterates x m t later u) :
    Iterates x (n + m) s (events ++ later) u := by
  induction h with
  | refl s => simpa using h'
  | step head tail ih =>
    rw [List.append_assoc, Nat.add_right_comm]
    exact .step head (ih h')

/-- What one step preserves, every run preserves. -/
theorem Iterates.invariant {I : σ → Prop} (h : Iterates x n s events t)
    (step : ∀ {s t a events}, I s → x.run s = ⟨.ok a, t, events⟩ → I t) (hs : I s) : I t := by
  induction h with
  | refl s => exact hs
  | step head tail ih => exact ih (step hs head)

/-- Every state that one of the first `n` steps from `s` is taken at satisfies `P`. -/
def StepsFrom (x : Routine σ ε ω α) (n : ℕ) (s : σ) (P : σ → Prop) : Prop :=
  ∀ k < n, ∀ events u, Iterates x k s events u → P u

theorem StepsFrom.head {P : σ → Prop} (h : StepsFrom x (n + 1) s P) : P s :=
  h 0 n.succ_pos [] s (.refl s)

theorem StepsFrom.tail {P : σ → Prop} (h : StepsFrom x (n + 1) s P) {a : α}
    (step : x.run s = ⟨.ok a, t, events⟩) : StepsFrom x n t P :=
  fun k hk later u hu => h (k + 1) (Nat.succ_lt_succ hk) (events ++ later) u (.step step hu)

theorem StepsFrom.zero (s : σ) (P : σ → Prop) : StepsFrom x 0 s P :=
  fun k hk => absurd hk k.not_lt_zero

theorem StepsFrom.cons {P : σ → Prop} (hs : P s)
    (h : ∀ a t events, x.run s = ⟨.ok a, t, events⟩ → StepsFrom x n t P) :
    StepsFrom x (n + 1) s P := by
  intro k hk events u hu
  cases hu with
  | refl => exact hs
  | step head tail => exact h _ _ _ head _ (Nat.lt_of_succ_lt_succ hk) _ _ tail

/-- A property of the next state extends a property of the states before it. -/
theorem StepsFrom.snoc {P : σ → Prop} (h : StepsFrom x n s P)
    (hlast : ∀ events u, Iterates x n s events u → P u) : StepsFrom x (n + 1) s P := by
  intro k hk events u hu
  rcases Nat.lt_succ_iff_lt_or_eq.mp hk with hlt | rfl
  · exact h k hlt events u hu
  · exact hlast events u hu

theorem StepsFrom.mono {P : σ → Prop} (h : StepsFrom x n s P) (hm : m ≤ n) : StepsFrom x m s P :=
  fun k hk => h k (Nat.lt_of_lt_of_le hk hm)

/-- What a step preserves at states satisfying `P` is preserved by every run whose
steps are taken at such states. -/
theorem StepsFrom.invariant {I P : σ → Prop} (hP : StepsFrom x n s P)
    (h : Iterates x n s events t)
    (step : ∀ {s t a events}, I s → P s → x.run s = ⟨.ok a, t, events⟩ → I t) (hs : I s) :
    I t := by
  induction h with
  | refl s => exact hs
  | step head tail ih => exact ih (hP.tail head) (step hs hP.head head)

end Iterates

end Routine

end EventComputation
