import Sim6502.StepAnalysis

/-!
# Iterations of the loop of `execute`

An iteration finds `PC` behind the memory, fails, meets the end of the program, or
leaves the rest of the loop to do. `Continues isa n s events t`: from `s` the loop makes
`n` iterations of the last kind, with `events` altogether, and is then at the state `t`.
-/
namespace Sim6502
open EventComputation CPU6502

/-! ## One iteration -/

section Iteration
variable {isa : CPU6502ISA} {n : ℕ} {s t : CPU6502} {events : List Event}

/-- The step that meets the end of the program ends the loop. -/
theorem run_execute_stop (guard : s.PC.toNat < s.memory.size)
    (head : (step isa).run s = ⟨.ok .stop, t, events⟩) (m : ℕ) :
    (execute isa (m + 1)).run s = ⟨.ok true, t, events ++ [.announce .stpReached]⟩ := by
  rw [execute, Routine.run_bind_of_ok (Routine.run_get s), if_pos guard,
    Routine.run_bind_of_ok head, if_pos rfl]
  rfl

/-- An iteration that does not end the loop, and the others. -/
theorem run_execute_next {err : InstructionErr} (guard : s.PC.toNat < s.memory.size)
    (head : (step isa).run s = ⟨.ok err, t, events⟩) (going : err ≠ .stop) (n : ℕ) :
    (execute isa (n + 1)).run s = ((execute isa n).run t).after events := by
  rw [execute, Routine.run_bind_of_ok (Routine.run_get s), if_pos guard,
    Routine.run_bind_of_ok head, if_neg going, Outcome.after_nil]

/-- Every way the first iteration of the loop can go. -/
inductive IterationCase (isa : CPU6502ISA) (n : ℕ) (s : CPU6502) :
    Outcome CPU6502 Fault Event Bool → Prop where
  | ended (guard : ¬s.PC.toNat < s.memory.size) : IterationCase isa n s ⟨.ok true, s, []⟩
  | failed {e : Fault} {t : CPU6502} {events : List Event} (guard : s.PC.toNat < s.memory.size)
      (head : (step isa).run s = ⟨.error e, t, events⟩) :
      IterationCase isa n s ⟨.error e, t, events⟩
  | stopped {t : CPU6502} {events : List Event} (guard : s.PC.toNat < s.memory.size)
      (head : (step isa).run s = ⟨.ok .stop, t, events⟩) :
      IterationCase isa n s ⟨.ok true, t, events ++ [.announce .stpReached]⟩
  | next {err : InstructionErr} {t : CPU6502} {events : List Event}
      (guard : s.PC.toNat < s.memory.size) (head : (step isa).run s = ⟨.ok err, t, events⟩)
      (going : err ≠ .stop) : IterationCase isa n s (((execute isa n).run t).after events)

theorem iteration_cases (isa : CPU6502ISA) (n : ℕ) (s : CPU6502) :
    IterationCase isa n s ((execute isa (n + 1)).run s) := by
  by_cases guard : s.PC.toNat < s.memory.size
  · rcases head : (step isa).run s with ⟨e | err, t, events⟩
    · rw [execute, Routine.run_bind_of_ok (Routine.run_get s), if_pos guard,
        Routine.run_bind_of_error head]
      exact .failed guard head
    · by_cases going : err = .stop
      · subst going
        rw [run_execute_stop guard head]
        exact .stopped guard head
      · rw [run_execute_next guard head going]
        exact .next guard head going
  · rw [execute, Routine.run_bind_of_ok (Routine.run_get s), if_neg guard]
    exact .ended guard

/-- The same for an outcome that has a name. -/
theorem iteration_cases_of_run {o : Outcome CPU6502 Fault Event Bool}
    (run : (execute isa (n + 1)).run s = o) : IterationCase isa n s o :=
  run ▸ iteration_cases isa n s

/-- A loop that has returned does nothing more. -/
theorem run_execute_of_returned (h : (execute isa n).run s = ⟨.ok true, t, events⟩) (m : ℕ) :
    (execute isa (n + m)).run s = ⟨.ok true, t, events⟩ := by
  induction n generalizing s events with
  | zero => cases h
  | succ n ih =>
    rw [Nat.add_right_comm]
    generalize ho : (execute isa (n + 1)).run s = o at h
    cases iteration_cases_of_run ho with
    | ended guard =>
      rw [execute, Routine.run_bind_of_ok (Routine.run_get s), if_neg guard]
      exact h
    | failed guard head => cases h
    | stopped guard head =>
      rw [run_execute_stop guard head]
      exact h
    | next guard head going =>
      obtain ⟨later, hrest, rfl⟩ := Outcome.of_after_eq h
      rw [run_execute_next guard head going, ih hrest, Outcome.after_mk]

end Iteration

/-! ## Iterations that do not end the loop -/

inductive Continues (isa : CPU6502ISA) : ℕ → CPU6502 → List Event → CPU6502 → Prop where
  | refl (s : CPU6502) : Continues isa 0 s [] s
  | next {n : ℕ} {s t u : CPU6502} {err : InstructionErr} {events later : List Event}
      (guard : s.PC.toNat < s.memory.size) (head : (step isa).run s = ⟨.ok err, t, events⟩)
      (going : err ≠ .stop) (tail : Continues isa n t later u) :
      Continues isa (n + 1) s (events ++ later) u

section Continues
variable {isa : CPU6502ISA} {n m : ℕ} {s t u : CPU6502} {events later : List Event}

theorem Continues.trans (h : Continues isa n s events t) (h' : Continues isa m t later u) :
    Continues isa (m + n) s (events ++ later) u := by
  induction h with
  | refl s => exact h'
  | next guard head going tail ih =>
    rw [List.append_assoc]
    exact .next guard head going (ih h')

theorem Continues.iterates (h : Continues isa n s events t) :
    Routine.Iterates (step isa) n s events t := by
  induction h with
  | refl s => exact .refl s
  | next guard head going tail ih => exact .step head ih

/-- The iterations that do not end the loop leave the rest of it to do. -/
theorem Continues.run_execute (h : Continues isa n s events t) (m : ℕ) :
    (execute isa (m + n)).run s = ((execute isa m).run t).after events := by
  induction h with
  | refl s => rfl
  | @next n s t u err events later guard head going tail ih =>
    rw [← Nat.add_assoc, run_execute_next guard head going, ih, Routine.after_after]

theorem Continues.running (h : Continues isa n s events t) :
    (execute isa n).run s = ⟨.ok false, t, events⟩ := by
  have hrun := h.run_execute 0
  rw [Nat.zero_add] at hrun
  rw [hrun]
  simp [execute]

/-- A loop that is still running has made its iterations. -/
theorem continues_of_running (h : (execute isa n).run s = ⟨.ok false, t, events⟩) :
    Continues isa n s events t := by
  induction n generalizing s events with
  | zero =>
    obtain ⟨-, rfl, rfl⟩ := Outcome.mk.inj h
    exact .refl s
  | succ n ih =>
    generalize ho : (execute isa (n + 1)).run s = o at h
    cases iteration_cases_of_run ho with
    | ended guard => cases h
    | failed guard head => cases h
    | stopped guard head => cases h
    | next guard head going =>
      obtain ⟨later, hrest, rfl⟩ := Outcome.of_after_eq h
      exact .next guard head going (ih hrest)

end Continues

end Sim6502
