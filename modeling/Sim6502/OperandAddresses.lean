import Sim6502.StepAnalysis

/-!
# The operand address that is never assigned

In the mode `Implied` the local `op_address` of `step` holds whatever was there. Runs are
taken here with an arbitrary value for every step, as many different ones as there are
steps, and they all do the same.
-/
namespace Sim6502
open EventComputation CPU6502

/-! ## Runs with a value for every step -/

/-- The codes of `n` steps; the `k`-th finds `unset k` in its local. -/
def stepsWith (isa : CPU6502ISA) (unset : ℕ → Address) : ℕ → Cpu (List InstructionErr)
  | 0 => return []
  | n + 1 => do
    let err ← stepWith isa (unset 0)
    let later ← stepsWith isa (fun k => unset (k + 1)) n
    return err :: later

/-- The loop of `execute`, with such a value for each iteration. -/
def executeWith (isa : CPU6502ISA) (unset : ℕ → Address) : ℕ → Cpu Bool
  | 0 => return false
  | n + 1 => do
    let cpu ← Routine.get
    if cpu.PC.toNat < cpu.memory.size then
      let err ← stepWith isa (unset 0)
      if err = .stop then
        announce .stpReached
        return true
      else
        executeWith isa (fun k => unset (k + 1)) n
    else
      return true

section Runs
variable (isa : CPU6502ISA) (n : ℕ)

theorem stepsWith_eq_stepsWith (unset other : ℕ → Address) :
    stepsWith isa unset n = stepsWith isa other n := by
  induction n generalizing unset other with
  | zero => rfl
  | succ n ih =>
    have hrest := ih (fun k => unset (k + 1)) fun k => other (k + 1)
    rw [stepsWith, stepsWith, stepWith_eq_step, stepWith_eq_step, hrest]

theorem executeWith_eq_execute (unset : ℕ → Address) :
    executeWith isa unset n = execute isa n := by
  induction n generalizing unset with
  | zero => rfl
  | succ n ih =>
    have hrest := ih fun k => unset (k + 1)
    rw [executeWith, execute, stepWith_eq_step, hrest]

variable {isa n}

/-- Steps that succeed are a run. -/
theorem iterates_of_stepsWith {unset : ℕ → Address} {cpu t : CPU6502}
    {errs : List InstructionErr} {events : List Event}
    (h : (stepsWith isa unset n).run cpu = ⟨.ok errs, t, events⟩) :
    Routine.Iterates (step isa) n cpu events t := by
  induction n generalizing unset cpu errs events with
  | zero =>
    obtain ⟨-, rfl, rfl⟩ := Outcome.mk.inj h
    exact .refl cpu
  | succ n ih =>
    rw [stepsWith, stepWith_eq_step] at h
    obtain ⟨err, u, first, rest, hstep, htail, rfl⟩ := Routine.of_run_bind_ok h
    obtain ⟨later, v, middle, ending, hsteps, hpure, rfl⟩ := Routine.of_run_bind_ok htail
    obtain ⟨-, rfl, rfl⟩ := Outcome.mk.inj hpure
    rw [List.append_nil]
    exact .step hstep (ih hsteps)

/-- A run is what the steps do, whatever their locals hold. -/
theorem exists_stepsWith_of_iterates {cpu t : CPU6502} {events : List Event}
    (h : Routine.Iterates (step isa) n cpu events t) (unset : ℕ → Address) :
    ∃ errs, (stepsWith isa unset n).run cpu = ⟨.ok errs, t, events⟩ := by
  induction h generalizing unset with
  | refl cpu => exact ⟨[], rfl⟩
  | @step n cpu u t err first rest head tail ih =>
    obtain ⟨errs, htail⟩ := ih fun k => unset (k + 1)
    refine ⟨err :: errs, ?_⟩
    rw [stepsWith, stepWith_eq_step, Routine.run_bind_of_ok head, Routine.run_bind_of_ok htail]
    simp

end Runs

/-- An entry without an operand does the same at every operand address, a step does the
same with every unset value, and so do the runs of every length: their codes, the state
they end in, their output and their failures. -/
theorem unset_operand_unused (isa : CPU6502ISA) :
    (∀ opcode instruction, (opcode, instruction) ∈ isaEntries →
      instruction.mode.WithoutOperand → ∀ a b cpu,
        (instruction.execute.execute a).run cpu = (instruction.execute.execute b).run cpu) ∧
    (∀ unset cpu, (stepWith isa unset).run cpu = (step isa).run cpu) ∧
    (∀ unset other n cpu,
      (stepsWith isa unset n).run cpu = (stepsWith isa other n).run cpu) ∧
    (∀ unset n cpu, (executeWith isa unset n).run cpu = (execute isa n).run cpu) ∧
    ∀ n cpu events t, Routine.Iterates (step isa) n cpu events t ↔
      ∀ unset, ∃ errs, (stepsWith isa unset n).run cpu = ⟨.ok errs, t, events⟩ := by
  refine ⟨?_, ?_, ?_, ?_, ?_⟩
  · intro opcode instruction hmem hmode a b cpu
    have hignores := ignoresOperand_of_withoutOperand hmem hmode
    rw [execute_of_ignoresOperand hignores a b]
  · intro unset cpu
    rw [stepWith_eq_step]
  · intro unset other n cpu
    rw [stepsWith_eq_stepsWith isa n unset other]
  · intro unset n cpu
    rw [executeWith_eq_execute]
  · intro n cpu events t
    constructor
    · exact exists_stepsWith_of_iterates
    · intro h
      obtain ⟨errs, hsteps⟩ := h fun _ => 0
      exact iterates_of_stepsWith hsteps

/-- The body of `PHP`, which pushes, at two addresses. -/
theorem unset_operand_unused_php :
    (InstructionBody.php.execute 0x1234).run (.initial (.ofImage [0x08]) false) =
      (InstructionBody.php.execute 0xFFFF).run (.initial (.ofImage [0x08]) false) :=
  (unset_operand_unused isa).1 0x08 ⟨.php, .stack, .php⟩ (by decide +kernel) (by decide) _ _ _

end Sim6502
