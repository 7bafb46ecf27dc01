import Sim6502.DebuggerTurns
import Sim6502.StepAnalysis

/-!
# The two run loops at an unknown opcode

A step at an opcode that is not in the table announces the end and leaves the
state as it is. Neither loop tests for its return code, so the same step follows
again. Nor does `run` return from the prompt of `go_to_debugger` there: the prompt takes the
same step, or goes back to the loop.
-/
namespace Sim6502
open EventComputation CPU6502

/-- What a step at an unknown opcode does before it returns. -/
def unknownEvents (cpu : CPU6502) : List Event :=
  [.read cpu.PC.toNat, .announce (.unknownOpcode (opcodeAt cpu))]

section Unknown
variable {isa : CPU6502ISA} {cpu : CPU6502} (hs : maxMemory ≤ cpu.memory.size)
  (unknown : isa.find (opcodeAt cpu) = none)
include hs unknown

theorem run_step_unknown :
    (step isa).run cpu = ⟨.ok .unknownInstruction, cpu, unknownEvents cpu⟩ := by
  rcases ho : (step isa).run cpu with ⟨r, t, events⟩
  cases step_cases_of_run hs ho with
  | unknown find => rfl
  | executed instruction find inside run => simp [unknown] at find
  | outside instruction find outside => simp [unknown] at find

/-- The state is a fixed point of `step`. -/
theorem iterates_unknown (n : ℕ) :
    Routine.Iterates (step isa) n cpu (List.replicate n (unknownEvents cpu)).flatten cpu := by
  induction n with
  | zero => exact .refl cpu
  | succ n ih =>
    rw [List.replicate_succ, List.flatten_cons]
    exact .step (run_step_unknown hs unknown) ih

/-- `execute` is still in its loop after any number of iterations. -/
theorem run_execute_unknown (n : ℕ) :
    (execute isa n).run cpu =
      ⟨.ok false, cpu, (List.replicate n (unknownEvents cpu)).flatten⟩ := by
  induction n with
  | zero => rfl
  | succ n ih =>
    have hguard : cpu.PC.toNat < cpu.memory.size := cpu.memory.lt_size hs cpu.PC
    rw [execute, Routine.run_bind_of_ok (Routine.run_get cpu), if_pos hguard,
      Routine.run_bind_of_ok (run_step_unknown hs unknown), if_neg (by decide), ih]
    simp [List.replicate_succ]

end Unknown

/-- So is `Debugger::run`, which never comes to ask for a line. -/
theorem run_debugger_unknown {isa : CPU6502ISA} {session : Session}
    (hs : maxMemory ≤ session.cpu.memory.size)
    (unknown : isa.find (opcodeAt session.cpu) = none) (n : ℕ) :
    (Debugger.run isa n).run session =
      ⟨.ok .running, session, (List.replicate n (unknownEvents session.cpu)).flatten⟩ := by
  induction n with
  | zero => rfl
  | succ n ih =>
    have hguard := session.cpu.memory.lt_size hs session.cpu.PC
    have hstep := Debugger.run_onCpu session (run_step_unknown hs unknown)
    rw [Debugger.run, Routine.run_bind_of_ok (Routine.run_get session), if_pos hguard,
      Routine.run_bind_of_ok hstep, if_neg (by decide), if_neg (by decide), ih]
    simp [List.replicate_succ]

/-! ## At the prompt -/

section Prompt
variable {isa : CPU6502ISA} {session : Session} (hs : maxMemory ≤ session.cpu.memory.size)
  (unknown : isa.find (opcodeAt session.cpu) = none)
include hs unknown

open Debugger in
/-- No line at the prompt gets the session away from the unknown opcode or `run` to its end. -/
theorem obey_unknown {line : List Char} {next : Location} {states : List CPU6502} {t : Session}
    {events : List Event} (run : (obey isa line).run session = ⟨.ok (next, states), t, events⟩) :
    t.cpu = session.cpu ∧ (next = .prompt line ∨ next = .loop ∨ next = .exited) := by
  generalize ho : (⟨.ok (next, states), t, events⟩ : Outcome _ _ _ _) = o at run
  cases obey_cases_of_run run with
  | goes h =>
    obtain ⟨⟨⟩, rfl, -⟩ := Outcome.mk.inj ho
    exact ⟨rfl, h.imp_right .inl⟩
  | exits parsed name =>
    obtain ⟨⟨⟩, rfl, -⟩ := Outcome.mk.inj ho
    exact ⟨rfl, .inr (.inr rfl)⟩
  | failed parsed name run => cases ho
  | steps parsed name =>
    rw [run_stepTurn (run_step_unknown hs unknown)] at ho
    obtain ⟨⟨⟩, rfl, -⟩ := Outcome.mk.inj ho
    exact ⟨rfl, .inl rfl⟩

open Debugger in
/-- From the prompt `run` ends in `exit(0)` or not at all. -/
theorem resume_prompt_unknown (n m : ℕ) (command : List Char) :
    ((resume isa n m (.prompt command)).run session).result ≠ .ok .returned := by
  induction m generalizing session command with
  | zero =>
    intro h
    cases h
  | succ m ih =>
    have hturn := @run_turn_prompt isa session command
    rw [resume_prompt_succ]
    rcases hobey : (obey isa (session.input.getline command).1).run
      { session with input := (session.input.getline command).2 } with
      ⟨e | ⟨next, states⟩, t, events⟩
    · rw [hobey, Outcome.after_mk] at hturn
      rw [Routine.run_bind_of_error hturn]
      intro h
      cases h
    · obtain ⟨hcpu, hnext⟩ :=
        @obey_unknown isa ⟨session.cpu, (session.input.getline command).2⟩ hs unknown _ _ _ _ _
          hobey
      rw [hobey, Outcome.after_mk] at hturn
      rw [Routine.run_bind_of_ok hturn, Outcome.result_after]
      rcases hnext with rfl | rfl | rfl
      · exact ih (hcpu ▸ hs) (hcpu ▸ unknown) _
      · rw [resume, run_debugger_unknown (hcpu ▸ hs) (hcpu ▸ unknown)]
        intro h
        cases h
      · intro h
        cases h

end Prompt

/-- Some number of iterations brings `execute` to its end. -/
def ExecuteReturns (isa : CPU6502ISA) (cpu : CPU6502) : Prop :=
  ∃ n, ((execute isa n).run cpu).result = .ok true

/-- Some number of iterations brings `Debugger::run` to its end. -/
def DebuggerReturns (isa : CPU6502ISA) (session : Session) : Prop :=
  ∃ n, ((Debugger.run isa n).run session).result = .ok .returned

/-- Some number of turns at the prompt, and of iterations behind it, brings `Debugger::run` to
its end. -/
def PromptReturns (isa : CPU6502ISA) (session : Session) (command : List Char) : Prop :=
  ∃ n m, ((Debugger.resume isa n m (.prompt command)).run session).result = .ok .returned

/-- From a state with an unknown opcode neither loop returns: each goes on with the
step that announced the end, at the same state, any number of times. Nor does `Debugger::run`
return from its prompt there, whatever is typed. -/
theorem unknown_opcode_never_ends (isa : CPU6502ISA) (session : Session)
    (hs : maxMemory ≤ session.cpu.memory.size)
    (unknown : isa.find (opcodeAt session.cpu) = none) :
    ¬ExecuteReturns isa session.cpu ∧ ¬DebuggerReturns isa session ∧
      (∀ command, ¬PromptReturns isa session command) ∧
      ∀ n,
        Routine.Iterates (step isa) n session.cpu
          (List.replicate n (unknownEvents session.cpu)).flatten session.cpu ∧
        (execute isa n).run session.cpu =
          ⟨.ok false, session.cpu, (List.replicate n (unknownEvents session.cpu)).flatten⟩ ∧
        (Debugger.run isa n).run session =
          ⟨.ok .running, session, (List.replicate n (unknownEvents session.cpu)).flatten⟩ := by
  refine ⟨?_, ?_, fun command => ?_, fun n => ⟨iterates_unknown hs unknown n,
    run_execute_unknown hs unknown n, run_debugger_unknown hs unknown n⟩⟩
  · rintro ⟨n, h⟩
    rw [run_execute_unknown hs unknown n] at h
    cases h
  · rintro ⟨n, h⟩
    rw [run_debugger_unknown hs unknown n] at h
    cases h
  · rintro ⟨n, m, h⟩
    exact resume_prompt_unknown hs unknown n m command h

/-- An opcode that the table does not have. -/
def unknownAtStart : Session :=
  ⟨CPU6502.initial (.ofProgram [0x03]) false, ⟨[], true⟩⟩

theorem unknown_opcode_never_ends_unknownAtStart :
    ¬ExecuteReturns isa unknownAtStart.cpu ∧ ¬DebuggerReturns isa unknownAtStart ∧
      ¬PromptReturns isa unknownAtStart [] := by
  obtain ⟨hexecute, hrun, hprompt, -⟩ := unknown_opcode_never_ends isa unknownAtStart le_rfl rfl
  exact ⟨hexecute, hrun, hprompt []⟩

theorem unknownAtStart_keeps_running :
    ¬∀ session : Session, maxMemory ≤ session.cpu.memory.size →
      isa.find (opcodeAt session.cpu) = none →
        ExecuteReturns isa session.cpu ∧ DebuggerReturns isa session := by
  intro h
  obtain ⟨⟨n, hreturns⟩, -⟩ := h unknownAtStart le_rfl rfl
  have hrunning : (execute isa n).run unknownAtStart.cpu = _ :=
    run_execute_unknown le_rfl rfl n
  rw [hrunning] at hreturns
  cases hreturns

end Sim6502
