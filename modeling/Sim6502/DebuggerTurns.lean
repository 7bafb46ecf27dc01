import Sim6502.DebuggerSession

/-!
# The loops of the debugger turn by turn

A turn is one pass through the loop of `run` or of `go_to_debugger`. It tells where
the session goes on and which state a step left, if the turn took one. The nested
loops are the iteration of turns.
-/
namespace Sim6502
open EventComputation CPU6502
namespace Debugger

/-- In the loop of `run`, in the loop of `go_to_debugger` with the line read last, returned
from `run`, or in `exit(0)`. -/
inductive Location where
  | loop
  | prompt (command : List Char)
  | returned
  | exited
  deriving DecidableEq

/-- A step, with the state it leaves. -/
def recordedStep (isa : CPU6502ISA) : Debugging (InstructionErr × CPU6502) := do
  let err ← onCpu (step isa)
  return (err, (← Routine.get).cpu)

/-- The step of either loop, which goes on at one of two places. -/
def stepTurn (isa : CPU6502ISA) (broken going : Location) :
    Debugging (Location × List CPU6502) := do
  let (err, cpu) ← recordedStep isa
  if err = .goToDebugger then do
    onCpu (announce .breakpointReached)
    return (broken, [cpu])
  else if err = .stop then do
    onCpu (announce .stpReached)
    return (.returned, [cpu])
  else
    return (going, [cpu])

/-- What `go_to_debugger` does with a line. -/
def obey (isa : CPU6502ISA) (line : List Char) : Debugging (Location × List CPU6502) := do
  if line.isEmpty then
    return (.prompt line, [])
  else match Command.parse line with
    | none => do
      onCpu (say (invalidCommandMsg ++ "\n".toList))
      return (.prompt line, [])
    | some cmd => match cmd.name with
      | .dump => do
        let session ← Routine.get
        onCpu (say (dumpText session.cpu))
        return (.prompt line, [])
      | .get => do
        onCpu (get cmd.args)
        return (.prompt line, [])
      | .step => stepTurn isa (.prompt line) (.prompt line)
      | .continue => return (.loop, [])
      | .help => do
        onCpu (say (helpMsg ++ "\n".toList))
        return (.prompt line, [])
      | .exit => return (.exited, [])

def turn (isa : CPU6502ISA) : Location → Debugging (Location × List CPU6502)
  | .loop => do
    let session ← Routine.get
    if session.cpu.PC.toNat < session.cpu.memory.size then
      stepTurn isa (.prompt []) .loop
    else
      return (.returned, [])
  | .prompt command => do
    onCpu (say prompt)
    let line ← getline command
    obey isa line
  | .returned => return (.returned, [])
  | .exited => return (.exited, [])

/-- The states are those after the steps of the turns, in order. -/
def turns (isa : CPU6502ISA) : ℕ → Location → Debugging (Location × List CPU6502)
  | 0, location => return (location, [])
  | n + 1, location => do
    let (next, states) ← turn isa location
    let (last, later) ← turns isa n next
    return (last, states ++ later)

/-- What `run` does from a location, with the iterations left to the two loops. -/
def resume (isa : CPU6502ISA) (n m : ℕ) : Location → Debugging RunStatus
  | .loop => run isa n
  | .prompt command => do
    match ← goToDebugger isa m command with
    | .prompting => return .running
    | .exited => return .exited
    | .returned true => return .returned
    | .returned false => run isa n
  | .returned => return .returned
  | .exited => return .exited

def Location.status : Location → RunStatus
  | .loop | .prompt _ => .running
  | .returned => .returned
  | .exited => .exited

section Resume
variable (isa : CPU6502ISA) (n m : ℕ)

/-- Whoever goes on after the step without its state takes the step itself. -/
theorem stepTurn_bind {α : Type} (broken going : Location) (f : Location → Debugging α) :
    (stepTurn isa broken going >>= fun r => f r.1) = onCpu (step isa) >>= fun err =>
      if err = .goToDebugger then onCpu (announce .breakpointReached) >>= fun _ => f broken
      else if err = .stop then
        onCpu (announce .stpReached) >>= fun _ => f .returned
      else f going := by
  simp only [stepTurn, recordedStep, Routine.bind_assoc, Routine.pure_bind]
  congr 1
  funext err
  by_cases hbreak : err = .goToDebugger
  · simp only [if_pos hbreak, Routine.bind_assoc]
    rfl
  · by_cases hstop : err = .stop
    · simp only [if_neg hbreak, if_pos hstop, Routine.bind_assoc]
      rfl
    · simp only [if_neg hbreak, if_neg hstop]
      rfl

theorem resume_loop_succ :
    resume isa (n + 1) m .loop = turn isa .loop >>= fun r => resume isa n n r.1 := by
  rw [resume, run, turn, Routine.bind_assoc]
  congr 1
  funext session
  by_cases guard : session.cpu.PC.toNat < session.cpu.memory.size
  · rw [if_pos guard, if_pos guard, stepTurn_bind]
    rfl
  · rw [if_neg guard, if_neg guard]
    rfl

/-- How the call of `go_to_debugger` goes on after one of its turns. -/
def afterTurn : Location → Debugging PromptStatus
  | .loop => return .returned false
  | .prompt command => goToDebugger isa m command
  | .returned => return .returned true
  | .exited => return .exited

theorem goToDebugger_succ (command : List Char) :
    goToDebugger isa (m + 1) command =
      turn isa (.prompt command) >>= fun r => afterTurn isa m r.1 := by
  simp only [goToDebugger, turn, obey, Routine.bind_assoc]
  congr 1
  funext _
  congr 1
  funext line
  by_cases hempty : line.isEmpty
  · rw [if_pos hempty, if_pos hempty]
    rfl
  · rw [if_neg hempty, if_neg hempty]
    rcases Command.parse line with _ | cmd
    · simp only [Routine.bind_assoc]
      rfl
    · dsimp only
      cases cmd.name with
      | dump =>
        simp only [Routine.bind_assoc]
        rfl
      | get =>
        simp only [Routine.bind_assoc]
        rfl
      | step => exact (stepTurn_bind isa (.prompt line) (.prompt line) (afterTurn isa m)).symm
      | «continue» => rfl
      | help =>
        simp only [Routine.bind_assoc]
        rfl
      | exit => rfl

theorem resume_prompt_succ (command : List Char) :
    resume isa n (m + 1) (.prompt command) =
      turn isa (.prompt command) >>= fun r => resume isa n m r.1 := by
  rw [resume, goToDebugger_succ, Routine.bind_assoc]
  congr 1
  funext r
  cases r.1 <;> rfl

end Resume

/-! ## One turn -/

def Location.afterStep (broken going : Location) : InstructionErr → Location
  | .goToDebugger => broken
  | .stop => .returned
  | _ => going

theorem Location.afterStep_eq {err : InstructionErr} (h : err ≠ .stop)
    (broken going : Location) :
    afterStep broken going err = broken ∨ afterStep broken going err = going := by
  cases err with
  | goToDebugger => exact .inl rfl
  | stop => exact absurd rfl h
  | _ => exact .inr rfl

def stepMessages : InstructionErr → List Event
  | .goToDebugger => [.announce .breakpointReached]
  | .stop => [.announce .stpReached]
  | _ => []

section Turn
variable {isa : CPU6502ISA} {session : Session}

theorem run_stepTurn {err : InstructionErr} {t : CPU6502} {events : List Event}
    (h : (step isa).run session.cpu = ⟨.ok err, t, events⟩) (broken going : Location) :
    (stepTurn isa broken going).run session =
      ⟨.ok (.afterStep broken going err, [t]), { session with cpu := t },
        events ++ stepMessages err⟩ := by
  have hrecorded : (recordedStep isa).run session =
      ⟨.ok (err, t), { session with cpu := t }, events⟩ := by
    rw [recordedStep, Routine.run_bind_of_ok (run_onCpu session h)]
    simp [Routine.run_bind]
  rw [stepTurn, Routine.run_bind_of_ok hrecorded]
  cases err <;> rfl

theorem run_stepTurn_error {e : Fault} {t : CPU6502} {events : List Event}
    (h : (step isa).run session.cpu = ⟨.error e, t, events⟩) (broken going : Location) :
    (stepTurn isa broken going).run session = ⟨.error e, { session with cpu := t }, events⟩ := by
  have hrecorded : (recordedStep isa).run session =
      ⟨.error e, { session with cpu := t }, events⟩ := by
    rw [recordedStep, Routine.run_bind_of_error (run_onCpu session h)]
  rw [stepTurn, Routine.run_bind_of_error hrecorded]

theorem run_turn_loop (guard : session.cpu.PC.toNat < session.cpu.memory.size) :
    (turn isa .loop).run session = (stepTurn isa (.prompt []) .loop).run session := by
  rw [turn, Routine.run_bind_of_ok (Routine.run_get session), if_pos guard, Outcome.after_nil]

theorem run_turn_prompt (command : List Char) :
    (turn isa (.prompt command)).run session =
      ((obey isa (session.input.getline command).1).run
        { session with input := (session.input.getline command).2 }).after
          [.announce (.text prompt)] := by
  have hsay : (onCpu (say prompt)).run session = ⟨.ok (), session, [.announce (.text prompt)]⟩ :=
    run_onCpu session rfl
  have hline : (getline command).run session =
      ⟨.ok (session.input.getline command).1,
        { session with input := (session.input.getline command).2 }, []⟩ := rfl
  rw [turn, Routine.run_bind_of_ok hsay, Routine.run_bind_of_ok hline, Outcome.after_nil]

theorem preserves_say (chars : List Char) : Routine.Preserves Eq (say chars) := fun _ => rfl

theorem preserves_printMemoryFrom (start remaining i : ℕ) :
    Routine.Preserves Eq (printMemoryFrom start remaining i) := by
  induction remaining generalizing i with
  | zero => exact .pure ()
  | succ remaining ih =>
    rw [printMemoryFrom_succ]
    refine (preserves_say _).bind fun _ => (preserves_readIndex _).bind fun _ => ?_
    exact (preserves_say _).bind fun _ => ih (i + 1)

/-- Looking at the memory changes nothing, inside it or not. -/
theorem preserves_get (args : List (List Char)) : Routine.Preserves Eq (get args) := by
  have hprint (start count : ℕ) : Routine.Preserves Eq (printMemory start count) :=
    (preserves_printMemoryFrom start count 0).bind fun _ => fun _ => rfl
  match args with
  | [] => exact fun _ => rfl
  | [address] => exact hprint _ _
  | [start, count] => exact hprint _ _
  | _ :: _ :: _ :: _ => exact fun _ => rfl

/-- Everything that a line can do. -/
inductive ObeyCase (isa : CPU6502ISA) (session : Session) (line : List Char) :
    Outcome Session Fault Event (Location × List CPU6502) → Prop where
  | goes {next : Location} {events : List Event} (h : next = .prompt line ∨ next = .loop) :
      ObeyCase isa session line ⟨.ok (next, []), session, events⟩
  | exits {cmd : Command} (parsed : Command.parse line = some cmd) (name : cmd.name = .exit) :
      ObeyCase isa session line ⟨.ok (.exited, []), session, []⟩
  | failed {cmd : Command} {e : Fault} {events : List Event}
      (parsed : Command.parse line = some cmd) (name : cmd.name = .get)
      (run : (get cmd.args).run session.cpu = ⟨.error e, session.cpu, events⟩) :
      ObeyCase isa session line ⟨.error e, session, events⟩
  | steps {cmd : Command} (parsed : Command.parse line = some cmd) (name : cmd.name = .step) :
      ObeyCase isa session line
        ((stepTurn isa (.prompt line) (.prompt line)).run session)

theorem obey_cases (isa : CPU6502ISA) (session : Session) (line : List Char) :
    ObeyCase isa session line ((obey isa line).run session) := by
  rw [obey]
  by_cases hempty : line.isEmpty
  · rw [if_pos hempty]
    exact .goes (.inl rfl)
  · rw [if_neg hempty]
    cases parsed : Command.parse line with
    | none => exact .goes (.inl rfl)
    | some cmd =>
      dsimp only
      cases name : cmd.name with
      | dump => exact .goes (.inl rfl)
      | get =>
        have hstate := preserves_get cmd.args session.cpu
        rcases hrun : (get cmd.args).run session.cpu with ⟨_ | _, t, events⟩
        · obtain rfl : session.cpu = t := by simpa [hrun] using hstate
          dsimp only
          rw [Routine.run_bind_of_error (run_onCpu session hrun)]
          exact .failed parsed name hrun
        · obtain rfl : session.cpu = t := by simpa [hrun] using hstate
          dsimp only
          rw [Routine.run_bind_of_ok (run_onCpu session hrun)]
          exact .goes (.inl rfl)
      | step => exact .steps parsed name
      | «continue» => exact .goes (.inr rfl)
      | help => exact .goes (.inl rfl)
      | exit => exact .exits parsed name

/-- The same for an outcome that has a name. -/
theorem obey_cases_of_run {line : List Char}
    {o : Outcome Session Fault Event (Location × List CPU6502)}
    (run : (obey isa line).run session = o) : ObeyCase isa session line o :=
  run ▸ obey_cases isa session line

end Turn

/-! ## Turns and the loops

A session that has ended is what `run` delivers, and what `run` delivers is where some
number of turns has come to. -/

section Turns
variable {isa : CPU6502ISA} {k n m : ℕ} {location last : Location} {session t : Session}
  {history : List CPU6502} {events : List Event} {status : RunStatus}

/-- The first turn and the others. -/
theorem of_run_turns_succ (h : (turns isa (k + 1) location).run session =
      ⟨.ok (last, history), t, events⟩) :
    ∃ next states u later earlier rest,
      (turn isa location).run session = ⟨.ok (next, states), u, earlier⟩ ∧
      (turns isa k next).run u = ⟨.ok (last, later), t, rest⟩ ∧
      history = states ++ later ∧ events = earlier ++ rest := by
  rw [turns] at h
  obtain ⟨⟨next, states⟩, u, earlier, rest, hturn, hrest, rfl⟩ := Routine.of_run_bind_ok h
  dsimp only at hrest
  obtain ⟨⟨last', later⟩, u', rest', ending, hturns, hpure, rfl⟩ := Routine.of_run_bind_ok hrest
  obtain ⟨⟨rfl⟩, rfl, rfl⟩ := Outcome.mk.inj hpure
  exact ⟨next, states, u, later, earlier, rest', hturn, hturns, rfl, by simp⟩

theorem run_turns_succ {next : Location} {states later : List CPU6502} {u : Session}
    {earlier rest : List Event}
    (hturn : (turn isa location).run session = ⟨.ok (next, states), u, earlier⟩)
    (hturns : (turns isa k next).run u = ⟨.ok (last, later), t, rest⟩) :
    (turns isa (k + 1) location).run session =
      ⟨.ok (last, states ++ later), t, earlier ++ rest⟩ := by
  rw [turns, Routine.run_bind_of_ok hturn, Routine.run_bind_of_ok hturns]
  simp

/-- A session that has ended stays so. -/
theorem run_turns_ended (ended : location.status ≠ .running) (k : ℕ) :
    (turns isa k location).run session = ⟨.ok (location, []), session, []⟩ := by
  induction k with
  | zero => rfl
  | succ k ih =>
    have hturn : (turn isa location).run session = ⟨.ok (location, []), session, []⟩ := by
      cases location with
      | loop => exact absurd rfl ended
      | prompt command => exact absurd rfl ended
      | returned => rfl
      | exited => rfl
    exact run_turns_succ hturn ih

theorem run_resume_ended (ended : location.status ≠ .running) :
    (resume isa n m location).run session = ⟨.ok location.status, session, []⟩ := by
  cases location with
  | loop => exact absurd rfl ended
  | prompt command => exact absurd rfl ended
  | returned => rfl
  | exited => rfl

/-- With iterations enough, `run` ends as the turns do. -/
theorem run_resume_of_turns
    (h : (turns isa k location).run session = ⟨.ok (last, history), t, events⟩)
    (ended : last.status ≠ .running) (hn : k ≤ n) (hm : k ≤ m) :
    (resume isa n m location).run session = ⟨.ok last.status, t, events⟩ := by
  induction k generalizing location session history events n m with
  | zero =>
    obtain ⟨⟨⟩, rfl, rfl⟩ := Outcome.mk.inj h
    exact run_resume_ended ended
  | succ k ih =>
    by_cases hrunning : location.status = .running
    · obtain ⟨next, states, u, later, earlier, rest, hturn, hturns, -, rfl⟩ :=
        of_run_turns_succ h
      cases location with
      | loop =>
        obtain ⟨n, rfl⟩ : ∃ n', n = n' + 1 := ⟨n - 1, by omega⟩
        rw [resume_loop_succ, Routine.run_bind_of_ok hturn,
          ih hturns (Nat.le_of_succ_le_succ hn) (Nat.le_of_succ_le_succ hn)]
        rfl
      | prompt command =>
        obtain ⟨m, rfl⟩ : ∃ m', m = m' + 1 := ⟨m - 1, by omega⟩
        rw [resume_prompt_succ, Routine.run_bind_of_ok hturn,
          ih hturns (by omega) (Nat.le_of_succ_le_succ hm)]
        rfl
      | returned => cases hrunning
      | exited => cases hrunning
    · rw [run_turns_ended hrunning] at h
      obtain ⟨⟨⟩, rfl, rfl⟩ := Outcome.mk.inj h
      exact run_resume_ended ended

/-- The status after some turns. -/
def statusAfter (isa : CPU6502ISA) (k : ℕ) (location : Location) : Debugging RunStatus := do
  let r ← turns isa k location
  return r.1.status

theorem statusAfter_succ (k : ℕ) (location : Location) :
    statusAfter isa (k + 1) location = turn isa location >>= fun r => statusAfter isa k r.1 := by
  simp only [statusAfter, turns, Routine.bind_assoc, Routine.pure_bind]

/-- A turn more, where the rest makes a number of turns. -/
theorem exists_statusAfter_succ {next : Location → Debugging RunStatus}
    (hnext : ∀ location session, ∃ k,
      (next location).run session = (statusAfter isa k location).run session)
    (location : Location) (session : Session) :
    ∃ k, (turn isa location >>= fun r => next r.1).run session =
      (statusAfter isa k location).run session := by
  rcases hrun : (turn isa location).run session with ⟨_ | r, t, events⟩
  · refine ⟨1, ?_⟩
    rw [statusAfter_succ, Routine.run_bind_of_error hrun, Routine.run_bind_of_error hrun]
  · obtain ⟨k, hk⟩ := hnext r.1 t
    refine ⟨k + 1, ?_⟩
    rw [statusAfter_succ, Routine.run_bind_of_ok hrun, Routine.run_bind_of_ok hrun, hk]

theorem exists_statusAfter_of_loop
    (hloop : ∀ session, ∃ k,
      (run isa n).run session = (statusAfter isa k .loop).run session)
    (m : ℕ) (location : Location) (session : Session) :
    ∃ k, (resume isa n m location).run session = (statusAfter isa k location).run session := by
  induction m generalizing location session with
  | zero =>
    cases location with
    | loop => exact hloop session
    | prompt command => exact ⟨0, rfl⟩
    | returned => exact ⟨0, rfl⟩
    | exited => exact ⟨0, rfl⟩
  | succ m ih =>
    cases location with
    | loop => exact hloop session
    | prompt command =>
      rw [resume_prompt_succ]
      exact exists_statusAfter_succ ih _ session
    | returned => exact ⟨0, rfl⟩
    | exited => exact ⟨0, rfl⟩

/-- The loops make a number of turns. -/
theorem exists_run_statusAfter (n : ℕ) (session : Session) :
    ∃ k, (run isa n).run session = (statusAfter isa k .loop).run session := by
  induction n generalizing session with
  | zero => exact ⟨0, rfl⟩
  | succ n ih =>
    have hrun : run isa (n + 1) = turn isa .loop >>= fun r => resume isa n n r.1 :=
      resume_loop_succ isa n n
    rw [hrun]
    exact exists_statusAfter_succ (exists_statusAfter_of_loop ih n) _ session

/-- Where `run` has ended, the turns have. -/
theorem exists_turns_of_run (h : (run isa n).run session = ⟨.ok status, t, events⟩) :
    ∃ k last history, (turns isa k .loop).run session = ⟨.ok (last, history), t, events⟩ ∧
      last.status = status := by
  obtain ⟨k, hk⟩ : ∃ k, (run isa n).run session = (statusAfter isa k .loop).run session :=
    exists_run_statusAfter n session
  rw [hk] at h
  obtain ⟨⟨last, history⟩, u, earlier, later, hturns, hpure, rfl⟩ := Routine.of_run_bind_ok h
  obtain ⟨⟨rfl⟩, rfl, rfl⟩ := Outcome.mk.inj hpure
  exact ⟨k, last, history, by simpa using hturns, rfl⟩

end Turns

end Debugger

end Sim6502
