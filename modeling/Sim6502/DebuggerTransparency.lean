import Sim6502.BoundsChecking
import Sim6502.DebuggerTurns
import Sim6502.MemoryDumps

/-!
# The debugger follows `execute`

A session takes the steps of `execute` with the debug flag off, whatever is typed at its
breakpoints: a turn of either loop takes one step of the program or none. Where the
lines suffice it comes as far, since every turn uses up a step or a line.
-/
namespace Sim6502
open EventComputation CPU6502

/-- The same state with the debug flag off. -/
def CPU6502.quiet (cpu : CPU6502) : CPU6502 := { cpu with debug := false }

/-- What a return code tells a loop that knows no breakpoints. -/
def InstructionErr.unbroken : InstructionErr → InstructionErr
  | .goToDebugger => .ok
  | err => err

section Quiet
variable (cpu : CPU6502) (v : Byte)

@[simp] theorem A_quiet : cpu.quiet.A = cpu.A := by rfl
@[simp] theorem X_quiet : cpu.quiet.X = cpu.X := by rfl
@[simp] theorem Y_quiet : cpu.quiet.Y = cpu.Y := by rfl
@[simp] theorem S_quiet : cpu.quiet.S = cpu.S := by rfl
@[simp] theorem P_quiet : cpu.quiet.P = cpu.P := by rfl
@[simp] theorem PC_quiet : cpu.quiet.PC = cpu.PC := by rfl
@[simp] theorem memory_quiet : cpu.quiet.memory = cpu.memory := by rfl
@[simp] theorem verbose_quiet : cpu.quiet.verbose = cpu.verbose := by rfl
@[simp] theorem debug_quiet : cpu.quiet.debug = false := by rfl

@[simp] theorem unbroken_ok : InstructionErr.ok.unbroken = .ok := rfl
@[simp] theorem unbroken_okPCModified : InstructionErr.okPCModified.unbroken = .okPCModified := rfl
@[simp] theorem unbroken_stop : InstructionErr.stop.unbroken = .stop := rfl

@[simp] theorem unbroken_branchErr (taken : Bool) :
    (branchErr taken).unbroken = branchErr taken := by
  cases taken <;> rfl

theorem effectiveAddress_quiet (unset : Address) (mode : AddressingMode) :
    effectiveAddress unset cpu.quiet mode = effectiveAddress unset cpu mode := by
  cases mode <;> rfl

theorem advance_quiet (instruction : Instruction) (err : InstructionErr) :
    advance instruction err.unbroken cpu.quiet = (advance instruction err cpu).quiet := by
  cases err <;> rfl

/-- `DBG` is the one body that looks at the flag. -/
theorem run_execute_quiet (body : InstructionBody) (a : Address)
    (hs : maxMemory ≤ cpu.memory.size) :
    (body.execute a).run cpu.quiet =
      ⟨((body.execute a).run cpu).result.map InstructionErr.unbroken,
        ((body.execute a).run cpu).state.quiet, ((body.execute a).run cpu).events⟩ := by
  cases body <;> simp only [InstructionBody.execute]
  case dbg =>
    rw [Execute.run_dbg, Execute.run_dbg]
    cases cpu.debug <;> rfl
  all_goals
    simp [hs, Except.map]
    try first | rfl | exact ⟨rfl, rfl⟩

variable {cpu}

/-- A step with the flag off leaves the same state and tells of no breakpoint. -/
theorem exists_run_step_quiet (isa : CPU6502ISA) (hs : maxMemory ≤ cpu.memory.size) :
    ∃ events, (step isa).run cpu.quiet =
      ⟨((step isa).run cpu).result.map InstructionErr.unbroken,
        ((step isa).run cpu).state.quiet, events⟩ := by
  have hq : maxMemory ≤ cpu.quiet.memory.size := hs
  rcases ho : (step isa).run cpu with ⟨r, t, events⟩
  cases step_cases_of_run hs ho with
  | unknown find => exact ⟨_, run_lookup_unknown (cpu.memory.lt_size hs cpu.PC) find⟩
  | @executed instruction err t events find inside run =>
    have find' : isa.find (opcodeAt cpu.quiet) = some instruction := find
    have hbody := run_execute_quiet cpu instruction.execute
      (effectiveAddress 0 cpu instruction.mode) hs
    rw [run, ← effectiveAddress_quiet cpu 0 instruction.mode] at hbody
    have hstep := run_step_of_find hq find' inside hbody
    rw [advance_quiet] at hstep
    exact ⟨_, hstep⟩
  | outside instruction find outside =>
    have find' : isa.find (opcodeAt cpu.quiet) = some instruction := find
    rcases step_of_find hq find' with ⟨err, t, events, inside, -⟩ | ⟨-, -, hstep⟩
    · exact absurd inside outside
    · exact ⟨_, hstep⟩

theorem exists_run_step_quiet_of_ok {isa : CPU6502ISA} (hs : maxMemory ≤ cpu.memory.size)
    {err : InstructionErr} {t : CPU6502} {events : List Event}
    (run : (step isa).run cpu = ⟨.ok err, t, events⟩) :
    ∃ later, (step isa).run cpu.quiet = ⟨.ok err.unbroken, t.quiet, later⟩ := by
  have h := exists_run_step_quiet isa hs
  rwa [run] at h

theorem unbroken_eq_stop_iff {err : InstructionErr} : err.unbroken = .stop ↔ err = .stop := by
  cases err <;> decide

end Quiet

/-! ## The states of `execute` -/

/-- From `s` on the iterations of `execute` leave the given states, one for each step, and
are at `t` then. `stopped` tells whether the last step met an `STP`. -/
inductive ExecuteTrail (isa : CPU6502ISA) : CPU6502 → List CPU6502 → Bool → CPU6502 → Prop where
  | refl (s : CPU6502) : ExecuteTrail isa s [] false s
  | next {s t u : CPU6502} {err : InstructionErr} {events : List Event} {states : List CPU6502}
      {stopped : Bool} (guard : s.PC.toNat < s.memory.size)
      (head : (step isa).run s = ⟨.ok err, t, events⟩) (going : err ≠ .stop)
      (tail : ExecuteTrail isa t states stopped u) : ExecuteTrail isa s (t :: states) stopped u
  | stop {s t : CPU6502} {events : List Event} (guard : s.PC.toNat < s.memory.size)
      (head : (step isa).run s = ⟨.ok .stop, t, events⟩) : ExecuteTrail isa s [t] true t

/-- The states are those that the first iterations of `execute` leave, in order, and none
of these but the last ends it. -/
def BeginsExecute (isa : CPU6502ISA) (cpu : CPU6502) (states : List CPU6502) : Prop :=
  ∀ k (h : k < states.length), ((execute isa k).run cpu).result = .ok false ∧
    ((execute isa (k + 1)).run cpu).state = states[k] ∧
    ∃ returned, ((execute isa (k + 1)).run cpu).result = .ok returned

section Trail
variable {isa : CPU6502ISA} {s t u : CPU6502} {states later : List CPU6502} {stopped : Bool}

theorem ExecuteTrail.trans (h : ExecuteTrail isa s states false t)
    (h' : ExecuteTrail isa t later stopped u) : ExecuteTrail isa s (states ++ later) stopped u := by
  generalize hgoing : false = going at h
  induction h with
  | refl s => exact h'
  | next guard head going tail ih => exact .next guard head going (ih h' hgoing)
  | stop guard head => cases hgoing

theorem ExecuteTrail.run_execute (h : ExecuteTrail isa s states stopped t) :
    ∃ events, (execute isa states.length).run s = ⟨.ok stopped, t, events⟩ := by
  induction h with
  | refl s => exact ⟨[], rfl⟩
  | next guard head going tail ih =>
    obtain ⟨events, hrun⟩ := ih
    rw [List.length_cons, run_execute_next guard head going, hrun]
    exact ⟨_, rfl⟩
  | stop guard head => exact ⟨_, run_execute_stop guard head 0⟩

theorem ExecuteTrail.begins (h : ExecuteTrail isa s states stopped t) :
    BeginsExecute isa s states := by
  induction h with
  | refl s => exact fun k hk => absurd hk k.not_lt_zero
  | next guard head going tail ih =>
    rintro (_ | k) hk
    · rw [run_execute_next guard head going 0]
      exact ⟨rfl, rfl, false, rfl⟩
    · rw [run_execute_next guard head going k, run_execute_next guard head going (k + 1)]
      exact ih k (Nat.lt_of_succ_lt_succ hk)
  | stop guard head =>
    rintro (_ | k) hk
    · rw [run_execute_stop guard head 0]
      exact ⟨rfl, rfl, true, rfl⟩
    · exact absurd hk (by simp)

end Trail

/-! ## Turns follow `execute` -/

namespace Debugger

/-- The turns from one session to another took the steps that `execute` takes, and the
last one was at an `STP` if they have returned. -/
structure Follows (isa : CPU6502ISA) (session t : Session) (last : Location)
    (history : List CPU6502) : Prop where
  size : t.cpu.memory.size = session.cpu.memory.size
  trail : ∃ stopped, ExecuteTrail isa session.cpu.quiet (history.map CPU6502.quiet) stopped
    t.cpu.quiet ∧ (stopped = true ↔ last = .returned)

section Follows
variable {isa : CPU6502ISA} {session t u : Session} {location next last : Location}
  {states history later : List CPU6502} {events : List Event}

theorem Follows.of_silent (hcpu : t.cpu = session.cpu) (h : next ≠ .returned) :
    Follows isa session t next [] where
  size := by rw [hcpu]
  trail := by
    rw [hcpu]
    exact ⟨false, .refl _, by simpa using h⟩

theorem Follows.trans (h : Follows isa session t next states) (hnext : next ≠ .returned)
    (h' : Follows isa t u last later) : Follows isa session u last (states ++ later) where
  size := h'.size.trans h.size
  trail := by
    obtain ⟨stopped, htrail, hstopped⟩ := h.trail
    obtain ⟨stopped', htrail', hstopped'⟩ := h'.trail
    obtain rfl : stopped = false := by
      rw [← Bool.not_eq_true, hstopped]
      exact hnext
    rw [List.map_append]
    exact ⟨stopped', htrail.trans htrail', hstopped'⟩

/-- A step in either loop is an iteration of `execute`. -/
theorem follows_stepTurn {broken going : Location} (hs : maxMemory ≤ session.cpu.memory.size)
    (h : (stepTurn isa broken going).run session = ⟨.ok (next, states), t, events⟩)
    (hbroken : broken ≠ .returned) (hgoing : going ≠ .returned) :
    Follows isa session t next states := by
  rcases hstep : (step isa).run session.cpu with ⟨_ | err, cpu, earlier⟩
  · rw [run_stepTurn_error hstep] at h
    cases h
  · rw [run_stepTurn hstep] at h
    obtain ⟨⟨⟩, rfl, -⟩ := Outcome.mk.inj h
    have hsize := size_step hs hstep
    have guard : session.cpu.quiet.PC.toNat < session.cpu.quiet.memory.size :=
      session.cpu.memory.lt_size hs session.cpu.PC
    obtain ⟨rest, hquiet⟩ := exists_run_step_quiet_of_ok hs hstep
    refine ⟨hsize, ?_⟩
    by_cases hstop : err = .stop
    · subst hstop
      exact ⟨true, .stop guard hquiet, by simp [Location.afterStep]⟩
    · have hnext : Location.afterStep broken going err ≠ .returned := by
        rcases Location.afterStep_eq hstop broken going with heq | heq
        · rwa [heq]
        · rwa [heq]
      refine ⟨false, .next guard hquiet ?_ (.refl _), by simpa using hnext⟩
      exact fun hunbroken => hstop (unbroken_eq_stop_iff.mp hunbroken)

theorem follows_turn (hs : maxMemory ≤ session.cpu.memory.size)
    (running : location.status = .running)
    (h : (turn isa location).run session = ⟨.ok (next, states), t, events⟩) :
    Follows isa session t next states := by
  cases location with
  | loop =>
    rw [run_turn_loop (session.cpu.memory.lt_size hs session.cpu.PC)] at h
    exact follows_stepTurn hs h nofun nofun
  | prompt command =>
    rw [run_turn_prompt] at h
    generalize ho : (obey isa (session.input.getline command).1).run
      { session with input := (session.input.getline command).2 } = o at h
    cases obey_cases_of_run ho with
    | goes hnext =>
      obtain ⟨⟨⟩, rfl, -⟩ := Outcome.mk.inj h
      refine .of_silent rfl ?_
      rcases hnext with rfl | rfl <;> simp
    | exits parsed name =>
      obtain ⟨⟨⟩, rfl, -⟩ := Outcome.mk.inj h
      exact .of_silent rfl nofun
    | failed parsed name run => cases h
    | steps parsed name =>
      obtain ⟨rest, hstep, -⟩ := Outcome.of_after_eq h
      have hfollows : Follows isa { session with input := (session.input.getline command).2 }
          t next states := follows_stepTurn hs hstep nofun nofun
      exact ⟨hfollows.size, hfollows.trail⟩
  | returned => cases running
  | exited => cases running

/-- What one turn keeps, every run of turns keeps. -/
theorem follows_turns {k : ℕ} (hs : maxMemory ≤ session.cpu.memory.size)
    (running : location.status = .running)
    (h : (turns isa k location).run session = ⟨.ok (last, history), t, events⟩) :
    Follows isa session t last history := by
  induction k generalizing location session history events with
  | zero =>
    obtain ⟨⟨⟩, rfl, -⟩ := Outcome.mk.inj h
    refine .of_silent rfl ?_
    rintro rfl
    cases running
  | succ k ih =>
    obtain ⟨next, states, u, later, earlier, rest, hturn, hturns, rfl, -⟩ := of_run_turns_succ h
    have hfollows := follows_turn hs running hturn
    by_cases hnext : next.status = .running
    · refine hfollows.trans ?_ (ih (hs.trans_eq hfollows.size.symm) hnext hturns)
      rintro rfl
      cases hnext
    · rw [run_turns_ended hnext] at hturns
      obtain ⟨⟨⟩, rfl, -⟩ := Outcome.mk.inj hturns
      rwa [List.append_nil]

end Follows

/-! ## Lines that were typed -/

/-- The input that delivers the lines, and then its end. -/
def typed (lines : List (List Char)) : StandardInput :=
  ⟨lines.flatMap fun line => line ++ ['\n'], true⟩

/-- A line that does not ask for the end of the session or for a byte outside the memory. -/
structure Permitted (size : ℕ) (line : List Char) : Prop where
  oneLine : '\n' ∉ line
  stays : ∀ cmd, Command.parse line = some cmd → cmd.name ≠ .exit
  inside : ∀ cmd, Command.parse line = some cmd → cmd.name = .get → GetInside size cmd.args

theorem getline_typed {line : List Char} (h : '\n' ∉ line) (lines : List (List Char))
    (command : List Char) : (typed (line :: lines)).getline command = (line, typed lines) := by
  have hget := StandardInput.getline_append command h (typed lines).rest
  rw [typed, List.flatMap_cons, List.append_assoc]
  exact hget

section Get
variable {cpu : CPU6502}

/-- A look inside the memory comes to its end. -/
theorem exists_run_get {args : List (List Char)} (h : GetInside cpu.memory.size args) :
    ∃ events, (get args).run cpu = ⟨.ok (), cpu, events⟩ := by
  have hprint {start count : ℕ} (hinside : ∀ j < count, start + j < cpu.memory.size) :
      ∃ events, (printMemory start count).run cpu = ⟨.ok (), cpu, events⟩ := by
    obtain ⟨events, hrun, -⟩ := run_printMemory hinside
    exact ⟨events, hrun⟩
  match args with
  | [] => exact ⟨_, rfl⟩
  | [address] =>
    refine hprint fun j hj => ?_
    obtain rfl : j = 0 := by omega
    exact h
  | [start, count] =>
    refine hprint fun j hj => ?_
    rcases h with h | h <;> omega
  | _ :: _ :: _ :: _ => exact ⟨_, rfl⟩

end Get

/-- However the session goes on, it finds a line whenever it asks for one. -/
def LinesSuffice (isa : CPU6502ISA) (location : Location) (session : Session) : Prop :=
  ∀ k command history t events,
    (turns isa k location).run session = ⟨.ok (.prompt command, history), t, events⟩ →
      t.input.rest ≠ []

/-- A session in its loops over a program that `execute` brings to its end in `n`
iterations, with the lines still to be read. -/
structure Ready (isa : CPU6502ISA) (n : ℕ) (lines : List (List Char)) (location : Location)
    (session : Session) : Prop where
  full : maxMemory ≤ session.cpu.memory.size
  running : location.status = .running
  input : session.input = typed lines
  permitted : ∀ line ∈ lines, Permitted session.cpu.memory.size line
  suffice : LinesSuffice isa location session
  returns : ∃ t events, (execute isa n).run session.cpu.quiet = ⟨.ok true, t, events⟩

section Ready
variable {isa : CPU6502ISA} {n : ℕ} {lines : List (List Char)} {location next : Location}
  {session t : Session} {states : List CPU6502} {events : List Event}

theorem LinesSuffice.tail (h : LinesSuffice isa location session)
    (hturn : (turn isa location).run session = ⟨.ok (next, states), t, events⟩) :
    LinesSuffice isa next t := by
  intro k command later u rest hturns
  exact h (k + 1) command _ u _ (run_turns_succ hturn hturns)

/-- Where `execute` comes to its end, so does each step on the way. -/
theorem exists_step_of_returns {cpu : CPU6502} (hs : maxMemory ≤ cpu.memory.size)
    (h : ∃ t events, (execute isa n).run cpu.quiet = ⟨.ok true, t, events⟩) :
    ∃ m err u events, n = m + 1 ∧ (step isa).run cpu = ⟨.ok err, u, events⟩ ∧
      (err ≠ .stop → ∃ t events, (execute isa m).run u.quiet = ⟨.ok true, t, events⟩) := by
  obtain ⟨t, events, hexecute⟩ := h
  have guard : cpu.quiet.PC.toNat < cpu.quiet.memory.size := cpu.memory.lt_size hs cpu.PC
  cases n with
  | zero => cases hexecute
  | succ m =>
    obtain ⟨later, hquiet⟩ := exists_run_step_quiet isa hs
    rcases hstep : (step isa).run cpu with ⟨e | err, u, earlier⟩
    · rw [hstep] at hquiet
      rw [execute, Routine.run_bind_of_ok (Routine.run_get _), if_pos guard,
        Routine.run_bind_of_error hquiet] at hexecute
      cases hexecute
    · rw [hstep] at hquiet
      refine ⟨m, err, u, earlier, rfl, rfl, fun hgoing => ?_⟩
      have hgoing' : err.unbroken ≠ .stop := fun hstop => hgoing (unbroken_eq_stop_iff.mp hstop)
      rw [run_execute_next guard hquiet hgoing'] at hexecute
      obtain ⟨rest, hrest, -⟩ := Outcome.of_after_eq hexecute
      exact ⟨t, rest, hrest⟩

/-- A step of a session that is ready ends it or leaves it ready. -/
theorem ready_stepTurn {broken going : Location} (hs : maxMemory ≤ session.cpu.memory.size)
    (hinput : session.input = typed lines)
    (permitted : ∀ line ∈ lines, Permitted session.cpu.memory.size line)
    (returns : ∃ t events, (execute isa n).run session.cpu.quiet = ⟨.ok true, t, events⟩)
    (hbroken : broken.status = .running) (hgoing : going.status = .running) :
    ∃ next states t events,
      (stepTurn isa broken going).run session = ⟨.ok (next, states), t, events⟩ ∧
      (next = .returned ∨ ∃ m < n, LinesSuffice isa next t → Ready isa m lines next t) := by
  obtain ⟨m, err, u, events, rfl, hstep, hrest⟩ := exists_step_of_returns hs returns
  refine ⟨_, _, _, _, run_stepTurn hstep broken going, ?_⟩
  by_cases hstop : err = .stop
  · subst hstop
    exact .inl rfl
  · have hsize := size_step hs hstep
    refine .inr ⟨m, m.lt_succ_self, fun suffice => ?_⟩
    have hnext : (Location.afterStep broken going err).status = .running := by
      rcases Location.afterStep_eq hstop broken going with heq | heq
      · rwa [heq]
      · rwa [heq]
    refine ⟨full_step hs hstep, hnext, hinput, ?_, suffice, hrest hstop⟩
    intro line hline
    exact hsize ▸ permitted line hline

/-- So does a permitted line. -/
theorem ready_obey {line : List Char} (hs : maxMemory ≤ session.cpu.memory.size)
    (hinput : session.input = typed lines) (hline : Permitted session.cpu.memory.size line)
    (permitted : ∀ line ∈ lines, Permitted session.cpu.memory.size line)
    (returns : ∃ t events, (execute isa n).run session.cpu.quiet = ⟨.ok true, t, events⟩) :
    ∃ next states t events, (obey isa line).run session = ⟨.ok (next, states), t, events⟩ ∧
      (next = .returned ∨ ∃ m ≤ n, LinesSuffice isa next t → Ready isa m lines next t) := by
  generalize ho : (obey isa line).run session = o
  cases obey_cases_of_run ho with
  | goes hnext =>
    refine ⟨_, _, _, _, rfl, .inr ⟨n, le_rfl, fun suffice => ?_⟩⟩
    refine ⟨hs, ?_, hinput, permitted, suffice, returns⟩
    rcases hnext with rfl | rfl <;> rfl
  | exits parsed name => exact absurd name (hline.stays _ parsed)
  | failed parsed name run =>
    obtain ⟨events, hok⟩ := exists_run_get (hline.inside _ parsed name)
    rw [hok] at run
    cases run
  | steps parsed name =>
    obtain ⟨next, states, t, events, hrun, hnext⟩ : ∃ next states t events,
        (stepTurn isa (.prompt line) (.prompt line)).run session =
          ⟨.ok (next, states), t, events⟩ ∧ _ :=
      ready_stepTurn hs hinput permitted returns rfl rfl
    refine ⟨next, states, t, events, hrun, ?_⟩
    rcases hnext with hnext | ⟨m, hm, hready⟩
    · exact .inl hnext
    · exact .inr ⟨m, hm.le, hready⟩

/-- So does every turn, and it uses up a step or a line. -/
theorem Ready.turn (h : Ready isa n lines location session) :
    ∃ next states t events,
      (Debugger.turn isa location).run session = ⟨.ok (next, states), t, events⟩ ∧
      (next = .returned ∨ ∃ m lines', m + lines'.length < n + lines.length ∧
        Ready isa m lines' next t) := by
  cases location with
  | loop =>
    obtain ⟨next, states, t, events, hrun, hnext⟩ : ∃ next states t events,
        (stepTurn isa (.prompt []) .loop).run session = ⟨.ok (next, states), t, events⟩ ∧ _ :=
      ready_stepTurn h.full h.input h.permitted h.returns rfl rfl
    have hturn : (Debugger.turn isa .loop).run session = ⟨.ok (next, states), t, events⟩ := by
      rw [run_turn_loop (session.cpu.memory.lt_size h.full session.cpu.PC), hrun]
    refine ⟨next, states, t, events, hturn, ?_⟩
    rcases hnext with hnext | ⟨m, hm, hready⟩
    · exact .inl hnext
    · exact .inr ⟨m, lines, by omega, hready (h.suffice.tail hturn)⟩
  | prompt command =>
    cases lines with
    | nil =>
      have hrest := h.suffice 0 command [] session [] rfl
      rw [h.input] at hrest
      exact absurd rfl hrest
    | cons line lines =>
      obtain ⟨hline, hlines⟩ := List.forall_mem_cons.mp h.permitted
      have hget : session.input.getline command = (line, typed lines) := by
        rw [h.input, getline_typed hline.oneLine]
      obtain ⟨next, states, t, events, hrun, hnext⟩ : ∃ next states t events,
          (obey isa line).run { session with input := typed lines } =
            ⟨.ok (next, states), t, events⟩ ∧ _ :=
        ready_obey h.full rfl hline hlines h.returns
      have hturn : (Debugger.turn isa (.prompt command)).run session =
          ⟨.ok (next, states), t, [.announce (.text prompt)] ++ events⟩ := by
        rw [run_turn_prompt, hget, hrun]
        rfl
      refine ⟨next, states, t, _, hturn, ?_⟩
      rcases hnext with hnext | ⟨m, hm, hready⟩
      · exact .inl hnext
      · refine .inr ⟨m, lines, ?_, hready (h.suffice.tail hturn)⟩
        rw [List.length_cons]
        omega
  | returned => cases h.running
  | exited => cases h.running

/-- Ready sessions return, since neither steps nor lines last for ever. -/
theorem Ready.exists_turns (h : Ready isa n lines location session) :
    ∃ k history t events,
      (turns isa k location).run session = ⟨.ok (.returned, history), t, events⟩ := by
  induction hleft : n + lines.length using Nat.strong_induction_on
    generalizing n lines location session with
  | _ left ih =>
    obtain ⟨next, states, t, events, hturn, hnext⟩ := h.turn
    rcases hnext with rfl | ⟨m, lines', hlt, hready⟩
    · exact ⟨1, _, _, _, run_turns_succ hturn rfl⟩
    · obtain ⟨k, history, u, later, hturns⟩ := ih _ (hleft ▸ hlt) hready rfl
      exact ⟨k + 1, _, _, _, run_turns_succ hturn hturns⟩

end Ready

/-! ## Commands and breakpoints -/

/-- A turn at the prompt whose line is no `step` leaves the processor as it is. -/
theorem cpu_turn_prompt {isa : CPU6502ISA} (session : Session) (command : List Char)
    (h : ∀ cmd, Command.parse (session.input.getline command).1 = some cmd → cmd.name ≠ .step) :
    ((turn isa (.prompt command)).run session).state.cpu = session.cpu := by
  rw [run_turn_prompt]
  generalize ho : (obey isa _).run _ = o
  cases obey_cases_of_run ho with
  | goes hnext => rfl
  | exits parsed name => rfl
  | failed parsed name run => rfl
  | steps parsed name => exact absurd name (h _ parsed)

/-- Of all commands only `step` changes the processor or its memory. -/
theorem cpu_goToDebugger {isa : CPU6502ISA} (session : Session) (command : List Char)
    (h : ∀ cmd, Command.parse (session.input.getline command).1 = some cmd → cmd.name ≠ .step) :
    ((goToDebugger isa 1 command).run session).state.cpu = session.cpu := by
  have hturn : ((goToDebugger isa 1 command).run session).state =
      ((turn isa (.prompt command)).run session).state := by
    rw [goToDebugger_succ, Routine.run_bind]
    rcases (turn isa (.prompt command)).run session with ⟨_ | ⟨next, states⟩, t, events⟩
    · rfl
    · cases next <;> rfl
  rw [hturn]
  exact cpu_turn_prompt session command h

end Debugger

theorem find_dbg (isa : CPU6502ISA) : isa.find 0x02 = some ⟨.dbg, .implied, .dbg⟩ :=
  isa.find_eq rfl

theorem exists_run_step_dbg {isa : CPU6502ISA} {cpu : CPU6502}
    (hs : maxMemory ≤ cpu.memory.size) (h : opcodeAt cpu = 0x02) :
    ∃ events, (step isa).run cpu =
      ⟨.ok (if cpu.debug then .goToDebugger else .ok), { cpu with PC := cpu.PC + 1 }, events⟩ := by
  have find : isa.find (opcodeAt cpu) = some ⟨.dbg, .implied, .dbg⟩ := by
    rw [h]
    exact find_dbg isa
  have hstep := run_step_of_find hs find (pointerInside_of_ne cpu nofun)
    (Execute.run_dbg cpu (effectiveAddress 0 cpu .implied))
  have hadvance : advance ⟨.dbg, .implied, .dbg⟩ (if cpu.debug then .goToDebugger else .ok) cpu =
      { cpu with PC := cpu.PC + 1 } := by
    have hmode : (if cpu.debug then InstructionErr.goToDebugger else .ok) ≠ .okPCModified := by
      split <;> nofun
    rw [advance, if_neg hmode]
    rfl
  rw [hadvance] at hstep
  exact ⟨_, hstep⟩

/-! ## Transparency -/

open Debugger

/-- With the debug flag on and any permitted lines at the breakpoints, `Debugger::run`
goes through turns whose steps are the first steps of `execute` with the flag off. Where
it returns, `execute` returns after the same steps at the same state; where `execute`
returns and the lines suffice, so does it. No command but `step` touches the processor,
and a `DBG` moves the counter by one in both modes. -/
theorem debugger_transparent (isa : CPU6502ISA) (cpu : CPU6502)
    (hs : maxMemory ≤ cpu.memory.size) (lines : List (List Char))
    (permitted : ∀ line ∈ lines, Permitted cpu.memory.size line) :
    let session : Session := ⟨{ cpu with debug := true }, typed lines⟩
    let undebugged : CPU6502 := { cpu with debug := false }
    (∀ n, ∃ k, (Debugger.run isa n).run session = (statusAfter isa k .loop).run session) ∧
    (∀ k last history t events,
      (turns isa k .loop).run session = ⟨.ok (last, history), t, events⟩ →
        BeginsExecute isa undebugged (history.map quiet) ∧
        (last = .returned → ∃ later, (execute isa history.length).run undebugged =
          ⟨.ok true, t.cpu.quiet, later⟩)) ∧
    (∀ n t events, (Debugger.run isa n).run session = ⟨.ok .returned, t, events⟩ →
      ∃ k history later,
        (turns isa k .loop).run session = ⟨.ok (.returned, history), t, events⟩ ∧
        (execute isa history.length).run undebugged = ⟨.ok true, t.cpu.quiet, later⟩) ∧
    (LinesSuffice isa .loop session → ∀ n t events,
      (execute isa n).run undebugged = ⟨.ok true, t, events⟩ →
        ∃ k history u later,
          (turns isa k .loop).run session = ⟨.ok (.returned, history), u, later⟩ ∧
          (Debugger.run isa k).run session = ⟨.ok .returned, u, later⟩ ∧ u.cpu.quiet = t) ∧
    (∀ (s : Session) command,
      (∀ cmd, Command.parse (s.input.getline command).1 = some cmd → cmd.name ≠ .step) →
        ((goToDebugger isa 1 command).run s).state.cpu = s.cpu) ∧
    ∀ s : CPU6502, maxMemory ≤ s.memory.size → opcodeAt s = 0x02 →
      ∃ events, (step isa).run s =
        ⟨.ok (if s.debug then .goToDebugger else .ok), { s with PC := s.PC + 1 }, events⟩ := by
  intro session undebugged
  have hreturned {k history t events}
      (h : (turns isa k .loop).run session = ⟨.ok (.returned, history), t, events⟩) :
      ∃ later, (execute isa history.length).run undebugged = ⟨.ok true, t.cpu.quiet, later⟩ := by
    obtain ⟨stopped, htrail, hstopped⟩ := (follows_turns hs rfl h).trail
    obtain rfl : stopped = true := hstopped.mpr rfl
    obtain ⟨later, hrun⟩ := htrail.run_execute
    rw [List.length_map] at hrun
    exact ⟨later, hrun⟩
  refine ⟨fun n => exists_run_statusAfter n session, ?_, ?_, ?_,
    fun s command => cpu_goToDebugger s command, fun s hs h => exists_run_step_dbg hs h⟩
  · intro k last history t events h
    obtain ⟨stopped, htrail, -⟩ := (follows_turns hs rfl h).trail
    refine ⟨htrail.begins, ?_⟩
    rintro rfl
    exact hreturned h
  · intro n t events h
    obtain ⟨k, last, history, hturns, hlast⟩ := exists_turns_of_run h
    obtain rfl : last = .returned := by cases last <;> first | rfl | cases hlast
    obtain ⟨later, hrun⟩ := hreturned hturns
    exact ⟨k, history, later, hturns, hrun⟩
  · intro suffice n t events h
    have hready : Ready isa n lines .loop session :=
      ⟨hs, rfl, rfl, permitted, suffice, t, events, h⟩
    obtain ⟨k, history, u, later, hturns⟩ := hready.exists_turns
    have hrun : (resume isa k k .loop).run session = ⟨.ok .returned, u, later⟩ :=
      run_resume_of_turns hturns nofun le_rfl le_rfl
    refine ⟨k, history, u, later, hturns, hrun, ?_⟩
    obtain ⟨rest, hexecute⟩ := hreturned hturns
    have hleft := run_execute_of_returned hexecute n
    rw [Nat.add_comm, run_execute_of_returned h history.length] at hleft
    exact (Outcome.mk.inj hleft).2.1.symm

/-- A breakpoint, a `NOP` and an `STP`. -/
def breaksAtStart : CPU6502 := CPU6502.initial (.ofProgram [0x02, 0xEA, 0xDB]) true

/-- A step, an empty line, an unknown command, and on to the end. -/
def typedAtStart : List (List Char) := ["s".toList, "".toList, "foo".toList, "c".toList]

theorem permitted_typedAtStart :
    ∀ line ∈ typedAtStart, Permitted breaksAtStart.memory.size line := by
  have hall : ∀ line ∈ typedAtStart, '\n' ∉ line ∧
      ∀ cmd ∈ Command.parse line, cmd.name ≠ .exit ∧ cmd.name ≠ .get := by
    decide
  intro line hline
  obtain ⟨hone, hparse⟩ := hall line hline
  exact ⟨hone, fun cmd parsed => (hparse cmd parsed).1,
    fun cmd parsed name => absurd name (hparse cmd parsed).2⟩

theorem debugger_transparent_breaksAtStart :
    ∃ k history t events later,
      (Debugger.run isa 5).run ⟨breaksAtStart, typed typedAtStart⟩ = ⟨.ok .returned, t, events⟩ ∧
      (turns isa k .loop).run ⟨breaksAtStart, typed typedAtStart⟩ =
        ⟨.ok (.returned, history), t, events⟩ ∧
      BeginsExecute isa { breaksAtStart with debug := false } (history.map quiet) ∧
      (execute isa history.length).run { breaksAtStart with debug := false } =
        ⟨.ok true, t.cpu.quiet, later⟩ := by
  obtain ⟨-, hbegins, hreturned, -⟩ := debugger_transparent isa breaksAtStart le_rfl typedAtStart
    permitted_typedAtStart
  have hresult : ((Debugger.run isa 5).run ⟨breaksAtStart, typed typedAtStart⟩).result =
    .ok .returned := rfl
  rcases hrun : (Debugger.run isa 5).run ⟨breaksAtStart, typed typedAtStart⟩ with ⟨r, t, events⟩
  obtain rfl : r = .ok .returned := by simpa [hrun] using hresult
  obtain ⟨k, history, later, hturns, hexecute⟩ := hreturned 5 t events hrun
  exact ⟨k, history, t, events, later, rfl, hturns, (hbegins k _ history t events hturns).1,
    hexecute⟩

end Sim6502
