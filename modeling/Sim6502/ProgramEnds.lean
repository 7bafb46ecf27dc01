import Sim6502.StaticRegions
import Sim6502.UnreadBytes

/-!
# Where a run ends

Over a full memory the loop of `execute` has two ends: the opcode of `STP`, and an
indirect jump whose pointer is the last cell of a memory of exactly 64K. Which of them a
run comes to, and when, is said by the first state it reaches that is at one of them; a
run that reaches none goes on for ever.
-/
namespace Sim6502
open EventComputation CPU6502

/-! ## The two ends -/

/-- The opcode of `STP` is next. -/
def AtStop (cpu : CPU6502) : Prop := opcodeAt cpu = 0xDB

/-- An indirect jump is next that reads the second byte of its pointer behind the memory. -/
structure AtLostPointer (cpu : CPU6502) : Prop where
  opcode : opcodeAt cpu = 0x6C
  pointer : operandWord cpu = 0xFFFF
  size : cpu.memory.size = maxMemory

/-- The loop gets to such a state, with no iteration before it that ends it. -/
def ReachesAt (isa : CPU6502ISA) (n : ℕ) (cpu : CPU6502) (P : CPU6502 → Prop) : Prop :=
  ∃ s events, Continues isa n cpu events s ∧ P s

section Step
variable {isa : CPU6502ISA} {cpu t : CPU6502} {err : InstructionErr} {e : Fault}
  {events : List Event}

theorem find_stp (isa : CPU6502ISA) : isa.find 0xDB = some ⟨.stp, .implied, .stp⟩ :=
  isa.find_eq rfl

theorem find_jmpIndirect (isa : CPU6502ISA) :
    isa.find 0x6C = some ⟨.jmp, .absoluteIndirect, .jmp⟩ :=
  isa.find_eq rfl

theorem opcode_of_absoluteIndirect {opcode : Byte} {instruction : Instruction}
    (hmem : (opcode, instruction) ∈ isaEntries) (hmode : instruction.mode = .absoluteIndirect) :
    opcode = 0x6C := by
  have hall : ∀ e ∈ isaEntries, e.2.mode = .absoluteIndirect → e.1 = 0x6C := by decide +kernel
  exact hall _ hmem hmode

/-- A step says that the program stops exactly at the opcode of `STP`. -/
theorem atStop_iff (hs : maxMemory ≤ cpu.memory.size)
    (head : (step isa).run cpu = ⟨.ok err, t, events⟩) : AtStop cpu ↔ err = .stop := by
  cases step_cases_of_run hs head with
  | unknown find =>
    refine ⟨fun h => ?_, nofun⟩
    rw [h, find_stp] at find
    cases find
  | executed instruction find inside run =>
    have hallows := flow_execute _ _ hs run
    constructor
    · intro h
      rw [h, find_stp] at find
      obtain rfl := Option.some.inj find
      exact hallows.1
    · rintro rfl
      cases hflow : instruction.execute.flow <;> rw [hflow] at hallows
      case falls => exact absurd rfl hallows.2.1
      case branches => rcases hallows with ⟨h, -⟩ | ⟨h, -⟩ <;> cases h
      case jumps => cases hallows.1
      case returns => cases hallows
      case stops => exact (stp_of_flow (isa.find_mem find) hflow).1

/-- A step fails exactly at a lost pointer. -/
theorem atLostPointer_of_error (hs : maxMemory ≤ cpu.memory.size)
    (head : (step isa).run cpu = ⟨.error e, t, events⟩) :
    e = .undefined maxMemory ∧ AtLostPointer cpu := by
  cases step_cases_of_run hs head with
  | outside instruction find outside =>
    obtain ⟨⟨hmode, hpointer⟩, hsize⟩ := Classical.not_imp.mp outside
    exact ⟨rfl, opcode_of_absoluteIndirect (isa.find_mem find) hmode, hpointer,
      le_antisymm (Nat.not_lt.mp hsize) hs⟩

theorem AtLostPointer.run_step (isa : CPU6502ISA) (h : AtLostPointer cpu) :
    ∃ t events, (step isa).run cpu = ⟨.error (.undefined maxMemory), t, events⟩ := by
  have find : isa.find (opcodeAt cpu) = some ⟨.jmp, .absoluteIndirect, .jmp⟩ := by
    rw [h.opcode]
    exact find_jmpIndirect isa
  rcases step_of_find h.size.ge find with ⟨err, t, events, inside, -⟩ | ⟨-, -, head⟩
  · have hlt := inside ⟨rfl, h.pointer⟩
    rw [h.size] at hlt
    exact absurd hlt (lt_irrefl _)
  · exact ⟨_, _, head⟩

theorem AtStop.run_step (isa : CPU6502ISA) (h : AtStop cpu) (hs : maxMemory ≤ cpu.memory.size) :
    ∃ t events, (step isa).run cpu = ⟨.ok .stop, t, events⟩ := by
  rcases head : (step isa).run cpu with ⟨e | err, t, events⟩
  · have hopcode := (atLostPointer_of_error hs head).2.opcode
    rw [h] at hopcode
    cases hopcode
  · obtain rfl := (atStop_iff hs head).mp h
    exact ⟨t, events, rfl⟩

end Step

/-! ## The loop -/

section Loop
variable {isa : CPU6502ISA} {cpu : CPU6502} {n k : ℕ}

theorem ReachesAt.zero {P : CPU6502 → Prop} (h : P cpu) : ReachesAt isa 0 cpu P :=
  ⟨cpu, [], .refl cpu, h⟩

theorem ReachesAt.succ {P : CPU6502 → Prop} {t : CPU6502} {err : InstructionErr}
    {events : List Event} (guard : cpu.PC.toNat < cpu.memory.size)
    (head : (step isa).run cpu = ⟨.ok err, t, events⟩) (going : err ≠ .stop)
    (h : ReachesAt isa k t P) : ReachesAt isa (k + 1) cpu P := by
  obtain ⟨s, later, hrun, hs⟩ := h
  exact ⟨s, _, .next guard head going hrun, hs⟩

/-- The loop is still running, or it has come to one of the two ends. -/
inductive EndCase (isa : CPU6502ISA) (n : ℕ) (cpu : CPU6502) : Except Fault Bool → Prop where
  | running (h : ReachesAt isa n cpu fun _ => True) : EndCase isa n cpu (.ok false)
  | stopped {k : ℕ} (hk : k < n) (h : ReachesAt isa k cpu AtStop) : EndCase isa n cpu (.ok true)
  | lost {k : ℕ} (hk : k < n) (h : ReachesAt isa k cpu AtLostPointer) :
      EndCase isa n cpu (.error (.undefined maxMemory))

theorem endCase_execute (isa : CPU6502ISA) (n : ℕ) {cpu : CPU6502}
    (hs : maxMemory ≤ cpu.memory.size) : EndCase isa n cpu ((execute isa n).run cpu).result := by
  induction n generalizing cpu with
  | zero => exact .running (.zero trivial)
  | succ n ih =>
    generalize ho : (execute isa (n + 1)).run cpu = o
    cases iteration_cases_of_run ho with
    | ended guard => exact absurd (cpu.memory.lt_size hs cpu.PC) guard
    | failed guard head =>
      obtain ⟨rfl, hlost⟩ := atLostPointer_of_error hs head
      exact .lost n.succ_pos (.zero hlost)
    | stopped guard head => exact .stopped n.succ_pos (.zero ((atStop_iff hs head).mpr rfl))
    | @next err t events guard head going =>
      rw [Outcome.result_after]
      have hrest := ih (full_step hs head)
      generalize ((execute isa n).run t).result = r at hrest
      cases hrest with
      | running h => exact .running (h.succ guard head going)
      | stopped hk h => exact .stopped (Nat.succ_lt_succ hk) (h.succ guard head going)
      | lost hk h => exact .lost (Nat.succ_lt_succ hk) (h.succ guard head going)

/-- What the last iteration of a run comes to, the run comes to. -/
theorem ReachesAt.result_execute {P : CPU6502 → Prop} {r : Except Fault Bool}
    (h : ReachesAt isa k cpu P) (hs : maxMemory ≤ cpu.memory.size) (hk : k < n)
    (last : ∀ s, maxMemory ≤ s.memory.size → P s → ∀ m,
      ((execute isa (m + 1)).run s).result = r) :
    ((execute isa n).run cpu).result = r := by
  obtain ⟨s, events, hrun, hP⟩ := h
  obtain ⟨m, rfl⟩ : ∃ m, n = m + 1 + k := ⟨n - k - 1, by omega⟩
  rw [hrun.run_execute (m + 1), Outcome.result_after]
  exact last s (full_iterates hs hrun.iterates) hP m

theorem result_execute_of_atStop {s : CPU6502} (hs : maxMemory ≤ s.memory.size) (h : AtStop s)
    (m : ℕ) : ((execute isa (m + 1)).run s).result = .ok true := by
  obtain ⟨t, events, head⟩ := h.run_step isa hs
  rw [run_execute_stop (s.memory.lt_size hs s.PC) head]

theorem result_execute_of_atLostPointer {s : CPU6502} (hs : maxMemory ≤ s.memory.size)
    (h : AtLostPointer s) (m : ℕ) :
    ((execute isa (m + 1)).run s).result = .error (.undefined maxMemory) := by
  obtain ⟨t, events, head⟩ := h.run_step isa
  rw [execute, Routine.run_bind_of_ok (Routine.run_get s), if_pos (s.memory.lt_size hs s.PC),
    Routine.run_bind_of_error head]
  rfl

theorem execute_returned_iff (hs : maxMemory ≤ cpu.memory.size) :
    ((execute isa n).run cpu).result = .ok true ↔ ∃ k < n, ReachesAt isa k cpu AtStop := by
  constructor
  · intro h
    have hcase := endCase_execute isa n hs
    rw [h] at hcase
    cases hcase with
    | stopped hk hreach => exact ⟨_, hk, hreach⟩
  · rintro ⟨k, hk, hreach⟩
    exact hreach.result_execute hs hk fun s hfull hstop m => result_execute_of_atStop hfull hstop m

theorem execute_failed_iff (hs : maxMemory ≤ cpu.memory.size) (e : Fault) :
    ((execute isa n).run cpu).result = .error e ↔
      e = .undefined maxMemory ∧ ∃ k < n, ReachesAt isa k cpu AtLostPointer := by
  constructor
  · intro h
    have hcase := endCase_execute isa n hs
    rw [h] at hcase
    cases hcase with
    | lost hk hreach => exact ⟨rfl, _, hk, hreach⟩
  · rintro ⟨rfl, k, hk, hreach⟩
    exact hreach.result_execute hs hk fun s hfull hlost m =>
      result_execute_of_atLostPointer hfull hlost m

/-- The two ends are the only ones: a run that reaches neither is still running. -/
theorem execute_running_iff_reaches (hs : maxMemory ≤ cpu.memory.size) :
    ((execute isa n).run cpu).result = .ok false ↔
      (¬∃ k < n, ReachesAt isa k cpu AtStop) ∧ ¬∃ k < n, ReachesAt isa k cpu AtLostPointer := by
  constructor
  · intro h
    rw [← execute_returned_iff hs, h]
    refine ⟨nofun, fun hlost => ?_⟩
    have hfailed := (execute_failed_iff hs _).mpr ⟨rfl, hlost⟩
    rw [h] at hfailed
    cases hfailed
  · rintro ⟨hstop, hlost⟩
    have hcase := endCase_execute isa n hs
    generalize ((execute isa n).run cpu).result = r at hcase
    cases hcase with
    | running => rfl
    | stopped hk hreach => exact absurd ⟨_, hk, hreach⟩ hstop
    | lost hk hreach => exact absurd ⟨_, hk, hreach⟩ hlost

theorem execute_running_iff :
    ((execute isa n).run cpu).result = .ok false ↔ ∃ s events, Continues isa n cpu events s := by
  constructor
  · intro h
    rcases hrun : (execute isa n).run cpu with ⟨r, s, events⟩
    rw [hrun] at h
    obtain rfl : r = .ok false := h
    exact ⟨s, events, continues_of_running hrun⟩
  · rintro ⟨s, events, hrun⟩
    rw [hrun.running]

end Loop

/-! ## The program -/

/-- A program without a long option in the place of its path returns exactly when it gets
to an `STP`, reads behind the binary exactly when it gets to a jump through the last cell
of 64K, and is running exactly when it gets to neither, however many iterations its loop is
given; a running one has gone through all of them. -/
theorem main_ends_where (isa : CPU6502ISA) (n : ℕ)
    (files : List Char → Except (List Char) (List Byte)) (program path : List Char)
    (rest : List (List Char)) (input : StandardInput) (image : List Byte)
    (hfile : files path = .ok image) (hsize : maxMemory ≤ image.length)
    (hdebug : path ≠ "--debug".toList) (hdevice : path ≠ "--print-device".toList) :
    let start := pathEffect path (started image)
    let o := (main (Debugger.run isa n) files (program :: path :: rest)).run input
    (o.result = .ok (.debugged .returned) ↔ ∃ k < n, ReachesAt isa k start AtStop) ∧
    (∀ e, o.result = .error e ↔
      e = .undefined maxMemory ∧ ∃ k < n, ReachesAt isa k start AtLostPointer) ∧
    (o.result = .ok (.debugged .running) ↔
      (¬∃ k < n, ReachesAt isa k start AtStop) ∧
        ¬∃ k < n, ReachesAt isa k start AtLostPointer) ∧
    (o.result = .ok (.debugged .running) ↔ ∃ s events, Continues isa n start events s) := by
  intro start o
  have hs : maxMemory ≤ start.memory.size := by
    rw [memory_pathEffect]
    exact hsize
  have hresult : o.result = ((execute isa n).run start).result.map fun returned =>
      MainStatus.debugged (runStatus returned) :=
    congrArg Outcome.result
      (run_main_of_execute hfile hsize hdebug hdevice rfl program rest input)
  rw [hresult]
  refine ⟨Iff.trans ?_ (execute_returned_iff hs), fun e =>
    Iff.trans ?_ (execute_failed_iff hs e), Iff.trans ?_ (execute_running_iff_reaches hs),
    Iff.trans ?_ execute_running_iff⟩ <;>
    rcases ((execute isa n).run start).result with _ | _ | _ <;> simp [Except.map, runStatus]

theorem main_ends_where_stopsAtOnce :
    ((main (Debugger.run isa 1) (fun _ => .ok (stopsAtOnce 0 (List.replicate (maxMemory - 2) 0)))
      ["6502sim".toList, "prog.bin".toList]).run ⟨[], true⟩).result =
        .ok (.debugged .returned) := by
  obtain ⟨hlength, hzero⟩ := zeroes_behind_stop
  generalize List.replicate (maxMemory - 2) (0 : Byte) = zeroes at *
  have hends := main_ends_where isa 1 (fun _ => .ok (stopsAtOnce 0 zeroes)) "6502sim".toList
    "prog.bin".toList [] ⟨[], true⟩ _ rfl (full_stopsAtOnce 0 hlength) (by decide) (by decide)
  refine hends.1.mpr ⟨0, Nat.one_pos, .zero ?_⟩
  rw [AtStop, pathEffect_prog, opcodeAt_stopsAtOnce 0 hzero]

end Sim6502
