import Sim6502.DebuggerCommands
import Sim6502.ProcessorStep
import Mathlib.Data.List.TakeWhile

/-!
# The debugger of `debugger.cpp` and `debugger.h`

A session is the processor together with the standard input. The two loops of the
debugger take the number of iterations they may make; a session that has used
them up is still running. `exit(0)` ends the session wherever it is called.
-/
namespace Sim6502
open EventComputation CPU6502

/-! ## Standard input -/

/-- What is left of the input, and whether the stream is still good. -/
structure StandardInput where
  rest : List Char
  good : Bool

/-- `std::getline(std::cin, command)`. A stream that has met the end of the input does
not touch the string any more. -/
def StandardInput.getline (input : StandardInput) (command : List Char) :
    List Char × StandardInput :=
  if input.good then
    (input.rest.takeWhile (· != '\n'),
      ⟨(input.rest.dropWhile (· != '\n')).tail, input.rest.contains '\n'⟩)
  else (command, input)

theorem bne_lineEnd {text : List Char} (h : '\n' ∉ text) : ∀ c ∈ text, (c != '\n') = true := by
  intro c hc
  simpa using fun heq : c = '\n' => h (heq ▸ hc)

/-- A line end is ahead: what comes before it is next. -/
theorem StandardInput.getline_append (command : List Char) {first : List Char} (h : '\n' ∉ first)
    (later : List Char) :
    (StandardInput.mk (first ++ '\n' :: later) true).getline command = (first, ⟨later, true⟩) := by
  simp [getline, List.takeWhile_append_of_pos (bne_lineEnd h),
    List.dropWhile_append_of_pos (bne_lineEnd h)]

/-- Otherwise all the rest is, and the stream meets its end. -/
theorem StandardInput.getline_last (command : List Char) {last : List Char} (h : '\n' ∉ last) :
    (StandardInput.mk last true).getline command = (last, ⟨[], false⟩) := by
  have htake : last.takeWhile (· != '\n') = last :=
    List.takeWhile_eq_self_iff.mpr (bne_lineEnd h)
  have hdrop : last.dropWhile (· != '\n') = [] := List.dropWhile_eq_nil_iff.mpr (bne_lineEnd h)
  simp [getline, htake, hdrop, h]

structure Session where
  cpu : CPU6502
  input : StandardInput

abbrev Debugging := Routine Session Fault Event

namespace Debugger

/-- Run an operation of the processor. -/
def onCpu {α : Type} (x : Cpu α) : Debugging α :=
  x.zoom Session.cpu fun session cpu => { session with cpu := cpu }

theorem run_onCpu {α : Type} {x : Cpu α} (session : Session) {r : Except Fault α} {t : CPU6502}
    {events : List Event} (h : x.run session.cpu = ⟨r, t, events⟩) :
    (onCpu x).run session = ⟨r, { session with cpu := t }, events⟩ := by
  rw [onCpu, Routine.run_zoom, h]

def getline (command : List Char) : Debugging (List Char) := do
  let session ← Routine.get
  Routine.modify fun session =>
    { session with input := (session.input.getline command).2 }
  return (session.input.getline command).1

def say (chars : List Char) : Cpu Unit := announce (.text chars)

theorem run_say (cpu : CPU6502) (chars : List Char) :
    (say chars).run cpu = ⟨.ok (), cpu, [.announce (.text chars)]⟩ := rfl

/-! ## Texts -/

def twosComplement (byte : Byte) : ℤ := byte.toInt

def hex (n : ℕ) : List Char := Nat.toDigits 16 n

def decimal (n : ℕ) : List Char := Nat.toDigits 10 n

/-- `std::setw(width) << std::setfill('0')`. -/
def padded (width : ℕ) (chars : List Char) : List Char :=
  List.replicate (width - chars.length) '0' ++ chars

/-- `std::bitset<8>`. -/
def bits (byte : Byte) : List Char :=
  [7, 6, 5, 4, 3, 2, 1, 0].map fun i => if byte.getLsbD i then '1' else '0'

/-- The `DUMP` case. Only the first and the fifth line print in base 16. -/
def dumpText (cpu : CPU6502) : List Char :=
  "format: HEX (UNSIGNED, SIGNED)\n".toList ++
    "A:  ".toList ++ hex cpu.A.toNat ++ " (".toList ++ decimal cpu.A.toNat ++ ", ".toList ++
      (toString (twosComplement cpu.A)).toList ++ ")\n".toList ++
    "X:  ".toList ++ decimal cpu.X.toNat ++ "\n".toList ++
    "Y:  ".toList ++ decimal cpu.Y.toNat ++ "\n".toList ++
    "S:  ".toList ++ decimal cpu.S.toNat ++ "\n".toList ++
    "PC: ".toList ++ hex cpu.PC.toNat ++ "\n".toList ++
    "P:  ".toList ++ bits cpu.P.get ++ "\n".toList ++
    "    NV BDIZC\n".toList

/-! ## Commands -/

/-- The loop of `print_memory` from iteration `i` on. -/
def printMemoryFrom (start : ℕ) : ℕ → ℕ → Cpu Unit
  | 0, _ => return
  | remaining + 1, i => do
    if i % 16 = 0 then
      say ("\n".toList ++ padded 4 (hex (start + i)) ++ ": ".toList)
    else if i % 8 = 0 then
      say " | ".toList
    else
      say " ".toList
    let byte ← readIndex (start + i)
    say (padded 2 (hex byte.toNat))
    printMemoryFrom start remaining (i + 1)

/-- What the loop prints in front of the byte of iteration `i`. -/
def bytePrefix (start i : ℕ) : List Char :=
  if i % 16 = 0 then "\n".toList ++ padded 4 (hex (start + i)) ++ ": ".toList
  else if i % 8 = 0 then " | ".toList
  else " ".toList

/-- The three layouts print the byte alike. -/
theorem printMemoryFrom_succ (start remaining i : ℕ) :
    printMemoryFrom start (remaining + 1) i = (do
      say (bytePrefix start i)
      let byte ← readIndex (start + i)
      say (padded 2 (hex byte.toNat))
      printMemoryFrom start remaining (i + 1)) := by
  rw [printMemoryFrom, bytePrefix]
  split
  · rfl
  · split <;> rfl

def printMemory (start count : ℕ) : Cpu Unit := do
  printMemoryFrom start count 0
  say "\n\n".toList

/-- The `GET` case, by the number of arguments. -/
def get : List (List Char) → Cpu Unit
  | [] => say "Missing address.\n".toList
  | [address] => printMemory (hexToNumber address) 1
  | [start, count] => printMemory (hexToNumber start) (hexToNumber count)
  | _ => say "Too many arguments.\n".toList

/-- How a call of `go_to_debugger` stands: at the prompt, returned, or in `exit(0)`. -/
inductive PromptStatus where
  | prompting
  | returned (stop : Bool)
  | exited
  deriving DecidableEq

/-- `go_to_debugger`, with the line it read last. -/
def goToDebugger (isa : CPU6502ISA) : ℕ → List Char → Debugging PromptStatus
  | 0, _ => return .prompting
  | n + 1, command => do
    onCpu (say prompt)
    let command ← getline command
    if command.isEmpty then
      goToDebugger isa n command
    else match Command.parse command with
      | none => do
        onCpu (say (invalidCommandMsg ++ "\n".toList))
        goToDebugger isa n command
      | some cmd => match cmd.name with
        | .dump => do
          let session ← Routine.get
          onCpu (say (dumpText session.cpu))
          goToDebugger isa n command
        | .get => do
          onCpu (get cmd.args)
          goToDebugger isa n command
        | .step => do
          let err ← onCpu (step isa)
          if err = .goToDebugger then do
            onCpu (announce .breakpointReached)
            goToDebugger isa n command
          else if err = .stop then do
            onCpu (announce .stpReached)
            return .returned true
          else
            goToDebugger isa n command
        | .continue => return .returned false
        | .help => do
          onCpu (say (helpMsg ++ "\n".toList))
          goToDebugger isa n command
        | .exit => return .exited

/-- How a session stands: in one of its loops, returned from `run`, or in `exit(0)`. -/
inductive RunStatus where
  | running | returned | exited
  deriving DecidableEq

/-- `run`. -/
def run (isa : CPU6502ISA) : ℕ → Debugging RunStatus
  | 0 => return .running
  | n + 1 => do
    let session ← Routine.get
    if session.cpu.PC.toNat < session.cpu.memory.size then
      let err ← onCpu (step isa)
      if err = .goToDebugger then do
        onCpu (announce .breakpointReached)
        match ← goToDebugger isa n [] with
        | .prompting => return .running
        | .exited => return .exited
        | .returned true => return .returned
        | .returned false => run isa n
      else if err = .stop then do
        onCpu (announce .stpReached)
        return .returned
      else
        run isa n
    else
      return .returned

end Debugger

end Sim6502
