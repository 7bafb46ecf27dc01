import Sim6502.DebuggerSession

/-!
# The command line of `main.cpp`

`main` takes the binary from its first argument and walks over all arguments to find
the options. The debugger runs inside this walk, at the end of the first pass that is
not skipped, and `main` returns behind it: the only argument that is ever looked at is
the path of the binary.
-/
namespace Sim6502
open EventComputation CPU6502 Debugger

/-! ## The program -/

def CPU6502.setDebug (value : Bool) : Cpu Unit := .modify fun cpu => { cpu with debug := value }
def CPU6502.setVerbose (value : Bool) : Cpu Unit :=
  .modify fun cpu => { cpu with verbose := value }

/-- `memory.set_print_device`, on the memory that the processor points to. -/
def CPU6502.setPrintDevice (addr : Address) : Cpu Unit :=
  .modify fun cpu => { cpu with memory := { cpu.memory with printDeviceAddr := addr } }

inductive StoulError where
  | invalidArgument | outOfRange
  deriving DecidableEq

/-- `std::stoul(text, nullptr, 16)`: white space, a sign and `0x` may come before the
digits, of which there has to be at least one. -/
def stoul (text : List Char) : Except StoulError ℕ :=
  let rest := text.dropWhile isSpace
  let negative := rest.head? = some '-'
  let unsigned := if negative ∨ rest.head? = some '+' then rest.tail else rest
  if (unsigned.head?.bind hexDigit).isSome then
    let value := readDigits 0 (skipHexPrefix unsigned)
    if maxSize < value then .error .outOfRange
    else .ok (if negative then (maxSize + 1 - value) % (maxSize + 1) else value)
  else .error .invalidArgument

/-- The ends of `main` before the debugger runs: `return 1` with a text on `std::cerr`,
an exception that nothing catches, and a null pointer used as a string. -/
inductive Abort where
  | returned (error : List Char)
  | terminated
  | undefined
  deriving DecidableEq

/-- How a call of `main` stands. Behind the debugger it returns. -/
inductive MainStatus (α : Type) where
  | debugged (result : α)
  | aborted (abort : Abort)
  | finished

/-- `USAGE` with the program name and the default address. -/
def usage (program : List Char) : List Char :=
  "\n".toList ++ program ++
    (" <path to binary file> [-d|--debug|-v|--verbose|--print-device " ++
      "ADDR|--memory-size SIZE]\n" ++
      "  -d, --debug: enable debug mode\n" ++
      "  -v, --verbose: enable verbose mode\n" ++
      "  --print-device ADDR: set address of print device to ADDR, default ").toList ++
    (hex defaultOutputAddress.toNat).map Char.toUpper ++ "\n\n".toList

/-- The flags of argument `i`. The short ones are asked for where the argument is
known to begin with two dashes. -/
def processArgument (argv : List (List Char)) (i : ℕ) : Debugging (Option Abort) :=
  let arg := argv.getD i []
  if arg[0]? = some '-' then
    if arg[1]? = some '-' then
      if arg = "--debug".toList then do
        onCpu (setDebug true)
        return none
      else if arg = "--verbose".toList then do
        onCpu (setVerbose true)
        return none
      else if arg = "--print-device".toList then
        match argv[i + 1]? with
        | none => return some .undefined
        | some addrStr => match stoul addrStr with
          | .ok printAddr => do
            onCpu (setPrintDevice (BitVec.ofNat 16 printAddr))
            return none
          | .error .invalidArgument =>
            return some (.returned ("Invalid address: ".toList ++ addrStr ++ "\n".toList))
          | .error .outOfRange => return some .terminated
      else if arg[1]? = some 'd' then do
        onCpu (setDebug true)
        return none
      else if arg[1]? = some 'v' then do
        onCpu (setVerbose true)
        return none
      else return none
    else return none
  else return none

section Main
variable {α : Type} (run : Debugging α)

/-- The loop over the arguments from index `i` on. The debugger throws no exception of
the processor here, so nothing is caught. -/
def argumentLoop (argv : List (List Char)) : ℕ → ℕ → Debugging (MainStatus α)
  | 0, _ => return .finished
  | remaining + 1, i =>
    if i = 0 then
      argumentLoop argv remaining (i + 1)
    else do
      match ← processArgument argv i with
      | some abort => return .aborted abort
      | none => do
        let result ← run
        return .debugged result

/-- `main` over a file system that delivers the content of a file or the text of the
exception of `import`, with the debugger's `run` as a parameter. -/
def main (files : List Char → Except (List Char) (List Byte)) (argv : List (List Char)) :
    Routine StandardInput Fault Event (MainStatus α) where
  run input := match argv with
    | [] => ⟨.ok (.aborted .undefined), input, []⟩
    | [program] => ⟨.ok (.aborted (.returned [])), input, [.announce (.text (usage program))]⟩
    | _ :: path :: _ => match files path with
      | .error what => ⟨.ok (.aborted (.returned (what ++ "\n".toList))), input, []⟩
      | .ok image => match construct (.ofImage image) false with
        | ⟨.error e, _, events⟩ => ⟨.error e, input, events⟩
        | ⟨.ok _, cpu, events⟩ =>
          let o := (argumentLoop run argv argv.length 0).run ⟨cpu, input⟩
          ⟨o.result, o.state.input, events ++ o.events⟩

end Main

/-- The session in which the debugger starts to run, if it does. -/
def debuggerStart (files : List Char → Except (List Char) (List Byte)) (argv : List (List Char))
    (input : StandardInput) : Option Session :=
  match ((main Routine.get files argv).run input).result with
  | .ok (.debugged session) => some session
  | _ => none

/-! ## The options -/

/-- A number in hexadecimal digits that fits an address. -/
structure HexNumber where
  digits : List Char
  nonempty : digits ≠ []
  isHex : ∀ c ∈ digits, (hexDigit c).isSome
  le : readDigits 0 digits ≤ 0xFFFF

def HexNumber.address (number : HexNumber) : Address := BitVec.ofNat 16 (readDigits 0 number.digits)

/-- The options of the usage text. -/
inductive CommandLineOption where
  | d | debug | v | verbose
  | printDevice (number : HexNumber)

namespace CommandLineOption

def words : CommandLineOption → List (List Char)
  | .d => ["-d".toList]
  | .debug => ["--debug".toList]
  | .v => ["-v".toList]
  | .verbose => ["--verbose".toList]
  | .printDevice number => ["--print-device".toList, number.digits]

def setsDebug : CommandLineOption → Bool
  | .d | .debug => true
  | _ => false

def setsVerbose : CommandLineOption → Bool
  | .v | .verbose => true
  | _ => false

def number? : CommandLineOption → Option HexNumber
  | .printDevice number => some number
  | _ => none

end CommandLineOption

open CommandLineOption

def arguments (program path : List Char) (options : List CommandLineOption) : List (List Char) :=
  program :: path :: options.flatMap CommandLineOption.words

/-- The address of the last `--print-device`, or the default. -/
def lastPrintDevice (options : List CommandLineOption) : Address :=
  ((options.filterMap number?).map HexNumber.address).getLastD defaultOutputAddress

/-- What the options ask for. -/
structure OptionsEffective (options : List CommandLineOption) (cpu : CPU6502) : Prop where
  debug : cpu.debug = true ↔ ∃ option ∈ options, option.setsDebug
  verbose : cpu.verbose = true ↔ ∃ option ∈ options, option.setsVerbose
  printDevice : cpu.memory.printDeviceAddr = lastPrintDevice options

/-- Options that ask for nothing but what the path has done. -/
structure OptionsIdle (path : List Char) (options : List CommandLineOption) : Prop where
  debug : (∃ option ∈ options, option.setsDebug) ↔ path = "--debug".toList
  verbose : (∃ option ∈ options, option.setsVerbose) ↔ path = "--verbose".toList
  noAddress : path ≠ "--print-device".toList
  printDevice : lastPrintDevice options = defaultOutputAddress

/-! ## The one pass -/

section Pass
variable {α : Type} {run : Debugging α} {files : List Char → Except (List Char) (List Byte)}
  {program path : List Char} {rest : List (List Char)} {input : StandardInput}

/-- The only argument whose options are processed is the path. -/
theorem argumentLoop_eq :
    argumentLoop run (program :: path :: rest) (program :: path :: rest).length 0 = do
      match ← processArgument (program :: path :: rest) 1 with
      | some abort => return .aborted abort
      | none => do
        let result ← run
        return .debugged result := by
  rw [List.length_cons, argumentLoop, if_pos rfl, List.length_cons, argumentLoop,
    if_neg (by decide)]

/-- A path that is no long option is left alone, since the short ones are out of reach. -/
def pathEffect (path : List Char) (cpu : CPU6502) : CPU6502 :=
  if path = "--debug".toList then { cpu with debug := true }
  else if path = "--verbose".toList then { cpu with verbose := true }
  else cpu

theorem run_processArgument_path (h : path ≠ "--print-device".toList) (session : Session) :
    (processArgument (program :: path :: rest) 1).run session =
      ⟨.ok none, { session with cpu := pathEffect path session.cpu }, []⟩ := by
  by_cases hdebug : path = "--debug".toList
  · subst hdebug
    rfl
  by_cases hverbose : path = "--verbose".toList
  · subst hverbose
    rfl
  have harg : (program :: path :: rest).getD 1 [] = path := rfl
  simp only [processArgument, harg, pathEffect, if_neg h, if_neg hdebug, if_neg hverbose]
  by_cases hlong : path[1]? = some '-'
  · have hd : path[1]? ≠ some 'd' := by rw [hlong]; decide
    have hv : path[1]? ≠ some 'v' := by rw [hlong]; decide
    simp only [if_neg hd, if_neg hv, ite_self]
    rfl
  · simp only [if_neg hlong, ite_self]
    rfl

theorem processArgument_printDevice :
    (processArgument (program :: "--print-device".toList :: rest) 1) =
      match rest[0]? with
      | none => return some .undefined
      | some addrStr => match stoul addrStr with
        | .ok printAddr => do
          onCpu (setPrintDevice (BitVec.ofNat 16 printAddr))
          return none
        | .error .invalidArgument =>
          return some (.returned ("Invalid address: ".toList ++ addrStr ++ "\n".toList))
        | .error .outOfRange => return some .terminated := rfl

/-- When the debugger starts, the binary was there, the constructor came to its end and
the path did not abort the program. -/
theorem of_debuggerStart {session : Session}
    (h : debuggerStart files (program :: path :: rest) input = some session) :
    ∃ image cpu events later, files path = .ok image ∧
      construct (.ofImage image) false = ⟨.ok (), cpu, events⟩ ∧
      (processArgument (program :: path :: rest) 1).run ⟨cpu, input⟩ =
        ⟨.ok none, session, later⟩ := by
  rw [debuggerStart, main] at h
  dsimp only at h
  cases hfile : files path with
  | error what =>
    rw [hfile] at h
    cases h
  | ok image =>
    rw [hfile] at h
    dsimp only at h
    rcases hcpu : construct (.ofImage image) false with ⟨_ | _, cpu, events⟩
    · rw [hcpu] at h
      cases h
    · rw [hcpu, argumentLoop_eq] at h
      dsimp only at h
      rcases hpass : (processArgument (program :: path :: rest) 1).run ⟨cpu, input⟩ with
        ⟨_ | _ | _, t, later⟩
      · rw [Routine.run_bind_of_error hpass] at h
        cases h
      · rw [Routine.run_bind_of_ok hpass] at h
        obtain rfl : t = session := Option.some.inj h
        exact ⟨image, cpu, events, later, rfl, hcpu, hpass⟩
      · rw [Routine.run_bind_of_ok hpass] at h
        cases h

end Pass

/-! ## What becomes of the options -/

section PathEffect
variable (path : List Char) (cpu : CPU6502)

theorem debug_pathEffect :
    (pathEffect path cpu).debug = true ↔ cpu.debug = true ∨ path = "--debug".toList := by
  by_cases hdebug : path = "--debug".toList
  · rw [pathEffect, if_pos hdebug]
    exact ⟨fun _ => .inr hdebug, fun _ => rfl⟩
  · have hkept : (pathEffect path cpu).debug = cpu.debug := by
      rw [pathEffect, if_neg hdebug]
      split_ifs <;> rfl
    rw [hkept]
    exact ⟨.inl, fun h => h.resolve_right hdebug⟩

theorem verbose_pathEffect :
    (pathEffect path cpu).verbose = true ↔ cpu.verbose = true ∨ path = "--verbose".toList := by
  by_cases hverbose : path = "--verbose".toList
  · have hdebug : path ≠ "--debug".toList := by
      rw [hverbose]
      decide
    rw [pathEffect, if_neg hdebug, if_pos hverbose]
    exact ⟨fun _ => .inr hverbose, fun _ => rfl⟩
  · have hkept : (pathEffect path cpu).verbose = cpu.verbose := by
      rw [pathEffect, if_neg hverbose]
      split_ifs <;> rfl
    rw [hkept]
    exact ⟨.inl, fun h => h.resolve_right hverbose⟩

theorem memory_pathEffect : (pathEffect path cpu).memory = cpu.memory := by
  unfold pathEffect
  split_ifs <;> rfl

end PathEffect

/-- The processor that the constructor leaves. -/
theorem state_of_construct {image : List Byte} {cpu : CPU6502} {events : List Event}
    (h : construct (.ofImage image) false = ⟨.ok (), cpu, events⟩) :
    cpu.debug = false ∧ cpu.verbose = false ∧
      cpu.memory.printDeviceAddr = defaultOutputAddress := by
  have hok : (construct (.ofImage image) false).result = .ok () := by rw [h]
  have hstate := (construct_of_lt (lt_of_construct_ok hok) false).2
  rw [h] at hstate
  obtain rfl := hstate
  exact ⟨rfl, rfl, rfl⟩

/-- Of the words that can follow the path only `-d` reads as a number. -/
theorem stoul_first (option : CommandLineOption) (tail : List (List Char)) :
    option = .d ∨ ∃ word, (option.words ++ tail)[0]? = some word ∧
      stoul word = .error .invalidArgument := by
  cases option with
  | d => exact .inl rfl
  | debug => exact .inr ⟨"--debug".toList, rfl, rfl⟩
  | v => exact .inr ⟨"-v".toList, rfl, rfl⟩
  | verbose => exact .inr ⟨"--verbose".toList, rfl, rfl⟩
  | printDevice number => exact .inr ⟨"--print-device".toList, rfl, rfl⟩

/-- A path that is taken for the long option `--print-device` takes the next word for
the address. -/
theorem first_of_printDevice {program : List Char} {options : List CommandLineOption}
    {s t : Session} {events : List Event}
    (h : (processArgument (arguments program "--print-device".toList options) 1).run s =
      ⟨.ok none, t, events⟩) :
    CommandLineOption.d ∈ options ∧ t.cpu.debug = s.cpu.debug := by
  rw [arguments, processArgument_printDevice] at h
  cases options with
  | nil =>
    rw [List.flatMap_nil, List.getElem?_nil, Routine.run_pure] at h
    cases h
  | cons option options =>
    rw [List.flatMap_cons] at h
    rcases stoul_first option (options.flatMap CommandLineOption.words) with
      rfl | ⟨word, hword, hstoul⟩
    · obtain ⟨value, hd⟩ : ∃ value, stoul "-d".toList = .ok value :=
        ⟨0xFFFFFFFFFFFFFFF3, by decide⟩
      simp only [CommandLineOption.words, List.singleton_append, List.getElem?_cons_zero, hd] at h
      obtain ⟨-, rfl, -⟩ := Outcome.mk.inj h
      exact ⟨List.mem_cons_self, rfl⟩
    · simp only [hword, hstoul, Routine.run_pure, Outcome.mk.injEq, Except.ok.injEq,
        reduceCtorEq, false_and] at h

/-- The debugger starts as the options ask exactly when they ask for nothing, or for
what a path that is itself a long option has set. -/
theorem options_take_effect (files : List Char → Except (List Char) (List Byte))
    (program path : List Char) (options : List CommandLineOption) (input : StandardInput)
    (session : Session)
    (h : debuggerStart files (arguments program path options) input = some session) :
    OptionsEffective options session.cpu ↔ OptionsIdle path options := by
  obtain ⟨image, cpu, events, later, -, hcpu, hpass⟩ := of_debuggerStart h
  obtain ⟨hdebug, hverbose, hdevice⟩ := state_of_construct hcpu
  by_cases hpath : path = "--print-device".toList
  · subst hpath
    obtain ⟨hd, hkept⟩ := first_of_printDevice hpass
    constructor
    · intro heffective
      have hset := heffective.debug.mpr ⟨.d, hd, rfl⟩
      rw [hkept, hdebug] at hset
      cases hset
    · intro hidle
      exact absurd rfl hidle.noAddress
  · rw [run_processArgument_path hpath] at hpass
    obtain ⟨-, rfl, -⟩ := Outcome.mk.inj hpass
    have hsetDebug : (pathEffect path cpu).debug = true ↔ path = "--debug".toList := by
      rw [debug_pathEffect, hdebug]
      simp
    have hsetVerbose : (pathEffect path cpu).verbose = true ↔ path = "--verbose".toList := by
      rw [verbose_pathEffect, hverbose]
      simp
    constructor
    · intro heffective
      refine ⟨heffective.debug.symm.trans hsetDebug, heffective.verbose.symm.trans hsetVerbose,
        hpath, ?_⟩
      rw [← heffective.printDevice, memory_pathEffect, hdevice]
    · intro hidle
      refine ⟨hsetDebug.trans hidle.debug.symm, hsetVerbose.trans hidle.verbose.symm, ?_⟩
      rw [memory_pathEffect, hdevice, hidle.printDevice]

/-- Over a binary that reaches past the reset vector the debugger does start. -/
theorem exists_debuggerStart {files : List Char → Except (List Char) (List Byte)}
    {path : List Char} {image : List Byte} (program : List Char)
    (options : List CommandLineOption) (input : StandardInput) (hfile : files path = .ok image)
    (hsize : resetVectorHigh < image.length) (hpath : path ≠ "--print-device".toList) :
    ∃ session, debuggerStart files (arguments program path options) input = some session := by
  rcases hcpu : construct (.ofImage image) false with ⟨result, cpu, events⟩
  have hhigh : resetVectorHigh < (GPMemory.ofImage image).size := hsize
  have hok := (construct_of_lt hhigh false).1
  rw [hcpu] at hok
  obtain rfl : result = .ok () := hok
  refine ⟨⟨pathEffect path cpu, input⟩, ?_⟩
  rw [debuggerStart, arguments, main]
  simp only [hfile, hcpu, argumentLoop_eq,
    Routine.run_bind_of_ok (run_processArgument_path hpath _)]
  rfl

/-- A directory with one binary of 64K. -/
def oneBinary (name : List Char) : Except (List Char) (List Byte) :=
  if name = "prog.bin".toList then .ok (List.replicate maxMemory 0)
  else .error "No such file".toList

theorem exists_start_oneBinary (options : List CommandLineOption) :
    ∃ session, debuggerStart oneBinary (arguments "6502sim".toList "prog.bin".toList options)
      ⟨[], false⟩ = some session := by
  have hfile : oneBinary "prog.bin".toList = .ok (List.replicate maxMemory 0) := by
    rw [oneBinary, if_pos rfl]
  refine exists_debuggerStart _ options _ hfile ?_ (by decide)
  rw [List.length_replicate]
  decide

/-- The default address, written out. -/
def fffb : HexNumber :=
  ⟨"FFFB".toList, by decide, List.all_eq_true.mp (by decide), by decide⟩

theorem options_take_effect_fffb :
    ∃ session, debuggerStart oneBinary
        (arguments "6502sim".toList "prog.bin".toList [.printDevice fffb]) ⟨[], false⟩ =
          some session ∧
      OptionsEffective [.printDevice fffb] session.cpu := by
  obtain ⟨session, h⟩ := exists_start_oneBinary [.printDevice fffb]
  refine ⟨session, h, (options_take_effect _ _ _ _ _ session h).mpr ?_⟩
  exact ⟨by decide, by decide, by decide, by decide⟩

/-- The option `-d` behind the path. -/
theorem debug_option_ignored :
    ¬∀ (files : List Char → Except (List Char) (List Byte)) (program path : List Char)
      (options : List CommandLineOption) (input : StandardInput) (session : Session),
      debuggerStart files (arguments program path options) input = some session →
        OptionsEffective options session.cpu := by
  intro hall
  obtain ⟨session, h⟩ := exists_start_oneBinary [.d]
  have heffective := hall _ _ _ _ _ session h
  obtain ⟨image, cpu, events, later, -, hcpu, hpass⟩ := of_debuggerStart h
  have hpath : "prog.bin".toList ≠ "--print-device".toList := by decide
  rw [run_processArgument_path hpath] at hpass
  obtain ⟨-, rfl, -⟩ := Outcome.mk.inj hpass
  have hset := heffective.debug.mpr ⟨.d, List.mem_cons_self, rfl⟩
  rw [debug_pathEffect, (state_of_construct hcpu).1] at hset
  rcases hset with hset | hset
  · cases hset
  · revert hset
    decide

end Sim6502
