import Sim6502.CommandLine
import Sim6502.ExecuteLoop
import Sim6502.ImportedMemory

/-!
# From the command line to the loop

`main` over a file system: what becomes of a binary that is missing, cannot be opened, is
too short for the reset vector or is long enough, and what the program does from there.
Without the debug flag the debugger takes the steps of `execute` and asks for no line.
-/
namespace Sim6502
open EventComputation CPU6502 Debugger

/-! ## The binary -/

/-- The content of the vector after `memory.import(argv[1])`, or the text of the
exception. -/
def importedBytes (files : FileSystem) (path : List Char) : Except (List Char) (List Byte) :=
  match (GPMemory.importFile files path).run .empty with
  | ⟨.error what, _, _⟩ => .error what
  | ⟨.ok _, m, _⟩ => .ok ((List.range m.size).map m.cell)

theorem bytes_ofImage (image : List Byte) :
    (List.range (GPMemory.ofImage image).size).map (GPMemory.ofImage image).cell = image := by
  apply List.ext_getElem
  · simp [GPMemory.ofImage]
  · intro index _ hi
    simp [GPMemory.ofImage, hi]

def couldNotOpen (filename : List Char) : List Char :=
  "Could not open file ".toList ++ filename ++
    ". Make sure the assembled binary is there.".toList

/-- The three ways an import can go. -/
theorem importedBytes_eq (files : FileSystem) (path : List Char) :
    importedBytes files path = match files.fileSize path, files.content path with
      | .error what, _ => .error what
      | .ok _, none => .error (couldNotOpen path)
      | .ok _, some bytes => .ok bytes := by
  have hempty : GPMemory.empty = .ofImage [] := rfl
  rw [importedBytes, GPMemory.importFile]
  cases files.fileSize path with
  | error what => rfl
  | ok size =>
    cases files.content path with
    | none => rfl
    | some bytes =>
      simp only [hempty, run_importStream_ofImage, List.nil_append, bytes_ofImage]

/-! ## The constructor -/

/-- The warnings of the constructor between its accesses. -/
def constructEvents (image : List Byte) : List Event :=
  (if maxMemory < image.length then [.announce .memoryOverLimit] else []) ++
    [.read resetVectorLow, .read resetVectorHigh] ++
    if (image.getD resetVectorLow 0 = fullByte ∧ image.getD resetVectorHigh 0 = fullByte) ∨
        (image.getD resetVectorLow 0 = zeroByte ∧ image.getD resetVectorHigh 0 = zeroByte) then
      [.announce .resetVectorNotSet] else []

/-- The processor that starts to run an image. -/
def started (image : List Byte) : CPU6502 :=
  { initial (.ofImage image) false with
    PC := .ofBytes (image.getD resetVectorLow 0) (image.getD resetVectorHigh 0) }

theorem construct_ofImage {image : List Byte} (h : resetVectorHigh < image.length) :
    construct (.ofImage image) false = ⟨.ok (), started image, constructEvents image⟩ := by
  have hlow : resetVectorLow < image.length := lt_trans (by decide) h
  have hreadLow := run_readIndex (initial (.ofImage image) false) hlow
  have hreadHigh := run_readIndex (initial (.ofImage image) false) h
  have hsize : (initial (.ofImage image) false).memory.size = image.length := rfl
  have hcell (index : ℕ) :
      (initial (.ofImage image) false).memory.cell index = image.getD index 0 := rfl
  rw [hcell] at hreadLow hreadHigh
  simp only [construct, reset, Routine.run_bind, Routine.run_get, Routine.run_ite,
    run_announce, run_setPC, hreadLow, hreadHigh, Outcome.after_mk, hsize, constructEvents]
  split <;> split <;> rfl

/-- An image that ends before the reset vector does is read behind its end. -/
theorem construct_short {image : List Byte} (h : image.length ≤ resetVectorHigh) :
    ∃ cpu, construct (.ofImage image) false =
      ⟨.error (.undefined (max image.length resetVectorLow)), cpu, .read resetVectorLow ::
        if image.length = resetVectorHigh then [.read resetVectorHigh] else []⟩ := by
  have hsize : (initial (.ofImage image) false).memory.size = image.length := rfl
  have hover : ¬maxMemory < image.length :=
    Nat.not_lt.mpr (le_trans h (by decide))
  by_cases hlow : resetVectorLow < image.length
  · have hlength : image.length = resetVectorHigh := by
      unfold resetVectorLow resetVectorHigh at *
      omega
    have hreadLow := run_readIndex (initial (.ofImage image) false) hlow
    have hreadHigh := run_readIndex_outside (initial (.ofImage image) false)
      (show ¬resetVectorHigh < image.length by omega)
    refine ⟨initial (.ofImage image) false, ?_⟩
    simp only [construct, reset, Routine.run_bind, Routine.run_get, Routine.run_ite, hsize,
      hreadLow, hreadHigh, Outcome.after_mk, hlength, if_true]
    rfl
  · have hreadLow := run_readIndex_outside (initial (.ofImage image) false) hlow
    have hlength : image.length ≠ resetVectorHigh := by
      unfold resetVectorLow resetVectorHigh at *
      omega
    refine ⟨initial (.ofImage image) false, ?_⟩
    simp only [construct, reset, Routine.run_bind, Routine.run_get, hsize, hover, if_false,
      hreadLow, Outcome.after_mk, hlength, Nat.max_eq_right (Nat.not_lt.mp hlow)]
    rfl

/-! ## The debugger without the debug flag -/

theorem ne_goToDebugger_execute (body : InstructionBody) (a : Address) {cpu : CPU6502}
    (hs : maxMemory ≤ cpu.memory.size) (hd : cpu.debug = false) :
    ((body.execute a).run cpu).result ≠ .ok .goToDebugger := by
  have hbranch (taken : Bool) : branchErr taken ≠ .goToDebugger := by
    cases taken <;> decide
  cases body <;> simp [InstructionBody.execute, hs, hd, hbranch]

theorem step_undisturbed {isa : CPU6502ISA} {cpu t : CPU6502} {err : InstructionErr}
    {events : List Event} (hs : maxMemory ≤ cpu.memory.size) (hd : cpu.debug = false)
    (run : (step isa).run cpu = ⟨.ok err, t, events⟩) :
    err ≠ .goToDebugger ∧ t.debug = false := by
  cases step_cases_of_run hs run with
  | unknown find => exact ⟨by decide, hd⟩
  | executed instruction find inside hbody =>
    have hne := ne_goToDebugger_execute instruction.execute
      (effectiveAddress 0 cpu instruction.mode) hs hd
    have hmodes := configuration_execute instruction.execute
      (effectiveAddress 0 cpu instruction.mode) hs
    rw [hbody] at hne hmodes
    refine ⟨fun he => hne (by rw [he]), ?_⟩
    rw [debug_advance, hmodes.2.2.1, hd]

/-- How a session stands whose loop is the one of `execute`. -/
def runStatus (returned : Bool) : RunStatus := if returned then .returned else .running

theorem run_eq_execute (isa : CPU6502ISA) (n : ℕ) {cpu : CPU6502} (input : StandardInput)
    (hs : maxMemory ≤ cpu.memory.size) (hd : cpu.debug = false) :
    (Debugger.run isa n).run ⟨cpu, input⟩ =
      ⟨((execute isa n).run cpu).result.map runStatus,
        ⟨((execute isa n).run cpu).state, input⟩, ((execute isa n).run cpu).events⟩ := by
  induction n generalizing cpu with
  | zero => rfl
  | succ n ih =>
    rw [Debugger.run, execute, Routine.run_bind_of_ok (Routine.run_get _),
      Routine.run_bind_of_ok (Routine.run_get _)]
    by_cases guard : cpu.PC.toNat < cpu.memory.size
    · rw [if_pos guard, if_pos guard]
      rcases head : (step isa).run cpu with ⟨e | err, t, events⟩
      · rw [Routine.run_bind_of_error (run_onCpu ⟨cpu, input⟩ head),
          Routine.run_bind_of_error head]
        rfl
      · obtain ⟨hne, hdebug⟩ := step_undisturbed hs hd head
        rw [Routine.run_bind_of_ok (run_onCpu ⟨cpu, input⟩ head), Routine.run_bind_of_ok head,
          if_neg hne]
        by_cases hstop : err = .stop
        · rw [if_pos hstop, if_pos hstop]
          rfl
        · rw [if_neg hstop, if_neg hstop, ih (full_step hs head) hdebug]
          rfl
    · rw [if_neg guard, if_neg guard]
      rfl

/-! ## A binary that stops at once -/

section StopsAtOnce
variable (unread : Byte) {zeroes : List Byte}

/-- An `STP` at address 0, which the reset vector names, and a byte behind it. -/
def stopsAtOnce (zeroes : List Byte) : List Byte := 0xDB :: unread :: zeroes

theorem getD_stopsAtOnce (hzero : ∀ index, zeroes.getD index 0 = 0) {index : ℕ} (h : 2 ≤ index) :
    (stopsAtOnce unread zeroes).getD index 0 = 0 := by
  obtain ⟨k, rfl⟩ := Nat.exists_eq_add_of_le' h
  simpa [stopsAtOnce] using hzero k

theorem length_stopsAtOnce (hlength : zeroes.length = maxMemory - 2) :
    (stopsAtOnce unread zeroes).length = maxMemory := by
  rw [stopsAtOnce, List.length_cons, List.length_cons, hlength]
  decide

theorem PC_stopsAtOnce (hzero : ∀ index, zeroes.getD index 0 = 0) :
    (started (stopsAtOnce unread zeroes)).PC = 0 := by
  have hlow : (stopsAtOnce unread zeroes).getD resetVectorLow 0 = 0 :=
    getD_stopsAtOnce unread hzero (by decide)
  have hhigh : (stopsAtOnce unread zeroes).getD resetVectorHigh 0 = 0 :=
    getD_stopsAtOnce unread hzero (by decide)
  rw [started, hlow, hhigh]
  rfl

theorem opcodeAt_stopsAtOnce (hzero : ∀ index, zeroes.getD index 0 = 0) :
    opcodeAt (started (stopsAtOnce unread zeroes)) = 0xDB := by
  rw [opcodeAt, PC_stopsAtOnce unread hzero]
  rfl

theorem full_stopsAtOnce (hlength : zeroes.length = maxMemory - 2) :
    maxMemory ≤ (started (stopsAtOnce unread zeroes)).memory.size :=
  Nat.le_of_eq (length_stopsAtOnce unread hlength).symm

/-- The path is none of the options. -/
theorem pathEffect_prog (cpu : CPU6502) : pathEffect "prog.bin".toList cpu = cpu := by
  rw [pathEffect, if_neg (by decide), if_neg (by decide)]

/-- Its one step. -/
theorem run_execute_stopsAtOnce (hlength : zeroes.length = maxMemory - 2)
    (hzero : ∀ index, zeroes.getD index 0 = 0) :
    ∃ t, (execute isa 1).run (started (stopsAtOnce unread zeroes)) =
      ⟨.ok true, t, [.read 0, .announce .stpReached]⟩ := by
  have hs := full_stopsAtOnce unread hlength
  have hPC := PC_stopsAtOnce unread hzero
  have hfind : isa.find (opcodeAt (started (stopsAtOnce unread zeroes))) =
      some ⟨.stp, .implied, .stp⟩ := by
    rw [opcodeAt_stopsAtOnce unread hzero]
    rfl
  have hbody := Execute.run_stp (started (stopsAtOnce unread zeroes)) 0
  have hstep := run_step_of_find hs hfind (pointerInside_of_ne _ (by simp)) hbody
  have hrun := run_execute_stop (GPMemory.lt_size _ hs _) hstep 0
  simp only [lookupEvents, hPC] at hrun
  exact ⟨_, hrun⟩

theorem constructEvents_stopsAtOnce (hlength : zeroes.length = maxMemory - 2)
    (hzero : ∀ index, zeroes.getD index 0 = 0) : constructEvents (stopsAtOnce unread zeroes) =
      [.read resetVectorLow, .read resetVectorHigh, .announce .resetVectorNotSet] := by
  have hlow : (stopsAtOnce unread zeroes).getD resetVectorLow 0 = 0 :=
    getD_stopsAtOnce unread hzero (by decide)
  have hhigh : (stopsAtOnce unread zeroes).getD resetVectorHigh 0 = 0 :=
    getD_stopsAtOnce unread hzero (by decide)
  rw [constructEvents, length_stopsAtOnce unread hlength, hlow, hhigh]
  decide

/-- The pass over the path lets the debugger run. -/
theorem exists_argumentLoop_stopsAtOnce (hlength : zeroes.length = maxMemory - 2)
    (hzero : ∀ index, zeroes.getD index 0 = 0) (input : StandardInput) :
    ∃ t, (argumentLoop (Debugger.run isa 1) ["6502sim".toList, "prog.bin".toList]
        ["6502sim".toList, "prog.bin".toList].length 0).run
        ⟨started (stopsAtOnce unread zeroes), input⟩ =
      ⟨.ok (.debugged .returned), ⟨t, input⟩, [.read 0, .announce .stpReached]⟩ := by
  have hs := full_stopsAtOnce unread hlength
  obtain ⟨t, hexecute⟩ := run_execute_stopsAtOnce unread hlength hzero
  have hrun := run_eq_execute isa 1 input hs rfl
  rw [hexecute] at hrun
  have hpath := @run_processArgument_path "6502sim".toList "prog.bin".toList [] (by decide)
    ⟨started (stopsAtOnce unread zeroes), input⟩
  rw [pathEffect_prog] at hpath
  refine ⟨t, ?_⟩
  rw [argumentLoop_eq, Routine.run_bind_of_ok hpath]
  dsimp only
  rw [Routine.run_bind_of_ok hrun]
  rfl

end StopsAtOnce

/-- The rest of such a binary, filled up to 64K. -/
theorem zeroes_behind_stop :
    (List.replicate (maxMemory - 2) (0 : Byte)).length = maxMemory - 2 ∧
      ∀ index, (List.replicate (maxMemory - 2) (0 : Byte)).getD index 0 = 0 := by
  refine ⟨List.length_replicate, fun index => ?_⟩
  rw [List.getD_eq_getElem?_getD, List.getElem?_replicate]
  split <;> rfl

/-! ## The program -/

/-- What becomes of a binary before the first argument is processed. The program tells why
it cannot be imported and returns 1; a binary that is too short is read outside its bounds;
from any other the processor starts at the address in the reset vector. -/
theorem main_start {α : Type} (run : Debugging α) (files : FileSystem) (program path : List Char)
    (rest : List (List Char)) (input : StandardInput) :
    (∀ what, files.fileSize path = .error what →
      (main run (importedBytes files) (program :: path :: rest)).run input =
        ⟨.ok (.aborted (.returned (what ++ "\n".toList))), input, []⟩) ∧
    ∀ size, files.fileSize path = .ok size →
      (files.content path = none →
        (main run (importedBytes files) (program :: path :: rest)).run input =
          ⟨.ok (.aborted (.returned (couldNotOpen path ++ "\n".toList))), input, []⟩) ∧
      ∀ image, files.content path = some image →
        (image.length ≤ resetVectorHigh →
          ((main run (importedBytes files) (program :: path :: rest)).run input).result =
            .error (.undefined (max image.length resetVectorLow))) ∧
        (resetVectorHigh < image.length →
          (main run (importedBytes files) (program :: path :: rest)).run input =
            let o := (argumentLoop run (program :: path :: rest)
              (program :: path :: rest).length 0).run ⟨started image, input⟩
            ⟨o.result, o.state.input, constructEvents image ++ o.events⟩) := by
  refine ⟨fun what hsize => ?_, fun size hsize => ⟨fun hcontent => ?_, fun image hcontent => ?_⟩⟩
  · have hbytes := importedBytes_eq files path
    rw [hsize] at hbytes
    rw [main]
    simp only [hbytes]
  · have hbytes := importedBytes_eq files path
    rw [hsize, hcontent] at hbytes
    rw [main]
    simp only [hbytes]
  · have hbytes := importedBytes_eq files path
    rw [hsize, hcontent] at hbytes
    rw [main]
    simp only [hbytes]
    refine ⟨fun hshort => ?_, fun hlong => ?_⟩
    · obtain ⟨cpu, hconstruct⟩ := construct_short hshort
      rw [hconstruct]
    · rw [construct_ofImage hlong]

/-- A disk with one file, which can be opened if it has a content. -/
def oneFile (content : Option (List Byte)) : FileSystem where
  fileSize name :=
    if name = "prog.bin".toList then .ok (content.getD []).length
    else .error "No such file or directory".toList
  content name := if name = "prog.bin".toList then content else none

theorem main_start_oneFile :
    (main (Debugger.run isa 1) (importedBytes (oneFile none))
        ["6502sim".toList, "other.bin".toList]).run ⟨[], true⟩ =
      ⟨.ok (.aborted (.returned "No such file or directory\n".toList)), ⟨[], true⟩, []⟩ ∧
    (main (Debugger.run isa 1) (importedBytes (oneFile none))
        ["6502sim".toList, "prog.bin".toList]).run ⟨[], true⟩ =
      ⟨.ok (.aborted (.returned (couldNotOpen "prog.bin".toList ++ "\n".toList))), ⟨[], true⟩, []⟩ ∧
    ((main (Debugger.run isa 1) (importedBytes (oneFile (some [0xDB])))
        ["6502sim".toList, "prog.bin".toList]).run ⟨[], true⟩).result =
      .error (.undefined 0xFFFC) ∧
    (main (Debugger.run isa 1)
        (importedBytes (oneFile (some (stopsAtOnce 0 (List.replicate (maxMemory - 2) 0)))))
        ["6502sim".toList, "prog.bin".toList]).run ⟨[], true⟩ =
      ⟨.ok (.debugged .returned), ⟨[], true⟩, [.read resetVectorLow, .read resetVectorHigh,
        .announce .resetVectorNotSet, .read 0, .announce .stpReached]⟩ := by
  obtain ⟨hlength, hzero⟩ := zeroes_behind_stop
  generalize List.replicate (maxMemory - 2) (0 : Byte) = zeroes at *
  have hstart (content : Option (List Byte)) (path : List Char) :=
    main_start (Debugger.run isa 1) (oneFile content) "6502sim".toList path [] ⟨[], true⟩
  refine ⟨(hstart none "other.bin".toList).1 _ rfl,
    ((hstart none "prog.bin".toList).2 _ rfl).1 rfl, ?_, ?_⟩
  · exact (((hstart (some [0xDB]) "prog.bin".toList).2 _ rfl).2 _ rfl).1 (by decide)
  · have hlong : resetVectorHigh < (stopsAtOnce 0 zeroes).length := by
      rw [length_stopsAtOnce 0 hlength]
      decide
    obtain ⟨t, hloop⟩ := exists_argumentLoop_stopsAtOnce 0 hlength hzero ⟨[], true⟩
    rw [(((hstart (some (stopsAtOnce 0 zeroes)) "prog.bin".toList).2 _ rfl).2 _ rfl).2 hlong,
      constructEvents_stopsAtOnce 0 hlength hzero, hloop]
    rfl

section Execute
variable {isa : CPU6502ISA} {n : ℕ} {files : List Char → Except (List Char) (List Byte)}
  {path : List Char} {image : List Byte}

theorem run_main_of_execute (hfile : files path = .ok image) (hsize : maxMemory ≤ image.length)
    (hdebug : path ≠ "--debug".toList) (hdevice : path ≠ "--print-device".toList)
    {r : Except Fault Bool} {t : CPU6502} {events : List Event}
    (hrun : (execute isa n).run (pathEffect path (started image)) = ⟨r, t, events⟩)
    (program : List Char) (rest : List (List Char)) (input : StandardInput) :
    (main (Debugger.run isa n) files (program :: path :: rest)).run input =
      ⟨r.map fun returned => .debugged (runStatus returned), input,
        constructEvents image ++ events⟩ := by
  have hs : maxMemory ≤ (pathEffect path (started image)).memory.size := by
    rw [memory_pathEffect]
    exact hsize
  have hd : (pathEffect path (started image)).debug = false := by
    rw [pathEffect, if_neg hdebug]
    split <;> rfl
  have hloop := run_eq_execute isa n input hs hd
  rw [hrun] at hloop
  rw [main]
  simp only [hfile, construct_ofImage (lt_of_lt_of_le (by decide) hsize), argumentLoop_eq,
    Routine.run_bind_of_ok (run_processArgument_path hdevice _)]
  cases r with
  | error e =>
    rw [Routine.run_bind_of_error hloop]
    rfl
  | ok returned =>
    rw [Routine.run_bind_of_ok hloop]
    simp [Except.map]

end Execute

/-- Without a long option in the place of the path the program is `execute` on the binary:
it returns when `execute` does, fails where it fails, prints the same behind the warnings
of the constructor, and leaves its input as it is. -/
theorem main_runs_execute (isa : CPU6502ISA) (n : ℕ)
    (files : List Char → Except (List Char) (List Byte)) (program path : List Char)
    (rest : List (List Char)) (input : StandardInput) (image : List Byte)
    (hfile : files path = .ok image) (hsize : maxMemory ≤ image.length)
    (hdebug : path ≠ "--debug".toList) (hdevice : path ≠ "--print-device".toList) :
    (main (Debugger.run isa n) files (program :: path :: rest)).run input =
      let o := (execute isa n).run (pathEffect path (started image))
      ⟨o.result.map fun returned => .debugged (runStatus returned), input,
        constructEvents image ++ o.events⟩ :=
  run_main_of_execute hfile hsize hdebug hdevice rfl program rest input

theorem main_runs_execute_stopsAtOnce :
    (main (Debugger.run isa 1) (fun _ => .ok (stopsAtOnce 0 (List.replicate (maxMemory - 2) 0)))
        ["6502sim".toList, "prog.bin".toList]).run ⟨[], true⟩ =
      ⟨.ok (.debugged .returned), ⟨[], true⟩, [.read resetVectorLow, .read resetVectorHigh,
        .announce .resetVectorNotSet, .read 0, .announce .stpReached]⟩ := by
  obtain ⟨hlength, hzero⟩ := zeroes_behind_stop
  generalize List.replicate (maxMemory - 2) (0 : Byte) = zeroes at *
  have hsize := length_stopsAtOnce 0 hlength
  obtain ⟨t, hrun⟩ := run_execute_stopsAtOnce 0 hlength hzero
  rw [main_runs_execute isa 1 _ _ _ [] _ _ rfl (Nat.le_of_eq hsize.symm) (by decide) (by decide),
    pathEffect_prog, hrun, constructEvents_stopsAtOnce 0 hlength hzero]
  rfl

end Sim6502
