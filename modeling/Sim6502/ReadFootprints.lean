import Sim6502.DebuggerSession
import Sim6502.OperationClosure
import Sim6502.RecordedAccesses

/-!
# What a run can depend on

The events of a run name the cells of the memory it has read. Everything the processor
and the debugger do is local in these cells, inside the bounds of the memory and outside:
a run is repeated on every memory of the same size that holds the same bytes in the cells
that it reads before it writes them.
-/
namespace Sim6502
open EventComputation CPU6502

/-! ## The cells of a processor -/

/-- The state apart from the content of the memory. -/
structure Surroundings where
  registers : Registers
  debug : Bool
  verbose : Bool
  size : ℕ
  printDeviceAddr : Address

def CPU6502.surroundings (cpu : CPU6502) : Surroundings where
  registers := cpu.registers
  debug := cpu.debug
  verbose := cpu.verbose
  size := cpu.memory.size
  printDeviceAddr := cpu.memory.printDeviceAddr

/-- There is no cell outside the vector. -/
def GPMemory.cell? (m : GPMemory) (index : ℕ) : Option Byte :=
  if index < m.size then some (m.cell index) else none

def readIndex? : Event → Option ℕ
  | .read index => some index
  | _ => none

def writtenIndex? : Event → Option ℕ
  | .write index _ => some index
  | _ => none

def cpuCells : CellView CPU6502 Event ℕ (Option Byte) Surroundings where
  cell cpu := cpu.memory.cell?
  rest := surroundings
  reads := readIndex?
  writes := writtenIndex?

theorem GPMemory.cell?_updated_of_ne (m : GPMemory) {a : Address} {index : ℕ}
    (h : index ≠ a.toNat) (v : Byte) : (m.updated a v).cell? index = m.cell? index := by
  rw [cell?, cell?, size_updated, cell_updated_of_ne m h]

/-! ## The operations of the processor are local -/

section Primitives

theorem local_readIndex (index : ℕ) : cpuCells.Local (readIndex index) := by
  intro s s' h
  have hsize : s'.memory.size = s.memory.size := congrArg Surroundings.size h.rest
  by_cases hin : index < s.memory.size
  · have hin' : index < s'.memory.size := hsize ▸ hin
    have hcell := h.cell index (by rw [run_readIndex s hin]; exact List.mem_cons_self)
    have hbyte : s'.memory.cell index = s.memory.cell index := by
      simpa [cpuCells, GPMemory.cell?, hin, hin'] using hcell
    rw [run_readIndex s hin, run_readIndex s' hin', hbyte]
    exact ⟨rfl, rfl, h.rest, by simp [CellView.written, cpuCells, writtenIndex?],
      fun _ _ => ⟨rfl, rfl⟩⟩
  · have hout' : ¬index < s'.memory.size := hsize ▸ hin
    rw [run_readIndex_outside s hin, run_readIndex_outside s' hout']
    exact ⟨rfl, rfl, h.rest, by simp [CellView.written, cpuCells, writtenIndex?],
      fun _ _ => ⟨rfl, rfl⟩⟩

theorem written_writeEvents (m : GPMemory) (a : Address) (v : Byte) :
    cpuCells.written (m.writeEvents a v) = [a.toNat] := by
  unfold GPMemory.writeEvents
  split <;> rfl

theorem local_writeMemory (a : Address) (v : Byte) : cpuCells.Local (writeMemory a v) := by
  intro s s' h
  have hsize : s'.memory.size = s.memory.size := congrArg Surroundings.size h.rest
  have hevents : s'.memory.writeEvents a v = s.memory.writeEvents a v := by
    have hdevice : s'.memory.printDeviceAddr = s.memory.printDeviceAddr :=
      congrArg Surroundings.printDeviceAddr h.rest
    rw [GPMemory.writeEvents, GPMemory.writeEvents, hdevice]
  by_cases hin : a.toNat < s.memory.size
  · have hin' : a.toNat < s'.memory.size := hsize ▸ hin
    rw [run_writeMemory_of_lt s hin, run_writeMemory_of_lt s' hin']
    refine ⟨rfl, hevents, h.rest, fun i hi => ?_, fun i hi => ?_⟩
    · rw [written_writeEvents, List.mem_singleton] at hi
      subst hi
      simp [cpuCells, GPMemory.cell?, hin, hin']
    · rw [written_writeEvents, List.mem_singleton] at hi
      exact ⟨GPMemory.cell?_updated_of_ne _ hi v, GPMemory.cell?_updated_of_ne _ hi v⟩
  · have hout' : ¬a.toNat < s'.memory.size := hsize ▸ hin
    rw [run_writeMemory_outside s hin, run_writeMemory_outside s' hout']
    refine ⟨rfl, hevents, h.rest, fun i hi => ?_, fun _ _ => ⟨rfl, rfl⟩⟩
    rw [written_writeEvents, List.mem_singleton] at hi
    subst hi
    simp [cpuCells, GPMemory.cell?, hin, hout']

/-- What a state delivers of its registers and modes. -/
theorem local_getter {α : Type} {f : CPU6502 → α}
    (h : ∀ s s', surroundings s' = surroundings s → f s' = f s) :
    cpuCells.Local (do return f (← Routine.get) : Cpu α) :=
  .get_bind (fun s s' hs => by rw [h s s' hs]) fun _ => .pure _

theorem local_getA : cpuCells.Local getA :=
  local_getter fun _ _ h => congrArg (·.registers.A) h
theorem local_getX : cpuCells.Local getX :=
  local_getter fun _ _ h => congrArg (·.registers.X) h
theorem local_getY : cpuCells.Local getY :=
  local_getter fun _ _ h => congrArg (·.registers.Y) h
theorem local_getS : cpuCells.Local getS :=
  local_getter fun _ _ h => congrArg (·.registers.S) h
theorem local_getPC : cpuCells.Local getPC :=
  local_getter fun _ _ h => congrArg (·.registers.PC) h
theorem local_getPSR : cpuCells.Local getPSR :=
  local_getter fun _ _ h => congrArg (·.registers.P) h
theorem local_isDebug : cpuCells.Local isDebug := local_getter fun _ _ h => congrArg (·.debug) h
theorem local_isVerbose : cpuCells.Local isVerbose :=
  local_getter fun _ _ h => congrArg (·.verbose) h

/-- A change of the registers that looks at the registers only. -/
theorem local_setter {f : CPU6502 → CPU6502} (hmemory : ∀ s, (f s).memory = s.memory)
    (h : ∀ s s', surroundings s' = surroundings s → surroundings (f s') = surroundings (f s)) :
    cpuCells.Local (.modify f : Cpu Unit) :=
  .modify (fun s => congrArg GPMemory.cell? (hmemory s)) h

theorem eq_fields {s s' : CPU6502} (h : surroundings s' = surroundings s) :
    s'.A = s.A ∧ s'.X = s.X ∧ s'.Y = s.Y ∧ s'.S = s.S ∧ s'.P = s.P ∧ s'.PC = s.PC ∧
      s'.debug = s.debug ∧ s'.verbose = s.verbose ∧ s'.memory.size = s.memory.size ∧
      s'.memory.printDeviceAddr = s.memory.printDeviceAddr := by
  simp only [surroundings, registers, Surroundings.mk.injEq, Registers.mk.injEq] at h
  tauto

theorem local_setA (v : Byte) : cpuCells.Local (setA v) :=
  local_setter (fun _ => rfl) fun s s' h => by simp [surroundings, registers, eq_fields h]
theorem local_setX (v : Byte) : cpuCells.Local (setX v) :=
  local_setter (fun _ => rfl) fun s s' h => by simp [surroundings, registers, eq_fields h]
theorem local_setY (v : Byte) : cpuCells.Local (setY v) :=
  local_setter (fun _ => rfl) fun s s' h => by simp [surroundings, registers, eq_fields h]
theorem local_setS (v : Byte) : cpuCells.Local (setS v) :=
  local_setter (fun _ => rfl) fun s s' h => by simp [surroundings, registers, eq_fields h]
theorem local_setPC (v : Address) : cpuCells.Local (setPC v) :=
  local_setter (fun _ => rfl) fun s s' h => by simp [surroundings, registers, eq_fields h]
theorem local_setPSR (v : PSR) : cpuCells.Local (setPSR v) :=
  local_setter (fun _ => rfl) fun s s' h => by simp [surroundings, registers, eq_fields h]
theorem local_setBit (bit : PsrBit) (v : Bool) : cpuCells.Local (setBit bit v) :=
  local_setter (fun _ => rfl) fun s s' h => by simp [surroundings, registers, eq_fields h]

theorem local_announce (message : Message) : cpuCells.Local (announce message) := .emit rfl

/-- Locality as a property of what is made of these operations. -/
def localProperty : ClosedProperty where
  holds := cpuCells.Local
  pure := .pure
  bind := .bind
  getA := local_getA
  getX := local_getX
  getY := local_getY
  getS := local_getS
  getPC := local_getPC
  getPSR := local_getPSR
  setA := local_setA
  setX := local_setX
  setY := local_setY
  setS := local_setS
  setPC := local_setPC
  setPSR := local_setPSR
  setBit := local_setBit
  stackCell _ := .emit rfl
  readIndex := local_readIndex
  writeMemory := local_writeMemory

end Primitives

/-! ## So is everything made of them -/

theorem local_step (isa : CPU6502ISA) : cpuCells.Local (step isa) :=
  localProperty.step local_isDebug local_isVerbose (fun _ => local_announce _)
    (fun _ _ _ => local_announce _) isa

/-- The guard of the loops looks at `PC` and at the size of the memory. -/
theorem guard_congr {s s' : CPU6502} (h : surroundings s' = surroundings s) :
    s'.PC.toNat < s'.memory.size ↔ s.PC.toNat < s.memory.size := by
  obtain ⟨-, -, -, -, -, hPC, -, -, hsize, -⟩ := eq_fields h
  rw [hPC, hsize]

theorem local_executeLoop (isa : CPU6502ISA) (n : ℕ) : cpuCells.Local (execute isa n) := by
  induction n with
  | zero => exact .pure _
  | succ n ih =>
    refine .get_bind (fun s s' h => ?_) fun s => ?_
    · simp only [guard_congr h]
    · refine .ite (.bind (local_step isa) fun err => .ite ?_ ih) (.pure _)
      exact .bind (local_announce _) fun _ => .pure _

/-! ## The debugger -/

/-- A session with the cells of its processor. -/
def sessionCells : CellView Session Event ℕ (Option Byte) (Surroundings × StandardInput) where
  cell session := session.cpu.memory.cell?
  rest session := (session.cpu.surroundings, session.input)
  reads := readIndex?
  writes := writtenIndex?

namespace Debugger

theorem local_onCpu {α : Type} {x : Cpu α} (hx : cpuCells.Local x) :
    sessionCells.Local (onCpu x) := by
  unfold onCpu
  refine CellView.Local.zoom ?_ ?_ ?_ ?_ ?_ ?_ hx
  · exact fun _ => rfl
  · exact fun _ _ => rfl
  · rfl
  · rfl
  · exact fun _ _ h => congrArg Prod.fst h
  · intro s s' t t' h ht
    have hinput : s'.input = s.input := congrArg Prod.snd h
    exact Prod.ext ht hinput

theorem local_say (chars : List Char) : cpuCells.Local (say chars) := local_announce _

theorem local_getline (command : List Char) : sessionCells.Local (getline command) := by
  have hinput : ∀ s s' : Session, sessionCells.rest s' = sessionCells.rest s →
      s'.input = s.input := fun _ _ h => congrArg Prod.snd h
  refine .get_bind (fun s s' h => by rw [hinput s s' h]) fun s => ?_
  refine .bind (.modify (fun _ => rfl) fun t t' h => ?_) fun _ => .pure _
  have hcpu : t'.cpu.surroundings = t.cpu.surroundings := congrArg Prod.fst h
  simp [sessionCells, hcpu, hinput t t' h]

/-- The dump shows registers only. -/
theorem dumpText_congr {s s' : CPU6502} (h : surroundings s' = surroundings s) :
    dumpText s' = dumpText s := by
  obtain ⟨hA, hX, hY, hS, hP, hPC, -⟩ := eq_fields h
  unfold dumpText
  rw [hA, hX, hY, hS, hP, hPC]

theorem local_printMemoryFrom (start remaining i : ℕ) :
    cpuCells.Local (printMemoryFrom start remaining i) := by
  induction remaining generalizing i with
  | zero => exact .pure _
  | succ remaining ih =>
    rw [printMemoryFrom_succ]
    refine .bind (local_say _) fun _ => .bind (local_readIndex _) fun byte => ?_
    exact .bind (local_say _) fun _ => ih (i + 1)

theorem local_printMemory (start count : ℕ) : cpuCells.Local (printMemory start count) :=
  .bind (local_printMemoryFrom start count 0) fun _ => local_say _

theorem local_get (args : List (List Char)) : cpuCells.Local (get args) := by
  match args with
  | [] => exact local_say _
  | [address] => exact local_printMemory _ _
  | [start, count] => exact local_printMemory _ _
  | _ :: _ :: _ :: _ => exact local_say _

theorem local_goToDebugger (isa : CPU6502ISA) (n : ℕ) (command : List Char) :
    sessionCells.Local (goToDebugger isa n command) := by
  induction n generalizing command with
  | zero => exact .pure _
  | succ n ih =>
    refine .bind (local_onCpu (local_say _)) fun _ => .bind (local_getline command) fun line => ?_
    refine .ite (ih line) ?_
    cases Command.parse line with
    | none => exact .bind (local_onCpu (local_say _)) fun _ => ih line
    | some cmd =>
      rcases cmd with ⟨name, args⟩
      cases name with
      | dump =>
        refine .get_bind (fun s s' h => ?_) fun s =>
          .bind (local_onCpu (local_say _)) fun _ => ih line
        rw [dumpText_congr (congrArg Prod.fst h)]
      | get => exact .bind (local_onCpu (local_get args)) fun _ => ih line
      | exit => exact .pure _
      | step =>
        refine .bind (local_onCpu (local_step isa)) fun err => .ite ?_ (.ite ?_ (ih line))
        · exact .bind (local_onCpu (local_announce _)) fun _ => ih line
        · exact .bind (local_onCpu (local_announce _)) fun _ => .pure _
      | «continue» => exact .pure _
      | help => exact .bind (local_onCpu (local_say _)) fun _ => ih line

theorem local_run (isa : CPU6502ISA) (n : ℕ) : sessionCells.Local (run isa n) := by
  induction n with
  | zero => exact .pure _
  | succ n ih =>
    refine .get_bind (fun s s' h => ?_) fun s => .ite ?_ (.pure _)
    · simp only [guard_congr (congrArg Prod.fst h)]
    · refine .bind (local_onCpu (local_step isa)) fun err => .ite ?_ (.ite ?_ ih)
      · refine .bind (local_onCpu (local_announce _)) fun _ => ?_
        refine .bind (local_goToDebugger isa n []) fun status => ?_
        match status with
        | .prompting => exact .pure _
        | .exited => exact .pure _
        | .returned true => exact .pure _
        | .returned false => exact ih
      · exact .bind (local_onCpu (local_announce _)) fun _ => .pure _

end Debugger

/-- `execute` and the debugger, for any number of iterations and over memories of any
size, look at the cells they read before they write them and at no other: from every
state that agrees on these they do the same, fail the same and print the same, and leave
every cell that they do not write as it is. -/
theorem runs_look_at_needed_cells (isa : CPU6502ISA) (n : ℕ) :
    (∀ s s' : CPU6502,
      cpuCells.AgreeOn (cpuCells.needed ((execute isa n).run s).events) s s' →
        cpuCells.Repeats s s' ((execute isa n).run s) ((execute isa n).run s')) ∧
    ∀ s s' : Session,
      sessionCells.AgreeOn (sessionCells.needed ((Debugger.run isa n).run s).events) s s' →
        sessionCells.Repeats s s' ((Debugger.run isa n).run s) ((Debugger.run isa n).run s') :=
  ⟨local_executeLoop isa n, Debugger.local_run isa n⟩

/-- `STA $10` and `STP`, over two bytes that are not read, in memories that differ there. -/
def storesThenStops (unread : Byte) : CPU6502 :=
  CPU6502.initial (.ofProgram [0x85, 0x10, 0xDB, unread]) false

theorem runs_look_at_needed_cells_store :
    cpuCells.Repeats (storesThenStops 0) (storesThenStops 1)
      ((execute isa 2).run (storesThenStops 0)) ((execute isa 2).run (storesThenStops 1)) := by
  refine (runs_look_at_needed_cells isa 2).1 _ _ ⟨rfl, ?_⟩
  have hneeded : cpuCells.needed ((execute isa 2).run (storesThenStops 0)).events = [0, 1, 2] := by
    decide +kernel
  rw [hneeded]
  decide

end Sim6502
