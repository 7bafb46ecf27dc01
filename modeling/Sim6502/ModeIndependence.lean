import Sim6502.DebuggerTransparency
import Sim6502.OperationClosure
import Sim6502.RelatedComputations

/-!
# The modes and the print device do not steer a program

`execute` takes the same steps whether the debug and the verbose flag are set or not and
wherever the print device is: the flags add announcements, and the device decides which
of the written bytes are printed.
-/
namespace Sim6502
open EventComputation CPU6502

/-- The same registers and the same memory, with whatever modes and print device. -/
structure SameProgram (s t : CPU6502) : Prop where
  registers : t.registers = s.registers
  size : t.memory.size = s.memory.size
  cell : t.memory.cell = s.memory.cell

/-- What is seen of a run apart from the modes and the device. -/
def Event.plain : Event → Option Event
  | .print _ => none
  | .announce (.instruction _ _ _) => none
  | event => some event

/-- The bytes printed are those written at the address of the device. -/
def PrintsWrites (device : Address) (events : List Event) : Prop :=
  printed events = writtenTo device.toNat events

theorem PrintsWrites.append {device : Address} {events later : List Event}
    (h : PrintsWrites device events) (h' : PrintsWrites device later) :
    PrintsWrites device (events ++ later) := by
  rw [PrintsWrites, printed_append, writtenTo_append, h, h']

theorem printsWrites_writeEvents (m : GPMemory) (a : Address) (v : Byte) :
    PrintsWrites m.printDeviceAddr (m.writeEvents a v) := by
  rw [PrintsWrites, printed_writeEvents, writtenTo_writeEvents]
  by_cases h : a = m.printDeviceAddr
  · rw [if_pos h, if_pos (congrArg BitVec.toNat h)]
  · rw [if_neg h, if_neg fun h' => h (BitVec.eq_of_toNat_eq h')]

theorem plain_writeEvents (m : GPMemory) (a : Address) (v : Byte) :
    (m.writeEvents a v).filterMap Event.plain = [.write a.toNat v] := by
  unfold GPMemory.writeEvents
  split <;> rfl

/-- Runs over the same program whose devices are at two addresses. -/
def modeCoupling (device device' : Address) : Coupling CPU6502 CPU6502 Event Event where
  states s t := SameProgram s t ∧ s.memory.printDeviceAddr = device ∧
    t.memory.printDeviceAddr = device'
  events a b := a.filterMap Event.plain = b.filterMap Event.plain ∧ PrintsWrites device a ∧
    PrintsWrites device' b
  nil := ⟨rfl, rfl, rfl⟩
  append := by
    rintro a a' b b' ⟨hplain, hprints, hprints'⟩ ⟨hlater, hprintsLater, hprintsLater'⟩
    refine ⟨?_, hprints.append hprintsLater, hprints'.append hprintsLater'⟩
    rw [List.filterMap_append, List.filterMap_append, hplain, hlater]

section Related
variable {device device' : Address}

/-- Both sides do the same and deliver the same value. -/
def Alike (device device' : Address) {α : Type} (x : Cpu α) : Prop :=
  (modeCoupling device device').Related Eq x x

theorem eq_registers {s t : CPU6502} (h : SameProgram s t) :
    t.A = s.A ∧ t.X = s.X ∧ t.Y = s.Y ∧ t.S = s.S ∧ t.P = s.P ∧ t.PC = s.PC := by
  have hr := h.registers
  simp only [CPU6502.registers, Registers.mk.injEq] at hr
  exact hr

theorem alike_getter {α : Type} {f : CPU6502 → α} (h : ∀ s t, SameProgram s t → f s = f t) :
    Alike device device' (do return f (← Routine.get) : Cpu α) :=
  .bind .get fun s t hst => .pure (h s t hst.1)

theorem alike_getA : Alike device device' getA :=
  alike_getter fun _ _ h => by simp [eq_registers h]
theorem alike_getX : Alike device device' getX :=
  alike_getter fun _ _ h => by simp [eq_registers h]
theorem alike_getY : Alike device device' getY :=
  alike_getter fun _ _ h => by simp [eq_registers h]
theorem alike_getS : Alike device device' getS :=
  alike_getter fun _ _ h => by simp [eq_registers h]
theorem alike_getPC : Alike device device' getPC :=
  alike_getter fun _ _ h => by simp [eq_registers h]
theorem alike_getPSR : Alike device device' getPSR :=
  alike_getter fun _ _ h => by simp [eq_registers h]
/-- The registers are set alike. -/
theorem alike_setter {f : CPU6502 → CPU6502} (hmemory : ∀ s, (f s).memory = s.memory)
    (h : ∀ s t, SameProgram s t → (f t).registers = (f s).registers) :
    Alike device device' (.modify f : Cpu Unit) := by
  refine .modify fun s t ⟨hst, hs, ht⟩ => ⟨⟨h s t hst, ?_, ?_⟩, ?_, ?_⟩
  · rw [hmemory, hmemory, hst.size]
  · rw [hmemory, hmemory, hst.cell]
  · rw [hmemory, hs]
  · rw [hmemory, ht]

theorem alike_setA (v : Byte) : Alike device device' (setA v) :=
  alike_setter (fun _ => rfl) fun _ _ h => by simp [CPU6502.registers, eq_registers h]
theorem alike_setX (v : Byte) : Alike device device' (setX v) :=
  alike_setter (fun _ => rfl) fun _ _ h => by simp [CPU6502.registers, eq_registers h]
theorem alike_setY (v : Byte) : Alike device device' (setY v) :=
  alike_setter (fun _ => rfl) fun _ _ h => by simp [CPU6502.registers, eq_registers h]
theorem alike_setS (v : Byte) : Alike device device' (setS v) :=
  alike_setter (fun _ => rfl) fun _ _ h => by simp [CPU6502.registers, eq_registers h]
theorem alike_setPC (v : Address) : Alike device device' (setPC v) :=
  alike_setter (fun _ => rfl) fun _ _ h => by simp [CPU6502.registers, eq_registers h]
theorem alike_setPSR (v : PSR) : Alike device device' (setPSR v) :=
  alike_setter (fun _ => rfl) fun _ _ h => by simp [CPU6502.registers, eq_registers h]
theorem alike_setBit (bit : PsrBit) (v : Bool) : Alike device device' (setBit bit v) :=
  alike_setter (fun _ => rfl) fun _ _ h => by simp [CPU6502.registers, eq_registers h]

theorem alike_readIndex (index : ℕ) : Alike device device' (readIndex index) := by
  rintro s t ⟨hst, hs, ht⟩
  have hevents : (modeCoupling device device').events [.read index] [.read index] :=
    ⟨rfl, rfl, rfl⟩
  by_cases hin : index < s.memory.size
  · have hin' : index < t.memory.size := hst.size ▸ hin
    rw [run_readIndex s hin, run_readIndex t hin', hst.cell]
    exact .ok rfl ⟨hst, hs, ht⟩ hevents
  · have hout : ¬index < t.memory.size := hst.size ▸ hin
    rw [run_readIndex_outside s hin, run_readIndex_outside t hout]
    exact .error _ ⟨hst, hs, ht⟩ hevents

theorem alike_writeMemory (a : Address) (v : Byte) : Alike device device' (writeMemory a v) := by
  rintro s t ⟨hst, hs, ht⟩
  have hevents : (modeCoupling device device').events (s.memory.writeEvents a v)
      (t.memory.writeEvents a v) := by
    refine ⟨?_, hs ▸ printsWrites_writeEvents _ _ _, ht ▸ printsWrites_writeEvents _ _ _⟩
    rw [plain_writeEvents, plain_writeEvents]
  by_cases hin : a.toNat < s.memory.size
  · have hin' : a.toNat < t.memory.size := hst.size ▸ hin
    rw [run_writeMemory_of_lt s hin, run_writeMemory_of_lt t hin']
    refine .ok rfl ⟨⟨hst.registers, hst.size, ?_⟩, hs, ht⟩ hevents
    simp only [GPMemory.updated, hst.cell]
  · have hout : ¬a.toNat < t.memory.size := hst.size ▸ hin
    rw [run_writeMemory_outside s hin, run_writeMemory_outside t hout]
    exact .error _ ⟨hst, hs, ht⟩ hevents

def alikeProperty (device device' : Address) : ClosedProperty where
  holds := Alike device device'
  pure _ := .pure rfl
  bind hx hf := .bind_eq hx hf
  getA := alike_getA
  getX := alike_getX
  getY := alike_getY
  getS := alike_getS
  getPC := alike_getPC
  getPSR := alike_getPSR
  setA := alike_setA
  setX := alike_setX
  setY := alike_setY
  setS := alike_setS
  setPC := alike_setPC
  setPSR := alike_setPSR
  setBit := alike_setBit
  stackCell _ := .emit ⟨rfl, rfl, rfl⟩
  readIndex := alike_readIndex
  writeMemory := alike_writeMemory

/-- Return codes that differ in the announcement of a breakpoint only. -/
def SameErr (err err' : InstructionErr) : Prop := err'.unbroken = err.unbroken

theorem sameErr_iff {err err' : InstructionErr} (h : SameErr err err') :
    (err = .okPCModified ↔ err' = .okPCModified) ∧ (err = .stop ↔ err' = .stop) := by
  revert h
  unfold SameErr
  cases err <;> cases err' <;> simp [InstructionErr.unbroken]

theorem related_execute (body : InstructionBody) (a : Address) :
    (modeCoupling device device').Related SameErr (body.execute a) (body.execute a) := by
  by_cases h : body = .dbg
  · subst h
    intro s t hst
    rw [InstructionBody.execute, Execute.run_dbg, Execute.run_dbg]
    refine .ok ?_ hst ⟨rfl, rfl, rfl⟩
    cases s.debug <;> cases t.debug <;> rfl
  · exact Coupling.Related.mono ((alikeProperty device device').execute h a) fun _ _ he => he ▸ rfl

theorem related_executeInstruction (unset : Address) (instruction : Instruction) :
    (modeCoupling device device').Related SameErr (executeInstruction unset instruction)
      (executeInstruction unset instruction) := by
  refine .bind_eq ((alikeProperty device device').decode unset instruction.mode) fun a => ?_
  refine .bind (related_execute instruction.execute a) fun err err' he => ?_
  refine .ite (sameErr_iff he).1 (.pure he) ?_
  exact .bind_eq alike_getPC fun _ => .bind_eq (alike_setPC _) fun _ => .pure he

/-- The verbose flag adds one announcement in front. -/
theorem run_verbose {α : Type} (instruction : Instruction) (opcode : Byte) (x : Cpu α)
    (cpu : CPU6502) :
    (do
      if (← isVerbose) then
        announce (.instruction instruction.name opcode (← getPC))
      x : Cpu α).run cpu =
      (x.run cpu).after (if cpu.verbose then
        [.announce (.instruction instruction.name opcode cpu.PC)] else []) := by
  cases h : cpu.verbose <;> simp [Routine.run_bind, h, Outcome.after]

theorem related_step (isa : CPU6502ISA) :
    (modeCoupling device device').Related SameErr (step isa) (step isa) := by
  refine .bind_eq alike_getPC fun pc => ?_
  refine .bind_eq (alike_readIndex pc.toNat) fun opcode => ?_
  cases isa.find opcode with
  | none => exact .bind_eq (.emit ⟨rfl, rfl, rfl⟩) fun _ => .pure rfl
  | some instruction =>
    intro s t hst
    dsimp only
    rw [run_verbose, run_verbose]
    refine (related_executeInstruction 0 instruction s t hst).after ?_
    cases s.verbose <;> cases t.verbose <;> exact ⟨rfl, rfl, rfl⟩

theorem related_executeLoop (isa : CPU6502ISA) (n : ℕ) :
    (modeCoupling device device').Related Eq (execute isa n) (execute isa n) := by
  induction n with
  | zero => exact .pure rfl
  | succ n ih =>
    refine .bind .get fun s t hst => .ite ?_ ?_ (.pure rfl)
    · obtain ⟨-, -, -, -, -, hPC⟩ := eq_registers hst.1
      rw [hPC, hst.1.size]
    · refine .bind (related_step isa) fun err err' he => .ite (sameErr_iff he).2 ?_ ih
      exact .bind_eq (.emit ⟨rfl, rfl, rfl⟩) fun _ => .pure rfl

end Related

/-- The writes of a run are part of what is seen apart from modes and device. -/
theorem writtenTo_plain (index : ℕ) (events : List Event) :
    writtenTo index (events.filterMap Event.plain) = writtenTo index events := by
  unfold writtenTo
  rw [List.filterMap_filterMap]
  congr 1
  funext event
  cases event with
  | announce message => cases message <;> rfl
  | _ => rfl

/-- Two runs of `execute` over the same program, whatever the modes and wherever the print
devices: both end alike, over the same program, with the same accesses and the same
announcements but those of the verbose mode, and what the second prints can be read off
the first run, as the bytes written to the address of the second device. -/
theorem modes_do_not_steer (isa : CPU6502ISA) (n : ℕ) (s t : CPU6502) (h : SameProgram s t) :
    ((execute isa n).run t).result = ((execute isa n).run s).result ∧
      SameProgram ((execute isa n).run s).state ((execute isa n).run t).state ∧
      ((execute isa n).run t).events.filterMap Event.plain =
        ((execute isa n).run s).events.filterMap Event.plain ∧
      printed ((execute isa n).run t).events =
        writtenTo t.memory.printDeviceAddr.toNat ((execute isa n).run s).events := by
  have hends := related_executeLoop isa n s t ⟨h, rfl, rfl⟩
  have hprinted {a b : List Event} (hsame : (modeCoupling s.memory.printDeviceAddr
      t.memory.printDeviceAddr).events a b) :
      printed b = writtenTo t.memory.printDeviceAddr.toNat a := by
    obtain ⟨hplain, -, hprints⟩ := hsame
    rw [hprints, ← writtenTo_plain, ← hplain, writtenTo_plain]
  rcases hs : (execute isa n).run s with ⟨r, u, events⟩
  rcases ht : (execute isa n).run t with ⟨r', u', events'⟩
  rw [hs, ht] at hends
  cases hends with
  | ok value states same => exact ⟨by rw [value], states.1, same.1.symm, hprinted same⟩
  | error e states same => exact ⟨rfl, states.1, same.1.symm, hprinted same⟩

/-- `LDA #'A'` and `STA $0200`, with the device where the store goes and in verbose mode,
and elsewhere without. -/
def storesLetter (verbose : Bool) (device : Address) : CPU6502 :=
  let cpu := CPU6502.initial (.ofProgram [0xA9, 0x41, 0x8D, 0x00, 0x02]) verbose
  { cpu with verbose := verbose, memory := { cpu.memory with printDeviceAddr := device } }

theorem modes_do_not_steer_letter :
    printed ((execute isa 2).run (storesLetter true 0x0200)).events = [0x41] ∧
      printed ((execute isa 2).run (storesLetter false 0xFFFB)).events = [] := by
  have hsame : SameProgram (storesLetter false 0xFFFB) (storesLetter true 0x0200) :=
    ⟨rfl, rfl, rfl⟩
  obtain ⟨-, -, -, hprinted⟩ := modes_do_not_steer isa 2 _ _ hsame
  rw [hprinted]
  decide +kernel

end Sim6502
