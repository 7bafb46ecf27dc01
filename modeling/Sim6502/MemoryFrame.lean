import Sim6502.StepAnalysis

/-!
# The memory an instruction writes and the characters it prints

The events of a step say what it did to memory: each cell holds the last byte
written to it, and the print device has received what was written to its
address. The law composes, so that it holds of runs as soon as it holds of
steps. Which cells a step writes is read off the name and the mode of the
instruction.
-/
namespace Sim6502
open EventComputation CPU6502

/-! ## Accesses, writes and prints among the events -/

def writtenIndices : List Event → List ℕ :=
  List.filterMap fun
    | .write index _ => some index
    | _ => none

/-- The bytes written to one index, in order. -/
def writtenTo (index : ℕ) : List Event → List Byte :=
  List.filterMap fun
    | .write i value => if i = index then some value else none
    | _ => none

/-- The bytes the print device received, in order. -/
def printed : List Event → List Byte :=
  List.filterMap fun
    | .print value => some value
    | _ => none

section Events
variable (index : ℕ) (events later : List Event)

@[simp] theorem writtenIndices_nil : writtenIndices [] = [] := rfl
@[simp] theorem writtenTo_nil : writtenTo index [] = [] := rfl
@[simp] theorem printed_nil : printed [] = [] := rfl

@[simp] theorem writtenIndices_append :
    writtenIndices (events ++ later) = writtenIndices events ++ writtenIndices later :=
  List.filterMap_append

@[simp] theorem writtenTo_append :
    writtenTo index (events ++ later) = writtenTo index events ++ writtenTo index later :=
  List.filterMap_append

@[simp] theorem printed_append : printed (events ++ later) = printed events ++ printed later :=
  List.filterMap_append

@[simp] theorem writtenIndices_read (i : ℕ) :
    writtenIndices (.read i :: events) = writtenIndices events := rfl
@[simp] theorem writtenTo_read (i : ℕ) :
    writtenTo index (.read i :: events) = writtenTo index events := rfl
@[simp] theorem printed_read (i : ℕ) : printed (.read i :: events) = printed events := rfl

end Events

/-- The index of the vector that an event reads or writes. -/
def Event.access : Event → Option ℕ
  | .read index => some index
  | .write index _ => some index
  | _ => none

/-- The indices of the vector that were read or written, in order. -/
def accesses : List Event → List ℕ := List.filterMap Event.access

section Accesses
variable (events later : List Event)

@[simp] theorem accesses_nil : accesses [] = [] := rfl

@[simp] theorem accesses_append :
    accesses (events ++ later) = accesses events ++ accesses later :=
  List.filterMap_append

@[simp] theorem accesses_read (index : ℕ) :
    accesses (.read index :: events) = index :: accesses events := rfl

@[simp] theorem accesses_announce (message : Message) :
    accesses (.announce message :: events) = accesses events := rfl

@[simp] theorem accesses_writeEvents (m : GPMemory) (a : Address) (v : Byte) :
    accesses (m.writeEvents a v) = [a.toNat] := by
  unfold GPMemory.writeEvents
  split <;> rfl

variable (cpu : CPU6502) (v : Byte)

@[simp] theorem accesses_pushEvents : accesses (cpu.pushEvents v) = [(cpu.S - 1).toNat] := by
  have hwrite := accesses_writeEvents cpu.memory (.ofByte (cpu.S - 1)) v
  rw [Address.toNat_ofByte] at hwrite
  exact hwrite

@[simp] theorem accesses_popEvents : accesses cpu.popEvents = [cpu.S.toNat] := rfl

end Accesses

theorem mem_writtenIndices {index : ℕ} {events : List Event} (h : writtenTo index events ≠ []) :
    index ∈ writtenIndices events := by
  obtain ⟨value, hv⟩ := List.exists_mem_of_ne_nil _ h
  obtain ⟨e, he, hsome⟩ := List.mem_filterMap.mp hv
  refine List.mem_filterMap.mpr ⟨e, he, ?_⟩
  cases e with
  | write i v =>
    by_cases hi : i = index
    · exact congrArg some hi
    · simp [hi] at hsome
  | _ => simp at hsome

section WriteEvents
variable (m : GPMemory) (a : Address) (v : Byte)

@[simp] theorem writtenIndices_writeEvents : writtenIndices (m.writeEvents a v) = [a.toNat] := by
  unfold GPMemory.writeEvents
  split <;> rfl

@[simp] theorem writtenTo_writeEvents (index : ℕ) :
    writtenTo index (m.writeEvents a v) = if a.toNat = index then [v] else [] := by
  unfold GPMemory.writeEvents
  split <;> by_cases h : a.toNat = index <;> simp [writtenTo, h]

@[simp] theorem printed_writeEvents :
    printed (m.writeEvents a v) = if a = m.printDeviceAddr then [v] else [] := by
  unfold GPMemory.writeEvents
  split <;> rfl

theorem cell_updated (index : ℕ) :
    (m.updated a v).cell index = (if a.toNat = index then [v] else []).getLastD (m.cell index) := by
  by_cases h : a.toNat = index
  · subst h
    simp
  · simp [h, m.cell_updated_of_ne (Ne.symm h)]

end WriteEvents

/-- The cell of the `k`-th push from a state, counted from zero. -/
def pushCell (cpu : CPU6502) (k : ℕ) : Address := .ofByte (cpu.S - BitVec.ofNat 8 (k + 1))

section StackEvents
variable (cpu : CPU6502) (v : Byte)

@[simp] theorem pushCell_pushed (k : ℕ) : pushCell (cpu.pushed v) k = pushCell cpu (k + 1) := by
  have hk : (1 : Byte) + BitVec.ofNat 8 (k + 1) = BitVec.ofNat 8 (k + 1 + 1) := by
    apply BitVec.eq_of_toNat_eq
    simp
    omega
  rw [pushCell, pushCell, S_pushed, BitVec.sub_sub, hk]

@[simp] theorem writtenIndices_pushEvents :
    writtenIndices (cpu.pushEvents v) = [(pushCell cpu 0).toNat] :=
  writtenIndices_writeEvents _ _ _

@[simp] theorem writtenTo_pushEvents (index : ℕ) :
    writtenTo index (cpu.pushEvents v) = if (pushCell cpu 0).toNat = index then [v] else [] :=
  writtenTo_writeEvents _ _ _ _

@[simp] theorem printed_pushEvents :
    printed (cpu.pushEvents v) = if pushCell cpu 0 = cpu.memory.printDeviceAddr then [v] else [] :=
  printed_writeEvents _ _ _

theorem cell_pushed (index : ℕ) :
    (cpu.pushed v).memory.cell index =
      (if (pushCell cpu 0).toNat = index then [v] else []).getLastD (cpu.memory.cell index) :=
  cell_updated _ _ _ _

@[simp] theorem writtenIndices_popEvents : writtenIndices cpu.popEvents = [] := rfl
@[simp] theorem writtenTo_popEvents (index : ℕ) : writtenTo index cpu.popEvents = [] := rfl
@[simp] theorem printed_popEvents : printed cpu.popEvents = [] := rfl

end StackEvents

/-! ## The cells an instruction writes -/

/-- The bodies that write at the operand address. -/
def InstructionBody.writesOperand : InstructionBody → Bool
  | .sta | .stx | .sty | .stz | .tsb | .trb | .rmbx _ | .smbx _ | .aslMem | .lsrMem | .rolMem
  | .rorMem | .incMem | .decMem => true
  | _ => false

/-- How many bytes a body pushes. -/
def InstructionBody.pushCount : InstructionBody → ℕ
  | .pha | .phx | .phy | .php => 1
  | .jsr => 2
  | .brk => 3
  | _ => 0

/-- The instructions that write at the address `step` computes. -/
def Instruction.writesOperand (instruction : Instruction) : Bool :=
  match instruction.name with
  | .sta | .stx | .sty | .stz | .tsb | .trb | .rmb _ | .smb _ => true
  | .asl | .lsr | .rol | .ror | .inc | .dec => instruction.mode != .accumulator
  | _ => false

/-- How many bytes an instruction pushes. -/
def Mnemonic.pushCount : Mnemonic → ℕ
  | .pha | .phx | .phy | .php => 1
  | .jsr => 2
  | .brk => 3
  | _ => 0

/-- The names and modes of the table tell which of its bodies write. -/
theorem writes_of_mem {opcode : Byte} {instruction : Instruction}
    (h : (opcode, instruction) ∈ isaEntries) :
    instruction.execute.writesOperand = instruction.writesOperand ∧
      instruction.execute.pushCount = instruction.name.pushCount := by
  have hall : ∀ e ∈ isaEntries, e.2.execute.writesOperand = e.2.writesOperand ∧
      e.2.execute.pushCount = e.2.name.pushCount := by decide +kernel
  exact hall _ h

section Body
variable (body : InstructionBody) (a : Address) {cpu : CPU6502}

theorem writtenIndices_execute (hs : maxMemory ≤ cpu.memory.size) :
    writtenIndices ((body.execute a).run cpu).events =
      (if body.writesOperand then [a.toNat] else []) ++
        (List.range body.pushCount).map fun k => (pushCell cpu k).toNat := by
  cases body <;>
    simp [InstructionBody.execute, InstructionBody.writesOperand, InstructionBody.pushCount, hs,
      List.range_succ]

theorem cell_execute (hs : maxMemory ≤ cpu.memory.size) (index : ℕ) :
    ((body.execute a).run cpu).state.memory.cell index =
      (writtenTo index ((body.execute a).run cpu).events).getLastD (cpu.memory.cell index) := by
  cases body <;>
    simp [InstructionBody.execute, hs, cell_updated, cell_pushed, -memory_pushed,
      Execute.brkPushed]

theorem printed_execute (hs : maxMemory ≤ cpu.memory.size) :
    printed ((body.execute a).run cpu).events =
      writtenTo cpu.memory.printDeviceAddr.toNat ((body.execute a).run cpu).events := by
  cases body <;> simp [InstructionBody.execute, hs, BitVec.toNat_inj]

end Body

/-! ## Looking up and decoding writes nothing -/

section Reads
variable {events : List Event}

theorem writtenIndices_of_read (h : ∀ e ∈ events, ∃ index, e = .read index) :
    writtenIndices events = [] := by
  refine List.filterMap_eq_nil_iff.mpr fun e he => ?_
  obtain ⟨index, rfl⟩ := h e he
  rfl

theorem writtenTo_of_read (h : ∀ e ∈ events, ∃ index, e = .read index) (index : ℕ) :
    writtenTo index events = [] := by
  refine List.filterMap_eq_nil_iff.mpr fun e he => ?_
  obtain ⟨i, rfl⟩ := h e he
  rfl

theorem printed_of_read (h : ∀ e ∈ events, ∃ index, e = .read index) : printed events = [] := by
  refine List.filterMap_eq_nil_iff.mpr fun e he => ?_
  obtain ⟨index, rfl⟩ := h e he
  rfl

end Reads

section Decode
variable (unset : Address) (cpu : CPU6502) (instruction : Instruction) (mode : AddressingMode)

@[simp] theorem writtenIndices_decodeEvents : writtenIndices (decodeEvents unset cpu mode) = [] :=
  writtenIndices_of_read (emits_decode_read unset mode cpu)

@[simp] theorem writtenTo_decodeEvents (index : ℕ) :
    writtenTo index (decodeEvents unset cpu mode) = [] :=
  writtenTo_of_read (emits_decode_read unset mode cpu) index

@[simp] theorem printed_decodeEvents : printed (decodeEvents unset cpu mode) = [] :=
  printed_of_read (emits_decode_read unset mode cpu)

@[simp] theorem writtenIndices_lookupEvents :
    writtenIndices (lookupEvents cpu instruction) = [] := by
  cases h : cpu.verbose <;> simp [lookupEvents, h, writtenIndices]

@[simp] theorem writtenTo_lookupEvents (index : ℕ) :
    writtenTo index (lookupEvents cpu instruction) = [] := by
  cases h : cpu.verbose <;> simp [lookupEvents, h, writtenTo]

@[simp] theorem printed_lookupEvents : printed (lookupEvents cpu instruction) = [] := by
  cases h : cpu.verbose <;> simp [lookupEvents, h, printed]

end Decode

/-! ## The law of memory -/

/-- Between two states memory changed as the events between them say. -/
structure MemoryLaw (s : CPU6502) (events : List Event) (t : CPU6502) : Prop where
  size : t.memory.size = s.memory.size
  device : t.memory.printDeviceAddr = s.memory.printDeviceAddr
  cell : ∀ index, t.memory.cell index = (writtenTo index events).getLastD (s.memory.cell index)
  output : printed events = writtenTo s.memory.printDeviceAddr.toNat events

theorem MemoryLaw.refl (s : CPU6502) : MemoryLaw s [] s := ⟨rfl, rfl, fun _ => rfl, rfl⟩

theorem MemoryLaw.trans {s t u : CPU6502} {events later : List Event} (h : MemoryLaw s events t)
    (h' : MemoryLaw t later u) : MemoryLaw s (events ++ later) u where
  size := h'.size.trans h.size
  device := h'.device.trans h.device
  cell index := by simp [h'.cell index, h.cell index]
  output := by rw [printed_append, writtenTo_append, h.output, h'.output, h.device]

/-- Every step obeys the law, whatever the opcode. -/
theorem memoryLaw_step (isa : CPU6502ISA) {cpu : CPU6502} (hs : maxMemory ≤ cpu.memory.size) :
    MemoryLaw cpu ((step isa).run cpu).events ((step isa).run cpu).state := by
  rcases ho : (step isa).run cpu with ⟨r, t, events⟩
  cases step_cases_of_run hs ho with
  | unknown find => exact ⟨rfl, rfl, fun _ => rfl, rfl⟩
  | @executed instruction err t events find inside run =>
    have hconf := configuration_execute instruction.execute
      (effectiveAddress 0 cpu instruction.mode) hs
    have hcell := cell_execute instruction.execute (effectiveAddress 0 cpu instruction.mode) hs
    have hout := printed_execute instruction.execute (effectiveAddress 0 cpu instruction.mode) hs
    rw [run] at hconf hcell hout
    obtain ⟨hsize, hdevice, -, -⟩ := hconf
    exact ⟨by simpa using hsize, by simpa using hdevice, fun index => by simpa using hcell index,
      by simpa using hout⟩
  | outside instruction find outside => exact ⟨rfl, rfl, fun index => by simp, by simp⟩

/-- So does every run. -/
theorem memoryLaw_iterates {isa : CPU6502ISA} {n : ℕ} {s t : CPU6502} {events : List Event}
    (h : Routine.Iterates (step isa) n s events t) (hs : maxMemory ≤ s.memory.size) :
    MemoryLaw s events t := by
  induction h with
  | refl s => exact .refl s
  | step head tail ih =>
    have hlaw := memoryLaw_step isa hs
    rw [head] at hlaw
    exact hlaw.trans (ih (by rw [hlaw.size]; exact hs))

section Size
variable {isa : CPU6502ISA} {s t : CPU6502} {r : Except Fault InstructionErr}
  {events : List Event} (hs : maxMemory ≤ s.memory.size) (run : (step isa).run s = ⟨r, t, events⟩)
include hs run

theorem size_step : t.memory.size = s.memory.size := by
  have hlaw := memoryLaw_step isa hs
  rw [run] at hlaw
  exact hlaw.size

theorem full_step : maxMemory ≤ t.memory.size := hs.trans_eq (size_step hs run).symm

end Size

theorem full_iterates {isa : CPU6502ISA} {s t : CPU6502} {n : ℕ} {events : List Event}
    (hs : maxMemory ≤ s.memory.size) (run : Routine.Iterates (step isa) n s events t) :
    maxMemory ≤ t.memory.size :=
  hs.trans_eq (memoryLaw_iterates run hs).size.symm

/-- The cells a step of a known instruction writes: nothing, or its operand, or the
cells of its pushes. -/
theorem writtenIndices_step (isa : CPU6502ISA) {cpu : CPU6502} (hs : maxMemory ≤ cpu.memory.size)
    {instruction : Instruction} (find : isa.find (opcodeAt cpu) = some instruction) {index : ℕ}
    (h : index ∈ writtenIndices ((step isa).run cpu).events) :
    (instruction.writesOperand ∧
        ∃ a, ((decode 0 instruction.mode).run cpu).result = .ok a ∧ index = a.toNat) ∨
      ∃ k < instruction.name.pushCount, index = (pushCell cpu k).toNat := by
  obtain ⟨hoperand, hcount⟩ := writes_of_mem (isa.find_mem find)
  rcases step_of_find hs find with ⟨err, t, events, inside, run, hstep⟩ | ⟨-, -, hstep⟩
  · have hw := writtenIndices_execute instruction.execute
      (effectiveAddress 0 cpu instruction.mode) hs
    rw [run] at hw
    simp only [hstep, writtenIndices_append, writtenIndices_lookupEvents,
      writtenIndices_decodeEvents, List.nil_append, hw, hoperand, hcount, List.mem_append,
      List.mem_map, List.mem_range] at h
    rcases h with h | ⟨k, hk, rfl⟩
    · by_cases hwrite : instruction.writesOperand
      · rw [if_pos hwrite, List.mem_singleton] at h
        exact .inl ⟨hwrite, _, result_decode 0 hs inside, h⟩
      · rw [if_neg hwrite] at h
        exact absurd h List.not_mem_nil
    · exact .inr ⟨k, hk, rfl⟩
  · simp [hstep] at h

/-- One step of a known instruction changes its own cells at most and prints what it
writes to the device; in every run the device cell holds the last character. -/
theorem memory_and_output (isa : CPU6502ISA) (cpu : CPU6502)
    (hs : maxMemory ≤ cpu.memory.size) :
    (∀ instruction, isa.find (opcodeAt cpu) = some instruction →
      ((step isa).run cpu).state.memory.size = cpu.memory.size ∧
      (∀ index, ((step isa).run cpu).state.memory.cell index ≠ cpu.memory.cell index →
        (instruction.writesOperand ∧
            ∃ a, ((decode 0 instruction.mode).run cpu).result = .ok a ∧ index = a.toNat) ∨
          ∃ k < instruction.name.pushCount, index = (pushCell cpu k).toNat) ∧
      printed ((step isa).run cpu).events =
        writtenTo cpu.memory.printDeviceAddr.toNat ((step isa).run cpu).events) ∧
    ∀ n events t, Routine.Iterates (step isa) n cpu events t →
      t.memory.size = cpu.memory.size ∧
      printed events = writtenTo cpu.memory.printDeviceAddr.toNat events ∧
      t.memory.cell cpu.memory.printDeviceAddr.toNat =
        (printed events).getLastD (cpu.memory.cell cpu.memory.printDeviceAddr.toNat) := by
  constructor
  · intro instruction find
    have hlaw := memoryLaw_step isa hs
    refine ⟨hlaw.size, fun index hne => writtenIndices_step isa hs find ?_, hlaw.output⟩
    apply mem_writtenIndices
    intro hnil
    exact hne (by rw [hlaw.cell index, hnil, List.getLastD_nil])
  · intro n events t h
    have hlaw := memoryLaw_iterates h hs
    exact ⟨hlaw.size, hlaw.output, by rw [hlaw.output]; exact hlaw.cell _⟩

/-- `STA $FFFB` with the letter `A` in the accumulator. -/
def printsLetter : CPU6502 :=
  { CPU6502.initial (.ofProgram [0x8D, 0xFB, 0xFF]) false with A := 0x41 }

theorem memory_and_output_printsLetter :
    (∀ index, ((step isa).run printsLetter).state.memory.cell index ≠
        printsLetter.memory.cell index → index = 0xFFFB) ∧
      ∃ t events, Routine.Iterates (step isa) 1 printsLetter events t ∧
        printed events = [0x41] ∧ t.memory.cell 0xFFFB = 0x41 := by
  obtain ⟨hstep, hrun⟩ := memory_and_output isa printsLetter le_rfl
  have hiter : Routine.Iterates (step isa) 1 printsLetter _ _ := .step rfl (.refl _)
  obtain ⟨-, hframe, -⟩ := hstep ⟨.sta, .absolute, .sta⟩ rfl
  refine ⟨fun index hne => ?_, _, _, hiter, rfl, (hrun _ _ _ hiter).2.2⟩
  obtain ⟨-, a, ha, rfl⟩ | ⟨k, hk, -⟩ := hframe index hne
  · cases ha
    rfl
  · exact absurd hk k.not_lt_zero

end Sim6502
