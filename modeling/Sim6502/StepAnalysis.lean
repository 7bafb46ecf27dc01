import Sim6502.InstructionEffects
import Sim6502.ProcessorStep

/-!
# What one step can do

Decoding changes nothing and only reads. Over a full memory it delivers the
effective address of the mode, except for the one pointer of `AbsoluteIndirect`
whose second byte lies outside a memory of exactly 64K. A step is therefore one
of three things, listed once in `step_cases`.
-/
namespace Sim6502
open EventComputation CPU6502

/-! ## Decoding -/

/-- The two operand bytes as an address. -/
def operandWord (cpu : CPU6502) : Address :=
  .ofBytes (cpu.memory.byteAt (cpu.PC + 1)) (cpu.memory.byteAt (cpu.PC + 2))

/-- The first operand byte. -/
def operandByte (cpu : CPU6502) : Byte := cpu.memory.byteAt (cpu.PC + 1)

/-- The address stored at a pointer and the next address. -/
def pointerAt (cpu : CPU6502) (pointer : Address) : Address :=
  .ofBytes (cpu.memory.byteAt pointer) (cpu.memory.byteAt (pointer + 1))

/-- The address `step` computes, as a function of the state. -/
def effectiveAddress (unset : Address) (cpu : CPU6502) : AddressingMode → Address
  | .absolute => operandWord cpu
  | .absoluteIndexedIndirect => pointerAt cpu (operandWord cpu + cpu.X.setWidth 16)
  | .absoluteIndexedX => operandWord cpu + cpu.X.setWidth 16
  | .absoluteIndexedY => operandWord cpu + cpu.Y.setWidth 16
  | .absoluteIndirect =>
    .ofBytes (cpu.memory.byteAt (operandWord cpu))
      (cpu.memory.cell ((operandWord cpu).toNat + 1))
  | .accumulator => .ofByte cpu.A
  | .immediate => cpu.PC + 1
  | .implied => unset
  | .pcRelative => cpu.PC + 2 + (operandByte cpu).signExtend 16
  | .stack => .ofByte cpu.S
  | .zeroPage => .ofByte (operandByte cpu)
  | .zeroPageIndexedIndirect => pointerAt cpu (.ofByte (operandByte cpu + cpu.X))
  | .zeroPageIndexedX => .ofByte (operandByte cpu + cpu.X)
  | .zeroPageIndexedY => .ofByte (operandByte cpu + cpu.Y)
  | .zeroPageIndirect => pointerAt cpu (.ofByte (operandByte cpu))
  | .zeroPageIndirectIndexedY => pointerAt cpu (.ofByte (operandByte cpu)) + cpu.Y.setWidth 16

/-- The pointer of an indirect jump is the last address of the address space. -/
def LastPointer (cpu : CPU6502) (mode : AddressingMode) : Prop :=
  mode = .absoluteIndirect ∧ operandWord cpu = 0xFFFF

instance (cpu : CPU6502) (mode : AddressingMode) : Decidable (LastPointer cpu mode) :=
  inferInstanceAs (Decidable (_ ∧ _))

/-- The index of the high pointer byte is inside the memory. -/
def PointerInside (cpu : CPU6502) (mode : AddressingMode) : Prop :=
  LastPointer cpu mode → maxMemory < cpu.memory.size

private theorem preserves_readMemory (a : Address) : Routine.Preserves Eq (readMemory a) :=
  fun _ => rfl

/-- Decoding is a sequence of reads of registers and memory. -/
theorem preserves_decode (unset : Address) (mode : AddressingMode) :
    Routine.Preserves Eq (decode unset mode) := by
  cases mode <;> simp only [decode, fetch, getA, getX, getY, getS, getPC] <;>
    repeat' with_reducible first
      | exact .pure _
      | exact .get
      | exact preserves_readMemory _
      | exact preserves_readIndex _
      | refine .bind ?_ fun _ => ?_

/-- Events of the form every access of the 16-bit address space has. -/
def ReadsBelowLimit (e : Event) : Prop := ∃ index ≤ 0xFFFF, e = .read index

private theorem emits_readMemory (a : Address) :
    Routine.Emits ReadsBelowLimit (readMemory a) := by
  intro cpu e he
  exact ⟨a.toNat, Nat.le_of_lt_succ a.isLt, List.mem_singleton.mp he⟩

/-- Every mode but one keeps its reads in the address space by construction. -/
theorem emits_decode (unset : Address) {mode : AddressingMode} (h : mode ≠ .absoluteIndirect) :
    Routine.Emits ReadsBelowLimit (decode unset mode) := by
  cases mode <;> simp only [decode, fetch, getA, getX, getY, getS, getPC]
  case absoluteIndirect => exact absurd rfl h
  all_goals
    repeat' with_reducible first
      | exact .pure _
      | exact .get
      | exact emits_readMemory _
      | refine .bind ?_ fun _ => ?_

/-- Decoding writes nothing and prints nothing. -/
theorem emits_decode_read (unset : Address) (mode : AddressingMode) :
    Routine.Emits (fun e => ∃ index, e = .read index) (decode unset mode) := by
  have hread (a : Address) :
      Routine.Emits (fun e => ∃ index, e = .read index) (readMemory a) :=
    (emits_readMemory a).mono fun _ ⟨index, _, he⟩ => ⟨index, he⟩
  have hindex (i : ℕ) : Routine.Emits (fun e => ∃ index, e = .read index) (readIndex i) :=
    (emits_readIndex i).mono fun _ he => ⟨i, he⟩
  cases mode <;> simp only [decode, fetch, getA, getX, getY, getS, getPC] <;>
    repeat' with_reducible first
      | exact .pure _
      | exact .get
      | exact hread _
      | exact hindex _
      | refine .bind ?_ fun _ => ?_

private theorem run_fetch {cpu : CPU6502} (hs : maxMemory ≤ cpu.memory.size) (offset : Address) :
    (fetch offset).run cpu =
      ⟨.ok (cpu.memory.byteAt (cpu.PC + offset)), cpu, [.read (cpu.PC + offset).toNat]⟩ := by
  simp [fetch, Routine.run_bind, run_readMemory _ hs]

theorem pointer_toNat (cpu : CPU6502) :
    (cpu.memory.byteAt (cpu.PC + 2)).toNat <<< 8 ||| (cpu.memory.byteAt (cpu.PC + 1)).toNat =
      (operandWord cpu).toNat := by
  rw [operandWord, Address.toNat_ofBytes,
    ← Nat.shiftLeft_add_eq_or_of_lt (cpu.memory.byteAt (cpu.PC + 1)).isLt, Nat.shiftLeft_eq]

private theorem operandWord_lt {cpu : CPU6502} (hs : maxMemory ≤ cpu.memory.size) :
    (operandWord cpu).toNat < cpu.memory.size :=
  cpu.memory.lt_size hs _

/-- The indirect jump reads its second pointer byte at an index that may be one
past the address space. -/
theorem run_decode_absoluteIndirect (unset : Address) {cpu : CPU6502}
    (hs : maxMemory ≤ cpu.memory.size) :
    (decode unset .absoluteIndirect).run cpu =
      ⟨if (operandWord cpu).toNat + 1 < cpu.memory.size then
          .ok (effectiveAddress unset cpu .absoluteIndirect)
        else .error (.undefined ((operandWord cpu).toNat + 1)), cpu,
        [.read (cpu.PC + 1).toNat, .read (cpu.PC + 2).toNat, .read (operandWord cpu).toNat,
          .read ((operandWord cpu).toNat + 1)]⟩ := by
  have hlow := run_readIndex cpu (operandWord_lt hs)
  rw [decode, Routine.run_bind_of_ok (run_fetch hs 1), Routine.run_bind_of_ok (run_fetch hs 2)]
  simp only [pointer_toNat]
  rw [Routine.run_bind_of_ok hlow]
  by_cases hp : (operandWord cpu).toNat + 1 < cpu.memory.size
  · rw [Routine.run_bind_of_ok (run_readIndex cpu hp), if_pos hp]
    rfl
  · have hhigh : (readIndex ((operandWord cpu).toNat + 1)).run cpu =
        ⟨.error (.undefined ((operandWord cpu).toNat + 1)), cpu,
          [.read ((operandWord cpu).toNat + 1)]⟩ := by
      simp only [readIndex, onMemory, Routine.run_zoom, GPMemory.read, if_neg hp]
    rw [Routine.run_bind_of_error hhigh, if_neg hp]
    rfl

theorem result_decode (unset : Address) {cpu : CPU6502} (hs : maxMemory ≤ cpu.memory.size)
    {mode : AddressingMode} (hp : PointerInside cpu mode) :
    ((decode unset mode).run cpu).result = .ok (effectiveAddress unset cpu mode) := by
  cases mode
  case absoluteIndirect =>
    have hhigh : (operandWord cpu).toNat + 1 < cpu.memory.size := by
      by_cases hw : operandWord cpu = 0xFFFF
      · have h := hp ⟨rfl, hw⟩
        rw [hw]
        exact h
      · have hne : (operandWord cpu).toNat ≠ 0xFFFF :=
          fun he => hw (BitVec.eq_of_toNat_eq he)
        have hlt := (operandWord cpu).isLt
        unfold maxMemory at hs
        omega
    rw [run_decode_absoluteIndirect unset hs, if_pos hhigh]
  all_goals
    simp [decode, Routine.run_bind, run_fetch hs, run_readMemory _ hs, effectiveAddress,
      operandWord, operandByte, pointerAt]

theorem result_decode_outside (unset : Address) {cpu : CPU6502}
    (hs : maxMemory ≤ cpu.memory.size) {mode : AddressingMode} (hp : ¬PointerInside cpu mode) :
    ((decode unset mode).run cpu).result = .error (.undefined maxMemory) := by
  obtain ⟨⟨rfl, hw⟩, hsize⟩ := Classical.not_imp.mp hp
  have hout : ¬(operandWord cpu).toNat + 1 < cpu.memory.size := by
    rw [hw]
    exact hsize
  rw [run_decode_absoluteIndirect unset hs, if_neg hout, hw]
  rfl

/-! ## Executing -/

/-- Over a full memory every body comes to its end. -/
theorem result_execute (body : InstructionBody) (a : Address) {cpu : CPU6502}
    (hs : maxMemory ≤ cpu.memory.size) :
    ∃ err, ((body.execute a).run cpu).result = .ok err := by
  cases body <;> simp [InstructionBody.execute, hs]

/-- No body replaces the memory or touches the device address and the modes. -/
theorem configuration_execute (body : InstructionBody) (a : Address) {cpu : CPU6502}
    (hs : maxMemory ≤ cpu.memory.size) :
    ((body.execute a).run cpu).state.memory.size = cpu.memory.size ∧
      ((body.execute a).run cpu).state.memory.printDeviceAddr = cpu.memory.printDeviceAddr ∧
      ((body.execute a).run cpu).state.debug = cpu.debug ∧
      ((body.execute a).run cpu).state.verbose = cpu.verbose := by
  cases body <;> simp [InstructionBody.execute, hs, Execute.brkPushed]

/-! ## The operand address no body looks at -/

/-- The bodies whose function leaves its parameter unnamed. -/
def InstructionBody.ignoresOperand : InstructionBody → Bool
  | .brk | .dbg | .rti | .rts | .php | .clc | .plp | .sec | .pha | .cli | .pla | .sei | .dey
  | .tya | .tay | .clv | .iny | .cld | .inx | .sed | .aslA | .incA | .rolA | .decA | .lsrA | .phy
  | .rorA | .ply | .txa | .txs | .tax | .tsx | .dex | .phx | .nop | .plx | .stp
  | .inxRepeated => true
  | _ => false

theorem execute_of_ignoresOperand {body : InstructionBody} (h : body.ignoresOperand)
    (a b : Address) : body.execute a = body.execute b := by
  cases body <;> first | rfl | simp [InstructionBody.ignoresOperand] at h

/-- The modes without an operand in the program. -/
def AddressingMode.WithoutOperand (mode : AddressingMode) : Prop :=
  mode = .implied ∨ mode = .accumulator ∨ mode = .stack

instance (mode : AddressingMode) : Decidable mode.WithoutOperand :=
  inferInstanceAs (Decidable (_ ∨ _))

/-- This goes through the list of the source, repeated entries and all. -/
theorem ignoresOperand_of_withoutOperand {opcode : Byte} {instruction : Instruction}
    (h : (opcode, instruction) ∈ isaEntries) (hm : instruction.mode.WithoutOperand) :
    instruction.execute.ignoresOperand := by
  have hall : ∀ e ∈ isaEntries, e.2.mode.WithoutOperand → e.2.execute.ignoresOperand := by
    decide +kernel
  exact hall _ h hm

/-- Every mode but `Implied` assigns the operand address. -/
theorem decode_unset (unset other : Address) {mode : AddressingMode} (h : mode ≠ .implied) :
    decode unset mode = decode other mode := by
  cases mode <;> first | rfl | exact absurd rfl h

theorem executeInstruction_unset {opcode : Byte} {instruction : Instruction}
    (h : (opcode, instruction) ∈ isaEntries) (unset other : Address) :
    executeInstruction unset instruction = executeInstruction other instruction := by
  by_cases hm : instruction.mode = .implied
  · have hbody := execute_of_ignoresOperand (ignoresOperand_of_withoutOperand h (.inl hm)) unset
      other
    simp only [executeInstruction, hm, decode, Routine.pure_bind, hbody]
  · rw [executeInstruction, executeInstruction, decode_unset unset other hm]

/-- A step does not depend on the value the uninitialised local happens to hold. -/
theorem stepWith_eq_step (isa : CPU6502ISA) (unset : Address) : stepWith isa unset = step isa := by
  unfold step stepWith
  congr 1; funext pc; congr 1; funext opcode
  cases h : isa.find opcode with
  | none => rfl
  | some instruction => simp only [executeInstruction_unset (isa.find_mem h) unset 0]

/-- The indirect mode belongs to the jump. -/
theorem execute_of_absoluteIndirect {opcode : Byte} {instruction : Instruction}
    (h : (opcode, instruction) ∈ isaEntries) (hm : instruction.mode = .absoluteIndirect) :
    instruction.execute = .jmp := by
  have hall : ∀ e ∈ isaEntries, e.2.mode = .absoluteIndirect → e.2.execute = .jmp := by
    decide +kernel
  exact hall _ h hm

/-! ## The three kinds of steps -/

/-- The program counter moves on unless the body has set it. -/
def advance (instruction : Instruction) (err : InstructionErr) (cpu : CPU6502) : CPU6502 :=
  if err = .okPCModified then cpu
  else { cpu with PC := cpu.PC + BitVec.ofNat 16 instruction.bytes }

section Advance
variable (instruction : Instruction) (err : InstructionErr) (cpu : CPU6502)

@[simp] theorem A_advance : (advance instruction err cpu).A = cpu.A := by
  unfold advance; split <;> rfl
@[simp] theorem X_advance : (advance instruction err cpu).X = cpu.X := by
  unfold advance; split <;> rfl
@[simp] theorem Y_advance : (advance instruction err cpu).Y = cpu.Y := by
  unfold advance; split <;> rfl
@[simp] theorem S_advance : (advance instruction err cpu).S = cpu.S := by
  unfold advance; split <;> rfl
@[simp] theorem P_advance : (advance instruction err cpu).P = cpu.P := by
  unfold advance; split <;> rfl
@[simp] theorem memory_advance : (advance instruction err cpu).memory = cpu.memory := by
  unfold advance; split <;> rfl
@[simp] theorem debug_advance : (advance instruction err cpu).debug = cpu.debug := by
  unfold advance; split <;> rfl
@[simp] theorem verbose_advance : (advance instruction err cpu).verbose = cpu.verbose := by
  unfold advance; split <;> rfl

end Advance

/-- The opcode byte the next step reads. -/
def opcodeAt (cpu : CPU6502) : Byte := cpu.memory.byteAt cpu.PC

/-- The events up to the look-up of a known opcode. -/
def lookupEvents (cpu : CPU6502) (instruction : Instruction) : List Event :=
  .read cpu.PC.toNat ::
    if cpu.verbose then [.announce (.instruction instruction.name (opcodeAt cpu) cpu.PC)] else []

def decodeEvents (unset : Address) (cpu : CPU6502) (mode : AddressingMode) : List Event :=
  ((decode unset mode).run cpu).events

/-- Every outcome a step can have over a full memory. -/
inductive StepCase (isa : CPU6502ISA) (unset : Address) (cpu : CPU6502) :
    Outcome CPU6502 Fault Event InstructionErr → Prop where
  | unknown (find : isa.find (opcodeAt cpu) = none) :
      StepCase isa unset cpu ⟨.ok .unknownInstruction, cpu,
        [.read cpu.PC.toNat, .announce (.unknownOpcode (opcodeAt cpu))]⟩
  | executed (instruction : Instruction) {err : InstructionErr} {t : CPU6502} {events : List Event}
      (find : isa.find (opcodeAt cpu) = some instruction)
      (inside : PointerInside cpu instruction.mode)
      (run : (instruction.execute.execute (effectiveAddress unset cpu instruction.mode)).run cpu =
        ⟨.ok err, t, events⟩) :
      StepCase isa unset cpu ⟨.ok err, advance instruction err t,
        lookupEvents cpu instruction ++ (decodeEvents unset cpu instruction.mode ++ events)⟩
  | outside (instruction : Instruction) (find : isa.find (opcodeAt cpu) = some instruction)
      (outside : ¬PointerInside cpu instruction.mode) :
      StepCase isa unset cpu ⟨.error (.undefined maxMemory), cpu,
        lookupEvents cpu instruction ++ decodeEvents unset cpu instruction.mode⟩

section Step
variable {isa : CPU6502ISA} {unset : Address} {cpu : CPU6502} {instruction : Instruction}

private theorem outcome_decode (unset : Address) (cpu : CPU6502) (mode : AddressingMode) :
    (decode unset mode).run cpu =
      ⟨((decode unset mode).run cpu).result, cpu, decodeEvents unset cpu mode⟩ := by
  have h := preserves_decode unset mode cpu
  rcases hd : (decode unset mode).run cpu with ⟨r, t, events⟩
  rw [hd] at h
  subst h
  simp [decodeEvents, hd]

private theorem run_executeInstruction (hs : maxMemory ≤ cpu.memory.size)
    (inside : PointerInside cpu instruction.mode) {err : InstructionErr} {t : CPU6502}
    {events : List Event}
    (run : (instruction.execute.execute (effectiveAddress unset cpu instruction.mode)).run cpu =
      ⟨.ok err, t, events⟩) :
    (executeInstruction unset instruction).run cpu =
      ⟨.ok err, advance instruction err t,
        decodeEvents unset cpu instruction.mode ++ events⟩ := by
  have hd := outcome_decode unset cpu instruction.mode
  rw [result_decode unset hs inside] at hd
  rw [executeInstruction, Routine.run_bind_of_ok hd, Routine.run_bind_of_ok run]
  by_cases he : err = .okPCModified <;>
    simp [he, advance, Routine.run_bind]

theorem run_lookup (hPC : cpu.PC.toNat < cpu.memory.size)
    (find : isa.find (opcodeAt cpu) = some instruction) :
    (stepWith isa unset).run cpu =
      ((executeInstruction unset instruction).run cpu).after (lookupEvents cpu instruction) := by
  rw [stepWith, Routine.run_bind_of_ok (run_getPC cpu),
    Routine.run_bind_of_ok (run_readMemory_of_lt cpu hPC)]
  unfold opcodeAt at find
  cases hv : cpu.verbose <;>
    simp [find, Routine.run_bind, hv, lookupEvents, opcodeAt, Outcome.after]

theorem run_lookup_unknown (hPC : cpu.PC.toNat < cpu.memory.size)
    (find : isa.find (opcodeAt cpu) = none) :
    (stepWith isa unset).run cpu = ⟨.ok .unknownInstruction, cpu,
      [.read cpu.PC.toNat, .announce (.unknownOpcode (opcodeAt cpu))]⟩ := by
  rw [stepWith, Routine.run_bind_of_ok (run_getPC cpu),
    Routine.run_bind_of_ok (run_readMemory_of_lt cpu hPC)]
  unfold opcodeAt at find ⊢
  simp [find, Routine.run_bind]

/-- A step over a full memory, said once. -/
theorem step_cases (isa : CPU6502ISA) (unset : Address) (cpu : CPU6502)
    (hs : maxMemory ≤ cpu.memory.size) :
    StepCase isa unset cpu ((stepWith isa unset).run cpu) := by
  have hPC := cpu.memory.lt_size hs cpu.PC
  cases find : isa.find (opcodeAt cpu) with
  | none =>
    rw [run_lookup_unknown hPC find]
    exact .unknown find
  | some instruction =>
    rw [run_lookup hPC find]
    by_cases inside : PointerInside cpu instruction.mode
    · obtain ⟨err, herr⟩ := result_execute instruction.execute
        (effectiveAddress unset cpu instruction.mode) hs
      rcases hx : (instruction.execute.execute
        (effectiveAddress unset cpu instruction.mode)).run cpu with ⟨r, t, events⟩
      obtain rfl : r = .ok err := by simpa [hx] using herr
      rw [run_executeInstruction hs inside hx]
      exact .executed instruction find inside hx
    · have hd := outcome_decode unset cpu instruction.mode
      rw [result_decode_outside unset hs inside] at hd
      rw [executeInstruction, Routine.run_bind_of_error hd]
      exact .outside instruction find inside

/-- The same for an outcome of `step` that has a name. -/
theorem step_cases_of_run {o : Outcome CPU6502 Fault Event InstructionErr}
    (hs : maxMemory ≤ cpu.memory.size) (run : (step isa).run cpu = o) : StepCase isa 0 cpu o :=
  run ▸ step_cases isa 0 cpu hs

/-- The step of a known instruction whose body is known. -/
theorem run_step_of_find (hs : maxMemory ≤ cpu.memory.size)
    (find : isa.find (opcodeAt cpu) = some instruction)
    (inside : PointerInside cpu instruction.mode) {err : InstructionErr} {t : CPU6502}
    {events : List Event}
    (run : (instruction.execute.execute (effectiveAddress 0 cpu instruction.mode)).run cpu =
      ⟨.ok err, t, events⟩) :
    (step isa).run cpu = ⟨.ok err, advance instruction err t,
      lookupEvents cpu instruction ++ (decodeEvents 0 cpu instruction.mode ++ events)⟩ := by
  rw [step, run_lookup (cpu.memory.lt_size hs cpu.PC) find, run_executeInstruction hs inside run]
  rfl

/-- The step of a known instruction: its body runs to the end, or the instruction is
the jump whose pointer ends outside the memory. -/
theorem step_of_find (hs : maxMemory ≤ cpu.memory.size)
    (find : isa.find (opcodeAt cpu) = some instruction) :
    (∃ err t events, PointerInside cpu instruction.mode ∧
      (instruction.execute.execute (effectiveAddress 0 cpu instruction.mode)).run cpu =
        ⟨.ok err, t, events⟩ ∧
      (step isa).run cpu = ⟨.ok err, advance instruction err t,
        lookupEvents cpu instruction ++ (decodeEvents 0 cpu instruction.mode ++ events)⟩) ∨
    (¬PointerInside cpu instruction.mode ∧ instruction.execute = .jmp ∧
      (step isa).run cpu = ⟨.error (.undefined maxMemory), cpu,
        lookupEvents cpu instruction ++ decodeEvents 0 cpu instruction.mode⟩) := by
  rcases ho : (step isa).run cpu with ⟨r, t, events⟩
  cases step_cases_of_run hs ho with
  | unknown find' =>
    rw [find] at find'
    cases find'
  | executed instruction' find' inside run =>
    obtain rfl : instruction' = instruction := by simpa [find] using find'.symm
    exact .inl ⟨_, _, _, inside, run, rfl⟩
  | outside instruction' find' outside =>
    obtain rfl : instruction' = instruction := by simpa [find] using find'.symm
    have hmode := (Classical.not_imp.mp outside).1.1
    exact .inr ⟨outside, execute_of_absoluteIndirect (isa.find_mem find) hmode, rfl⟩

/-- A step that succeeds has decoded an address and run the body at it, whatever the
size of the memory. -/
theorem of_step_ok {err : InstructionErr} {t : CPU6502} {events : List Event}
    (find : isa.find (opcodeAt cpu) = some instruction)
    (run : (step isa).run cpu = ⟨.ok err, t, events⟩) :
    ∃ a u later, ((decode 0 instruction.mode).run cpu).result = .ok a ∧
      (instruction.execute.execute a).run cpu = ⟨.ok err, u, later⟩ ∧
      t = advance instruction err u := by
  by_cases hPC : cpu.PC.toNat < cpu.memory.size
  · rw [step, run_lookup hPC find] at run
    obtain ⟨later, hexecute, -⟩ := Outcome.of_after_eq run
    obtain ⟨a, s, _, _, hdecode, hrest, -⟩ := Routine.of_run_bind_ok hexecute
    obtain rfl : cpu = s := by
      have h := preserves_decode 0 instruction.mode cpu
      rwa [hdecode] at h
    obtain ⟨code, u, written, _, hbody, hend, -⟩ := Routine.of_run_bind_ok hrest
    refine ⟨a, u, written, by rw [hdecode], ?_⟩
    by_cases hcode : code = .okPCModified
    · simp only [hcode, if_true, Routine.run_pure, Outcome.mk.injEq, Except.ok.injEq] at hend
      obtain ⟨rfl, rfl, -⟩ := hend
      rw [hcode] at hbody
      exact ⟨hbody, by rw [advance, if_pos rfl]⟩
    · simp only [if_neg hcode, Routine.run_bind, run_getPC, run_setPC, Routine.run_pure,
        Outcome.after_mk, Outcome.mk.injEq, Except.ok.injEq] at hend
      obtain ⟨rfl, rfl, -⟩ := hend
      exact ⟨hbody, by simp [advance, hcode]⟩
  · rw [step, stepWith, Routine.run_bind_of_ok (run_getPC cpu),
      Routine.run_bind_of_error (run_readMemory_outside cpu hPC)] at run
    cases run

theorem pointerInside_of_ne (cpu : CPU6502) {mode : AddressingMode}
    (h : mode ≠ .absoluteIndirect) : PointerInside cpu mode := fun hl => absurd hl.1 h

/-- The step of an instruction whose body does not set `PC`. -/
theorem run_step_of_ok (hs : maxMemory ≤ cpu.memory.size)
    (find : isa.find (opcodeAt cpu) = some instruction)
    (hmode : instruction.mode ≠ .absoluteIndirect) {t : CPU6502} {events : List Event}
    (run : (instruction.execute.execute (effectiveAddress 0 cpu instruction.mode)).run cpu =
      ⟨.ok .ok, t, events⟩) :
    ∃ later, (step isa).run cpu =
      ⟨.ok .ok, { t with PC := t.PC + BitVec.ofNat 16 instruction.bytes }, later⟩ := by
  have hstep := run_step_of_find hs find (pointerInside_of_ne cpu hmode) run
  rw [advance, if_neg (by simp)] at hstep
  exact ⟨_, hstep⟩

/-- The state it leaves. -/
theorem state_step_of_find (hs : maxMemory ≤ cpu.memory.size)
    (find : isa.find (opcodeAt cpu) = some instruction)
    (hmode : instruction.mode ≠ .absoluteIndirect) {t : CPU6502} {events : List Event}
    (run : (instruction.execute.execute (effectiveAddress 0 cpu instruction.mode)).run cpu =
      ⟨.ok .ok, t, events⟩) :
    ((step isa).run cpu).state =
      { t with PC := t.PC + BitVec.ofNat 16 instruction.bytes } := by
  obtain ⟨later, hstep⟩ := run_step_of_ok hs find hmode run
  rw [hstep]

theorem pointerInside_stack (cpu : CPU6502) : PointerInside cpu .stack :=
  pointerInside_of_ne cpu nofun

/-- The step of an instruction that works on the stack. -/
theorem run_step_stack (hs : maxMemory ≤ cpu.memory.size) {name : Mnemonic}
    {body : InstructionBody} (find : isa.find (opcodeAt cpu) = some ⟨name, .stack, body⟩)
    {err : InstructionErr} {t : CPU6502} {events : List Event}
    (run : (body.execute (.ofByte cpu.S)).run cpu = ⟨.ok err, t, events⟩) :
    ∃ earlier, (step isa).run cpu =
      ⟨.ok err, advance ⟨name, .stack, body⟩ err t, earlier ++ events⟩ :=
  ⟨lookupEvents cpu ⟨name, .stack, body⟩ ++ decodeEvents 0 cpu .stack, by
    rw [run_step_of_find hs find (pointerInside_stack cpu) run, List.append_assoc]⟩

end Step

/-! ## Another opcode in the same state -/

/-- The state with another opcode at `PC`. -/
def withOpcode (cpu : CPU6502) (opcode : Byte) : CPU6502 :=
  { cpu with memory := cpu.memory.updated cpu.PC opcode }

/-- The same registers and the same memory but for one cell. -/
structure AgreeExcept (a : Address) (s t : CPU6502) : Prop where
  registers : s.registers = t.registers
  size : s.memory.size = t.memory.size
  cell : ∀ index, index ≠ a.toNat → s.memory.cell index = t.memory.cell index

section WithOpcode
variable {cpu : CPU6502} (opcode : Byte)

@[simp] theorem opcodeAt_withOpcode : opcodeAt (withOpcode cpu opcode) = opcode := by
  simp [opcodeAt, withOpcode, GPMemory.byteAt_updated]

theorem byteAt_withOpcode {a : Address} (h : cpu.PC ≠ a) :
    (withOpcode cpu opcode).memory.byteAt a = cpu.memory.byteAt a := by
  rw [withOpcode, GPMemory.byteAt_updated, if_neg (Ne.symm h)]

@[simp] theorem operandByte_withOpcode :
    operandByte (withOpcode cpu opcode) = operandByte cpu :=
  byteAt_withOpcode opcode (show cpu.PC ≠ cpu.PC + 1 by simp)

end WithOpcode

end Sim6502
