import Sim6502.StepAnalysis

/-!
# Which status bits an instruction may write

A bit that is not in the list of a body keeps its stored value. The four control
flags are framed by their own instructions, except that the index registers set
the carry when they wrap.
-/
namespace Sim6502
open EventComputation CPU6502

namespace PSR

theorem stored_setBit_frame (p : PSR) {bit other : PsrBit} (h : other ≠ bit) (value : Bool) :
    (p.setBit bit value).stored other = p.stored other := stored_setBit_of_ne p h.symm value

theorem stored_updateFlags_frame (p : PSR) {other : PsrBit} (hz : other ≠ .zero)
    (hn : other ≠ .negative) (value : Byte) :
    (p.updateFlags value).stored other = p.stored other := by
  rw [updateFlags, stored_setBit_frame _ hn, stored_setBit_frame _ hz]

theorem stored_wrapCarry (p : PSR) (carry : Bool) (other : PsrBit) :
    (p.wrapCarry carry).stored other = (p.stored other || (carry && other == .carry)) := by
  cases carry
  · simp [wrapCarry]
  · rw [wrapCarry, if_pos rfl, stored_setBit p (by simp)]
    by_cases h : PsrBit.carry = other
    · simp [← h]
    · simp [h, Ne.symm h]

end PSR

/-- All bits of the register, which a pulled status byte brings along. -/
def PsrBit.all : List PsrBit :=
  [.carry, .zero, .interruptDisable, .decimalMode, .breakCommand, .unused, .overflow, .negative]

theorem PsrBit.mem_all (bit : PsrBit) : bit ∈ PsrBit.all := by
  cases bit <;> decide

/-- The bits a body writes. -/
def InstructionBody.flagsWritten : InstructionBody → List PsrBit
  | .adc | .sbc => [.carry, .zero, .overflow, .negative]
  | .aslMem | .lsrMem | .rolMem | .rorMem | .aslA | .lsrA | .rolA | .rorA
  | .cmp | .cpx | .cpy | .cpxImmediate | .cpyImmediate | .cmpZeroPageIndirect
  | .dey | .iny | .inx => [.carry, .zero, .negative]
  | .and | .ora | .eor | .lda | .ldx | .ldy | .decMem | .incMem | .incA | .decA | .dex
  | .inxRepeated | .bitAbsolute => [.zero, .negative]
  | .bitZeroPage => [.zero, .overflow, .negative]
  | .tsb | .trb => [.zero]
  | .clc | .sec => [.carry]
  | .cli | .sei => [.interruptDisable]
  | .cld | .sed => [.decimalMode]
  | .clv => [.overflow]
  | .brk => [.breakCommand]
  | .plp | .rti => PsrBit.all
  | _ => []

section Body
variable (body : InstructionBody) (a : Address) {cpu : CPU6502}

/-- A body leaves every bit it does not write. -/
theorem stored_execute (hs : maxMemory ≤ cpu.memory.size) {bit : PsrBit}
    (h : bit ∉ body.flagsWritten) :
    ((body.execute a).run cpu).state.P.stored bit = cpu.P.stored bit := by
  have hall := PsrBit.mem_all bit
  cases body <;>
    simp [InstructionBody.flagsWritten, hall] at h <;>
    simp [InstructionBody.execute, hs, h, PSR.stored_setBit_frame, PSR.stored_updateFlags_frame,
      PSR.stored_wrapCarry, PSR.cmp, PSR.compare, Execute.brkPushed]

/-- The increments and decrements of an index register that wrap. -/
def InstructionBody.wraps (cpu : CPU6502) : InstructionBody → Bool
  | .dey => cpu.Y = 0
  | .iny => cpu.Y = 0xFF
  | .inx => cpu.X = 0xFF
  | _ => false

def InstructionBody.stepsIndex : InstructionBody → Bool
  | .dey | .iny | .inx => true
  | _ => false

theorem stepsIndex_of_wraps {body : InstructionBody} (h : body.wraps cpu) : body.stepsIndex := by
  cases body <;> first | rfl | simp [InstructionBody.wraps] at h

theorem increment_carry (b : Byte) : (byteAddInt b 1#8).carry = decide (b = 0xFF) := by
  have h : b.toNat = 255 ↔ b = 0xFF := BitVec.toNat_inj (y := 0xFF)
  have hlt := b.isLt
  rw [byteAddInt_carry, decide_eq_decide, ← h]
  change 255 < b.toNat + 1 ↔ _
  omega

private theorem decrement_carry (b : Byte) : (byteSubInt b 1#8).carry = decide (b = 0) := by
  rw [byteSubInt_carry, decide_eq_decide]
  bv_omega

/-- These bodies add their wrap to the carry and never clear it. -/
theorem carry_execute (cpu : CPU6502) (h : body.stepsIndex) :
    ((body.execute a).run cpu).state.P.getBit .carry =
      (cpu.P.getBit .carry || body.wraps cpu) := by
  rw [PSR.getBit_eq_stored _ (by simp), PSR.getBit_eq_stored _ (by simp)]
  cases body <;> simp [InstructionBody.stepsIndex] at h <;>
    simp [InstructionBody.execute, PSR.stored_updateFlags_frame, PSR.stored_wrapCarry,
      InstructionBody.wraps, increment_carry, decrement_carry, -byteAddInt_carry,
      -byteSubInt_carry]

end Body

/-! ## The control flags -/

/-- The instructions to which a control flag belongs. The table calls `0x58` and
`0x78` both `CLI`. -/
def Mnemonic.ownsFlag : PsrBit → Mnemonic → Bool
  | .carry, .adc | .carry, .sbc | .carry, .cmp | .carry, .cpx | .carry, .cpy | .carry, .asl
  | .carry, .lsr | .carry, .rol | .carry, .ror | .carry, .clc | .carry, .sec | .carry, .plp
  | .carry, .rti => true
  | .overflow, .adc | .overflow, .sbc | .overflow, .bit | .overflow, .clv | .overflow, .plp
  | .overflow, .rti => true
  | .decimalMode, .cld | .decimalMode, .sed | .decimalMode, .plp | .decimalMode, .rti
  | .decimalMode, .brk => true
  | .interruptDisable, .cli | .interruptDisable, .plp | .interruptDisable, .rti
  | .interruptDisable, .brk => true
  | _, _ => false

def controlFlags : List PsrBit := [.carry, .overflow, .decimalMode, .interruptDisable]

theorem ne_unused_of_mem {flag : PsrBit} (h : flag ∈ controlFlags) : flag ≠ .unused := by
  rintro rfl
  simp [controlFlags] at h

/-- The table writes a control flag in an instruction it does not belong to only
where an index register steps. -/
theorem flagsWritten_of_mem {opcode : Byte} {instruction : Instruction}
    (h : (opcode, instruction) ∈ isaEntries) {flag : PsrBit} (hf : flag ∈ controlFlags)
    (ho : instruction.name.ownsFlag flag = false) :
    flag ∉ instruction.execute.flagsWritten ∨ flag = .carry ∧ instruction.execute.stepsIndex := by
  have hall : ∀ e ∈ isaEntries, ∀ flag ∈ controlFlags, e.2.name.ownsFlag flag = false →
      flag ∉ e.2.execute.flagsWritten ∨ flag = .carry ∧ e.2.execute.stepsIndex := by
    decide +kernel
  exact hall _ h flag hf ho

theorem ownsFlag_of_stepsIndex {opcode : Byte} {instruction : Instruction}
    (h : (opcode, instruction) ∈ isaEntries) (hb : instruction.execute.stepsIndex) :
    instruction.name.ownsFlag .carry = false := by
  have hall : ∀ e ∈ isaEntries, e.2.execute.stepsIndex → e.2.name.ownsFlag .carry = false := by
    decide +kernel
  exact hall _ h hb

/-- The four control flags, in every instruction they do not belong to, are kept by a
step unless an index register wraps while the carry is clear. -/
theorem control_flags_kept (isa : CPU6502ISA) (cpu : CPU6502) (instruction : Instruction)
    (hs : maxMemory ≤ cpu.memory.size)
    (find : isa.find (opcodeAt cpu) = some instruction) :
    (∀ flag ∈ controlFlags, instruction.name.ownsFlag flag = false →
        ((step isa).run cpu).state.P.getBit flag = cpu.P.getBit flag) ↔
      ¬(instruction.execute.wraps cpu ∧ cpu.P.getBit .carry = false) := by
  rcases step_of_find hs find with ⟨err, t, events, inside, run, hstep⟩ | ⟨-, hjump, hstep⟩
  · have hmem := isa.find_mem find
    have hcarry := carry_execute instruction.execute
      (effectiveAddress 0 cpu instruction.mode) cpu
    have hkept (bit : PsrBit) (h : bit ∉ instruction.execute.flagsWritten) :=
      stored_execute instruction.execute (effectiveAddress 0 cpu instruction.mode) hs h
    rw [run] at hcarry hkept
    simp only [hstep, P_advance]
    constructor
    · rintro h ⟨hwraps, hclear⟩
      have hindex := stepsIndex_of_wraps hwraps
      have hsame := h .carry (by decide) (ownsFlag_of_stepsIndex hmem hindex)
      rw [hcarry hindex, hwraps, hclear] at hsame
      cases hsame
    · intro hw flag hflag hown
      rcases flagsWritten_of_mem hmem hflag hown with hframe | ⟨rfl, hindex⟩
      · have hne := ne_unused_of_mem hflag
        rw [PSR.getBit_eq_stored _ hne, PSR.getBit_eq_stored _ hne, hkept flag hframe]
      · rw [hcarry hindex]
        cases hc : cpu.P.getBit .carry
        · have hno : instruction.execute.wraps cpu = false :=
            Bool.eq_false_iff.mpr fun h => hw ⟨h, hc⟩
          rw [hno, Bool.false_or]
        · rw [Bool.true_or]
  · simp [hstep, hjump, InstructionBody.wraps]

/-- `INY` away from the wrap. -/
def incrementsY : CPU6502 := { CPU6502.initial (.ofProgram [0xC8]) false with Y := 0x10 }

theorem control_flags_kept_incrementsY :
    ((step isa).run incrementsY).state.P.getBit .carry = incrementsY.P.getBit .carry ∧
      ((step isa).run incrementsY).state.P.getBit .overflow = incrementsY.P.getBit .overflow := by
  have hkept := (control_flags_kept isa incrementsY ⟨.iny, .implied, .iny⟩ le_rfl rfl).mpr
    (by decide)
  exact ⟨hkept .carry (by decide) rfl, hkept .overflow (by decide) rfl⟩

/-- `DEY` at zero with the carry clear. -/
def decrementsZero : CPU6502 := CPU6502.initial (.ofProgram [0x88]) false

theorem decrementsZero_sets_carry :
    ¬∀ cpu : CPU6502, maxMemory ≤ cpu.memory.size → ∀ instruction,
      isa.find (opcodeAt cpu) = some instruction → ∀ flag ∈ controlFlags,
        instruction.name.ownsFlag flag = false →
          ((step isa).run cpu).state.P.getBit flag = cpu.P.getBit flag := by
  intro h
  have hsame := h decrementsZero le_rfl ⟨.dey, .implied, .dey⟩ rfl .carry (by decide) rfl
  have hset : ((step isa).run decrementsZero).state.P.getBit .carry = true := by decide +kernel
  rw [hset] at hsame
  cases hsame

end Sim6502
