import Sim6502.StepAnalysis

/-!
# Zero and negative after a data result

The instructions that deliver a byte to a register or to memory should leave `Z`
and `N` describing it. Most bodies write both flags from the delivered byte. The
others leave a flag as it was, so that it describes the byte by coincidence only.
-/
namespace Sim6502
open EventComputation CPU6502

/-- Both flags tell about the byte. -/
def PSR.Describes (p : PSR) (value : Byte) : Prop :=
  p.getBit .zero = (value == 0) ∧ p.getBit .negative = value.msb

instance (p : PSR) (value : Byte) : Decidable (p.Describes value) :=
  inferInstanceAs (Decidable (_ ∧ _))

theorem PSR.describes_updateFlags (p : PSR) (value : Byte) :
    (p.updateFlags value).Describes value := by
  refine ⟨?_, ?_⟩
  · rw [updateFlags, getBit_setBit_of_ne _ (by simp), getBit_setBit_self _ (by simp), zeroByte]
  · rw [updateFlags, getBit_setBit_self _ (by simp)]
    exact isNegative_eq_msb value

/-- Where an instruction puts its result. -/
inductive Destination where
  | accumulator | indexX | indexY | operand
  deriving DecidableEq

/-- The byte a state holds there. -/
def Destination.read (a : Address) (cpu : CPU6502) : Destination → Byte
  | .accumulator => cpu.A
  | .indexX => cpu.X
  | .indexY => cpu.Y
  | .operand => cpu.memory.byteAt a

/-- The instructions that deliver a data result, with its place. -/
def Instruction.destination (instruction : Instruction) : Option Destination :=
  match instruction.name with
  | .lda | .pla | .txa | .tya | .and | .ora | .eor | .adc | .sbc => some .accumulator
  | .ldx | .plx | .tax | .tsx | .inx | .dex => some .indexX
  | .ldy | .ply | .tay | .iny | .dey => some .indexY
  | .asl | .lsr | .rol | .ror | .inc | .dec =>
    some (if instruction.mode = .accumulator then .accumulator else .operand)
  | _ => none

def InstructionBody.destination : InstructionBody → Option Destination
  | .lda | .ldaAbsolute | .pla | .txa | .tya | .and | .ora | .eor | .adc | .sbc | .aslA | .lsrA
  | .rolA | .rorA | .incA | .decA => some .accumulator
  | .ldx | .plx | .tax | .tsx | .inx | .inxRepeated | .dex => some .indexX
  | .ldy | .ply | .tay | .iny | .dey => some .indexY
  | .aslMem | .lsrMem | .rolMem | .rorMem | .incMem | .decMem => some .operand
  | _ => none

theorem destination_of_mem {opcode : Byte} {instruction : Instruction}
    (h : (opcode, instruction) ∈ isaEntries) :
    instruction.execute.destination = instruction.destination := by
  have hall : ∀ e ∈ isaEntries, e.2.execute.destination = e.2.destination := by decide +kernel
  exact hall _ h

/-- What the flags of the state before have to say for those after to describe the
result: the bodies that write neither flag need both, the right shifts, which clear
`N` themselves, need `Z`. -/
def InstructionBody.FlagsFit (cpu : CPU6502) (a : Address) : InstructionBody → Prop
  | .ldaAbsolute => cpu.P.Describes (cpu.memory.byteAt a)
  | .pla | .plx | .ply => cpu.P.Describes cpu.top
  | .tax | .tay => cpu.P.Describes cpu.A
  | .txa => cpu.P.Describes cpu.X
  | .tya => cpu.P.Describes cpu.Y
  | .tsx => cpu.P.Describes cpu.S
  | .lsrA => cpu.P.getBit .zero = decide (cpu.A ≤ 1)
  | .lsrMem => cpu.P.getBit .zero = decide (cpu.memory.byteAt a ≤ 1)
  | _ => True

private theorem shiftRight_msb (b : Byte) : (b >>> 1).msb = false := by
  revert b; decide

private theorem shiftRight_eq_zero (b : Byte) : (b >>> 1 == 0) = decide (b ≤ 1) := by
  revert b; decide

/-- The flags of a right shift. -/
theorem PSR.describes_shift (p : PSR) (carry : Bool) (b : Byte) :
    ((p.setBit .carry carry).setBit .negative false).Describes (b >>> 1) ↔
      p.getBit .zero = decide (b ≤ 1) := by
  rw [Describes, getBit_setBit_of_ne _ (by simp), getBit_setBit_of_ne _ (by simp),
    getBit_setBit_self _ (by simp), shiftRight_msb, shiftRight_eq_zero, and_iff_left rfl]

theorem describes_execute (body : InstructionBody) (a : Address) {cpu : CPU6502}
    (hs : maxMemory ≤ cpu.memory.size) {destination : Destination}
    (hd : body.destination = some destination) :
    ((body.execute a).run cpu).state.P.Describes
        (destination.read a ((body.execute a).run cpu).state) ↔ body.FlagsFit cpu a := by
  cases body <;> simp [InstructionBody.destination] at hd <;> subst hd <;>
    simp [InstructionBody.execute, hs, InstructionBody.FlagsFit, Destination.read,
      PSR.describes_updateFlags, PSR.describes_shift, GPMemory.byteAt_updated]

/-- After a step that delivers a byte, `Z` and `N` describe it exactly when its body
writes them from it or finds them so. -/
theorem result_flags (isa : CPU6502ISA) (cpu : CPU6502) (instruction : Instruction)
    (destination : Destination) (a : Address) (hs : maxMemory ≤ cpu.memory.size)
    (find : isa.find (opcodeAt cpu) = some instruction)
    (hd : instruction.destination = some destination)
    (ha : ((decode 0 instruction.mode).run cpu).result = .ok a) :
    ((step isa).run cpu).state.P.Describes (destination.read a ((step isa).run cpu).state) ↔
      instruction.execute.FlagsFit cpu a := by
  rcases step_of_find hs find with ⟨err, t, events, inside, run, hstep⟩ | ⟨outside, -, -⟩
  · obtain rfl : effectiveAddress 0 cpu instruction.mode = a :=
      Except.ok.inj ((result_decode 0 hs inside).symm.trans ha)
    have hbody := describes_execute instruction.execute
      (effectiveAddress 0 cpu instruction.mode) hs
      ((destination_of_mem (isa.find_mem find)).trans hd)
    rw [run] at hbody
    rw [← hbody, hstep]
    cases destination <;> simp [Destination.read]
  · rw [result_decode_outside 0 hs outside] at ha
    cases ha

/-- `LDX #$80`. -/
def loadsNegative : CPU6502 := CPU6502.initial (.ofProgram [0xA2, 0x80]) false

theorem result_flags_loadsNegative :
    ((step isa).run loadsNegative).state.P.Describes ((step isa).run loadsNegative).state.X :=
  (result_flags isa loadsNegative ⟨.ldx, .immediate, .ldx⟩ .indexX 1 le_rfl rfl rfl rfl).mpr
    trivial

/-- `LDA $8000` of a zero, with `Z` clear as the constructor leaves it. -/
def loadsZero : CPU6502 := CPU6502.initial (.ofProgram [0xAD, 0x00, 0x80]) false

theorem loadsZero_leaves_flags :
    ¬∀ cpu : CPU6502, maxMemory ≤ cpu.memory.size → ∀ instruction,
      isa.find (opcodeAt cpu) = some instruction → ∀ destination,
        instruction.destination = some destination → ∀ a,
          ((decode 0 instruction.mode).run cpu).result = .ok a →
            ((step isa).run cpu).state.P.Describes
              (destination.read a ((step isa).run cpu).state) := by
  intro h
  have hdescribes := h loadsZero le_rfl ⟨.lda, .absolute, .ldaAbsolute⟩ rfl .accumulator rfl
    0x8000 rfl
  have hnot : ¬((step isa).run loadsZero).state.P.Describes
      (Destination.accumulator.read 0x8000 ((step isa).run loadsZero).state) := by
    decide +kernel
  exact hnot hdescribes

end Sim6502
