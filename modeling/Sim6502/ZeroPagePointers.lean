import Sim6502.StepAnalysis

/-!
# Pointers in page zero

Three modes find their operand through a pointer that a byte names. Its first cell
is in page zero. The second is one address further, so the pointer at `0xFF` takes
its high byte from page one. The instructions of the mode without index should
agree with those of the mode that adds `Y`, at `Y = 0`; most of their entries are
plain page-zero instructions instead.
-/
namespace Sim6502
open EventComputation CPU6502

/-! ## The address behind a pointer -/

/-- The byte that names the pointer, in the modes that have one. -/
def zeroPagePointer (cpu : CPU6502) : AddressingMode → Option Byte
  | .zeroPageIndirect | .zeroPageIndirectIndexedY => some (operandByte cpu)
  | .zeroPageIndexedIndirect => some (operandByte cpu + cpu.X)
  | _ => none

/-- What is added to the address behind the pointer. -/
def pointerIndex (cpu : CPU6502) : AddressingMode → Byte
  | .zeroPageIndirectIndexedY => cpu.Y
  | _ => 0

/-- The address behind a pointer whose two bytes both lie in page zero. -/
def behindPointer (cpu : CPU6502) (p index : Byte) : ℕ :=
  ((cpu.memory.byteAt (.ofByte p)).toNat + 256 * (cpu.memory.byteAt (.ofByte (p + 1))).toNat +
    index.toNat) % 0x10000

section Pointer
variable {cpu : CPU6502} {mode : AddressingMode} {p : Byte}

theorem effectiveAddress_pointer (h : zeroPagePointer cpu mode = some p) :
    effectiveAddress 0 cpu mode =
      pointerAt cpu (.ofByte p) + (pointerIndex cpu mode).setWidth 16 := by
  cases mode <;> simp [zeroPagePointer] at h <;> subst h <;>
    simp [effectiveAddress, pointerIndex]

theorem mode_ne_of_zeroPagePointer (h : zeroPagePointer cpu mode = some p) :
    mode ≠ .absoluteIndirect := by
  rintro rfl
  cases h

/-- The address after the pointer is in page zero but for the last pointer. -/
theorem ofByte_add_one (p : Byte) :
    Address.ofByte p + 1 = if p = 0xFF then 0x0100 else Address.ofByte (p + 1) := by
  revert p
  decide

/-- Only the high byte can differ, and it counts in full. -/
theorem toNat_pointerAt_iff (cpu : CPU6502) (p index : Byte) :
    (pointerAt cpu (.ofByte p) + index.setWidth 16).toNat = behindPointer cpu p index ↔
      cpu.memory.byteAt (.ofByte p + 1) = cpu.memory.byteAt (.ofByte (p + 1)) := by
  have hread := (cpu.memory.byteAt (.ofByte p + 1)).isLt
  have hwrapped := (cpu.memory.byteAt (.ofByte (p + 1))).isLt
  rw [pointerAt, behindPointer, BitVec.toNat_add, Address.toNat_ofBytes, BitVec.toNat_setWidth,
    ← BitVec.toNat_inj]
  omega

end Pointer

/-- The pointer stays in page zero unless it is the last one and page one holds another
byte at its start than page zero. -/
theorem pointer_in_page_zero (cpu : CPU6502) (mode : AddressingMode) (p : Byte)
    (hs : maxMemory ≤ cpu.memory.size) (hp : zeroPagePointer cpu mode = some p) :
    (∃ a, ((decode 0 mode).run cpu).result = .ok a ∧
        a.toNat = behindPointer cpu p (pointerIndex cpu mode)) ↔
      (p = 0xFF → cpu.memory.byteAt 0x0100 = cpu.memory.byteAt 0) := by
  have hdecode := result_decode 0 hs
    (pointerInside_of_ne cpu (mode_ne_of_zeroPagePointer hp))
  have hsame : (∃ a, ((decode 0 mode).run cpu).result = .ok a ∧
      a.toNat = behindPointer cpu p (pointerIndex cpu mode)) ↔
        (effectiveAddress 0 cpu mode).toNat = behindPointer cpu p (pointerIndex cpu mode) := by
    rw [hdecode]
    simp
  rw [hsame, effectiveAddress_pointer hp, toNat_pointerAt_iff, ofByte_add_one]
  by_cases hlast : p = 0xFF
  · subst hlast
    simp only [if_true, true_imp_iff]
    exact Iff.rfl
  · rw [if_neg hlast]
    exact iff_of_true rfl fun h => absurd h hlast

/-- `LDA ($10),Y` with a pointer in the middle of page zero. -/
def loadsIndexed : CPU6502 :=
  { CPU6502.initial (.ofProgram [0xB1, 0x10]) false with Y := 0x20 }

theorem pointer_in_page_zero_loadsIndexed :
    ∃ a, ((decode 0 .zeroPageIndirectIndexedY).run loadsIndexed).result = .ok a ∧
      a.toNat = behindPointer loadsIndexed 0x10 0x20 :=
  (pointer_in_page_zero loadsIndexed .zeroPageIndirectIndexedY 0x10 le_rfl rfl).mpr (by decide)

/-- `LDA ($FF),Y` with a program that starts at address zero. -/
def loadsThroughLast : CPU6502 := CPU6502.initial (.ofProgram [0xB1, 0xFF]) false

theorem loadsThroughLast_leaves_page_zero :
    ¬∀ cpu : CPU6502, maxMemory ≤ cpu.memory.size → ∀ instruction,
      isa.find (opcodeAt cpu) = some instruction → ∀ p,
        zeroPagePointer cpu instruction.mode = some p →
          ∃ a, ((decode 0 instruction.mode).run cpu).result = .ok a ∧
            a.toNat = behindPointer cpu p (pointerIndex cpu instruction.mode) := by
  intro h
  obtain ⟨a, ha, hvalue⟩ := h loadsThroughLast le_rfl ⟨.lda, .zeroPageIndirectIndexedY, .lda⟩ rfl
    0xFF rfl
  have hzero : ((decode 0 .zeroPageIndirectIndexedY).run loadsThroughLast).result = .ok 0 := by
    decide +kernel
  obtain rfl : 0 = a := Except.ok.inj (hzero.symm.trans ha)
  revert hvalue
  decide +kernel

/-! ## The mode without index -/

/-- The instructions that have the two modes. -/
inductive PointerOperation where
  | ora | and | eor | adc | sta | lda | cmp | sbc
  deriving DecidableEq

namespace PointerOperation

/-- `(zp)`. -/
def plainOpcode : PointerOperation → Byte
  | .ora => 0x12
  | .and => 0x32
  | .eor => 0x52
  | .adc => 0x72
  | .sta => 0x92
  | .lda => 0xB2
  | .cmp => 0xD2
  | .sbc => 0xF2

/-- `(zp),Y`. -/
def indexedOpcode : PointerOperation → Byte
  | .ora => 0x11
  | .and => 0x31
  | .eor => 0x51
  | .adc => 0x71
  | .sta => 0x91
  | .lda => 0xB1
  | .cmp => 0xD1
  | .sbc => 0xF1

/-- The entry of `(zp)`: six of them are page-zero instructions, and `CMP` has a body of
its own. -/
def plainInstruction : PointerOperation → Instruction
  | .ora => ⟨.ora, .zeroPage, .ora⟩
  | .and => ⟨.and, .zeroPage, .and⟩
  | .eor => ⟨.eor, .zeroPage, .eor⟩
  | .adc => ⟨.adc, .zeroPage, .adc⟩
  | .sta => ⟨.sta, .zeroPage, .sta⟩
  | .lda => ⟨.lda, .zeroPage, .lda⟩
  | .cmp => ⟨.cmp, .zeroPageIndirect, .cmpZeroPageIndirect⟩
  | .sbc => ⟨.sbc, .zeroPageIndirect, .sbc⟩

def indexedInstruction : PointerOperation → Instruction
  | .ora => ⟨.ora, .zeroPageIndirectIndexedY, .ora⟩
  | .and => ⟨.and, .zeroPageIndirectIndexedY, .and⟩
  | .eor => ⟨.eor, .zeroPageIndirectIndexedY, .eor⟩
  | .adc => ⟨.adc, .zeroPageIndirectIndexedY, .adc⟩
  | .sta => ⟨.sta, .zeroPageIndirectIndexedY, .sta⟩
  | .lda => ⟨.lda, .zeroPageIndirectIndexedY, .lda⟩
  | .cmp => ⟨.cmp, .zeroPageIndirectIndexedY, .cmp⟩
  | .sbc => ⟨.sbc, .zeroPageIndirectIndexedY, .sbc⟩

theorem find_plain (isa : CPU6502ISA) (op : PointerOperation) :
    isa.find op.plainOpcode = some op.plainInstruction := by
  cases op <;> exact isa.find_eq rfl

theorem find_indexed (isa : CPU6502ISA) (op : PointerOperation) :
    isa.find op.indexedOpcode = some op.indexedInstruction := by
  cases op <;> exact isa.find_eq rfl

end PointerOperation

namespace PointerOperation

/-- What an operation that reads makes of the accumulator and the flags. -/
def effect (A : Byte) (P : PSR) (m : Byte) : PointerOperation → Byte × PSR
  | .ora => (A ||| m, P.updateFlags (A ||| m))
  | .and => (A &&& m, P.updateFlags (A &&& m))
  | .eor => (A ^^^ m, P.updateFlags (A ^^^ m))
  | .adc => ((adcResult A m (P.getBit .carry)).value,
      ((P.setBit .carry (adcResult A m (P.getBit .carry)).carry).setBit .overflow
        (adcOverflow A m (adcResult A m (P.getBit .carry)).value)).updateFlags
        (adcResult A m (P.getBit .carry)).value)
  | .sta => (A, P)
  | .lda => (m, P.updateFlags m)
  | .cmp => (A, P.cmp A m)
  | .sbc => (sbcResult A m (!P.getBit .carry),
      ((P.setBit .carry (sbcCarry A m (!P.getBit .carry))).setBit .overflow
        (sbcOverflow A m (sbcResult A m (!P.getBit .carry)))).updateFlags
        (sbcResult A m (!P.getBit .carry)))

/-- The same for the body of the entry `(zp)`. -/
def plainEffect (A : Byte) (P : PSR) (m : Byte) : PointerOperation → Byte × PSR
  | .cmp => (A, P.compare A m)
  | op => op.effect A P m

end PointerOperation

/-- The address in the pointer of the instruction at `PC`. -/
def pointedTo (cpu : CPU6502) : Address := pointerAt cpu (.ofByte (operandByte cpu))

/-- The opcode is neither a byte of the pointer nor the operand. -/
structure OpcodeApart (cpu : CPU6502) : Prop where
  low : cpu.PC ≠ .ofByte (operandByte cpu)
  high : cpu.PC ≠ .ofByte (operandByte cpu) + 1
  operand : cpu.PC ≠ pointedTo cpu

theorem pointerAt_withOpcode {cpu : CPU6502} (apart : OpcodeApart cpu) (opcode : Byte) :
    pointerAt (withOpcode cpu opcode) (.ofByte (operandByte cpu)) = pointedTo cpu := by
  rw [pointerAt, byteAt_withOpcode opcode apart.low, byteAt_withOpcode opcode apart.high]
  rfl

namespace PointerOperation
variable (isa : CPU6502ISA) {cpu : CPU6502} (op : PointerOperation)

/-- The address that the entry `(zp)` works on. -/
def plainAddress (cpu : CPU6502) : PointerOperation → Address
  | .cmp | .sbc => pointedTo cpu
  | _ => .ofByte (operandByte cpu)

theorem effectiveAddress_plain (apart : OpcodeApart cpu) (opcode : Byte) :
    effectiveAddress 0 (withOpcode cpu opcode) op.plainInstruction.mode = op.plainAddress cpu := by
  cases op <;> simp [plainInstruction, plainAddress, effectiveAddress, pointerAt_withOpcode apart]

theorem effectiveAddress_indexed (apart : OpcodeApart cpu) (hY : cpu.Y = 0) (opcode : Byte) :
    effectiveAddress 0 (withOpcode cpu opcode) op.indexedInstruction.mode = pointedTo cpu := by
  have hzero : (withOpcode cpu opcode).Y = 0 := hY
  cases op <;>
    simp [indexedInstruction, effectiveAddress, pointerAt_withOpcode apart, hzero]

theorem plainAddress_apart (apart : OpcodeApart cpu) : cpu.PC ≠ op.plainAddress cpu := by
  cases op <;> first | exact apart.low | exact apart.operand

section Body
variable (h : op ≠ .sta) (a : Address) {s : CPU6502} (hs : maxMemory ≤ s.memory.size)
include h hs

theorem run_plain : (op.plainInstruction.execute.execute a).run s =
    ⟨.ok .ok, { s with
      A := (op.plainEffect s.A s.P (s.memory.byteAt a)).1
      P := (op.plainEffect s.A s.P (s.memory.byteAt a)).2 }, [.read a.toNat]⟩ := by
  cases op <;> first
    | exact absurd rfl h
    | simp [plainInstruction, InstructionBody.execute, hs, plainEffect, effect]

theorem run_indexed : (op.indexedInstruction.execute.execute a).run s =
    ⟨.ok .ok, { s with
      A := (op.effect s.A s.P (s.memory.byteAt a)).1
      P := (op.effect s.A s.P (s.memory.byteAt a)).2 }, [.read a.toNat]⟩ := by
  cases op <;> first
    | exact absurd rfl h
    | simp [indexedInstruction, InstructionBody.execute, hs, effect]

end Body

/-- What an instruction of two bytes that only reads leaves behind. -/
def afterReading (cpu : CPU6502) (opcode : Byte) (result : Byte × PSR) : CPU6502 :=
  { withOpcode cpu opcode with A := result.1, P := result.2, PC := cpu.PC + 2 }

/-- What a store of two bytes leaves behind. -/
def afterStoring (cpu : CPU6502) (opcode : Byte) (a : Address) : CPU6502 :=
  { withOpcode cpu opcode with
    memory := (withOpcode cpu opcode).memory.updated a cpu.A
    PC := cpu.PC + 2 }

section Step
variable (hs : maxMemory ≤ cpu.memory.size) (apart : OpcodeApart cpu)
include hs apart

theorem state_plain (h : op ≠ .sta) :
    ((step isa).run (withOpcode cpu op.plainOpcode)).state =
      afterReading cpu op.plainOpcode
        (op.plainEffect cpu.A cpu.P (cpu.memory.byteAt (op.plainAddress cpu))) := by
  have hfull : maxMemory ≤ (withOpcode cpu op.plainOpcode).memory.size := hs
  have find : isa.find (opcodeAt (withOpcode cpu op.plainOpcode)) = some op.plainInstruction := by
    rw [opcodeAt_withOpcode, find_plain]
  have hmode : op.plainInstruction.mode ≠ .absoluteIndirect := by
    cases op <;> simp [plainInstruction]
  have hbytes : op.plainInstruction.bytes = 2 := by cases op <;> rfl
  have hread := byteAt_withOpcode op.plainOpcode (op.plainAddress_apart apart)
  rw [state_step_of_find hfull find hmode (run_plain op h _ hfull),
    op.effectiveAddress_plain apart, hread, hbytes]
  rfl

theorem state_indexed (hY : cpu.Y = 0) (h : op ≠ .sta) :
    ((step isa).run (withOpcode cpu op.indexedOpcode)).state =
      afterReading cpu op.indexedOpcode
        (op.effect cpu.A cpu.P (cpu.memory.byteAt (pointedTo cpu))) := by
  have hfull : maxMemory ≤ (withOpcode cpu op.indexedOpcode).memory.size := hs
  have find : isa.find (opcodeAt (withOpcode cpu op.indexedOpcode)) =
      some op.indexedInstruction := by rw [opcodeAt_withOpcode, find_indexed]
  have hmode : op.indexedInstruction.mode ≠ .absoluteIndirect := by
    cases op <;> simp [indexedInstruction]
  have hbytes : op.indexedInstruction.bytes = 2 := by cases op <;> rfl
  have hread := byteAt_withOpcode op.indexedOpcode apart.operand
  rw [state_step_of_find hfull find hmode (run_indexed op h _ hfull),
    op.effectiveAddress_indexed apart hY, hread, hbytes]
  rfl

omit apart in
/-- A store through either entry. -/
theorem state_store {opcode : Byte} {mode : AddressingMode}
    (find : isa.find opcode = some ⟨.sta, mode, .sta⟩) (hmode : mode ≠ .absoluteIndirect)
    (hbytes : bytesForAddressingMode mode = 2) :
    ((step isa).run (withOpcode cpu opcode)).state =
      afterStoring cpu opcode (effectiveAddress 0 (withOpcode cpu opcode) mode) := by
  have hfull : maxMemory ≤ (withOpcode cpu opcode).memory.size := hs
  have hfind : isa.find (opcodeAt (withOpcode cpu opcode)) = some ⟨.sta, mode, .sta⟩ := by
    rw [opcodeAt_withOpcode, find]
  rw [state_step_of_find hfull hfind hmode (Execute.run_sta _ _ hfull), Instruction.bytes, hbytes]
  rfl

end Step

/-- Two reading steps agree when they deliver the same accumulator and flags. -/
theorem agreeExcept_afterReading (opcode opcode' : Byte) (r r' : Byte × PSR) :
    AgreeExcept cpu.PC (afterReading cpu opcode r) (afterReading cpu opcode' r') ↔ r = r' := by
  constructor
  · intro h
    have hregisters := h.registers
    simp only [registers, afterReading, Registers.mk.injEq] at hregisters
    exact Prod.ext hregisters.1 hregisters.2.2.2.2.1
  · rintro rfl
    refine ⟨rfl, rfl, fun index hindex => ?_⟩
    exact (cpu.memory.cell_updated_of_ne hindex opcode).trans
      (cpu.memory.cell_updated_of_ne hindex opcode').symm

/-- Two stores agree when they meet the same cell, or when both cells hold the
accumulator already. -/
theorem agreeExcept_afterStoring (opcode opcode' : Byte) {a b : Address} (ha : cpu.PC ≠ a)
    (hb : cpu.PC ≠ b) :
    AgreeExcept cpu.PC (afterStoring cpu opcode a) (afterStoring cpu opcode' b) ↔
      a = b ∨ cpu.memory.byteAt a = cpu.A ∧ cpu.memory.byteAt b = cpu.A := by
  have hcell (o : Byte) (c : Address) {index : ℕ} (h : index ≠ cpu.PC.toNat) :
      (afterStoring cpu o c).memory.cell index =
        if index = c.toNat then cpu.A else cpu.memory.cell index := by
    split_ifs with hc
    · rw [hc]
      exact GPMemory.cell_updated_self _ c cpu.A
    · exact (GPMemory.cell_updated_of_ne _ hc cpu.A).trans
        (cpu.memory.cell_updated_of_ne h o)
  have hne {d : Address} (hd : cpu.PC ≠ d) : d.toNat ≠ cpu.PC.toNat :=
    fun h => hd (BitVec.eq_of_toNat_eq h.symm)
  constructor
  · intro h
    by_cases hab : a = b
    · exact .inl hab
    · have hab' : a.toNat ≠ b.toNat := fun h => hab (BitVec.eq_of_toNat_eq h)
      have hleft := h.cell _ (hne ha)
      have hright := h.cell _ (hne hb)
      rw [hcell opcode a (hne ha), hcell opcode' b (hne ha), if_pos rfl, if_neg hab'] at hleft
      rw [hcell opcode a (hne hb), hcell opcode' b (hne hb), if_pos rfl,
        if_neg (Ne.symm hab')] at hright
      exact .inr ⟨hleft.symm, hright⟩
  · intro h
    refine ⟨rfl, rfl, fun index hindex => ?_⟩
    rw [hcell opcode a hindex, hcell opcode' b hindex]
    rcases h with rfl | ⟨hleft, hright⟩
    · rfl
    · split_ifs with h₁ h₂ h₂
      · rfl
      · rw [h₁]
        exact hleft.symm
      · rw [h₂]
        exact hright
      · rfl

/-- When the two entries of an operation do the same: always for `SBC` and never for
`CMP`; for the page-zero entries when the cell of the pointer serves as well as the
operand it points to. -/
def Coincides (cpu : CPU6502) : PointerOperation → Prop
  | .ora => cpu.A ||| cpu.memory.byteAt (.ofByte (operandByte cpu)) =
      cpu.A ||| cpu.memory.byteAt (pointedTo cpu)
  | .and => cpu.A &&& cpu.memory.byteAt (.ofByte (operandByte cpu)) =
      cpu.A &&& cpu.memory.byteAt (pointedTo cpu)
  | .eor | .adc | .lda =>
    cpu.memory.byteAt (.ofByte (operandByte cpu)) = cpu.memory.byteAt (pointedTo cpu)
  | .sta => .ofByte (operandByte cpu) = pointedTo cpu ∨
      cpu.memory.byteAt (.ofByte (operandByte cpu)) = cpu.A ∧
        cpu.memory.byteAt (pointedTo cpu) = cpu.A
  | .cmp => False
  | .sbc => True

/-- A sum tells the summand. -/
theorem adcResult_inj {a m m' : Byte} {c : Bool}
    (h : (adcResult a m c).value = (adcResult a m' c).value) : m = m' := by
  rw [adcResult, adcResult, resultAddInt_value, resultAddInt_value, byteAddByte_value,
    byteAddByte_value] at h
  bv_omega

/-- The two comparison bodies never agree on the carry. -/
theorem compare_ne_cmp (p : PSR) (a m : Byte) : p.compare a m ≠ p.cmp a m := by
  intro h
  have hcarry := congrArg (fun q => q.getBit .carry) h
  have hsub : (byteSubByte a m).carry = decide (a < m) := rfl
  simp only [PSR.compare, PSR.cmp,
    PSR.getBit_setBit_of_ne _ (show PsrBit.negative ≠ .carry by simp),
    PSR.getBit_setBit_of_ne _ (show PsrBit.zero ≠ .carry by simp),
    PSR.getBit_setBit_self _ (show PsrBit.carry ≠ .unused by simp), hsub] at hcarry
  simp only [decide_eq_decide] at hcarry
  have hlt : a < m ↔ ¬m ≤ a := BitVec.not_le.symm
  tauto

/-- When two reading steps deliver the same. -/
theorem effect_eq_iff (h : op ≠ .sta) :
    op.plainEffect cpu.A cpu.P (cpu.memory.byteAt (op.plainAddress cpu)) =
        op.effect cpu.A cpu.P (cpu.memory.byteAt (pointedTo cpu)) ↔ op.Coincides cpu := by
  cases op with
  | ora | and =>
    simp only [plainEffect, effect, plainAddress, Coincides, Prod.mk.injEq, and_iff_left_iff_imp]
    exact fun heq => by rw [heq]
  | eor =>
    simp only [plainEffect, effect, plainAddress, Coincides, Prod.mk.injEq]
    exact ⟨fun heq => (BitVec.xor_right_inj _).mp heq.1, fun heq => by simp [heq]⟩
  | adc =>
    simp only [plainEffect, effect, plainAddress, Coincides, Prod.mk.injEq]
    exact ⟨fun heq => adcResult_inj heq.1, fun heq => by simp [heq]⟩
  | sta => exact absurd rfl h
  | lda =>
    simp only [plainEffect, effect, plainAddress, Coincides, Prod.mk.injEq, and_iff_left_iff_imp]
    exact fun heq => by rw [heq]
  | cmp =>
    simp only [plainEffect, effect, plainAddress, Coincides, Prod.mk.injEq, true_and, iff_false]
    exact compare_ne_cmp _ _ _
  | sbc => exact iff_of_true rfl trivial

end PointerOperation

/-- `(zp)` agrees with `(zp),Y` at `Y = 0` exactly where the entries coincide. -/
theorem plain_agrees_with_indexed (isa : CPU6502ISA) (cpu : CPU6502) (op : PointerOperation)
    (hs : maxMemory ≤ cpu.memory.size) (hY : cpu.Y = 0) (apart : OpcodeApart cpu) :
    AgreeExcept cpu.PC ((step isa).run (withOpcode cpu op.plainOpcode)).state
        ((step isa).run (withOpcode cpu op.indexedOpcode)).state ↔ op.Coincides cpu := by
  by_cases hstore : op = .sta
  · subst hstore
    have hplain := PointerOperation.state_store isa hs
      (PointerOperation.find_plain isa .sta) (by simp) rfl
    have hindexed := PointerOperation.state_store isa hs
      (PointerOperation.find_indexed isa .sta) (by simp) rfl
    have hcell (opcode : Byte) : effectiveAddress 0 (withOpcode cpu opcode) .zeroPage =
        .ofByte (operandByte cpu) := PointerOperation.effectiveAddress_plain .sta apart opcode
    have hoperand (opcode : Byte) :
        effectiveAddress 0 (withOpcode cpu opcode) .zeroPageIndirectIndexedY = pointedTo cpu :=
      PointerOperation.effectiveAddress_indexed .sta apart hY opcode
    rw [hplain, hindexed, hcell, hoperand]
    exact PointerOperation.agreeExcept_afterStoring _ _ apart.low apart.operand
  · rw [op.state_plain isa hs apart hstore, op.state_indexed isa hs apart hY hstore,
      PointerOperation.agreeExcept_afterReading, op.effect_eq_iff hstore]

/-- Code for a pointer at `0x10` that holds the address `0x0040`. -/
def readsPointer : CPU6502 :=
  CPU6502.initial ((GPMemory.ofProgram [0xB2, 0x10]).updated 0x10 0x40) false

theorem opcodeApart_readsPointer : OpcodeApart readsPointer :=
  ⟨by decide, by decide, by decide⟩

theorem plain_agrees_with_indexed_readsPointer :
    AgreeExcept 0 ((step isa).run (withOpcode readsPointer 0xF2)).state
      ((step isa).run (withOpcode readsPointer 0xF1)).state :=
  (plain_agrees_with_indexed isa readsPointer .sbc le_rfl rfl opcodeApart_readsPointer).mpr
    trivial

theorem readsPointer_loads_pointer :
    ¬∀ cpu : CPU6502, maxMemory ≤ cpu.memory.size → cpu.Y = 0 → OpcodeApart cpu →
      ∀ op : PointerOperation,
        AgreeExcept cpu.PC ((step isa).run (withOpcode cpu op.plainOpcode)).state
          ((step isa).run (withOpcode cpu op.indexedOpcode)).state := by
  intro h
  have hagree := h readsPointer le_rfl rfl opcodeApart_readsPointer .lda
  have hplain : ((step isa).run (withOpcode readsPointer 0xB2)).state.A = 0x40 := by
    decide +kernel
  have hindexed : ((step isa).run (withOpcode readsPointer 0xB1)).state.A = 0 := by
    decide +kernel
  have hA := congrArg Registers.A hagree.registers
  revert hA
  simp only [registers, PointerOperation.plainOpcode, PointerOperation.indexedOpcode]
  rw [hplain, hindexed]
  decide

end Sim6502
