import Sim6502.FlagDiscipline

/-!
# The comparison instructions

Three bodies implement one law. The helper `CMP` obeys it. The others take the
borrow for the carry and `result.value >= 0` for equality; the immediate ones
compare moreover with the low byte of the operand's address.
-/
namespace Sim6502
open EventComputation CPU6502

inductive ComparedRegister where
  | A | X | Y
  deriving DecidableEq

def ComparedRegister.read (cpu : CPU6502) : ComparedRegister → Byte
  | .A => cpu.A
  | .X => cpu.X
  | .Y => cpu.Y

def Mnemonic.comparedRegister : Mnemonic → Option ComparedRegister
  | .cmp => some .A
  | .cpx => some .X
  | .cpy => some .Y
  | _ => none

def InstructionBody.comparedRegister : InstructionBody → Option ComparedRegister
  | .cmp | .cmpZeroPageIndirect => some .A
  | .cpx | .cpxImmediate => some .X
  | .cpy | .cpyImmediate => some .Y
  | _ => none

theorem comparedRegister_of_mem {opcode : Byte} {instruction : Instruction}
    (h : (opcode, instruction) ∈ isaEntries) :
    instruction.execute.comparedRegister = instruction.name.comparedRegister := by
  have hall : ∀ e ∈ isaEntries,
      e.2.execute.comparedRegister = e.2.name.comparedRegister := by decide +kernel
  exact hall _ h

/-! ## The law -/

/-- The three flags tell the order of the register and the operand. -/
structure PSR.Compares (p : PSR) (register operand : Byte) : Prop where
  carry : p.getBit .carry = decide (operand ≤ register)
  zero : p.getBit .zero = decide (register = operand)
  negative : p.getBit .negative = (register - operand).msb

/-- Nothing but the three flags and `PC` changes. -/
structure ComparisonFrame (s t : CPU6502) : Prop where
  A : t.A = s.A
  X : t.X = s.X
  Y : t.Y = s.Y
  S : t.S = s.S
  memory : t.memory = s.memory
  flags : ∀ bit ∉ [PsrBit.carry, .zero, .negative], t.P.stored bit = s.P.stored bit

/-- The states before and after a comparison. -/
def CompareLaw (s t : CPU6502) (register operand : Byte) : Prop :=
  t.P.Compares register operand ∧ ComparisonFrame s t

section Flags
variable (p : PSR) (register operand : Byte)

/-- The three flags read back from the order they are written in. -/
theorem compares_iff (carry zero negative : Bool) :
    (((p.setBit .carry carry).setBit .zero zero).setBit .negative negative).Compares
        register operand ↔
      carry = decide (operand ≤ register) ∧ zero = decide (register = operand) ∧
        negative = (register - operand).msb := by
  constructor
  · rintro ⟨hcarry, hzero, hnegative⟩
    simp at hcarry hzero hnegative
    exact ⟨by simpa using hcarry, by simpa using hzero, hnegative⟩
  · rintro ⟨rfl, rfl, rfl⟩
    constructor <;> simp

theorem byteSubByte_negative (a b : Byte) : (byteSubByte a b).negative = (a - b).msb := by
  rw [← byteSubByte_value]
  exact isNegative_eq_msb _

theorem compares_cmp : (p.cmp register operand).Compares register operand := by
  rw [PSR.cmp, compares_iff]
  refine ⟨rfl, ?_, byteSubByte_negative register operand⟩
  exact Bool.beq_eq_decide_eq register operand

/-- A body that compares with `value` obeys the law for `operand` in one case only:
equality, with a borrow from `value` that leaves bit 7 clear. -/
theorem compares_compare (value : Byte) :
    (p.compare register value).Compares register operand ↔
      register = operand ∧ register < value ∧ (register - value).msb = false := by
  have hzero : decide (zeroByte ≤ (byteSubByte register value).value) = true :=
    decide_eq_true (Nat.zero_le _)
  have hcarry : (byteSubByte register value).carry = decide (register < value) := rfl
  rw [PSR.compare, compares_iff, hzero, hcarry, byteSubByte_negative]
  constructor
  · rintro ⟨hc, hz, hn⟩
    obtain rfl : register = operand := by simpa using hz
    exact ⟨rfl, by simpa using hc, by simpa using hn⟩
  · rintro ⟨rfl, hlt, hn⟩
    simp [hlt, hn]

end Flags

/-! ## The instructions -/

/-- When a body obeys the law: the helper `CMP` always; the immediate bodies when the
register equals the operand, is below the low byte of the operand's address, and the
difference to that byte has bit 7 clear; the others never. -/
def InstructionBody.CompareFits (cpu : CPU6502) (a : Address) : InstructionBody → Prop
  | .cmp => True
  | .cpxImmediate =>
    cpu.X = cpu.memory.byteAt a ∧ cpu.X < a.toByte ∧ (cpu.X - a.toByte).msb = false
  | .cpyImmediate =>
    cpu.Y = cpu.memory.byteAt a ∧ cpu.Y < a.toByte ∧ (cpu.Y - a.toByte).msb = false
  | _ => False

/-- A byte that is compared with itself is never below itself. -/
theorem not_compareFits_self (register operand : Byte) :
    ¬(register = operand ∧ register < operand ∧ (register - operand).msb = false) := by
  rintro ⟨rfl, hlt, -⟩
  exact Nat.lt_irrefl _ hlt

theorem comparisonFrame_execute (body : InstructionBody) (a : Address) {cpu : CPU6502}
    (hs : maxMemory ≤ cpu.memory.size) {register : ComparedRegister}
    (hr : body.comparedRegister = some register) :
    ComparisonFrame cpu ((body.execute a).run cpu).state := by
  have hwritten : body.flagsWritten = [.carry, .zero, .negative] := by
    cases body <;> first | rfl | cases hr
  refine ⟨?_, ?_, ?_, ?_, ?_, fun bit hbit => stored_execute body a hs (by rwa [hwritten])⟩ <;>
    cases body <;> simp [InstructionBody.comparedRegister] at hr <;>
      simp [InstructionBody.execute, hs]

theorem compareLaw_execute (body : InstructionBody) (a : Address) {cpu : CPU6502}
    (hs : maxMemory ≤ cpu.memory.size) {register : ComparedRegister}
    (hr : body.comparedRegister = some register) :
    CompareLaw cpu ((body.execute a).run cpu).state (register.read cpu) (cpu.memory.byteAt a) ↔
      body.CompareFits cpu a := by
  rw [CompareLaw, and_iff_left (comparisonFrame_execute body a hs hr)]
  cases body <;> simp [InstructionBody.comparedRegister] at hr <;> subst hr <;>
    simp only [InstructionBody.execute, Execute.run_cmp, Execute.run_cmpZeroPageIndirect,
      Execute.run_cpx, Execute.run_cpy, Execute.run_cpxImmediate, Execute.run_cpyImmediate, hs,
      ComparedRegister.read, InstructionBody.CompareFits, compares_compare, compares_cmp,
      not_compareFits_self]

/-- The law does not look at `PC`. -/
theorem compareLaw_advance {s t : CPU6502} {instruction : Instruction} {err : InstructionErr}
    {register operand : Byte} :
    CompareLaw s (advance instruction err t) register operand ↔
      CompareLaw s t register operand := by
  unfold advance
  split
  · rfl
  · constructor <;> rintro ⟨hflags, hA, hX, hY, hS, hmemory, hkept⟩ <;>
      exact ⟨hflags, hA, hX, hY, hS, hmemory, hkept⟩

/-- A comparison obeys the law exactly when its body is the helper, or an immediate one
in the single case where its two slips cancel. -/
theorem compare_law (isa : CPU6502ISA) (cpu : CPU6502) (instruction : Instruction)
    (register : ComparedRegister) (a : Address) (hs : maxMemory ≤ cpu.memory.size)
    (find : isa.find (opcodeAt cpu) = some instruction)
    (hr : instruction.name.comparedRegister = some register)
    (ha : ((decode 0 instruction.mode).run cpu).result = .ok a) :
    CompareLaw cpu ((step isa).run cpu).state (register.read cpu) (cpu.memory.byteAt a) ↔
      instruction.execute.CompareFits cpu a := by
  rcases step_of_find hs find with ⟨err, t, events, inside, run, hstep⟩ | ⟨outside, -, -⟩
  · obtain rfl : effectiveAddress 0 cpu instruction.mode = a :=
      Except.ok.inj ((result_decode 0 hs inside).symm.trans ha)
    have hbody := compareLaw_execute instruction.execute
      (effectiveAddress 0 cpu instruction.mode) hs
      ((comparedRegister_of_mem (isa.find_mem find)).trans hr)
    rw [run] at hbody
    rw [← hbody, hstep]
    exact compareLaw_advance
  · rw [result_decode_outside 0 hs outside] at ha
    cases ha

/-- `CMP #$30` with `A = 0x40`. -/
def comparesGreater : CPU6502 :=
  { CPU6502.initial (.ofProgram [0xC9, 0x30]) false with A := 0x40 }

theorem compare_law_comparesGreater :
    CompareLaw comparesGreater ((step isa).run comparesGreater).state 0x40 0x30 :=
  (compare_law isa comparesGreater ⟨.cmp, .immediate, .cmp⟩ .A 1 le_rfl rfl rfl rfl).mpr trivial

/-- `CPX $10` with a smaller operand. -/
def comparesX : CPU6502 :=
  { CPU6502.initial (.ofProgram [0xE4, 0x10]) false with X := 0x40 }

theorem comparesX_clears_carry :
    ¬∀ cpu : CPU6502, maxMemory ≤ cpu.memory.size → ∀ instruction,
      isa.find (opcodeAt cpu) = some instruction → ∀ register,
        instruction.name.comparedRegister = some register → ∀ a,
          ((decode 0 instruction.mode).run cpu).result = .ok a →
            CompareLaw cpu ((step isa).run cpu).state (register.read cpu)
              (cpu.memory.byteAt a) := by
  intro h
  have hlaw := h comparesX le_rfl ⟨.cpx, .zeroPage, .cpx⟩ rfl .X rfl 0x10 rfl
  have hcarry : ((step isa).run comparesX).state.P.getBit .carry = false := by decide +kernel
  have hset := hlaw.1.carry
  rw [hcarry] at hset
  revert hset
  decide +kernel

end Sim6502
