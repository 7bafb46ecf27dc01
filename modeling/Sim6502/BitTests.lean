import Sim6502.FlagDiscipline

/-!
# The bit test

`BIT` should tell about its operand in the same way wherever it finds it. Two
unrelated bodies implement it: the one of page zero takes `Z` from the operand
alone, the other one takes `N` from the conjunction with the accumulator and leaves
`V` as it was.
-/
namespace Sim6502
open EventComputation CPU6502

/-- Nothing but the flags and `PC` changes. -/
structure OnlyFlags (s t : CPU6502) : Prop where
  A : t.A = s.A
  X : t.X = s.X
  Y : t.Y = s.Y
  S : t.S = s.S
  memory : t.memory = s.memory

/-- The states before and after a bit test of `m`: `Z` tells about the conjunction with
the accumulator, `N` and `V` are two bits of `m`. The immediate form writes `Z` alone. -/
structure BitLaw (mode : AddressingMode) (s t : CPU6502) (m : Byte) : Prop where
  zero : t.P.getBit .zero = (s.A &&& m == 0)
  negative : t.P.getBit .negative =
    if mode = .immediate then s.P.getBit .negative else m.getLsbD 7
  overflow : t.P.getBit .overflow =
    if mode = .immediate then s.P.getBit .overflow else m.getLsbD 6
  flags : ∀ bit ∉ [PsrBit.zero, .negative, .overflow], t.P.stored bit = s.P.stored bit
  frame : OnlyFlags s t

/-- When an entry obeys the law: in page zero if the operand is zero whenever the
conjunction is; elsewhere if the conjunction keeps bit 7 and `V` is bit 6 already; with
an immediate operand if `N` is bit 7 of the conjunction already. -/
def Instruction.BitFits (instruction : Instruction) (cpu : CPU6502) (m : Byte) : Prop :=
  match instruction.mode with
  | .zeroPage | .zeroPageIndexedX => cpu.A &&& m = 0 → m = 0
  | .immediate => (cpu.A &&& m).getLsbD 7 = cpu.P.getBit .negative
  | _ => (cpu.A &&& m).getLsbD 7 = m.getLsbD 7 ∧ cpu.P.getBit .overflow = m.getLsbD 6

/-- The five entries and their two bodies. -/
theorem bit_of_mem {opcode : Byte} {instruction : Instruction}
    (h : (opcode, instruction) ∈ isaEntries) (hname : instruction.name = .bit) :
    (instruction.execute = .bitZeroPage ∧
        (instruction.mode = .zeroPage ∨ instruction.mode = .zeroPageIndexedX)) ∨
      instruction.execute = .bitAbsolute ∧ (instruction.mode = .immediate ∨
        instruction.mode = .absolute ∨ instruction.mode = .absoluteIndexedX) := by
  have hall : ∀ e ∈ isaEntries, e.2.name = .bit →
      (e.2.execute = .bitZeroPage ∧ (e.2.mode = .zeroPage ∨ e.2.mode = .zeroPageIndexedX)) ∨
        e.2.execute = .bitAbsolute ∧ (e.2.mode = .immediate ∨ e.2.mode = .absolute ∨
          e.2.mode = .absoluteIndexedX) := by decide +kernel
  exact hall _ h hname

section Body
variable {cpu : CPU6502} {body : InstructionBody} (a : Address)

/-- Neither body touches anything but three flags. -/
theorem frame_bit (h : body = .bitZeroPage ∨ body = .bitAbsolute)
    (hs : maxMemory ≤ cpu.memory.size) :
    (∀ bit ∉ [PsrBit.zero, .negative, .overflow],
        ((body.execute a).run cpu).state.P.stored bit = cpu.P.stored bit) ∧
      OnlyFlags cpu ((body.execute a).run cpu).state := by
  constructor
  · intro bit hbit
    apply stored_execute body a hs
    rcases h with rfl | rfl <;> simp at hbit <;> simp [InstructionBody.flagsWritten, hbit]
  · rcases h with rfl | rfl <;> constructor <;> simp [InstructionBody.execute, hs]

/-- What is left of the law are its three flags. -/
theorem bitLaw_iff (h : body = .bitZeroPage ∨ body = .bitAbsolute)
    (hs : maxMemory ≤ cpu.memory.size) (mode : AddressingMode) (m : Byte) :
    BitLaw mode cpu ((body.execute a).run cpu).state m ↔
      ((body.execute a).run cpu).state.P.getBit .zero = (cpu.A &&& m == 0) ∧
      ((body.execute a).run cpu).state.P.getBit .negative =
        (if mode = .immediate then cpu.P.getBit .negative else m.getLsbD 7) ∧
      ((body.execute a).run cpu).state.P.getBit .overflow =
        (if mode = .immediate then cpu.P.getBit .overflow else m.getLsbD 6) := by
  obtain ⟨hflags, hframe⟩ := frame_bit a h hs
  constructor
  · rintro ⟨hzero, hnegative, hoverflow, -, -⟩
    exact ⟨hzero, hnegative, hoverflow⟩
  · rintro ⟨hzero, hnegative, hoverflow⟩
    exact ⟨hzero, hnegative, hoverflow, hflags, hframe⟩

/-- The flags of the body of page zero. -/
theorem flags_bitZeroPage (hs : maxMemory ≤ cpu.memory.size) :
    ((Execute.bitZeroPage a).run cpu).state.P.getBit .zero = isZero (cpu.memory.byteAt a) ∧
      ((Execute.bitZeroPage a).run cpu).state.P.getBit .negative =
        (cpu.memory.byteAt a).getLsbD 7 ∧
      ((Execute.bitZeroPage a).run cpu).state.P.getBit .overflow =
        (cpu.memory.byteAt a).getLsbD 6 := by
  have hnegative : isNegative (cpu.memory.byteAt a) = (cpu.memory.byteAt a).getLsbD 7 :=
    isBitSet_eq_getLsbD _ 7
  have hoverflow : isBitSet (cpu.memory.byteAt a) 6 = (cpu.memory.byteAt a).getLsbD 6 :=
    isBitSet_eq_getLsbD _ 6
  rw [Execute.run_bitZeroPage cpu a hs]
  simp [hnegative, hoverflow]

/-- The flags of the other body. -/
theorem flags_bitAbsolute (hs : maxMemory ≤ cpu.memory.size) :
    ((Execute.bitAbsolute a).run cpu).state.P.getBit .zero =
        (cpu.A &&& cpu.memory.byteAt a == 0) ∧
      ((Execute.bitAbsolute a).run cpu).state.P.getBit .negative =
        (cpu.A &&& cpu.memory.byteAt a).getLsbD 7 ∧
      ((Execute.bitAbsolute a).run cpu).state.P.getBit .overflow = cpu.P.getBit .overflow := by
  have hnegative (b : Byte) : (b &&& msBitMask != zeroByte) = b.getLsbD 7 :=
    isBitSet_eq_getLsbD b 7
  rw [Execute.run_bitAbsolute cpu a hs]
  refine ⟨by simp [PSR.updateFlags, zeroByte], ?_, by simp [PSR.updateFlags]⟩
  rw [PSR.updateFlags, PSR.getBit_setBit_self _ (by simp), hnegative]

theorem zero_of_and_iff (b m : Byte) : isZero m = (b &&& m == 0) ↔ (b &&& m = 0 → m = 0) := by
  have hback : m = 0 → b &&& m = 0 := by
    rintro rfl
    simp
  rw [isZero, zeroByte, Bool.eq_iff_iff, beq_iff_eq, beq_iff_eq]
  exact ⟨Iff.mpr, fun h => ⟨hback, h⟩⟩

/-- A body obeys the law of its entry when its entry fits. -/
theorem bitLaw_execute {opcode : Byte} {instruction : Instruction}
    (h : (opcode, instruction) ∈ isaEntries) (hname : instruction.name = .bit)
    (hs : maxMemory ≤ cpu.memory.size) :
    BitLaw instruction.mode cpu ((instruction.execute.execute a).run cpu).state
        (cpu.memory.byteAt a) ↔ instruction.BitFits cpu (cpu.memory.byteAt a) := by
  rcases bit_of_mem h hname with ⟨hbody, hmode⟩ | ⟨hbody, hmode⟩
  · obtain ⟨hzero, hnegative, hoverflow⟩ := flags_bitZeroPage a hs
    rw [bitLaw_iff a (.inl hbody) hs, hbody, InstructionBody.execute, hzero, hnegative, hoverflow,
      zero_of_and_iff, Instruction.BitFits]
    rcases hmode with hmode | hmode <;> simp [hmode]
  · obtain ⟨hzero, hnegative, hoverflow⟩ := flags_bitAbsolute a hs
    rw [bitLaw_iff a (.inr hbody) hs, hbody, InstructionBody.execute, hzero, hnegative, hoverflow,
      Instruction.BitFits]
    rcases hmode with hmode | hmode | hmode <;> simp [hmode]

end Body

/-- The law does not look at `PC`. -/
theorem bitLaw_advance {s t : CPU6502} {instruction : Instruction} {err : InstructionErr}
    {mode : AddressingMode} {m : Byte} :
    BitLaw mode s (advance instruction err t) m ↔ BitLaw mode s t m := by
  unfold advance
  split
  · rfl
  · constructor <;> rintro ⟨hzero, hnegative, hoverflow, hflags, hA, hX, hY, hS, hmemory⟩ <;>
      exact ⟨hzero, hnegative, hoverflow, hflags, hA, hX, hY, hS, hmemory⟩

/-- A bit test obeys the law exactly when its entry fits the operand. -/
theorem bit_law (isa : CPU6502ISA) (cpu : CPU6502) (instruction : Instruction) (a : Address)
    (hs : maxMemory ≤ cpu.memory.size) (find : isa.find (opcodeAt cpu) = some instruction)
    (hname : instruction.name = .bit) (ha : ((decode 0 instruction.mode).run cpu).result = .ok a) :
    BitLaw instruction.mode cpu ((step isa).run cpu).state (cpu.memory.byteAt a) ↔
      instruction.BitFits cpu (cpu.memory.byteAt a) := by
  rcases step_of_find hs find with ⟨err, t, events, inside, run, hstep⟩ | ⟨outside, -, -⟩
  · obtain rfl : effectiveAddress 0 cpu instruction.mode = a :=
      Except.ok.inj ((result_decode 0 hs inside).symm.trans ha)
    have hbody := bitLaw_execute (effectiveAddress 0 cpu instruction.mode) (isa.find_mem find)
      hname hs
    rw [run] at hbody
    rw [← hbody, hstep]
    exact bitLaw_advance
  · rw [result_decode_outside 0 hs outside] at ha
    cases ha

/-- `BIT $10` of a byte that meets the accumulator. -/
def testsBit : CPU6502 :=
  { CPU6502.initial ((GPMemory.ofProgram [0x24, 0x10]).updated 0x10 0xC1) false with A := 0x01 }

theorem bit_law_testsBit : BitLaw .zeroPage testsBit ((step isa).run testsBit).state 0xC1 :=
  (bit_law isa testsBit ⟨.bit, .zeroPage, .bitZeroPage⟩ 0x10 le_rfl rfl rfl rfl).mpr
    (show testsBit.A &&& 0xC1 = 0 → (0xC1 : Byte) = 0 by decide)

/-- `BIT $10` of a byte that has no bit in common with the accumulator. -/
def testsOtherBit : CPU6502 :=
  { CPU6502.initial ((GPMemory.ofProgram [0x24, 0x10]).updated 0x10 0x01) false with A := 0x02 }

theorem testsOtherBit_clears_zero :
    ¬∀ cpu : CPU6502, maxMemory ≤ cpu.memory.size → ∀ instruction,
      isa.find (opcodeAt cpu) = some instruction → instruction.name = .bit → ∀ a,
        ((decode 0 instruction.mode).run cpu).result = .ok a →
          BitLaw instruction.mode cpu ((step isa).run cpu).state (cpu.memory.byteAt a) := by
  intro h
  have hlaw := h testsOtherBit le_rfl ⟨.bit, .zeroPage, .bitZeroPage⟩ rfl rfl 0x10 rfl
  have hzero : ((step isa).run testsOtherBit).state.P.getBit .zero = false := by decide +kernel
  have hset := hlaw.zero
  rw [hzero] at hset
  revert hset
  decide +kernel

end Sim6502
