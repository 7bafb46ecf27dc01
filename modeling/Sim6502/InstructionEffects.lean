import Sim6502.InstructionBodies

/-!
# What each instruction body does over a full memory

Over a memory of at least 64K no access of a body is out of bounds. Each body
then has a closed form: its return code, the state it leaves and its events.
Everything later says about instructions is read off these equations.
-/
namespace Sim6502
open EventComputation CPU6502

/-- The sum `ADC` forms, with its carry. -/
def adcResult (accumulator operand : Byte) (carry : Bool) : ByteResult :=
  resultAddInt (byteAddByte accumulator operand) (byteOfBool carry)

def adcOverflow (accumulator operand result : Byte) : Bool :=
  (!isNegative operand && !isNegative accumulator && isNegative result) ||
    (isNegative operand && isNegative accumulator && !isNegative result)

/-- The difference `SBC` forms. -/
def sbcResult (a m : Byte) (borrow : Bool) : Byte :=
  (a.setWidth 16 - m.setWidth 16 - (byteOfBool borrow).setWidth 16 : BitVec 16).setWidth 8

def sbcCarry (a m : Byte) (borrow : Bool) : Bool := m.toNat + (byteOfBool borrow).toNat ≤ a.toNat

def sbcOverflow (a m result : Byte) : Bool := (a ^^^ result) &&& (a ^^^ m) &&& 0x80 != 0

/-- The value `ROL` delivers. -/
def rolValue (value : Byte) (carry : Bool) : Byte := value <<< 1 ||| byteOfBool carry

/-- The value `ROR` delivers. -/
def rorValue (value : Byte) (carry : Bool) : Byte := value >>> 1 ||| byteOfBool carry <<< 7

/-- The flags of `CMP`. -/
def PSR.cmp (p : PSR) (acc value : Byte) : PSR :=
  ((p.setBit .carry (value ≤ acc)).setBit .zero (acc == value)).setBit .negative
    (byteSubByte acc value).negative

/-- The flags of the other comparison bodies. -/
def PSR.compare (p : PSR) (register value : Byte) : PSR :=
  ((p.setBit .carry (byteSubByte register value).carry).setBit .zero
    (zeroByte ≤ (byteSubByte register value).value)).setBit .negative
    (byteSubByte register value).negative

/-- `Z` and `N` set by hand from a value. -/
def PSR.zeroNegative (p : PSR) (value : Byte) : PSR :=
  (p.setBit .zero (isZero value)).setBit .negative (isNegative value)

/-- Setting the two flags by hand or through `update_flags` is the same. -/
@[simp] theorem PSR.zeroNegative_eq (p : PSR) (value : Byte) :
    p.zeroNegative value = p.updateFlags value := rfl

/-- The carry of an index register that wraps is set and never cleared. -/
def PSR.wrapCarry (p : PSR) (carry : Bool) : PSR := if carry then p.setBit .carry true else p

/-- The return code of a body that may have set `PC`. -/
def branchErr (taken : Bool) : InstructionErr := if taken then .okPCModified else .ok

/-- The program counter such a body leaves. -/
def branchTo (cpu : CPU6502) (taken : Bool) (target : Address) : CPU6502 :=
  { cpu with PC := if taken then target else cpu.PC }

section BranchTo
variable (cpu : CPU6502) (taken : Bool) (target : Address)

@[simp] theorem A_branchTo : (branchTo cpu taken target).A = cpu.A := by rfl
@[simp] theorem X_branchTo : (branchTo cpu taken target).X = cpu.X := by rfl
@[simp] theorem Y_branchTo : (branchTo cpu taken target).Y = cpu.Y := by rfl
@[simp] theorem S_branchTo : (branchTo cpu taken target).S = cpu.S := by rfl
@[simp] theorem P_branchTo : (branchTo cpu taken target).P = cpu.P := by rfl
@[simp] theorem memory_branchTo : (branchTo cpu taken target).memory = cpu.memory := by rfl
@[simp] theorem debug_branchTo : (branchTo cpu taken target).debug = cpu.debug := by rfl
@[simp] theorem verbose_branchTo : (branchTo cpu taken target).verbose = cpu.verbose := by rfl

end BranchTo

namespace Execute

variable (cpu : CPU6502) (a : Address)

attribute [simp] and ora eor bpl bmi bvc bvs bcc bcs bne beq bra jmp clc sec cli sei clv cld sed

/-! ## Bodies that touch no memory -/

@[simp] theorem run_dbg : (dbg a).run cpu =
    ⟨.ok (if cpu.debug then .goToDebugger else .ok), cpu, []⟩ := by
  cases h : cpu.debug <;> simp [dbg, Routine.run_bind, h]

@[simp] theorem run_branchOn (bit : PsrBit) (wanted : Bool) : (branchOn bit wanted a).run cpu =
    ⟨.ok (branchErr (cpu.P.getBit bit == wanted)),
      branchTo cpu (cpu.P.getBit bit == wanted) a, []⟩ := by
  by_cases h : cpu.P.getBit bit = wanted <;>
    simp [branchOn, Routine.run_bind, branchErr, branchTo, h]

@[simp] theorem run_jump : (jump a).run cpu = ⟨.ok .okPCModified, { cpu with PC := a }, []⟩ := rfl

@[simp] theorem run_tya : (tya a).run cpu = ⟨.ok .ok, { cpu with A := cpu.Y }, []⟩ := rfl
@[simp] theorem run_tay : (tay a).run cpu = ⟨.ok .ok, { cpu with Y := cpu.A }, []⟩ := rfl
@[simp] theorem run_txa : (txa a).run cpu = ⟨.ok .ok, { cpu with A := cpu.X }, []⟩ := rfl
@[simp] theorem run_txs : (txs a).run cpu = ⟨.ok .ok, { cpu with S := cpu.X }, []⟩ := rfl
@[simp] theorem run_tax : (tax a).run cpu = ⟨.ok .ok, { cpu with X := cpu.A }, []⟩ := rfl
@[simp] theorem run_tsx : (tsx a).run cpu = ⟨.ok .ok, { cpu with X := cpu.S }, []⟩ := rfl

@[simp] theorem run_cpyImmediate : (cpyImmediate a).run cpu =
    ⟨.ok .ok, { cpu with P := cpu.P.compare cpu.Y a.toByte }, []⟩ := rfl

@[simp] theorem run_cpxImmediate : (cpxImmediate a).run cpu =
    ⟨.ok .ok, { cpu with P := cpu.P.compare cpu.X a.toByte }, []⟩ := rfl

@[simp] theorem run_incA : (incA a).run cpu =
    ⟨.ok .ok, { cpu with A := cpu.A + 1, P := cpu.P.updateFlags (cpu.A + 1) }, []⟩ := by
  simp [incA, stepRegister, Routine.run_bind, ← PSR.zeroNegative_eq, PSR.zeroNegative]

@[simp] theorem run_decA : (decA a).run cpu =
    ⟨.ok .ok, { cpu with A := cpu.A - 1, P := cpu.P.updateFlags (cpu.A - 1) }, []⟩ := by
  simp [decA, stepRegister, Routine.run_bind, ← PSR.zeroNegative_eq, PSR.zeroNegative]

@[simp] theorem run_dex : (dex a).run cpu =
    ⟨.ok .ok, { cpu with X := cpu.X - 1, P := cpu.P.updateFlags (cpu.X - 1) }, []⟩ := by
  simp [dex, stepRegister, Routine.run_bind, ← PSR.zeroNegative_eq, PSR.zeroNegative]

@[simp] theorem run_dey : (dey a).run cpu =
    ⟨.ok .ok, { cpu with
      Y := cpu.Y - 1
      P := (cpu.P.wrapCarry (byteSubInt cpu.Y 1).carry).updateFlags (cpu.Y - 1) }, []⟩ := by
  cases h : (byteSubInt cpu.Y 1).carry <;>
    simp only [dey, stepIndex, Routine.run_bind, run_getY, run_setY, run_setBit, run_updateFlags,
      Routine.run_pure, byteSubInt_value, PSR.wrapCarry, h, if_true,
      Outcome.after_mk, Bool.false_eq_true, if_false, List.nil_append]

@[simp] theorem run_iny : (iny a).run cpu =
    ⟨.ok .ok, { cpu with
      Y := cpu.Y + 1
      P := (cpu.P.wrapCarry (byteAddInt cpu.Y 1).carry).updateFlags (cpu.Y + 1) }, []⟩ := by
  cases h : (byteAddInt cpu.Y 1).carry <;>
    simp only [iny, stepIndex, Routine.run_bind, run_getY, run_setY, run_setBit, run_updateFlags,
      Routine.run_pure, byteAddInt_value, PSR.wrapCarry, h, if_true,
      Outcome.after_mk, Bool.false_eq_true, if_false, List.nil_append]

@[simp] theorem run_inx : (inx a).run cpu =
    ⟨.ok .ok, { cpu with
      X := cpu.X + 1
      P := (cpu.P.wrapCarry (byteAddInt cpu.X 1).carry).updateFlags (cpu.X + 1) }, []⟩ := by
  cases h : (byteAddInt cpu.X 1).carry <;>
    simp only [inx, stepIndex, Routine.run_bind, run_getX, run_setX, run_setBit, run_updateFlags,
      Routine.run_pure, byteAddInt_value, PSR.wrapCarry, h, if_true,
      Outcome.after_mk, Bool.false_eq_true, if_false, List.nil_append]

@[simp] theorem run_inxRepeated : (inxRepeated a).run cpu =
    ⟨.ok .ok, { cpu with X := cpu.X + 1, P := cpu.P.updateFlags (cpu.X + 1) }, []⟩ := rfl

@[simp] theorem run_aslA : (aslA a).run cpu =
    ⟨.ok .ok, { cpu with
      A := cpu.A <<< 1
      P := (cpu.P.setBit .carry (cpu.A &&& msBitMask != zeroByte)).updateFlags (cpu.A <<< 1) },
      []⟩ := rfl

@[simp] theorem run_rolA : (rolA a).run cpu =
    ⟨.ok .ok, { cpu with
      A := rolValue cpu.A (cpu.P.getBit .carry)
      P := (cpu.P.setBit .carry (cpu.A &&& msBitMask != zeroByte)).updateFlags
        (rolValue cpu.A (cpu.P.getBit .carry)) }, []⟩ := rfl

@[simp] theorem run_lsrA : (lsrA a).run cpu =
    ⟨.ok .ok, { cpu with
      A := cpu.A >>> 1
      P := (cpu.P.setBit .carry (cpu.A &&& 0x01 == 1)).setBit .negative false }, []⟩ := rfl

@[simp] theorem run_rorA : (rorA a).run cpu =
    ⟨.ok .ok, { cpu with
      A := rorValue cpu.A (cpu.P.getBit .carry)
      P := (cpu.P.setBit .carry (cpu.A &&& lsBitMask != zeroByte)).updateFlags
        (rorValue cpu.A (cpu.P.getBit .carry)) }, []⟩ := rfl

@[simp] theorem run_writeFlag (bit : PsrBit) (value : Bool) : (writeFlag bit value a).run cpu =
    ⟨.ok .ok, { cpu with P := cpu.P.setBit bit value }, []⟩ := rfl

@[simp] theorem run_nop : (nop a).run cpu = ⟨.ok .ok, cpu, []⟩ := rfl

@[simp] theorem run_stp : (stp a).run cpu = ⟨.ok .stop, cpu, []⟩ := rfl

/-! ## Bodies that read or write one operand inside the memory -/

section Inside
variable (ha : a.toNat < cpu.memory.size)
include ha

theorem run_adc_of_lt : (adc a).run cpu =
    ⟨.ok .ok, { cpu with
      A := (adcResult cpu.A (cpu.memory.byteAt a) (cpu.P.getBit .carry)).value
      P := ((cpu.P.setBit .carry
          (adcResult cpu.A (cpu.memory.byteAt a) (cpu.P.getBit .carry)).carry).setBit .overflow
          (adcOverflow cpu.A (cpu.memory.byteAt a)
            (adcResult cpu.A (cpu.memory.byteAt a) (cpu.P.getBit .carry)).value)).updateFlags
          (adcResult cpu.A (cpu.memory.byteAt a) (cpu.P.getBit .carry)).value },
      [.read a.toNat]⟩ := by
  simp [adc, Routine.run_bind, run_readMemory_of_lt _ ha, adcResult, adcOverflow]

theorem run_sbc_of_lt : (sbc a).run cpu =
    ⟨.ok .ok, { cpu with
      A := sbcResult cpu.A (cpu.memory.byteAt a) (!cpu.P.getBit .carry)
      P := ((cpu.P.setBit .carry
          (sbcCarry cpu.A (cpu.memory.byteAt a) (!cpu.P.getBit .carry))).setBit .overflow
          (sbcOverflow cpu.A (cpu.memory.byteAt a)
            (sbcResult cpu.A (cpu.memory.byteAt a) (!cpu.P.getBit .carry)))).updateFlags
          (sbcResult cpu.A (cpu.memory.byteAt a) (!cpu.P.getBit .carry)) },
      [.read a.toNat]⟩ := by
  simp only [sbc, Routine.run_bind, run_readMemory_of_lt _ ha, run_getBit, run_getA, run_setBit,
    run_setA, run_updateFlags, Routine.run_pure, Outcome.after_mk, List.append_nil,
    sbcResult, sbcCarry, sbcOverflow]

theorem run_lda_of_lt : (lda a).run cpu =
    ⟨.ok .ok, { cpu with
      A := cpu.memory.byteAt a, P := cpu.P.updateFlags (cpu.memory.byteAt a) },
      [.read a.toNat]⟩ := by
  simp [lda, load, Routine.run_bind, run_readMemory_of_lt _ ha]

theorem run_ldaAbsolute_of_lt : (ldaAbsolute a).run cpu =
    ⟨.ok .ok, { cpu with A := cpu.memory.byteAt a }, [.read a.toNat]⟩ := by
  simp [ldaAbsolute, Routine.run_bind, run_readMemory_of_lt _ ha]

theorem run_sta_of_lt : (sta a).run cpu =
    ⟨.ok .ok, { cpu with memory := cpu.memory.updated a cpu.A },
      cpu.memory.writeEvents a cpu.A⟩ := by
  simp [sta, store, Routine.run_bind, run_writeMemory_of_lt _ ha]

end Inside

/-! ## Bodies that read their operand -/

section FullMemory
variable (hs : maxMemory ≤ cpu.memory.size)
include hs

@[simp] theorem run_adc : (adc a).run cpu =
    ⟨.ok .ok, { cpu with
      A := (adcResult cpu.A (cpu.memory.byteAt a) (cpu.P.getBit .carry)).value
      P := ((cpu.P.setBit .carry
          (adcResult cpu.A (cpu.memory.byteAt a) (cpu.P.getBit .carry)).carry).setBit .overflow
          (adcOverflow cpu.A (cpu.memory.byteAt a)
            (adcResult cpu.A (cpu.memory.byteAt a) (cpu.P.getBit .carry)).value)).updateFlags
          (adcResult cpu.A (cpu.memory.byteAt a) (cpu.P.getBit .carry)).value },
      [.read a.toNat]⟩ :=
  run_adc_of_lt cpu a (cpu.memory.lt_size hs a)

@[simp] theorem run_logicA (op : Byte → Byte → Byte) : (logicA op a).run cpu =
    ⟨.ok .ok, { cpu with
      A := op cpu.A (cpu.memory.byteAt a)
      P := cpu.P.updateFlags (op cpu.A (cpu.memory.byteAt a)) }, [.read a.toNat]⟩ := by
  simp [logicA, Routine.run_bind, run_readMemory _ hs]

@[simp] theorem run_sbc : (sbc a).run cpu =
    ⟨.ok .ok, { cpu with
      A := sbcResult cpu.A (cpu.memory.byteAt a) (!cpu.P.getBit .carry)
      P := ((cpu.P.setBit .carry
          (sbcCarry cpu.A (cpu.memory.byteAt a) (!cpu.P.getBit .carry))).setBit .overflow
          (sbcOverflow cpu.A (cpu.memory.byteAt a)
            (sbcResult cpu.A (cpu.memory.byteAt a) (!cpu.P.getBit .carry)))).updateFlags
          (sbcResult cpu.A (cpu.memory.byteAt a) (!cpu.P.getBit .carry)) },
      [.read a.toNat]⟩ :=
  run_sbc_of_lt cpu a (cpu.memory.lt_size hs a)

@[simp] theorem run_bbrx (bit : ℕ) : (bbrx bit a).run cpu =
    ⟨.ok (branchErr (!isBitSet (cpu.memory.byteAt a) bit)),
      branchTo cpu (!isBitSet (cpu.memory.byteAt a) bit) a, [.read a.toNat]⟩ := by
  cases h : isBitSet (cpu.memory.byteAt a) bit <;>
    simp [bbrx, Routine.run_bind, run_readMemory _ hs, branchErr, branchTo, h]

@[simp] theorem run_bbsx (bit : ℕ) : (bbsx bit a).run cpu =
    ⟨.ok (branchErr (isBitSet (cpu.memory.byteAt a) 0)),
      branchTo cpu (isBitSet (cpu.memory.byteAt a) 0) a, [.read a.toNat]⟩ := by
  cases h : isBitSet (cpu.memory.byteAt a) 0 <;>
    simp [bbsx, Routine.run_bind, run_readMemory _ hs, branchErr, branchTo, h]

@[simp] theorem run_cmp : (cmp a).run cpu =
    ⟨.ok .ok, { cpu with P := cpu.P.cmp cpu.A (cpu.memory.byteAt a) }, [.read a.toNat]⟩ := by
  simp [cmp, Routine.run_bind, run_readMemory _ hs, PSR.cmp]

@[simp] theorem run_lda : (lda a).run cpu =
    ⟨.ok .ok, { cpu with
      A := cpu.memory.byteAt a, P := cpu.P.updateFlags (cpu.memory.byteAt a) },
      [.read a.toNat]⟩ :=
  run_lda_of_lt cpu a (cpu.memory.lt_size hs a)

@[simp] theorem run_ldx : (ldx a).run cpu =
    ⟨.ok .ok, { cpu with
      X := cpu.memory.byteAt a, P := cpu.P.updateFlags (cpu.memory.byteAt a) },
      [.read a.toNat]⟩ := by
  simp [ldx, load, Routine.run_bind, run_readMemory _ hs]

@[simp] theorem run_ldy : (ldy a).run cpu =
    ⟨.ok .ok, { cpu with
      Y := cpu.memory.byteAt a, P := cpu.P.updateFlags (cpu.memory.byteAt a) },
      [.read a.toNat]⟩ := by
  simp [ldy, load, Routine.run_bind, run_readMemory _ hs]

@[simp] theorem run_ldaAbsolute : (ldaAbsolute a).run cpu =
    ⟨.ok .ok, { cpu with A := cpu.memory.byteAt a }, [.read a.toNat]⟩ :=
  run_ldaAbsolute_of_lt cpu a (cpu.memory.lt_size hs a)

@[simp] theorem run_cpy : (cpy a).run cpu =
    ⟨.ok .ok, { cpu with P := cpu.P.compare cpu.Y (cpu.memory.byteAt a) }, [.read a.toNat]⟩ := by
  simp [cpy, compare, Routine.run_bind, run_readMemory _ hs, PSR.compare]

@[simp] theorem run_cpx : (cpx a).run cpu =
    ⟨.ok .ok, { cpu with P := cpu.P.compare cpu.X (cpu.memory.byteAt a) }, [.read a.toNat]⟩ := by
  simp [cpx, compare, Routine.run_bind, run_readMemory _ hs, PSR.compare]

@[simp] theorem run_cmpZeroPageIndirect : (cmpZeroPageIndirect a).run cpu =
    ⟨.ok .ok, { cpu with P := cpu.P.compare cpu.A (cpu.memory.byteAt a) }, [.read a.toNat]⟩ := by
  simp [cmpZeroPageIndirect, compare, Routine.run_bind, run_readMemory _ hs, PSR.compare]

@[simp] theorem run_bitZeroPage : (bitZeroPage a).run cpu =
    ⟨.ok .ok, { cpu with
      P := ((cpu.P.setBit .zero (isZero (cpu.memory.byteAt a))).setBit .overflow
        (isBitSet (cpu.memory.byteAt a) 6)).setBit .negative
        (isNegative (cpu.memory.byteAt a)) }, [.read a.toNat]⟩ := by
  simp [bitZeroPage, Routine.run_bind, run_readMemory _ hs]

@[simp] theorem run_bitAbsolute : (bitAbsolute a).run cpu =
    ⟨.ok .ok, { cpu with P := cpu.P.updateFlags (cpu.A &&& cpu.memory.byteAt a) },
      [.read a.toNat]⟩ := by
  simp [bitAbsolute, Routine.run_bind, run_readMemory _ hs]

/-! ## Bodies that write their operand -/

@[simp] theorem run_sta : (sta a).run cpu =
    ⟨.ok .ok, { cpu with memory := cpu.memory.updated a cpu.A },
      cpu.memory.writeEvents a cpu.A⟩ :=
  run_sta_of_lt cpu a (cpu.memory.lt_size hs a)

@[simp] theorem run_stx : (stx a).run cpu =
    ⟨.ok .ok, { cpu with memory := cpu.memory.updated a cpu.X },
      cpu.memory.writeEvents a cpu.X⟩ := by
  simp [stx, store, Routine.run_bind, run_writeMemory _ hs]

@[simp] theorem run_sty : (sty a).run cpu =
    ⟨.ok .ok, { cpu with memory := cpu.memory.updated a cpu.Y },
      cpu.memory.writeEvents a cpu.Y⟩ := by
  simp [sty, store, Routine.run_bind, run_writeMemory _ hs]

@[simp] theorem run_stz : (stz a).run cpu =
    ⟨.ok .ok, { cpu with memory := cpu.memory.updated a 0 }, cpu.memory.writeEvents a 0⟩ := by
  simp [stz, store, Routine.run_bind, run_writeMemory _ hs]

@[simp] theorem run_aslMem : (aslMem a).run cpu =
    ⟨.ok .ok, { cpu with
      P := (cpu.P.setBit .carry (cpu.memory.byteAt a &&& msBitMask != zeroByte)).updateFlags
        (cpu.memory.byteAt a <<< 1)
      memory := cpu.memory.updated a (cpu.memory.byteAt a <<< 1) },
      .read a.toNat :: cpu.memory.writeEvents a (cpu.memory.byteAt a <<< 1)⟩ := by
  simp [aslMem, Routine.run_bind, run_readMemory, run_writeMemory, hs]

@[simp] theorem run_rmbx (bit : ℕ) : (rmbx bit a).run cpu =
    ⟨.ok .ok, { cpu with
      memory := cpu.memory.updated a (cpu.memory.byteAt a &&& ~~~bitByte bit) },
      .read a.toNat :: cpu.memory.writeEvents a (cpu.memory.byteAt a &&& ~~~bitByte bit)⟩ := by
  simp [rmbx, Routine.run_bind, run_readMemory, run_writeMemory, hs]

@[simp] theorem run_smbx (bit : ℕ) : (smbx bit a).run cpu =
    ⟨.ok .ok, { cpu with
      memory := cpu.memory.updated a (cpu.memory.byteAt a ||| bitByte bit) },
      .read a.toNat :: cpu.memory.writeEvents a (cpu.memory.byteAt a ||| bitByte bit)⟩ := by
  simp [smbx, Routine.run_bind, run_readMemory, run_writeMemory, hs]

@[simp] theorem run_rolMem : (rolMem a).run cpu =
    ⟨.ok .ok, { cpu with
      P := (cpu.P.setBit .carry (cpu.memory.byteAt a &&& msBitMask != zeroByte)).updateFlags
        (rolValue (cpu.memory.byteAt a) (cpu.P.getBit .carry))
      memory := cpu.memory.updated a (rolValue (cpu.memory.byteAt a) (cpu.P.getBit .carry)) },
      .read a.toNat :: cpu.memory.writeEvents a
        (rolValue (cpu.memory.byteAt a) (cpu.P.getBit .carry))⟩ := by
  simp [rolMem, Routine.run_bind, run_readMemory, run_writeMemory, hs, rolValue]

@[simp] theorem run_rorMem : (rorMem a).run cpu =
    ⟨.ok .ok, { cpu with
      P := (cpu.P.setBit .carry (cpu.memory.byteAt a &&& lsBitMask != zeroByte)).updateFlags
        (rorValue (cpu.memory.byteAt a) (cpu.P.getBit .carry))
      memory := cpu.memory.updated a (rorValue (cpu.memory.byteAt a) (cpu.P.getBit .carry)) },
      .read a.toNat :: cpu.memory.writeEvents a
        (rorValue (cpu.memory.byteAt a) (cpu.P.getBit .carry))⟩ := by
  simp [rorMem, Routine.run_bind, run_readMemory, run_writeMemory, hs, rorValue]

@[simp] theorem run_lsrMem : (lsrMem a).run cpu =
    ⟨.ok .ok, { cpu with
      P := (cpu.P.setBit .carry (cpu.memory.byteAt a &&& 0x01 == 1)).setBit .negative false
      memory := cpu.memory.updated a (cpu.memory.byteAt a >>> 1) },
      .read a.toNat :: cpu.memory.writeEvents a (cpu.memory.byteAt a >>> 1)⟩ := by
  simp [lsrMem, Routine.run_bind, run_readMemory, run_writeMemory, hs]

@[simp] theorem run_tsb : (tsb a).run cpu =
    ⟨.ok .ok, { cpu with
      P := cpu.P.setBit .zero (cpu.memory.byteAt a &&& cpu.A == 0)
      memory := cpu.memory.updated a (cpu.memory.byteAt a ||| cpu.A) },
      .read a.toNat :: cpu.memory.writeEvents a (cpu.memory.byteAt a ||| cpu.A)⟩ := by
  simp [tsb, Routine.run_bind, run_readMemory, run_writeMemory, hs]

@[simp] theorem run_trb : (trb a).run cpu =
    ⟨.ok .ok, { cpu with
      P := cpu.P.setBit .zero (cpu.memory.byteAt a &&& cpu.A == 0)
      memory := cpu.memory.updated a (cpu.memory.byteAt a &&& ~~~cpu.A) },
      .read a.toNat :: cpu.memory.writeEvents a (cpu.memory.byteAt a &&& ~~~cpu.A)⟩ := by
  simp [trb, Routine.run_bind, run_readMemory, run_writeMemory, hs]

@[simp] theorem run_decMem : (decMem a).run cpu =
    ⟨.ok .ok, { cpu with
      P := cpu.P.updateFlags (cpu.memory.byteAt a - 1)
      memory := cpu.memory.updated a (cpu.memory.byteAt a - 1) },
      .read a.toNat :: cpu.memory.writeEvents a (cpu.memory.byteAt a - 1)⟩ := by
  simp [decMem, stepMem, Routine.run_bind, run_readMemory, run_writeMemory, hs,
    ← PSR.zeroNegative_eq, PSR.zeroNegative]

@[simp] theorem run_incMem : (incMem a).run cpu =
    ⟨.ok .ok, { cpu with
      P := cpu.P.updateFlags (cpu.memory.byteAt a + 1)
      memory := cpu.memory.updated a (cpu.memory.byteAt a + 1) },
      .read a.toNat :: cpu.memory.writeEvents a (cpu.memory.byteAt a + 1)⟩ := by
  simp [incMem, stepMem, Routine.run_bind, run_readMemory, run_writeMemory, hs,
    ← PSR.zeroNegative_eq, PSR.zeroNegative]

/-! ## Bodies that use the stack -/

@[simp] theorem run_pha : (pha a).run cpu = ⟨.ok .ok, cpu.pushed cpu.A, cpu.pushEvents cpu.A⟩ := by
  simp [pha, push, Routine.run_bind, run_pushStack _ hs]

@[simp] theorem run_phx : (phx a).run cpu = ⟨.ok .ok, cpu.pushed cpu.X, cpu.pushEvents cpu.X⟩ := by
  simp [phx, push, Routine.run_bind, run_pushStack _ hs]

@[simp] theorem run_phy : (phy a).run cpu = ⟨.ok .ok, cpu.pushed cpu.Y, cpu.pushEvents cpu.Y⟩ := by
  simp [phy, push, Routine.run_bind, run_pushStack _ hs]

@[simp] theorem run_php : (php a).run cpu =
    ⟨.ok .ok, cpu.pushed (cpu.P.setBit .breakCommand true).get,
      cpu.pushEvents (cpu.P.setBit .breakCommand true).get⟩ := by
  simp [php, Routine.run_bind, run_pushStack _ hs]

@[simp] theorem run_pla : (pla a).run cpu =
    ⟨.ok .ok, { cpu.popped with A := cpu.top }, cpu.popEvents⟩ := by
  simp [pla, pull, Routine.run_bind, run_popStack _ hs]

@[simp] theorem run_plx : (plx a).run cpu =
    ⟨.ok .ok, { cpu.popped with X := cpu.top }, cpu.popEvents⟩ := by
  simp [plx, pull, Routine.run_bind, run_popStack _ hs]

@[simp] theorem run_ply : (ply a).run cpu =
    ⟨.ok .ok, { cpu.popped with Y := cpu.top }, cpu.popEvents⟩ := by
  simp [ply, pull, Routine.run_bind, run_popStack _ hs]

@[simp] theorem run_plp : (plp a).run cpu =
    ⟨.ok .ok, { cpu.popped with P := .ofByte cpu.top }, cpu.popEvents⟩ := by
  simp [plp, Routine.run_bind, run_popStack _ hs]

@[simp] theorem run_jsr : (jsr a).run cpu =
    ⟨.ok .okPCModified, { (cpu.pushed cpu.PC.high).pushed cpu.PC.low with PC := a },
      cpu.pushEvents cpu.PC.high ++ (cpu.pushed cpu.PC.high).pushEvents cpu.PC.low⟩ := by
  simp [jsr, Routine.run_bind, run_pushStack, hs]

@[simp] theorem run_rts : (rts a).run cpu =
    ⟨.ok .okPCModified, { cpu.popped.popped with
      PC := Address.ofBytes cpu.top cpu.popped.top + 3 },
      cpu.popEvents ++ cpu.popped.popEvents⟩ := by
  simp [rts, Routine.run_bind, run_popStack, hs]

/-- The three pushes of `BRK`, before it reads the vector. -/
def brkPushed : CPU6502 :=
  ((cpu.pushed cpu.PC.high).pushed cpu.PC.low).pushed cpu.P.get

@[simp] theorem run_brk : (brk a).run cpu =
    ⟨.ok .okPCModified, { brkPushed cpu with
      P := cpu.P.setBit .breakCommand true
      PC := .ofBytes ((brkPushed cpu).memory.byteAt 0xFFFE)
        ((brkPushed cpu).memory.byteAt 0xFFFF) },
      cpu.pushEvents cpu.PC.high ++ (cpu.pushed cpu.PC.high).pushEvents cpu.PC.low ++
        ((cpu.pushed cpu.PC.high).pushed cpu.PC.low).pushEvents cpu.P.get ++
        [.read 0xFFFE, .read 0xFFFF]⟩ := by
  simp [brk, Routine.run_bind, run_pushStack, run_readMemory, hs, brkPushed]

/-- The register is taken from the stack before the two bytes of the address. -/
@[simp] theorem run_rti : (rti a).run cpu =
    ⟨.ok .okPCModified, { cpu.popped.popped.popped with
      P := .ofByte cpu.top
      PC := Address.ofBytes cpu.popped.top cpu.popped.popped.top + 1 },
      cpu.popEvents ++ cpu.popped.popEvents ++ cpu.popped.popped.popEvents⟩ := by
  simp [rti, Routine.run_bind, run_popStack, hs, top, popped, popEvents]

end FullMemory

end Execute

end Sim6502
