import Mathlib.Tactic.IntervalCases
import Sim6502.BytesAndAddresses

/-! # The processor status register of `psr.h` and `psr.cpp` -/
namespace Sim6502

/-- The bits of the register, from the least significant one. -/
inductive PsrBit where
  | carry | zero | interruptDisable | decimalMode | breakCommand | unused | overflow | negative
  deriving DecidableEq

namespace PsrBit

/-- `static_cast<size_t>(bit)`. -/
def index : PsrBit → ℕ
  | .carry => 0
  | .zero => 1
  | .interruptDisable => 2
  | .decimalMode => 3
  | .breakCommand => 4
  | .unused => 5
  | .overflow => 6
  | .negative => 7

/-- `std::byte(1 << static_cast<size_t>(bit))`. -/
def mask (bit : PsrBit) : Byte := 1 <<< bit.index

end PsrBit

def psrInitialValue : Byte := 0b00100100

@[ext]
structure PSR where
  psr : Byte
  deriving DecidableEq

namespace PSR

/-- `PSR()`. -/
def initial : PSR := ⟨psrInitialValue⟩

/-- `PSR(std::byte)` takes the byte as it is. -/
def ofByte (psr : Byte) : PSR := ⟨psr⟩

def getBit (p : PSR) (bit : PsrBit) : Bool :=
  if bit = .unused then true else p.psr &&& bit.mask != 0

def setBit (p : PSR) (bit : PsrBit) (value : Bool) : PSR :=
  if bit = .unused then p
  else if value then ⟨p.psr ||| bit.mask⟩
  else ⟨p.psr &&& ~~~bit.mask⟩

def get (p : PSR) : Byte := p.psr

def set (_ : PSR) (value : Byte) : PSR := ⟨value ||| PsrBit.unused.mask⟩

/-- The bit the register really stores, also at the place of `unused`. -/
def stored (p : PSR) (bit : PsrBit) : Bool := p.get.getLsbD bit.index

private theorem and_mask (b : Byte) (bit : PsrBit) :
    (b &&& bit.mask != 0) = b.getLsbD bit.index := by
  revert b; cases bit <;> decide

private theorem getLsbD_mask (bit other : PsrBit) :
    bit.mask.getLsbD other.index = decide (bit = other) := by
  cases bit <;> cases other <;> rfl

private theorem index_lt (bit : PsrBit) : bit.index < 8 := by
  cases bit <;> decide

/-- What writing one bit does to each stored bit. -/
theorem stored_setBit (p : PSR) {bit : PsrBit} (h : bit ≠ .unused) (value : Bool)
    (other : PsrBit) :
    (p.setBit bit value).stored other = if bit = other then value else p.stored other := by
  have hlt := index_lt other
  have hmask := getLsbD_mask bit other
  rw [setBit, if_neg h]
  cases value
  · simp only [Bool.false_eq_true, if_false, stored, get, BitVec.getLsbD_and, BitVec.getLsbD_not,
      hmask, hlt]
    by_cases ho : bit = other <;> simp [ho]
  · simp only [if_true, stored, get, BitVec.getLsbD_or, hmask]
    by_cases ho : bit = other <;> simp [ho]

theorem getBit_eq_stored (p : PSR) {bit : PsrBit} (h : bit ≠ .unused) :
    p.getBit bit = p.stored bit := by
  rw [getBit, if_neg h, and_mask, stored, get]

@[simp] theorem getBit_unused (p : PSR) : p.getBit .unused = true := rfl

theorem stored_setBit_self (p : PSR) {bit : PsrBit} (h : bit ≠ .unused) (value : Bool) :
    (p.setBit bit value).stored bit = value := by
  simp [stored_setBit p h]

@[simp] theorem stored_setBit_of_ne (p : PSR) {bit other : PsrBit} (h : bit ≠ other)
    (value : Bool) : (p.setBit bit value).stored other = p.stored other := by
  by_cases hu : bit = .unused
  · simp [setBit, hu]
  · simp [stored_setBit p hu, h]

@[simp] theorem getBit_setBit_self (p : PSR) {bit : PsrBit} (h : bit ≠ .unused) (value : Bool) :
    (p.setBit bit value).getBit bit = value := by
  rw [getBit_eq_stored _ h, stored_setBit_self p h]

/-- Writing one bit leaves what is read at every other bit. -/
@[simp] theorem getBit_setBit_of_ne (p : PSR) {bit other : PsrBit} (h : bit ≠ other)
    (value : Bool) : (p.setBit bit value).getBit other = p.getBit other := by
  by_cases ho : other = .unused
  · simp [ho]
  · rw [getBit_eq_stored _ ho, getBit_eq_stored _ ho, stored_setBit_of_ne p h]

/-- Eight stored bits determine the register. -/
theorem ext_stored {p q : PSR} (h : ∀ bit, p.stored bit = q.stored bit) : p = q := by
  apply PSR.ext
  apply BitVec.eq_of_getLsbD_eq
  intro i hi
  have hbit : ∃ bit : PsrBit, bit.index = i := by
    interval_cases i
    exacts [⟨.carry, rfl⟩, ⟨.zero, rfl⟩, ⟨.interruptDisable, rfl⟩, ⟨.decimalMode, rfl⟩,
      ⟨.breakCommand, rfl⟩, ⟨.unused, rfl⟩, ⟨.overflow, rfl⟩, ⟨.negative, rfl⟩]
  obtain ⟨bit, rfl⟩ := hbit
  exact h bit

theorem setBit_getBit (p : PSR) (bit : PsrBit) : p.setBit bit (p.getBit bit) = p := by
  by_cases h : bit = .unused
  · simp [h, setBit]
  · apply ext_stored
    intro other
    by_cases ho : bit = other
    · subst ho
      rw [stored_setBit_self p h, getBit_eq_stored p h]
    · exact stored_setBit_of_ne p ho _

end PSR

end Sim6502
