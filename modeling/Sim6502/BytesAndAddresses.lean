import Mathlib.Data.Fintype.Basic

/-!
# Bytes and addresses

The operators of `byte_utils.h` and `address.h`. A `std::byte` and a `uint8_t`
are both words of 8 bits, an `address` is a word of 16 bits. The sums are taken
in the wider type the source uses and truncated where the source truncates.
-/
namespace Sim6502

abbrev Byte := BitVec 8
abbrev Address := BitVec 16

def zeroByte : Byte := 0x00
def fullByte : Byte := 0xFF
def msBitMask : Byte := 0x80
def lsBitMask : Byte := 0x01

/-- `std::byte(1 << bit)`. -/
def bitByte (bit : ℕ) : Byte := 1 <<< bit

def isNegative (b : Byte) : Bool := b &&& bitByte 7 != zeroByte

def isZero (b : Byte) : Bool := b == zeroByte

def isBitSet (b : Byte) (bit : ℕ) : Bool := b &&& bitByte bit != zeroByte

structure ByteResult where
  value : Byte
  carry : Bool
  negative : Bool
  deriving DecidableEq

/-- The result every byte operator builds from its `uint16_t` intermediate. -/
def ByteResult.ofWide (result : BitVec 16) (carry : Bool) : ByteResult :=
  ⟨result.setWidth 8, carry, isNegative (result.setWidth 8)⟩

def byteAddByte (a b : Byte) : ByteResult :=
  let result := a.setWidth 16 + b.setWidth 16
  .ofWide result (0xFF < result)

def byteSubByte (a b : Byte) : ByteResult :=
  .ofWide (a.setWidth 16 - b.setWidth 16) (a < b)

def byteAddInt (a b : Byte) : ByteResult :=
  let result := a.setWidth 16 + b.setWidth 16
  .ofWide result (0xFF < result)

def byteSubInt (a b : Byte) : ByteResult :=
  .ofWide (a.setWidth 16 - b.setWidth 16) (a < b)

/-- A second addition keeps the carry of the first. -/
def resultAddInt (a : ByteResult) (b : Byte) : ByteResult :=
  let result := a.value.setWidth 16 + b.setWidth 16
  .ofWide result (0xFF < result || a.carry)

/-- `std::byte(bool)`, and a `bool` passed for a `uint8_t`. -/
def byteOfBool (b : Bool) : Byte := if b then 1 else 0

@[simp] theorem byteAddByte_value (a b : Byte) : (byteAddByte a b).value = a + b := by
  simp [byteAddByte, ByteResult.ofWide, BitVec.setWidth_add]

@[simp] theorem byteSubByte_value (a b : Byte) : (byteSubByte a b).value = a - b := by
  simp [byteSubByte, ByteResult.ofWide]
  bv_omega

@[simp] theorem byteAddInt_value (a b : Byte) : (byteAddInt a b).value = a + b :=
  byteAddByte_value a b

@[simp] theorem byteSubInt_value (a b : Byte) : (byteSubInt a b).value = a - b :=
  byteSubByte_value a b

@[simp] theorem byteAddInt_carry (a b : Byte) :
    (byteAddInt a b).carry = decide (0xFF < a.toNat + b.toNat) := by
  simp only [byteAddInt, ByteResult.ofWide, decide_eq_decide]
  bv_omega

@[simp] theorem byteSubInt_carry (a b : Byte) : (byteSubInt a b).carry = decide (a < b) := rfl

theorem byteAddByte_carry (a b : Byte) :
    (byteAddByte a b).carry = decide (0xFF < a.toNat + b.toNat) := byteAddInt_carry a b

theorem resultAddInt_value (r : ByteResult) (b : Byte) : (resultAddInt r b).value = r.value + b :=
  byteAddInt_value r.value b

theorem resultAddInt_carry (r : ByteResult) (b : Byte) :
    (resultAddInt r b).carry = (decide (0xFF < r.value.toNat + b.toNat) || r.carry) :=
  congrArg (· || r.carry) (byteAddInt_carry r.value b)

theorem toNat_byteOfBool (b : Bool) : (byteOfBool b).toNat = b.toNat := by
  cases b <;> rfl

theorem isNegative_eq_msb (b : Byte) : isNegative b = b.msb := by
  revert b; decide

theorem isNegative_iff (b : Byte) : isNegative b = true ↔ 256 ≤ 2 * b.toNat := by
  rw [isNegative_eq_msb, BitVec.msb_eq_decide, decide_eq_true_iff]
  omega

theorem isBitSet_eq_getLsbD (b : Byte) (bit : Fin 8) : isBitSet b bit = b.getLsbD bit := by
  revert b bit; decide

namespace Address

/-- `address(low, high)`. -/
def ofBytes (low high : Byte) : Address := high.setWidth 16 <<< 8 ||| low.setWidth 16

/-- `address(std::byte)`. -/
def ofByte (value : Byte) : Address := value.setWidth 16

/-- `std::byte(address)` keeps the low byte only. -/
def toByte (a : Address) : Byte := a.setWidth 8

def low (a : Address) : Byte := (a &&& 0xFF).setWidth 8

def high (a : Address) : Byte := (a >>> 8 &&& 0xFF).setWidth 8

end Address

structure AddressResult where
  value : Address
  carry : Bool
  deriving DecidableEq

/-- Every address operator truncates a `uint32_t` sum. -/
def AddressResult.ofWide (result : BitVec 32) : AddressResult :=
  ⟨result.setWidth 16, 0xFFFF < result⟩

def addressAddByte (a : Address) (b : Byte) : AddressResult :=
  .ofWide (a.setWidth 32 + b.setWidth 32)

def addressAddInt (a : Address) (b : BitVec 16) : AddressResult :=
  .ofWide (a.setWidth 32 + b.setWidth 32)

@[simp] theorem addressAddByte_value (a : Address) (b : Byte) :
    (addressAddByte a b).value = a + b.setWidth 16 := by
  simp only [addressAddByte, AddressResult.ofWide]
  bv_omega

@[simp] theorem addressAddInt_value (a b : Address) : (addressAddInt a b).value = a + b := by
  simp [addressAddInt, AddressResult.ofWide, BitVec.setWidth_add]

namespace Address

theorem toNat_ofBytes (low high : Byte) :
    (ofBytes low high).toNat = high.toNat * 256 + low.toNat := by
  have hlow := low.isLt
  have hhigh := high.isLt
  have hor : high.toNat * 256 ||| low.toNat = high.toNat * 256 + low.toNat := by
    have h := Nat.shiftLeft_add_eq_or_of_lt hlow high.toNat
    simpa [Nat.shiftLeft_eq] using h.symm
  have hshift : high.toNat * 256 % 65536 = high.toNat * 256 := by omega
  simp [ofBytes, Nat.shiftLeft_eq, Nat.mod_eq_of_lt (show low.toNat < 65536 by omega),
    Nat.mod_eq_of_lt (show high.toNat < 65536 by omega), hshift, hor]

@[simp] theorem toNat_ofByte (value : Byte) : (ofByte value).toNat = value.toNat := by
  simp [ofByte]
  omega

private theorem and_ff (n : ℕ) : n &&& 255 = n % 256 := Nat.and_two_pow_sub_one_eq_mod n 8

theorem toNat_low (a : Address) : (low a).toNat = a.toNat % 256 := by
  simp [low, and_ff]

theorem toNat_high (a : Address) : (high a).toNat = a.toNat / 256 := by
  have h := a.isLt
  simp [high, Nat.shiftRight_eq_div_pow, and_ff]
  omega

/-- The two bytes the stack keeps of an address give the address back. -/
@[simp] theorem ofBytes_low_high (a : Address) : ofBytes (low a) (high a) = a := by
  apply BitVec.eq_of_toNat_eq
  rw [toNat_ofBytes, toNat_low, toNat_high]
  omega

end Address

end Sim6502
