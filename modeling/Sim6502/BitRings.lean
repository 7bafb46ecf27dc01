import Mathlib.Data.Nat.Digits.Defs
import Mathlib.Data.ZMod.Basic
import Mathlib.Tactic.Ring

/-!
# Bits in a ring

The lowest `w + 1` bits of a number, closed to a ring: its places are the residues
modulo `w + 1`. Bringing the top bit to the low end turns the ring by one place.
-/
namespace BitRings

/-- `Turns w W V`: the number `V` is `W` doubled, with the top bit of its `w + 1` brought
to the low end. -/
def Turns (w W V : ℕ) : Prop := V = 2 * (W % 2 ^ w) + W / 2 ^ w

section Turns
variable {w W V : ℕ}

theorem val_sub_one (i : ZMod (w + 1)) (hi : i ≠ 0) : (i - 1).val = i.val - 1 := by
  have hpos : 0 < i.val := Nat.pos_of_ne_zero ((ZMod.val_ne_zero i).mpr hi)
  have hlt := ZMod.val_lt i
  have hone : (1 : ZMod (w + 1)).val = 1 := ZMod.val_one'' (by omega)
  rw [ZMod.val_sub (by omega), hone]

/-- Each place takes the bit of the place below it. -/
theorem Turns.testBit (h : Turns w W V) (hW : W < 2 ^ (w + 1)) (i : ZMod (w + 1)) :
    V.testBit i.val = W.testBit (i - 1).val := by
  have htop : W / 2 ^ w < 2 := Nat.div_lt_of_lt_mul (by rwa [pow_succ] at hW)
  by_cases hi : i = 0
  · rw [hi, zero_sub, ZMod.val_neg_one, ZMod.val_zero, Nat.testBit_zero, h,
      Nat.testBit_eq_decide_div_mod_eq]
    congr 2
    omega
  · rw [val_sub_one i hi]
    have hpos : 0 < i.val := Nat.pos_of_ne_zero ((ZMod.val_ne_zero i).mpr hi)
    have hlt := ZMod.val_lt i
    obtain ⟨k, hk⟩ : ∃ k, i.val = k + 1 := ⟨i.val - 1, by omega⟩
    have hhalf : V / 2 = W % 2 ^ w := by
      rw [h, Nat.mul_add_div (by omega), Nat.div_eq_of_lt htop, add_zero]
    rw [hk, Nat.testBit_add_one, hhalf, Nat.testBit_mod_two_pow, Nat.add_sub_cancel]
    simp [show k < w by omega]

end Turns

/-! ## Numbers of bytes

A number given by its bytes and one bit above them. -/

section Bytes
variable {α : Type} (digit : α → ℕ) (top : Bool)

/-- The bit at a place: one of the byte there, or the one above all bytes. -/
theorem testBit_ofDigits (hdigit : ∀ a, digit a < 256) (as : List α) (j : ℕ)
    (hj : j ≤ 8 * as.length) :
    (Nat.ofDigits 256 (as.map digit) + 256 ^ as.length * top.toNat).testBit j =
      (as[j / 8]?.elim top fun a => (digit a).testBit (j % 8)) := by
  induction as generalizing j with
  | nil =>
    obtain rfl : j = 0 := by simpa using hj
    cases top <;> simp
  | cons a as ih =>
    have hsplit : Nat.ofDigits 256 ((a :: as).map digit) + 256 ^ (a :: as).length * top.toNat =
        2 ^ 8 * (Nat.ofDigits 256 (as.map digit) + 256 ^ as.length * top.toNat) + digit a := by
      rw [List.map_cons, Nat.ofDigits_cons, List.length_cons, pow_succ]
      ring
    rw [hsplit, Nat.testBit_two_pow_mul_add _ (hdigit a)]
    rw [List.length_cons] at hj
    by_cases hlow : j < 8
    · rw [if_pos hlow, Nat.div_eq_of_lt hlow, Nat.mod_eq_of_lt hlow]
      rfl
    · obtain ⟨k, rfl⟩ : ∃ k, j = k + 8 := ⟨j - 8, by omega⟩
      rw [if_neg hlow, Nat.add_sub_cancel, ih k (by omega), Nat.add_div_right k (by omega),
        Nat.add_mod_right]
      rfl

end Bytes

end BitRings
