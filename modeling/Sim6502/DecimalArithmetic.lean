import Sim6502.MultiByteArithmetic

/-!
# Chains over packed decimal numbers

Neither `ADC` nor `SBC` looks at the `D` flag. A chain over packed decimal numbers
adds their nibbles in base 16, and its cells hold the decimal result exactly when
no decimal digit carries or borrows.
-/
namespace Sim6502
open EventComputation CPU6502 CarryChain

/-- The nibbles of the bytes, lowest first. -/
def nibbles : List ℕ → List ℕ
  | [] => []
  | byte :: bytes => byte % 16 :: byte / 16 :: nibbles bytes

/-- Every nibble is a decimal digit. -/
def PackedDecimal (bytes : List ℕ) : Prop := Digits 10 (nibbles bytes)

instance (bytes : List ℕ) : Decidable (PackedDecimal bytes) :=
  inferInstanceAs (Decidable (∀ _ ∈ _, _))

/-- The number that packed decimal bytes stand for. -/
def packedValue (bytes : List ℕ) : ℕ := Nat.ofDigits 10 (nibbles bytes)

section Nibbles
variable {as bs rs bytes : List ℕ} {c c' : ℕ}

theorem length_nibbles (bytes : List ℕ) : (nibbles bytes).length = 2 * bytes.length := by
  induction bytes with
  | nil => rfl
  | cons byte bytes ih =>
    simp only [nibbles, List.length_cons, ih]
    omega

theorem range_nibbles (bytes : List ℕ) : 10 ^ (nibbles bytes).length = 100 ^ bytes.length := by
  rw [length_nibbles, pow_mul, show 10 ^ 2 = 100 from rfl]

/-- A chain of bytes is a chain of nibbles. -/
theorem adds_nibbles (h : Adds 256 as bs c rs c') :
    Adds 16 (nibbles as) (nibbles bs) c (nibbles rs) c' := by
  induction h with
  | nil c => exact .nil c
  | @cons a b c r c₁ c' as bs rs digit rest ih =>
    have hlow : r % 16 + 16 * ((a % 16 + b % 16 + c) / 16) = a % 16 + b % 16 + c := by omega
    have hhigh : r / 16 + 16 * c₁ = a / 16 + b / 16 + (a % 16 + b % 16 + c) / 16 := by omega
    exact .cons hlow (.cons hhigh ih)

theorem digits_nibbles (h : Digits 256 bytes) : Digits 16 (nibbles bytes) := by
  induction bytes with
  | nil => exact nofun
  | cons byte bytes ih =>
    obtain ⟨hbyte, hrest⟩ := digits_cons.mp h
    exact digits_cons.mpr ⟨by omega, digits_cons.mpr ⟨by omega, ih hrest⟩⟩

theorem length_nibbles_eq (h : as.length = bs.length) :
    (nibbles as).length = (nibbles bs).length := by
  rw [length_nibbles, length_nibbles, h]

/-- A chain delivers the packed sum and its carry exactly when no digit carries. -/
theorem packed_sum_iff (h : Adds 256 as bs c rs c') (hc : c ≤ 1) (ha : PackedDecimal as)
    (hb : PackedDecimal bs) :
    (PackedDecimal rs ∧
        packedValue rs = (packedValue as + packedValue bs + c) % 100 ^ rs.length) ∧
      (0 < c' ↔ 100 ^ rs.length ≤ packedValue as + packedValue bs + c) ↔
    Carryless 10 (nibbles as) (nibbles bs) c := by
  have hnibbles := adds_nibbles h
  rw [hnibbles.carryless_iff (by omega), ← range_nibbles]
  constructor
  · rintro ⟨⟨hpacked, hvalue⟩, -⟩
    obtain ⟨c'', hdecimal⟩ := Adds.of_result (by omega) (length_nibbles_eq h.length.1)
      (length_nibbles_eq h.length.2) hpacked hvalue
    exact ⟨hnibbles.placeSums hdecimal (by omega) hc ha hb, hpacked⟩
  · rintro ⟨hplace, hpacked⟩
    have hdecimal : Adds 10 _ _ c _ c' := hnibbles.rebase (by omega) hplace
    exact ⟨⟨hpacked, hdecimal.result (by omega) hpacked⟩, hdecimal.carry (by omega) hpacked⟩

/-- Read backwards, it delivers the packed difference and its borrow exactly when no
digit borrows. -/
theorem packed_difference_iff (h : Adds 256 rs bs c as c') (hc : c ≤ 1) (hr : Digits 256 rs)
    (ha : PackedDecimal as) (hb : PackedDecimal bs) :
    (PackedDecimal rs ∧ ((packedValue rs : ℕ) : ℤ) =
        ((packedValue as : ℕ) - (packedValue bs : ℕ) - c) % ((100 ^ rs.length : ℕ) : ℤ)) ∧
      (0 < c' ↔ packedValue as < packedValue bs + c) ↔
    Borrowless (nibbles as) (nibbles bs) c := by
  have hnibbles := adds_nibbles h
  rw [hnibbles.borrowless_iff (digits_nibbles hr), ← range_nibbles]
  have hlen := length_nibbles_eq h.length.1
  have hlen' := length_nibbles_eq h.length.2
  constructor
  · rintro ⟨⟨hpacked, hvalue⟩, -⟩
    obtain ⟨c'', hdecimal⟩ := Adds.of_difference (by omega) hlen.symm (hlen'.trans hlen.symm)
      ha hvalue
    exact hnibbles.placeSums hdecimal (by omega) hc hpacked hb
  · intro hplace
    have hdecimal : Adds 10 _ _ c _ c' := hnibbles.rebase (by omega) hplace
    have hpacked : PackedDecimal rs := hplace.digits ha
    exact ⟨⟨hpacked, hdecimal.difference (by omega) hpacked⟩,
      hdecimal.borrow (by omega) hpacked⟩

end Nibbles

/-! ## Chains in decimal mode -/

/-- The cells hold the packed sum, and `C` tells that it left the range. -/
def AddsPacked (cpu t : CPU6502) (bytes : List (ByteStep .add)) : Prop :=
  (PackedDecimal (results t bytes) ∧
    packedValue (results t bytes) =
      (packedValue (lefts cpu bytes) + packedValue (rights cpu bytes) +
        (cpu.P.getBit .carry).toNat) % 100 ^ bytes.length) ∧
  (t.P.getBit .carry = true ↔
    100 ^ bytes.length ≤ packedValue (lefts cpu bytes) + packedValue (rights cpu bytes) +
      (cpu.P.getBit .carry).toNat)

/-- The cells hold the packed difference, and `C` tells that nothing was borrowed. -/
def SubtractsPacked (cpu t : CPU6502) (bytes : List (ByteStep .subtract)) : Prop :=
  (PackedDecimal (results t bytes) ∧
    (packedValue (results t bytes) : ℤ) =
      (packedValue (lefts cpu bytes) - packedValue (rights cpu bytes) -
        (!cpu.P.getBit .carry).toNat) % ((100 ^ bytes.length : ℕ) : ℤ)) ∧
  (t.P.getBit .carry = true ↔
    packedValue (rights cpu bytes) + (!cpu.P.getBit .carry).toNat ≤
      packedValue (lefts cpu bytes))

theorem addsPacked_iff {cpu t : CPU6502} {bytes : List (ByteStep .add)}
    (effect : ChainEffect bytes cpu t) (ha : PackedDecimal (lefts cpu bytes))
    (hb : PackedDecimal (rights cpu bytes)) :
    AddsPacked cpu t bytes ↔
      Carryless 10 (nibbles (lefts cpu bytes)) (nibbles (rights cpu bytes))
        (cpu.P.getBit .carry).toNat := by
  have hadds : Adds 256 (lefts cpu bytes) (rights cpu bytes) (cpu.P.getBit .carry).toNat
      (results t bytes) (t.P.getBit .carry).toNat := effect.adds
  have hpacked := packed_sum_iff hadds (Bool.toNat_le _) ha hb
  rw [length_results, toNat_pos_iff] at hpacked
  exact hpacked

theorem subtractsPacked_iff {cpu t : CPU6502} {bytes : List (ByteStep .subtract)}
    (effect : ChainEffect bytes cpu t) (ha : PackedDecimal (lefts cpu bytes))
    (hb : PackedDecimal (rights cpu bytes)) :
    SubtractsPacked cpu t bytes ↔
      Borrowless (nibbles (lefts cpu bytes)) (nibbles (rights cpu bytes))
        (!cpu.P.getBit .carry).toNat := by
  have hadds : Adds 256 (results t bytes) (rights cpu bytes) (!cpu.P.getBit .carry).toNat
      (lefts cpu bytes) (!t.P.getBit .carry).toNat := effect.adds
  have hpacked := packed_difference_iff hadds (Bool.toNat_le _) (digits_map bytes _) ha hb
  rw [length_results, toNat_pos_iff] at hpacked
  rw [← hpacked, SubtractsPacked, carry_iff_of_borrow]

/-- An addition obeys decimal arithmetic exactly when no digit carries, a subtraction
exactly when no digit borrows. Neither body reads `D`, so its state makes no difference. -/
theorem decimal_arithmetic (cpu : CPU6502) :
    (∀ bytes : List (ByteStep .add), (∀ b ∈ bytes, b.Inside cpu.memory.size) → Apart bytes →
      PackedDecimal (lefts cpu bytes) → PackedDecimal (rights cpu bytes) →
      ∃ t events, (chain bytes).run cpu = ⟨.ok (), t, events⟩ ∧
        (AddsPacked cpu t bytes ↔
          Carryless 10 (nibbles (lefts cpu bytes)) (nibbles (rights cpu bytes))
            (cpu.P.getBit .carry).toNat)) ∧
    ∀ bytes : List (ByteStep .subtract), (∀ b ∈ bytes, b.Inside cpu.memory.size) → Apart bytes →
      PackedDecimal (lefts cpu bytes) → PackedDecimal (rights cpu bytes) →
      ∃ t events, (chain bytes).run cpu = ⟨.ok (), t, events⟩ ∧
        (SubtractsPacked cpu t bytes ↔
          Borrowless (nibbles (lefts cpu bytes)) (nibbles (rights cpu bytes))
            (!cpu.P.getBit .carry).toNat) := by
  constructor
  · intro bytes inside apart ha hb
    obtain ⟨t, events, hrun, heffect⟩ := run_chain bytes inside apart
    exact ⟨t, events, hrun, addsPacked_iff heffect ha hb⟩
  · intro bytes inside apart ha hb
    obtain ⟨t, events, hrun, heffect⟩ := run_chain bytes inside apart
    exact ⟨t, events, hrun, subtractsPacked_iff heffect ha hb⟩

/-- Decimal mode with `68` at `0x10`, `21` at `0x20` and nothing in the cells above. -/
def holdsDecimals : CPU6502 :=
  { CPU6502.initial (.ofProgram (List.replicate 0x10 0 ++ [0x68] ++ List.replicate 0xF 0 ++
    [0x21])) false with P := PSR.initial.setBit .decimalMode true }

theorem decimal_arithmetic_holdsDecimals :
    (∃ t events, (chain (twoBytes .add adcZeroPage)).run holdsDecimals = ⟨.ok (), t, events⟩ ∧
        AddsPacked holdsDecimals t (twoBytes .add adcZeroPage)) ∧
      ∃ t events, (chain (twoBytes .subtract sbcZeroPage)).run holdsDecimals =
          ⟨.ok (), t, events⟩ ∧
        SubtractsPacked holdsDecimals t (twoBytes .subtract sbcZeroPage) := by
  obtain ⟨hadd, hsubtract⟩ := decimal_arithmetic holdsDecimals
  obtain ⟨t, events, hrun, hsum⟩ := hadd (twoBytes .add adcZeroPage) (inside_twoBytes _ _)
    (apart_twoBytes _ _) (by decide) (by decide)
  obtain ⟨u, later, hrun', hdifference⟩ := hsubtract (twoBytes .subtract sbcZeroPage)
    (inside_twoBytes _ _) (apart_twoBytes _ _) (by decide) (by decide)
  refine ⟨⟨t, events, hrun, hsum.mpr ?_⟩, u, later, hrun', hdifference.mpr ?_⟩
  · exact ⟨by decide, by decide, by decide, by decide, trivial⟩
  · exact ⟨by decide, by decide, by decide, by decide, trivial⟩

/-- Decimal mode with `5` in both numbers. -/
def holdsFives : CPU6502 :=
  { CPU6502.initial (.ofProgram (List.replicate 0x10 0 ++ [0x05] ++ List.replicate 0xF 0 ++
    [0x05])) false with P := PSR.initial.setBit .decimalMode true }

/-- The sum of two fives is stored as `0x0A`, which is no packed decimal number. -/
theorem holdsFives_adds_binary :
    ¬∀ cpu : CPU6502, cpu.P.getBit .decimalMode = true →
      (∀ bytes : List (ByteStep .add), bytes ≠ [] →
        (∀ b ∈ bytes, b.Inside cpu.memory.size) → Apart bytes →
        PackedDecimal (lefts cpu bytes) → PackedDecimal (rights cpu bytes) →
        ∃ t events, (chain bytes).run cpu = ⟨.ok (), t, events⟩ ∧ AddsPacked cpu t bytes) ∧
      ∀ bytes : List (ByteStep .subtract), bytes ≠ [] →
        (∀ b ∈ bytes, b.Inside cpu.memory.size) → Apart bytes →
        PackedDecimal (lefts cpu bytes) → PackedDecimal (rights cpu bytes) →
        ∃ t events, (chain bytes).run cpu = ⟨.ok (), t, events⟩ ∧
          SubtractsPacked cpu t bytes := by
  intro h
  obtain ⟨t, events, hrun, ⟨hpacked, -⟩, -⟩ := (h holdsFives (by decide)).1
    (twoBytes .add adcZeroPage) (by simp [twoBytes]) (inside_twoBytes _ _) (apart_twoBytes _ _)
    (by decide) (by decide)
  have hstate : t = ((chain (twoBytes .add adcZeroPage)).run holdsFives).state := by rw [hrun]
  rw [hstate] at hpacked
  revert hpacked
  decide +kernel

end Sim6502
