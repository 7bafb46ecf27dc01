import Mathlib.Data.Nat.Digits.Defs
import Mathlib.Tactic.Ring

/-!
# Addition digit by digit

Two numbers are added from their lowest digits on, with a carry from each place to
the next. Read backwards the same relation is subtraction with a borrow. The
digits are little-endian and the base is arbitrary; for an even base the numbers
may also be read in two's complement.
-/
namespace CarryChain

/-- `Adds β as bs c rs c'`: adding the digits of `as` and `bs` place by place, starting
with the carry `c`, delivers the digits `rs` and the carry `c'`. -/
inductive Adds (β : ℕ) : List ℕ → List ℕ → ℕ → List ℕ → ℕ → Prop where
  | nil (c : ℕ) : Adds β [] [] c [] c
  | cons {a b c r c' c'' : ℕ} {as bs rs : List ℕ} (digit : r + β * c' = a + b + c)
      (rest : Adds β as bs c' rs c'') : Adds β (a :: as) (b :: bs) c (r :: rs) c''

/-- Every digit is below the base. -/
def Digits (β : ℕ) (ds : List ℕ) : Prop := ∀ d ∈ ds, d < β

section Adds
variable {β c c' : ℕ} {as bs rs : List ℕ}

theorem Adds.length (h : Adds β as bs c rs c') :
    as.length = rs.length ∧ bs.length = rs.length := by
  induction h with
  | nil c => exact ⟨rfl, rfl⟩
  | cons digit rest ih => simp [ih]

/-- One more place at the high end. -/
theorem Adds.snoc {a b r c'' : ℕ} (h : Adds β as bs c rs c') (digit : r + β * c'' = a + b + c') :
    Adds β (as ++ [a]) (bs ++ [b]) c (rs ++ [r]) c'' := by
  induction h with
  | nil c => exact .cons digit (.nil c'')
  | cons digit' rest ih => exact .cons digit' (ih digit)

/-- Nothing is lost: the digits and the last carry make up the sum. -/
theorem Adds.value (h : Adds β as bs c rs c') :
    Nat.ofDigits β rs + β ^ rs.length * c' = Nat.ofDigits β as + Nat.ofDigits β bs + c := by
  induction h with
  | nil c => simp
  | @cons a b c r c' c'' as bs rs digit rest ih =>
    simp only [Nat.ofDigits_cons, List.length_cons, pow_succ]
    calc r + β * Nat.ofDigits β rs + β ^ rs.length * β * c''
        = r + β * (Nat.ofDigits β rs + β ^ rs.length * c'') := by ring
      _ = r + β * c' + β * (Nat.ofDigits β as + Nat.ofDigits β bs) := by rw [ih]; ring
      _ = a + β * Nat.ofDigits β as + (b + β * Nat.ofDigits β bs) + c := by rw [digit]; ring

theorem Digits.lt (hβ : 1 < β) (h : Digits β rs) : Nat.ofDigits β rs < β ^ rs.length :=
  Nat.ofDigits_lt_base_pow_length hβ h

/-- The digits are those of the sum modulo the range. -/
theorem Adds.result (h : Adds β as bs c rs c') (hβ : 1 < β) (hr : Digits β rs) :
    Nat.ofDigits β rs =
      (Nat.ofDigits β as + Nat.ofDigits β bs + c) % β ^ rs.length := by
  rw [← h.value, Nat.add_mul_mod_self_left, Nat.mod_eq_of_lt (hr.lt hβ)]

/-- The last carry tells whether the sum left the range. -/
theorem Adds.carry (h : Adds β as bs c rs c') (hβ : 1 < β) (hr : Digits β rs) :
    0 < c' ↔ β ^ rs.length ≤ Nat.ofDigits β as + Nat.ofDigits β bs + c := by
  have hlt := hr.lt hβ
  rw [← h.value]
  constructor
  · intro hc
    have hmul := Nat.le_mul_of_pos_right (β ^ rs.length) hc
    omega
  · intro hle
    by_contra hc
    obtain rfl : c' = 0 := by omega
    omega

/-- Read backwards: the digits are those of the difference modulo the range. -/
theorem Adds.difference (h : Adds β rs bs c as c') (hβ : 1 < β) (hr : Digits β rs) :
    ((Nat.ofDigits β rs : ℕ) : ℤ) =
      ((Nat.ofDigits β as : ℕ) - (Nat.ofDigits β bs : ℕ) - c) % ((β ^ rs.length : ℕ) : ℤ) := by
  have hvalue := h.value
  rw [← h.length.1] at hvalue
  have hlt := hr.lt hβ
  have hdiff : ((Nat.ofDigits β as : ℕ) : ℤ) - (Nat.ofDigits β bs : ℕ) - c =
      (Nat.ofDigits β rs : ℕ) + ((β ^ rs.length : ℕ) : ℤ) * -(c' : ℤ) := by
    have hcast := congrArg (Nat.cast : ℕ → ℤ) hvalue
    push_cast at hcast ⊢
    linarith
  rw [hdiff, Int.add_mul_emod_self_left, Int.emod_eq_of_lt (by omega) (by omega)]

/-- The last borrow tells whether the subtrahend was the greater. -/
theorem Adds.borrow (h : Adds β rs bs c as c') (hβ : 1 < β) (hr : Digits β rs) :
    0 < c' ↔ Nat.ofDigits β as < Nat.ofDigits β bs + c := by
  have hvalue := h.value
  have hlt := hr.lt hβ
  rw [h.length.1] at hlt
  constructor
  · intro hc
    have hmul := Nat.le_mul_of_pos_right (β ^ as.length) hc
    omega
  · intro hle
    by_contra hc
    obtain rfl : c' = 0 := by omega
    omega

end Adds

/-! ## Doubling -/

section Doubling
variable {β c c' d : ℕ} {as bs rs : List ℕ}

/-- The digits and the carry that were doubled can be told from the result. -/
theorem Adds.double_inj (h : Adds β as as c rs c') (h' : Adds β bs bs d rs c') (hβ : 1 < β)
    (hc : c ≤ 1) (hd : d ≤ 1) (ha : Digits β as) (hb : Digits β bs) : as = bs ∧ c = d := by
  have hvalue := h.value
  have hvalue' := h'.value
  have hlength : as.length = bs.length := h.length.1.trans h'.length.1.symm
  refine ⟨Nat.ofDigits_inj_of_len_eq hβ hlength ha hb ?_, ?_⟩ <;> omega

/-- The last carry of a doubling is the top bit of what was doubled. -/
theorem Adds.double_carry (h : Adds β as as c rs c') (hβ : 1 < β) (heven : 2 ∣ β)
    (hne : rs ≠ []) (hc : c ≤ 1) (hr : Digits β rs) :
    0 < c' ↔ β ^ rs.length ≤ 2 * Nat.ofDigits β as := by
  obtain ⟨k, hk⟩ : 2 ∣ β ^ rs.length := dvd_pow heven (by simpa using hne)
  rw [h.carry hβ hr]
  omega

/-- Read backwards, the digits are those of the half, and the lowest carry is the
remainder. -/
theorem Adds.half (h : Adds β rs rs c as 0) (hc : c ≤ 1) :
    Nat.ofDigits β rs = Nat.ofDigits β as / 2 ∧ c = Nat.ofDigits β as % 2 := by
  have hvalue := h.value
  omega

end Doubling

/-! ## The same digits in another base

A chain of one base is a chain of another one exactly when no place hands a carry
to the next. -/

/-- Every digit of `rs` is the sum in its own place, with `c` added in the lowest. -/
inductive PlaceSums : List ℕ → List ℕ → ℕ → List ℕ → Prop where
  | nil (c : ℕ) : PlaceSums [] [] c []
  | cons {a b c r : ℕ} {as bs rs : List ℕ} (digit : r = a + b + c)
      (rest : PlaceSums as bs 0 rs) : PlaceSums (a :: as) (b :: bs) c (r :: rs)

/-- No place carries: each sum is a digit, the lowest one with `c` in it. -/
def Carryless (β : ℕ) : List ℕ → List ℕ → ℕ → Prop
  | a :: as, b :: bs, c => a + b + c < β ∧ Carryless β as bs 0
  | _, _, _ => True

/-- No place borrows: each digit of `bs` can be taken away, the lowest one with `c`. -/
def Borrowless : List ℕ → List ℕ → ℕ → Prop
  | a :: as, b :: bs, c => b + c ≤ a ∧ Borrowless as bs 0
  | _, _, _ => True

section Bases
variable {β γ c c' c'' : ℕ} {as bs rs : List ℕ}

theorem digits_cons {d : ℕ} {ds : List ℕ} : Digits β (d :: ds) ↔ d < β ∧ Digits β ds :=
  List.forall_mem_cons

private theorem eq_zero_of_mul_lt {n : ℕ} (h : γ * n < γ) : n = 0 :=
  Nat.lt_one_iff.mp (Nat.lt_of_mul_lt_mul_left (h.trans_eq (Nat.mul_one γ).symm))

theorem Adds.rebase (h : Adds γ as bs c rs c') (hγ : 0 < γ) (hplace : PlaceSums as bs c rs) :
    Adds β as bs c rs c' := by
  induction h with
  | nil c => exact .nil c
  | @cons a b c r c' c'' as bs rs digit rest ih =>
    cases hplace with
    | cons digit' rest' =>
      have hnone : γ * c' < γ := by omega
      obtain rfl := eq_zero_of_mul_lt hnone
      exact .cons (by omega) (ih rest')

theorem PlaceSums.digits (h : PlaceSums as bs c rs) (hr : Digits β rs) : Digits β as := by
  induction h with
  | nil c => exact nofun
  | cons digit rest ih =>
    obtain ⟨hlow, hhigh⟩ := digits_cons.mp hr
    exact digits_cons.mpr ⟨by omega, ih hhigh⟩

/-- Two bases weigh a carry differently, so a chain of both has none. -/
theorem Adds.placeSums (h : Adds γ as bs c rs c') (h' : Adds β as bs c rs c'') (hlt : β < γ)
    (hc : c ≤ 1) (ha : Digits β as) (hb : Digits β bs) : PlaceSums as bs c rs := by
  induction h generalizing c'' with
  | nil c => exact .nil c
  | @cons a b c r c₁ c' as bs rs digit rest ih =>
    cases h' with
    | @cons _ _ _ _ c₂ _ _ _ _ digit' rest' =>
      obtain ⟨haβ, ha⟩ := digits_cons.mp ha
      obtain ⟨hbβ, hb⟩ := digits_cons.mp hb
      have hweigh : γ * c₁ = β * c₂ := by omega
      have hone : c₂ < 2 := by
        have htwice : β * c₂ < β * 2 := by omega
        exact Nat.lt_of_mul_lt_mul_left htwice
      have hmul := Nat.mul_le_mul_left β (show c₂ ≤ 1 by omega)
      have hnone : γ * c₁ < γ := by omega
      obtain rfl := eq_zero_of_mul_lt hnone
      have hnone' : β * c₂ < β := by omega
      obtain rfl := eq_zero_of_mul_lt hnone'
      exact .cons (by omega) (ih rest' (by omega) ha hb)

theorem Adds.carryless_iff (h : Adds γ as bs c rs c') (hle : β ≤ γ) :
    Carryless β as bs c ↔ PlaceSums as bs c rs ∧ Digits β rs := by
  induction h with
  | nil c => exact iff_of_true trivial ⟨.nil c, nofun⟩
  | @cons a b c r c₁ c' as bs rs digit rest ih =>
    rw [Carryless, digits_cons]
    constructor
    · rintro ⟨hsum, hrest⟩
      have hnone : γ * c₁ < γ := by omega
      obtain rfl := eq_zero_of_mul_lt hnone
      obtain ⟨hplace, hdigits⟩ := ih.mp hrest
      exact ⟨.cons (by omega) hplace, by omega, hdigits⟩
    · rintro ⟨hplace, hr, hdigits⟩
      cases hplace with
      | cons digit' rest' =>
        have hnone : γ * c₁ < γ := by omega
        obtain rfl := eq_zero_of_mul_lt hnone
        exact ⟨by omega, ih.mpr ⟨rest', hdigits⟩⟩

/-- Read backwards, the places are those that do not borrow. -/
theorem Adds.borrowless_iff (h : Adds γ rs bs c as c') (hr : Digits γ rs) :
    Borrowless as bs c ↔ PlaceSums rs bs c as := by
  induction h with
  | nil c => exact iff_of_true trivial (.nil c)
  | @cons r b c a c₁ c' rs bs as digit rest ih =>
    obtain ⟨hrγ, hr⟩ := digits_cons.mp hr
    rw [Borrowless]
    constructor
    · rintro ⟨hle, hrest⟩
      have hnone : γ * c₁ < γ := by omega
      obtain rfl := eq_zero_of_mul_lt hnone
      exact .cons (by omega) ((ih hr).mp hrest)
    · rintro (_ | ⟨digit', rest'⟩)
      have hnone : γ * c₁ < γ := by omega
      obtain rfl := eq_zero_of_mul_lt hnone
      exact ⟨by omega, (ih hr).mpr rest'⟩

/-- The digits of a sum modulo the range come from a chain. -/
theorem Adds.of_result (hβ : 1 < β) (hlen : as.length = rs.length) (hlen' : bs.length = rs.length)
    (hr : Digits β rs)
    (h : Nat.ofDigits β rs = (Nat.ofDigits β as + Nat.ofDigits β bs + c) % β ^ rs.length) :
    ∃ c', Adds β as bs c rs c' := by
  induction rs generalizing as bs c with
  | nil =>
    obtain rfl := List.eq_nil_of_length_eq_zero hlen
    obtain rfl := List.eq_nil_of_length_eq_zero hlen'
    exact ⟨c, .nil c⟩
  | cons r rs ih =>
    obtain ⟨a, as, rfl⟩ := List.exists_cons_of_length_eq_add_one hlen
    obtain ⟨b, bs, rfl⟩ := List.exists_cons_of_length_eq_add_one hlen'
    obtain ⟨hrβ, hr⟩ := digits_cons.mp hr
    have hsum : Nat.ofDigits β (a :: as) + Nat.ofDigits β (b :: bs) + c =
        (a + b + c) + β * (Nat.ofDigits β as + Nat.ofDigits β bs) := by
      rw [Nat.ofDigits_cons, Nat.ofDigits_cons]
      ring
    rw [hsum, Nat.ofDigits_cons, List.length_cons, Nat.pow_succ', Nat.mod_mul,
      Nat.add_mul_mod_self_left, Nat.add_mul_div_left _ _ (by omega)] at h
    have hlow : r = (a + b + c) % β := by
      have hmod := congrArg (· % β) h
      simpa [Nat.mod_eq_of_lt hrβ] using hmod
    have hhigh : Nat.ofDigits β rs =
        (Nat.ofDigits β as + Nat.ofDigits β bs + (a + b + c) / β) % β ^ rs.length := by
      rw [← hlow] at h
      rw [Nat.add_comm _ ((a + b + c) / β)]
      exact Nat.eq_of_mul_eq_mul_left (by omega) (Nat.add_left_cancel h)
    obtain ⟨c', hrest⟩ := ih (by simpa using hlen) (by simpa using hlen') hr hhigh
    refine ⟨c', .cons ?_ hrest⟩
    rw [hlow]
    exact Nat.mod_add_div _ _

/-- So do the digits of a difference, read backwards. -/
theorem Adds.of_difference (hβ : 1 < β) (hlen : as.length = rs.length)
    (hlen' : bs.length = rs.length) (ha : Digits β as)
    (h : ((Nat.ofDigits β rs : ℕ) : ℤ) = ((Nat.ofDigits β as : ℕ) - (Nat.ofDigits β bs : ℕ) - c) %
      ((β ^ rs.length : ℕ) : ℤ)) :
    ∃ c', Adds β rs bs c as c' := by
  refine Adds.of_result hβ hlen.symm (hlen'.trans hlen.symm) ha ?_
  have hlt := ha.lt hβ
  have hback : ((Nat.ofDigits β rs : ℕ) + (Nat.ofDigits β bs : ℕ) + c : ℤ) %
      ((β ^ rs.length : ℕ) : ℤ) = (Nat.ofDigits β as : ℕ) % ((β ^ rs.length : ℕ) : ℤ) := by
    rw [h, Int.add_assoc, Int.emod_add_emod]
    congr 1
    ring
  have hcast : (Nat.ofDigits β rs + Nat.ofDigits β bs + c) % β ^ rs.length =
      Nat.ofDigits β as % β ^ rs.length := by exact_mod_cast hback
  rw [hlen, hcast, Nat.mod_eq_of_lt (by rwa [← hlen])]

end Bases

/-! ## Two's complement -/

/-- The number stands for a negative one: its top bit is set. -/
def Negative (β : ℕ) (ds : List ℕ) : Prop := β ^ ds.length ≤ 2 * Nat.ofDigits β ds

instance (β : ℕ) (ds : List ℕ) : Decidable (Negative β ds) := inferInstanceAs (Decidable (_ ≤ _))

/-- The value of the digits in two's complement. -/
def signed (β : ℕ) (ds : List ℕ) : ℤ :=
  if Negative β ds then (Nat.ofDigits β ds : ℕ) - (β ^ ds.length : ℕ) else (Nat.ofDigits β ds : ℕ)

/-- The values `n` digits can have in two's complement. -/
def InSignedRange (β n : ℕ) (v : ℤ) : Prop :=
  -((β ^ n / 2 : ℕ) : ℤ) ≤ v ∧ v ≤ ((β ^ n / 2 : ℕ) : ℤ) - 1

/-- The sign of a sum or its operands is out of step. -/
def SignOverflow (a b r : Prop) : Prop := ¬a ∧ ¬b ∧ r ∨ a ∧ b ∧ ¬r

section Negative
variable {β d : ℕ} {ds : List ℕ}

theorem negative_singleton : Negative β [d] ↔ β ≤ 2 * d := by
  simp [Negative]

/-- The sign is that of the higher digits. -/
theorem negative_cons (hβ : 2 ∣ β) (hd : d < β) (hne : ds ≠ []) :
    Negative β (d :: ds) ↔ Negative β ds := by
  obtain ⟨e, es, rfl⟩ := List.exists_cons_of_ne_nil hne
  obtain ⟨k, hk⟩ : 2 ∣ β ^ (e :: es).length := dvd_pow hβ (by simp)
  have hpos : 0 < β := Nat.zero_lt_of_lt hd
  rw [Negative, Negative, List.length_cons, pow_succ, Nat.ofDigits_cons, hk]
  generalize Nat.ofDigits β (e :: es) = n
  constructor
  · intro h
    have hle : k * β ≤ d + n * β := by linarith
    have hlt : k * β < (n + 1) * β := by linarith
    have hkn := Nat.lt_of_mul_lt_mul_right hlt
    omega
  · intro h
    have hkn : k ≤ n := by omega
    have hmul := Nat.mul_le_mul_right β hkn
    linarith

end Negative

theorem signed_cases (β : ℕ) (ds : List ℕ) :
    Negative β ds ∧ signed β ds = (Nat.ofDigits β ds : ℕ) - (β ^ ds.length : ℕ) ∨
      ¬Negative β ds ∧ signed β ds = (Nat.ofDigits β ds : ℕ) := by
  unfold signed
  split_ifs with h
  · exact .inl ⟨h, rfl⟩
  · exact .inr ⟨h, rfl⟩

section Signed
variable {β c c' : ℕ} {as bs rs : List ℕ}

private theorem Adds.overflow_and_range (h : Adds β as bs c rs c') (hβ : 1 < β) (heven : 2 ∣ β)
    (hne : rs ≠ []) (hc : c ≤ 1) (ha : Digits β as) (hb : Digits β bs) (hr : Digits β rs) :
    (SignOverflow (Negative β as) (Negative β bs) (Negative β rs) ↔
        ¬InSignedRange β rs.length (signed β as + signed β bs + c)) ∧
      (InSignedRange β rs.length (signed β as + signed β bs + c) ↔
        InSignedRange β rs.length (signed β rs - signed β bs - c)) := by
  obtain ⟨hlenA, hlenB⟩ := h.length
  have hA := ha.lt hβ
  have hB := hb.lt hβ
  have hR := hr.lt hβ
  have hvalue := h.value
  obtain ⟨k, hk⟩ : 2 ∣ β ^ rs.length := dvd_pow heven (by simpa using hne)
  have hsA := signed_cases β as
  have hsB := signed_cases β bs
  have hsR := signed_cases β rs
  simp only [SignOverflow, InSignedRange, Negative, hlenA, hlenB] at *
  generalize β ^ rs.length = m at *
  have hc' : c' ≤ 1 := by
    by_contra hbig
    have hmul := Nat.mul_le_mul_left m (show 2 ≤ c' by omega)
    omega
  -- a carry out is 0 or 1, which makes the value equation linear
  obtain rfl | rfl : c' = 0 ∨ c' = 1 := by omega
  all_goals constructor <;> omega

/-- The signs tell whether a sum in two's complement left the range. -/
theorem Adds.overflow (h : Adds β as bs c rs c') (hβ : 1 < β) (heven : 2 ∣ β)
    (hne : rs ≠ []) (hc : c ≤ 1) (ha : Digits β as) (hb : Digits β bs) (hr : Digits β rs) :
    SignOverflow (Negative β as) (Negative β bs) (Negative β rs) ↔
      ¬InSignedRange β rs.length (signed β as + signed β bs + c) :=
  (h.overflow_and_range hβ heven hne hc ha hb hr).1

/-- Read backwards, they tell the same of the difference. -/
theorem Adds.overflow_difference (h : Adds β as bs c rs c') (hβ : 1 < β) (heven : 2 ∣ β)
    (hne : rs ≠ []) (hc : c ≤ 1) (ha : Digits β as) (hb : Digits β bs) (hr : Digits β rs) :
    SignOverflow (Negative β as) (Negative β bs) (Negative β rs) ↔
      ¬InSignedRange β rs.length (signed β rs - signed β bs - c) := by
  obtain ⟨hoverflow, hrange⟩ := h.overflow_and_range hβ heven hne hc ha hb hr
  rw [hoverflow, hrange]

end Signed

end CarryChain
