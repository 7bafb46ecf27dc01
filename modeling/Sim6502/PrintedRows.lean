import Mathlib.Data.List.Basic
import Mathlib.Data.Nat.Notation

/-!
# Numerals and rows

What a printed table is read back with. A number comes back from its numeral, however
many zeros are in front; a list that is cut into rows is its rows one after the other.
-/
namespace PrintedRows

/-! ## Numerals -/

section Numerals
variable {b : ℕ} {value : Char → Option ℕ}

/-- The number whose numeral goes on from `n` with these characters, if all are digits. -/
def readNumeral (b : ℕ) (value : Char → Option ℕ) (n : ℕ) (chars : List Char) : Option ℕ :=
  chars.foldlM (fun n c => (value c).map fun d => b * n + d) n

theorem readNumeral_cons (n : ℕ) (c : Char) (chars : List Char) :
    readNumeral b value n (c :: chars) =
      ((value c).map fun d => b * n + d).bind fun m => readNumeral b value m chars := rfl

theorem readNumeral_append (n : ℕ) (chars later : List Char) :
    readNumeral b value n (chars ++ later) =
      (readNumeral b value n chars).bind fun m => readNumeral b value m later :=
  List.foldlM_append

theorem readNumeral_digit {d : ℕ} (h : value d.digitChar = some d) (n : ℕ) :
    readNumeral b value n [d.digitChar] = some (b * n + d) := by
  rw [readNumeral_cons, h]
  rfl

/-- The last digit comes off the end. -/
theorem readNumeral_toDigits (hb : 1 < b) (hvalue : ∀ d < b, value d.digitChar = some d) (n : ℕ) :
    readNumeral b value 0 (Nat.toDigits b n) = some n := by
  induction n using Nat.strongRecOn with
  | ind n ih =>
    rw [Nat.toDigits_eq_if hb]
    split
    next hlt =>
      rw [readNumeral_digit (hvalue n hlt), Nat.mul_zero, Nat.zero_add]
    next hge =>
      have hmod : n % b < b := Nat.mod_lt n (by omega)
      have hsmaller : n / b < n := Nat.div_lt_self (by omega) hb
      rw [readNumeral_append, ih _ hsmaller, Option.bind_some, readNumeral_digit (hvalue _ hmod),
        Nat.div_add_mod]

theorem readNumeral_zeros (hzero : value '0' = some 0) (k : ℕ) (chars : List Char) :
    readNumeral b value 0 (List.replicate k '0' ++ chars) = readNumeral b value 0 chars := by
  induction k with
  | zero => rfl
  | succ k ih =>
    rw [List.replicate_succ, List.cons_append, readNumeral_cons, hzero]
    exact ih

theorem isSome_of_readNumeral {n m : ℕ} {chars : List Char}
    (h : readNumeral b value n chars = some m) : ∀ c ∈ chars, (value c).isSome := by
  induction chars generalizing n with
  | nil => simp
  | cons c chars ih =>
    rw [readNumeral_cons] at h
    obtain ⟨k, hk, hrest⟩ := Option.bind_eq_some_iff.mp h
    obtain ⟨d, hd, -⟩ := Option.map_eq_some_iff.mp hk
    intro e he
    rcases List.mem_cons.mp he with rfl | he
    · simp [hd]
    · exact ih hrest e he

end Numerals

/-! ## Rows -/

section Rows
variable {α : Type} {width : ℕ}

/-- The rows of a list, of one width but for the last. -/
def rows (width : ℕ) (l : List α) : List (List α) :=
  (List.range ((l.length + (width - 1)) / width)).map fun k => (l.drop (width * k)).take width

theorem rows_nil (hwidth : 0 < width) : rows width ([] : List α) = [] := by
  have hzero : (0 + (width - 1)) / width = 0 := Nat.div_eq_of_lt (by omega)
  rw [rows, List.length_nil, hzero]
  rfl

/-- The first row and the others. -/
theorem rows_eq_cons (hwidth : 0 < width) {l : List α} (h : l ≠ []) :
    rows width l = l.take width :: rows width (l.drop width) := by
  have hlength : 0 < l.length := List.length_pos_of_ne_nil h
  have hcount : (l.length + (width - 1)) / width =
      (l.length - width + (width - 1)) / width + 1 := by
    rw [← Nat.add_div_right _ hwidth]
    rcases Nat.le_total width l.length with hle | hle
    · congr 1
      omega
    · have hfull : (l.length + (width - 1)) / width = 1 :=
        Nat.div_eq_of_lt_le (by omega) (by omega)
      have hone : (l.length - width + (width - 1) + width) / width = 1 :=
        Nat.div_eq_of_lt_le (by omega) (by omega)
      rw [hfull, hone]
  rw [rows, hcount, List.range_succ_eq_map, List.map_cons, List.map_map, rows, List.length_drop]
  congr 1
  apply List.map_congr_left
  intro k _
  rw [Function.comp_apply, List.drop_drop, Nat.mul_succ, Nat.add_comm]

theorem flatten_rows (hwidth : 0 < width) (l : List α) : (rows width l).flatten = l := by
  induction hn : l.length using Nat.strongRecOn generalizing l with
  | ind n ih =>
    by_cases h : l = []
    · rw [h, rows_nil hwidth]
      rfl
    · have hlength : 0 < l.length := List.length_pos_of_ne_nil h
      have hshorter : (l.drop width).length < n := by
        rw [List.length_drop]
        omega
      rw [rows_eq_cons hwidth h, List.flatten_cons, ih _ hshorter _ rfl]
      exact List.take_append_drop width l

end Rows

end PrintedRows
