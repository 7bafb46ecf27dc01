import Sim6502.MemoryDumps

/-!
# Register dumps

The text of `DUMP` is read back from its characters alone. Blanks, line ends, brackets and
commas keep its words apart; the labels stay what they are, and what stands behind each of
them is the numeral of a register in the base that the stream has there.
-/
namespace Sim6502
open EventComputation CPU6502 SeparatedTokens PrintedRows
namespace Debugger

/-! ## Reading a dump -/

def isDumpGap (c : Char) : Bool := c = ' ' || c = '\n' || c = '(' || c = ')' || c = ','

def decimalDigit (c : Char) : Option ℕ :=
  if '0' ≤ c ∧ c ≤ '9' then some (c.toNat - '0'.toNat) else none

def binaryDigit (c : Char) : Option ℕ :=
  if c = '0' then some 0 else if c = '1' then some 1 else none

def readDecimal (chars : List Char) : Option ℕ := readNumeral 10 decimalDigit 0 chars

/-- A minus sign may be in front. -/
def readSigned : List Char → Option ℤ
  | '-' :: chars => (readDecimal chars).map fun n => -(n : ℤ)
  | chars => (readDecimal chars).map fun n => (n : ℤ)

def readBits (chars : List Char) : Option ℕ := readNumeral 2 binaryDigit 0 chars

/-- What a dump shows: the accumulator three times, and the other registers. -/
structure ShownRegisters where
  hexA : ℕ
  unsignedA : ℕ
  signedA : ℤ
  X : ℕ
  Y : ℕ
  S : ℕ
  PC : ℕ
  P : ℕ
  deriving DecidableEq

/-- The words of a dump that are always the same. -/
def dumpLabels : List (List Char) :=
  ["format:".toList, "HEX".toList, "UNSIGNED".toList, "SIGNED".toList, "A:".toList, "X:".toList,
    "Y:".toList, "S:".toList, "PC:".toList, "P:".toList, "NV".toList, "BDIZC".toList]

def readRegisters (text : List Char) : Option ShownRegisters :=
  match tokens isDumpGap text with
  | [format, hex, unsigned, signed, labelA, hexA, unsignedA, signedA, labelX, x, labelY, y, labelS,
      s, labelPC, pc, labelP, p, flagsNV, flagsBDIZC] =>
    if [format, hex, unsigned, signed, labelA, labelX, labelY, labelS, labelPC, labelP, flagsNV,
        flagsBDIZC] = dumpLabels then do
      let hexA ← readHex hexA
      let unsignedA ← readDecimal unsignedA
      let signedA ← readSigned signedA
      let x ← readDecimal x
      let y ← readDecimal y
      let s ← readDecimal s
      let pc ← readHex pc
      let p ← readBits p
      return ⟨hexA, unsignedA, signedA, x, y, s, pc, p⟩
    else none
  | _ => none

/-- What there is to see. -/
def shownRegisters (cpu : CPU6502) : ShownRegisters where
  hexA := cpu.A.toNat
  unsignedA := cpu.A.toNat
  signedA := cpu.A.toInt
  X := cpu.X.toNat
  Y := cpu.Y.toNat
  S := cpu.S.toNat
  PC := cpu.PC.toNat
  P := cpu.P.get.toNat

/-! ## Numerals of the dump -/

theorem decimalDigit_digitChar {d : ℕ} (h : d < 10) : decimalDigit d.digitChar = some d := by
  have hall : ∀ d : Fin 10, decimalDigit (d : ℕ).digitChar = some (d : ℕ) := by decide
  exact hall ⟨d, h⟩

theorem readDecimal_decimal (n : ℕ) : readDecimal (decimal n) = some n :=
  readNumeral_toDigits (by decide) (fun _ hd => decimalDigit_digitChar hd) n

theorem readHex_hex (n : ℕ) : readHex (hex n) = some n :=
  readNumeral_toDigits (by decide) (fun _ hd => hexDigit_digitChar hd) n

theorem readBits_bits (b : Byte) : readBits (bits b) = some b.toNat := by
  revert b
  decide +kernel

/-- `std::ostream << int`. -/
def signedText (z : ℤ) : List Char := (toString z).toList

theorem signedText_ofNat (n : ℕ) : signedText (n : ℤ) = decimal n := by
  simp [signedText, decimal, Int.toString_eq_repr, Int.repr, Nat.repr]

theorem signedText_negSucc (n : ℕ) :
    signedText (Int.negSucc n) = '-' :: decimal (n + 1) := by
  simp [signedText, decimal, Int.toString_eq_repr, Int.repr, Nat.repr]

theorem decimal_ne_nil (n : ℕ) : decimal n ≠ [] :=
  List.ne_nil_of_length_pos Nat.length_toDigits_pos

theorem hex_ne_nil (n : ℕ) : hex n ≠ [] :=
  List.ne_nil_of_length_pos Nat.length_toDigits_pos

theorem isSome_decimalDigit {n : ℕ} : ∀ c ∈ decimal n, (decimalDigit c).isSome :=
  isSome_of_readNumeral (readDecimal_decimal n)

theorem readSigned_of_head {chars : List Char} (h : chars.head? ≠ some '-') :
    readSigned chars = (readDecimal chars).map fun n => (n : ℤ) := by
  unfold readSigned
  split
  · exact absurd rfl h
  · rfl

theorem readSigned_signedText (z : ℤ) : readSigned (signedText z) = some z := by
  cases z with
  | ofNat n =>
    have hhead : (decimal n).head? ≠ some '-' := by
      intro hminus
      have hdigit := isSome_decimalDigit '-' (List.mem_of_mem_head? hminus)
      cases hdigit
    rw [Int.ofNat_eq_natCast, signedText_ofNat, readSigned_of_head hhead, readDecimal_decimal]
    rfl
  | negSucc n =>
    rw [signedText_negSucc, readSigned, readDecimal_decimal]
    rfl

/-! ## The layout of the dump -/

/-- A gap, and a word between gaps, whose characters can be looked at. -/
def gapOf (chars : List Char) (h : chars ≠ [] ∧ chars.all isDumpGap = true) : Gap isDumpGap :=
  ⟨chars, h.1, fun c hc => List.all_eq_true.mp h.2 c hc⟩

def wordOf (chars : List Char) (h : chars ≠ [] ∧ chars.all (fun c => !isDumpGap c) = true) :
    Token isDumpGap :=
  ⟨chars, h.1, fun c hc => by simpa using List.all_eq_true.mp h.2 c hc⟩

theorem isDumpGap_eq_false {c : Char} {value : Char → Option ℕ} (hdigit : (value c).isSome)
    (hgaps : value ' ' = none ∧ value '\n' = none ∧ value '(' = none ∧ value ')' = none ∧
      value ',' = none) : isDumpGap c = false := by
  obtain ⟨hblank, hend, hopen, hclose, hcomma⟩ := hgaps
  by_contra hgap
  simp only [isDumpGap, Bool.not_eq_false, Bool.or_eq_true, decide_eq_true_eq] at hgap
  rcases hgap with (((rfl | rfl) | rfl) | rfl) | rfl <;> simp_all

def hexToken (n : ℕ) : Token isDumpGap where
  chars := hex n
  ne_nil := hex_ne_nil n
  solid c hc := isDumpGap_eq_false (isSome_of_readNumeral (readHex_hex n) c hc) (by decide)

def decimalToken (n : ℕ) : Token isDumpGap where
  chars := decimal n
  ne_nil := decimal_ne_nil n
  solid c hc := isDumpGap_eq_false (isSome_decimalDigit c hc) (by decide)

def bitsToken (b : Byte) : Token isDumpGap where
  chars := bits b
  ne_nil := List.cons_ne_nil _ _
  solid c hc := isDumpGap_eq_false (isSome_of_readNumeral (readBits_bits b) c hc) (by decide)

def signedToken (z : ℤ) : Token isDumpGap where
  chars := signedText z
  ne_nil := by
    cases z with
    | ofNat n =>
      rw [Int.ofNat_eq_natCast, signedText_ofNat]
      exact decimal_ne_nil n
    | negSucc n =>
      rw [signedText_negSucc]
      exact List.cons_ne_nil _ _
  solid := by
    intro c hc
    cases z with
    | ofNat n =>
      rw [Int.ofNat_eq_natCast, signedText_ofNat] at hc
      exact isDumpGap_eq_false (isSome_decimalDigit c hc) (by decide)
    | negSucc n =>
      rw [signedText_negSucc] at hc
      rcases List.mem_cons.mp hc with rfl | hc
      · rfl
      · exact isDumpGap_eq_false (isSome_decimalDigit c hc) (by decide)

/-- The words behind the first one, with what is in front of each. -/
def dumpParts (cpu : CPU6502) : List (Gap isDumpGap × Token isDumpGap) :=
  [(gapOf " ".toList (by decide), wordOf "HEX".toList (by decide)),
    (gapOf " (".toList (by decide), wordOf "UNSIGNED".toList (by decide)),
    (gapOf ", ".toList (by decide), wordOf "SIGNED".toList (by decide)),
    (gapOf ")\n".toList (by decide), wordOf "A:".toList (by decide)),
    (gapOf "  ".toList (by decide), hexToken cpu.A.toNat),
    (gapOf " (".toList (by decide), decimalToken cpu.A.toNat),
    (gapOf ", ".toList (by decide), signedToken (twosComplement cpu.A)),
    (gapOf ")\n".toList (by decide), wordOf "X:".toList (by decide)),
    (gapOf "  ".toList (by decide), decimalToken cpu.X.toNat),
    (gapOf "\n".toList (by decide), wordOf "Y:".toList (by decide)),
    (gapOf "  ".toList (by decide), decimalToken cpu.Y.toNat),
    (gapOf "\n".toList (by decide), wordOf "S:".toList (by decide)),
    (gapOf "  ".toList (by decide), decimalToken cpu.S.toNat),
    (gapOf "\n".toList (by decide), wordOf "PC:".toList (by decide)),
    (gapOf " ".toList (by decide), hexToken cpu.PC.toNat),
    (gapOf "\n".toList (by decide), wordOf "P:".toList (by decide)),
    (gapOf "  ".toList (by decide), bitsToken cpu.P.get),
    (gapOf "\n    ".toList (by decide), wordOf "NV".toList (by decide)),
    (gapOf " ".toList (by decide), wordOf "BDIZC".toList (by decide))]

theorem dumpText_eq (cpu : CPU6502) :
    dumpText cpu = ("format:".toList ++ spaced (dumpParts cpu)) ++ "\n".toList := by
  unfold dumpText
  simp only [dumpParts, spaced_cons, List.append_assoc]
  rfl

/-! ## A dump is read back -/

theorem tokens_dumpText (cpu : CPU6502) :
    tokens isDumpGap (dumpText cpu) =
      "format:".toList :: (dumpParts cpu).map fun part => part.2.chars := by
  have hformat : tokens isDumpGap "format:".toList = ["format:".toList] :=
    (wordOf "format:".toList (by decide)).tokens_chars
  have hend : ∀ c ∈ "\n".toList, isDumpGap c = true := List.all_eq_true.mp rfl
  calc tokens isDumpGap (dumpText cpu)
      = tokens isDumpGap ("format:".toList ++ spaced (dumpParts cpu)) := by
        rw [dumpText_eq, tokens_append_separators hend]
    _ = tokens isDumpGap "format:".toList ++ (dumpParts cpu).map fun part => part.2.chars :=
        tokens_append_spaced _ _
    _ = "format:".toList :: (dumpParts cpu).map fun part => part.2.chars := by
        rw [hformat, List.singleton_append]

theorem readRegisters_dumpText (cpu : CPU6502) :
    readRegisters (dumpText cpu) = some (shownRegisters cpu) := by
  have hA : readHex (hex cpu.A.toNat) = some cpu.A.toNat := readHex_hex _
  have hPC : readHex (hex cpu.PC.toNat) = some cpu.PC.toNat := readHex_hex _
  have hsigned : readSigned (signedText (twosComplement cpu.A)) = some cpu.A.toInt :=
    readSigned_signedText _
  rw [readRegisters, tokens_dumpText]
  simp only [dumpParts, List.map_cons, List.map_nil, hexToken, decimalToken, signedToken,
    bitsToken, wordOf]
  unfold dumpLabels
  rw [if_pos rfl, hA, readDecimal_decimal, hsigned, readDecimal_decimal, readDecimal_decimal,
    readDecimal_decimal, hPC, readBits_bits]
  rfl

theorem registers_of_shownRegisters {s t : CPU6502} (h : shownRegisters s = shownRegisters t) :
    s.registers = t.registers := by
  obtain ⟨hA, -, -, hX, hY, hS, hPC, hP⟩ := ShownRegisters.mk.inj h
  have hP' : s.P = t.P := PSR.ext (BitVec.eq_of_toNat_eq hP)
  rw [registers, registers, BitVec.eq_of_toNat_eq hA, BitVec.eq_of_toNat_eq hX,
    BitVec.eq_of_toNat_eq hY, BitVec.eq_of_toNat_eq hS, BitVec.eq_of_toNat_eq hPC, hP']

theorem dumpText_of_registers {s t : CPU6502} (h : s.registers = t.registers) :
    dumpText s = dumpText t := by
  obtain ⟨hA, hX, hY, hS, hP, hPC⟩ := Registers.mk.inj h
  unfold dumpText
  rw [hA, hX, hY, hS, hP, hPC]

/-- The text of a dump is read back as the registers, in each of the bases it has them in,
and tells two processors apart exactly when their registers differ. -/
theorem dump_shows_registers (s t : CPU6502) :
    readRegisters (dumpText s) = some (shownRegisters s) ∧
      (dumpText s = dumpText t ↔ s.registers = t.registers) := by
  refine ⟨readRegisters_dumpText s, fun htext => ?_, dumpText_of_registers⟩
  apply registers_of_shownRegisters
  apply Option.some.inj
  rw [← readRegisters_dumpText, ← readRegisters_dumpText, htext]

end Debugger

end Sim6502
