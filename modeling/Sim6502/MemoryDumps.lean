import Sim6502.DebuggerSession
import Sim6502.PrintedRows
import Sim6502.SeparatedTokens

/-!
# Memory dumps

A dump is read back from its text alone: its lines are the tokens between line ends, a
colon ends the address of a line, and blanks and bars keep the bytes apart. What the loop
of `print_memory` writes is the rows of sixteen of the bytes asked for.
-/
namespace Sim6502
open EventComputation CPU6502 SeparatedTokens PrintedRows
namespace Debugger

/-! ## Reading a dump -/

/-- What goes to the standard output. -/
def writtenText : List Event → List Char :=
  List.flatMap fun
    | .announce (.text chars) => chars
    | _ => []

def isLineEnd (c : Char) : Bool := c = '\n'

def isColon (c : Char) : Bool := c = ':'

def isByteGap (c : Char) : Bool := c = ' ' || c = '|'

def readHex (chars : List Char) : Option ℕ := readNumeral 16 hexDigit 0 chars

/-- A hexadecimal number of two digits. -/
def readByteText (chars : List Char) : Option ℕ :=
  if chars.length = 2 then readHex chars else none

structure DumpLine where
  address : ℕ
  bytes : List ℕ
  deriving DecidableEq

def readLine (line : List Char) : Option DumpLine :=
  match line.splitOnP isColon with
  | [address, bytes] => do
    let address ← readHex address
    let bytes ← (tokens isByteGap bytes).mapM readByteText
    return ⟨address, bytes⟩
  | _ => none

def readDump (text : List Char) : Option (List DumpLine) :=
  (tokens isLineEnd text).mapM readLine

/-! ## Numbers as they are printed -/

theorem hexDigit_digitChar {d : ℕ} (h : d < 16) : hexDigit d.digitChar = some d := by
  have hall : ∀ d : Fin 16, hexDigit (d : ℕ).digitChar = some (d : ℕ) := by decide
  exact hall ⟨d, h⟩

theorem readHex_padded (width n : ℕ) : readHex (padded width (hex n)) = some n := by
  rw [readHex, padded, hex, readNumeral_zeros (by decide)]
  exact readNumeral_toDigits (by decide) (fun d hd => hexDigit_digitChar hd) n

/-- A number is printed with digits only, whatever its width. -/
theorem isSome_hexDigit_padded {width n : ℕ} :
    ∀ c ∈ padded width (hex n), (hexDigit c).isSome :=
  isSome_of_readNumeral (readHex_padded width n)

/-- So no character of it has another meaning in the text. -/
theorem ne_of_mem_padded {width n : ℕ} {separator : Char} (h : hexDigit separator = none) :
    ∀ c ∈ padded width (hex n), c ≠ separator := by
  rintro c hc rfl
  have hdigit := isSome_hexDigit_padded c hc
  rw [h] at hdigit
  cases hdigit

theorem length_padded_byte (byte : Byte) : (padded 2 (hex byte.toNat)).length = 2 := by
  have hlength : (hex byte.toNat).length ≤ 2 :=
    (Nat.length_toDigits_le_iff (by decide) (by decide)).mpr byte.isLt
  rw [padded, List.length_append, List.length_replicate]
  omega

theorem readByteText_padded (byte : Byte) :
    readByteText (padded 2 (hex byte.toNat)) = some byte.toNat := by
  rw [readByteText, if_pos (length_padded_byte byte), readHex_padded]

/-- A printed byte as a token of its line. -/
def byteToken (byte : Byte) : Token isByteGap where
  chars := padded 2 (hex byte.toNat)
  ne_nil := List.ne_nil_of_length_pos (by rw [length_padded_byte]; omega)
  solid := by
    intro c hc
    have hblank : c ≠ ' ' := ne_of_mem_padded (by decide) c hc
    have hbar : c ≠ '|' := ne_of_mem_padded (by decide) c hc
    simp [isByteGap, hblank, hbar]

/-! ## The lines of the loop -/

/-- What the loop prints for these bytes, from iteration `i` on. -/
def memoryText (start : ℕ) : ℕ → List Byte → List Char
  | _, [] => []
  | i, byte :: bytes =>
    bytePrefix start i ++ (padded 2 (hex byte.toNat) ++ memoryText start (i + 1) bytes)

theorem memoryText_append (start i : ℕ) (bytes later : List Byte) :
    memoryText start i (bytes ++ later) =
      memoryText start i bytes ++ memoryText start (i + bytes.length) later := by
  induction bytes generalizing i with
  | nil => rfl
  | cons byte bytes ih =>
    rw [List.cons_append, memoryText, ih, memoryText, List.length_cons, Nat.add_right_comm,
      ← Nat.add_assoc]
    simp only [List.append_assoc]

/-- The layout inside a line. -/
def byteGap (i : ℕ) : Gap isByteGap :=
  if i % 8 = 0 then ⟨" | ".toList, by decide, by simp [isByteGap]⟩
  else ⟨" ".toList, by decide, by simp [isByteGap]⟩

theorem bytePrefix_inside {start i : ℕ} (h : i % 16 ≠ 0) :
    bytePrefix start i = (byteGap i).chars := by
  rw [bytePrefix, if_neg h, byteGap]
  split <;> rfl

theorem bytePrefix_line {start i : ℕ} (h : i % 16 = 0) :
    bytePrefix start i = '\n' :: (padded 4 (hex (start + i)) ++ ": ".toList) := by
  rw [bytePrefix, if_pos h]
  rfl

def byteParts : ℕ → List Byte → List (Gap isByteGap × Token isByteGap)
  | _, [] => []
  | i, byte :: bytes => (byteGap i, byteToken byte) :: byteParts (i + 1) bytes

theorem memoryText_inside {start i : ℕ} {bytes : List Byte}
    (h : ∀ j < bytes.length, (i + j) % 16 ≠ 0) :
    memoryText start i bytes = spaced (byteParts i bytes) := by
  induction bytes generalizing i with
  | nil => rfl
  | cons byte bytes ih =>
    have hfirst : i % 16 ≠ 0 := h 0 bytes.length.succ_pos
    have hrest : ∀ j < bytes.length, (i + 1 + j) % 16 ≠ 0 := by
      intro j hj
      have hj' := h (j + 1) (Nat.succ_lt_succ hj)
      rwa [Nat.add_right_comm]
    rw [memoryText, bytePrefix_inside hfirst, ih hrest, byteParts, spaced_cons]
    rfl

theorem tokens_byteParts (i : ℕ) (bytes : List Byte) :
    (byteParts i bytes).map (fun part => part.2.chars) =
      bytes.map fun byte => padded 2 (hex byte.toNat) := by
  induction bytes generalizing i with
  | nil => rfl
  | cons byte bytes ih =>
    rw [byteParts, List.map_cons, ih, List.map_cons]
    rfl

/-- The first byte of a line follows the colon and a blank. -/
def lineParts (i : ℕ) (first : Byte) (others : List Byte) :
    List (Gap isByteGap × Token isByteGap) :=
  (⟨" ".toList, by decide, by simp [isByteGap]⟩, byteToken first) :: byteParts (i + 1) others

def lineText (start i : ℕ) (first : Byte) (others : List Byte) : List Char :=
  padded 4 (hex (start + i)) ++ ':' :: spaced (lineParts i first others)

theorem memoryText_line {start i : ℕ} (h : i % 16 = 0) (first : Byte) {others : List Byte}
    (hlength : others.length ≤ 15) :
    memoryText start i (first :: others) = '\n' :: lineText start i first others := by
  have hinside : ∀ j < others.length, (i + 1 + j) % 16 ≠ 0 := by
    intro j hj
    omega
  rw [memoryText, bytePrefix_line h, memoryText_inside hinside, lineText, lineParts, spaced_cons]
  simp [byteToken]

/-! ## A line is read back -/

/-- Between the colon and the end of a line there are digits, blanks and bars. -/
theorem chars_byteParts {i : ℕ} {bytes : List Byte} :
    ∀ c ∈ spaced (byteParts i bytes), isByteGap c = true ∨ (hexDigit c).isSome := by
  induction bytes generalizing i with
  | nil =>
    intro c hc
    cases hc
  | cons byte bytes ih =>
    intro c hc
    rw [byteParts, spaced_cons] at hc
    rcases List.mem_append.mp hc with hc | hc
    · exact .inl ((byteGap i).separates c hc)
    · rcases List.mem_append.mp hc with hc | hc
      · exact .inr (isSome_hexDigit_padded c hc)
      · exact ih c hc

theorem ne_of_mem_lineParts {i : ℕ} {first : Byte} {others : List Byte} {separator : Char}
    (hgap : isByteGap separator = false) (hdigit : hexDigit separator = none) :
    ∀ c ∈ spaced (lineParts i first others), c ≠ separator := by
  rintro c hc rfl
  rw [lineParts, spaced_cons] at hc
  rcases List.mem_append.mp hc with hc | hc
  · obtain rfl : c = ' ' := List.mem_singleton.mp hc
    cases hgap
  · rcases List.mem_append.mp hc with hc | hc
    · exact ne_of_mem_padded hdigit c hc rfl
    · rcases chars_byteParts c hc with h | h
      · rw [hgap] at h
        cases h
      · rw [hdigit] at h
        cases h

theorem tokens_lineParts (i : ℕ) (first : Byte) (others : List Byte) :
    tokens isByteGap (spaced (lineParts i first others)) =
      (first :: others).map fun byte => padded 2 (hex byte.toNat) := by
  have hread := tokens_append_spaced [] (lineParts i first others)
  rw [List.nil_append, tokens_nil, List.nil_append] at hread
  rw [hread, lineParts, List.map_cons, tokens_byteParts]
  rfl

theorem mapM_readByteText (bytes : List Byte) :
    (bytes.map fun byte => padded 2 (hex byte.toNat)).mapM readByteText =
      some (bytes.map BitVec.toNat) := by
  induction bytes with
  | nil => rfl
  | cons byte bytes ih =>
    rw [List.map_cons, List.mapM_cons, readByteText_padded, ih]
    rfl

theorem readLine_lineText (start i : ℕ) (first : Byte) (others : List Byte) :
    readLine (lineText start i first others) =
      some ⟨start + i, (first :: others).map BitVec.toNat⟩ := by
  have haddress : ∀ c ∈ padded 4 (hex (start + i)), isColon c = false := by
    intro c hc
    simpa [isColon] using ne_of_mem_padded (by decide) c hc
  have hbytes : ∀ c ∈ spaced (lineParts i first others), isColon c = false := by
    intro c hc
    simpa [isColon] using ne_of_mem_lineParts (by decide) (by decide) c hc
  have hsplit : (lineText start i first others).splitOnP isColon =
      [padded 4 (hex (start + i)), spaced (lineParts i first others)] := by
    rw [lineText, List.splitOnP_append_cons _ _ (by decide),
      List.splitOnP_eq_singleton haddress, List.splitOnP_eq_singleton hbytes]
    rfl
  rw [readLine, hsplit]
  dsimp only
  rw [readHex_padded, tokens_lineParts, mapM_readByteText]
  rfl

/-- A line as a token of the dump. -/
def lineToken (start i : ℕ) (first : Byte) (others : List Byte) : Token isLineEnd where
  chars := lineText start i first others
  ne_nil := by simp [lineText]
  solid := by
    intro c hc
    rcases List.mem_append.mp hc with hc | hc
    · simpa [isLineEnd] using ne_of_mem_padded (by decide) c hc
    · rcases List.mem_cons.mp hc with rfl | hc
      · rfl
      · simpa [isLineEnd] using ne_of_mem_lineParts (by decide) (by decide) c hc

/-! ## A dump is read back -/

/-- Line by line: sixteen bytes at a time, with the address of the first. -/
def dumpLines (address : ℕ) (bytes : List Byte) : List DumpLine :=
  (rows 16 bytes).mapIdx fun k row => ⟨address + 16 * k, row.map BitVec.toNat⟩

theorem dumpLines_eq_cons (address : ℕ) {bytes : List Byte} (h : bytes ≠ []) :
    dumpLines address bytes =
      ⟨address, (bytes.take 16).map BitVec.toNat⟩ ::
        dumpLines (address + 16) (bytes.drop 16) := by
  rw [dumpLines, rows_eq_cons (by decide) h, List.mapIdx_cons, dumpLines]
  congr 1
  apply congrFun
  apply congrArg
  funext k row
  rw [Nat.mul_succ, Nat.add_comm (16 * k), Nat.add_assoc]

/-- The first line and the lines that follow it. -/
theorem memoryText_lines (start i : ℕ) (bytes : List Byte) :
    memoryText start i bytes =
      memoryText start i (bytes.take 16) ++ memoryText start (i + 16) (bytes.drop 16) := by
  have happend := memoryText_append start i (bytes.take 16) (bytes.drop 16)
  rw [List.take_append_drop] at happend
  rw [happend, List.length_take]
  rcases Nat.le_total 16 bytes.length with hle | hle
  · rw [Nat.min_eq_left hle]
  · rw [List.drop_eq_nil_of_le hle]
    rfl

/-- Whatever comes at the start of a line, it is a line end. -/
theorem head_memoryText {start i : ℕ} (h : i % 16 = 0) (bytes : List Byte) :
    ∀ c ∈ (memoryText start i bytes ++ "\n\n".toList).head?, isLineEnd c = true := by
  cases bytes with
  | nil => simp [memoryText, isLineEnd]
  | cons byte bytes =>
    rw [memoryText, bytePrefix_line h]
    simp [isLineEnd]

/-- The text up to the second line is one token. -/
theorem tokens_memoryText {start i : ℕ} (h : i % 16 = 0) (first : Byte) (others : List Byte) :
    tokens isLineEnd (memoryText start i (first :: others) ++ "\n\n".toList) =
      lineText start i first (others.take 15) :: tokens isLineEnd
        (memoryText start (i + 16) (others.drop 15) ++ "\n\n".toList) := by
  have hline : memoryText start i (first :: others.take 15) =
      '\n' :: lineText start i first (others.take 15) :=
    memoryText_line h first (List.length_take_le 15 others)
  have hlater : ∀ c ∈ (memoryText start (i + 16) (others.drop 15) ++ "\n\n".toList).head?,
      isLineEnd c = true := head_memoryText (by omega) _
  have hend : ∀ c ∈ ['\n'], isLineEnd c = true := by simp [isLineEnd]
  have htoken : tokens isLineEnd ('\n' :: lineText start i first (others.take 15)) =
      [lineText start i first (others.take 15)] :=
    (tokens_separators_append hend _).trans (lineToken start i first _).tokens_chars
  rw [memoryText_lines, List.append_assoc, List.take_succ_cons, List.drop_succ_cons, hline,
    tokens_append_of_head hlater, htoken]
  rfl

theorem readDump_memoryText {start i : ℕ} (h : i % 16 = 0) (bytes : List Byte) :
    readDump (memoryText start i bytes ++ "\n\n".toList) =
      some (dumpLines (start + i) bytes) := by
  induction hn : bytes.length using Nat.strongRecOn generalizing i bytes with
  | ind n ih =>
    match bytes with
    | [] => rfl
    | first :: others =>
      have hshorter : (others.drop 15).length < n := by
        rw [List.length_cons] at hn
        rw [List.length_drop]
        omega
      have hrest : readDump (memoryText start (i + 16) (others.drop 15) ++ "\n\n".toList) =
          some (dumpLines (start + (i + 16)) (others.drop 15)) :=
        ih _ hshorter (by omega) _ rfl
      rw [readDump] at hrest
      rw [readDump, tokens_memoryText h, List.mapM_cons, readLine_lineText, hrest,
        dumpLines_eq_cons _ (List.cons_ne_nil first others), List.take_succ_cons,
        List.drop_succ_cons, Nat.add_assoc]
      rfl

/-! ## What `print_memory` writes -/

theorem writtenText_append (events later : List Event) :
    writtenText (events ++ later) = writtenText events ++ writtenText later :=
  List.flatMap_append

section Print
variable {cpu : CPU6502}

/-- The bytes asked for, as they are in memory. -/
def requested (cpu : CPU6502) (start count : ℕ) : List Byte :=
  (List.range count).map fun j => cpu.memory.cell (start + j)

theorem requested_succ (start count : ℕ) :
    requested cpu start (count + 1) =
      cpu.memory.cell start :: requested cpu (start + 1) count := by
  rw [requested, List.range_succ_eq_map, List.map_cons, List.map_map, Nat.add_zero, requested]
  congr 1
  apply List.map_congr_left
  intro j _
  rw [Function.comp_apply, Nat.succ_eq_add_one, Nat.add_right_comm, Nat.add_assoc]

theorem run_printMemoryFrom {start remaining i : ℕ}
    (h : ∀ j < remaining, start + i + j < cpu.memory.size) :
    ∃ events, (printMemoryFrom start remaining i).run cpu = ⟨.ok (), cpu, events⟩ ∧
      writtenText events = memoryText start i (requested cpu (start + i) remaining) := by
  induction remaining generalizing i with
  | zero => exact ⟨[], rfl, rfl⟩
  | succ remaining ih =>
    have hbyte : (readIndex (start + i)).run cpu =
        ⟨.ok (cpu.memory.cell (start + i)), cpu, [.read (start + i)]⟩ :=
      run_readIndex cpu (h 0 remaining.succ_pos)
    have hinside : ∀ j < remaining, start + (i + 1) + j < cpu.memory.size := by
      intro j hj
      have hj' := h (j + 1) (Nat.succ_lt_succ hj)
      omega
    obtain ⟨events, hrest, htext⟩ := ih hinside
    have hrun : (printMemoryFrom start (remaining + 1) i).run cpu =
        ⟨.ok (), cpu, .announce (.text (bytePrefix start i)) :: .read (start + i) ::
          .announce (.text (padded 2 (hex (cpu.memory.cell (start + i)).toNat))) :: events⟩ := by
      rw [printMemoryFrom_succ, Routine.run_bind_of_ok (run_say cpu _),
        Routine.run_bind_of_ok hbyte, Routine.run_bind_of_ok (run_say cpu _), hrest]
      rfl
    refine ⟨_, hrun, ?_⟩
    rw [requested_succ, memoryText, Nat.add_assoc, ← htext]
    rfl

theorem run_printMemory {start count : ℕ} (h : ∀ j < count, start + j < cpu.memory.size) :
    ∃ events, (printMemory start count).run cpu = ⟨.ok (), cpu, events⟩ ∧
      writtenText events = memoryText start 0 (requested cpu start count) ++ "\n\n".toList := by
  obtain ⟨events, hrun, htext⟩ := run_printMemoryFrom (i := 0) h
  have hprint : (printMemory start count).run cpu =
      ⟨.ok (), cpu, events ++ [.announce (.text "\n\n".toList)]⟩ := by
    rw [printMemory, Routine.run_bind_of_ok hrun]
    rfl
  refine ⟨_, hprint, ?_⟩
  rw [writtenText_append, htext]
  rfl

/-- Nothing is lost or repeated between the lines. -/
theorem bytes_dumpLines (address : ℕ) (bytes : List Byte) :
    (dumpLines address bytes).flatMap DumpLine.bytes = bytes.map BitVec.toNat := by
  have hrows : (dumpLines address bytes).map DumpLine.bytes =
      (rows 16 bytes).map (List.map BitVec.toNat) := by
    apply List.ext_getElem
    · simp [dumpLines]
    · intro k _ _
      simp [dumpLines]
  rw [List.flatMap_def, hrows, ← List.map_flatten, flatten_rows (by decide)]

theorem take_drop_requested (start count first width : ℕ) :
    ((requested cpu start count).drop first).take width =
      requested cpu (start + first) (min width (count - first)) := by
  apply List.ext_getElem
  · simp [requested]
  · intro j _ _
    simp [requested, Nat.add_assoc]

theorem dumpLines_requested (start count : ℕ) :
    dumpLines start (requested cpu start count) =
      (List.range ((count + 15) / 16)).map fun k => ⟨start + 16 * k,
        (requested cpu (start + 16 * k) (min 16 (count - 16 * k))).map BitVec.toNat⟩ := by
  have hcount : (requested cpu start count).length = count := by simp [requested]
  apply List.ext_getElem
  · simp [dumpLines, rows, hcount]
  · intro k _ _
    simp [dumpLines, rows, take_drop_requested]

end Print

/-- The text that `print_memory` writes for a range inside the memory is read back as the
bytes of the range in order, sixteen a line, each line with the address of its first. -/
theorem dump_shows_requested (cpu : CPU6502) (start count : ℕ)
    (h : start + count ≤ cpu.memory.size) :
    ∃ events lines, (printMemory start count).run cpu = ⟨.ok (), cpu, events⟩ ∧
      readDump (writtenText events) = some lines ∧
      lines.flatMap DumpLine.bytes = (requested cpu start count).map BitVec.toNat ∧
      lines = (List.range ((count + 15) / 16)).map fun k => ⟨start + 16 * k,
        (requested cpu (start + 16 * k) (min 16 (count - 16 * k))).map BitVec.toNat⟩ := by
  have hinside : ∀ j < count, start + j < cpu.memory.size := by
    intro j hj
    omega
  obtain ⟨events, hrun, htext⟩ := run_printMemory hinside
  refine ⟨events, dumpLines start (requested cpu start count), hrun, ?_, ?_, ?_⟩
  · rw [htext]
    exact readDump_memoryText rfl _
  · exact bytes_dumpLines start _
  · exact dumpLines_requested start count

/-- Eighteen bytes at an address that starts no row: a full line and two bytes more. -/
theorem dump_shows_requested_twoLines :
    ∃ events lines, (printMemory 3 18).run (.initial (.ofImage (List.replicate 21 0x5A)) false) =
        ⟨.ok (), .initial (.ofImage (List.replicate 21 0x5A)) false, events⟩ ∧
      readDump (writtenText events) = some lines ∧ lines.map DumpLine.address = [3, 19] ∧
      lines.map (fun line => line.bytes.length) = [16, 2] := by
  obtain ⟨events, lines, hrun, hread, -, hlines⟩ :=
    dump_shows_requested (.initial (.ofImage (List.replicate 21 0x5A)) false) 3 18 (by decide)
  refine ⟨events, lines, hrun, hread, ?_, ?_⟩ <;>
    rw [hlines] <;> decide

end Debugger

end Sim6502
