import Sim6502.CarryChains
import Sim6502.CellOperations
import Sim6502.FlagDiscipline

/-!
# Shifts of several bytes

A chain shifts or rotates the cells of a number one after another, with the carry in
`P` from one to the next. To the left it doubles: it adds the number to itself, digit
by digit from the lowest cell on. To the right it does the same read backwards.
-/
namespace Sim6502
open EventComputation CPU6502 CarryChain

/-! ## One byte -/

section Byte
variable (m : Byte) (c : Bool)

theorem rolValue_digit :
    (rolValue m c).toNat + 256 * (m &&& msBitMask != zeroByte).toNat =
      m.toNat + m.toNat + c.toNat := by
  revert m c
  decide

theorem rorValue_digit :
    m.toNat + 256 * c.toNat =
      (rorValue m c).toNat + (rorValue m c).toNat + (m &&& lsBitMask != zeroByte).toNat := by
  revert m c
  decide

theorem shiftLeft_eq_rolValue : m <<< 1 = rolValue m false := by
  simp [rolValue, byteOfBool]

theorem shiftRight_eq_rorValue : m >>> 1 = rorValue m false := by
  simp [rorValue, byteOfBool]

/-- The right shift spells its test of the lowest bit in another way. -/
theorem lowestBit_eq : (m &&& 0x01 == 1) = (m &&& lsBitMask != zeroByte) := by
  revert m
  decide

end Byte

/-! ## The four instructions -/

inductive ShiftOperation where
  | asl | lsr | rol | ror
  deriving DecidableEq

namespace ShiftOperation

def mnemonic : ShiftOperation → Mnemonic
  | .asl => .asl
  | .lsr => .lsr
  | .rol => .rol
  | .ror => .ror

/-- All opcodes of the table that apply the operation to memory. -/
def opcodes (op : ShiftOperation) : List Byte :=
  (isaEntries.filter fun e => e.2.name = op.mnemonic ∧ e.2.mode ≠ .accumulator).map Prod.fst

def body : ShiftOperation → InstructionBody
  | .asl => .aslMem
  | .lsr => .lsrMem
  | .rol => .rolMem
  | .ror => .rorMem

/-- The bit that is shifted in. -/
def carryIn (P : PSR) : ShiftOperation → Bool
  | .asl | .lsr => false
  | .rol | .ror => P.getBit .carry

def result (op : ShiftOperation) (_ : Byte) (P : PSR) (m : Byte) : Byte × PSR :=
  match op with
  | .asl | .rol => (rolValue m (op.carryIn P),
      (P.setBit .carry (m &&& msBitMask != zeroByte)).updateFlags (rolValue m (op.carryIn P)))
  | .ror => (rorValue m (P.getBit .carry),
      (P.setBit .carry (m &&& lsBitMask != zeroByte)).updateFlags (rorValue m (P.getBit .carry)))
  | .lsr => (rorValue m false,
      (P.setBit .carry (m &&& lsBitMask != zeroByte)).setBit .negative false)

end ShiftOperation

def shiftFamily : CellFamily ShiftOperation where
  opcodes := ShiftOperation.opcodes
  body := ShiftOperation.body
  result := ShiftOperation.result
  execute op := by cases op <;> decide +kernel
  modified op A P m := by
    cases op <;>
      simp [ShiftOperation.body, InstructionBody.modified, ShiftOperation.result,
        ShiftOperation.carryIn, shiftLeft_eq_rolValue, shiftRight_eq_rorValue, ← lowestBit_eq]

/-- The four flags that no shift writes. -/
def unshiftedFlags : List PsrBit := [.overflow, .decimalMode, .interruptDisable, .breakCommand]

theorem stored_shift {bit : PsrBit} (h : bit ∈ unshiftedFlags) (op : ShiftOperation) (A : Byte)
    (P : PSR) (m : Byte) : (shiftFamily.result op A P m).2.stored bit = P.stored bit := by
  have hall : ∀ bit ∈ unshiftedFlags, bit ≠ .carry ∧ bit ≠ .zero ∧ bit ≠ .negative := by decide
  obtain ⟨hcarry, hzero, hnegative⟩ := hall bit h
  cases op <;>
    simp [shiftFamily, ShiftOperation.result, PSR.stored_updateFlags_frame, hzero, hnegative,
      PSR.stored_setBit_frame, hcarry]

/-- Which way the bytes are gone through. -/
def ShiftOperation.leftward : ShiftOperation → Bool
  | .asl | .rol => true
  | .lsr | .ror => false

/-- The carry an operation leaves is the bit it shifts out. -/
theorem carry_shift (op : ShiftOperation) (A : Byte) (P : PSR) (m : Byte) :
    (op.result A P m).2.getBit .carry =
      if op.leftward then m &&& msBitMask != zeroByte else m &&& lsBitMask != zeroByte := by
  cases op <;> simp [ShiftOperation.result, ShiftOperation.leftward, PSR.updateFlags]

/-- One digit of a doubling, read forwards or backwards. -/
theorem shift_digit (op : ShiftOperation) (A : Byte) (P : PSR) (m : Byte) :
    if op.leftward then
      (op.result A P m).1.toNat + 256 * ((op.result A P m).2.getBit .carry).toNat =
        m.toNat + m.toNat + (op.carryIn P).toNat
    else
      m.toNat + 256 * (op.carryIn P).toNat =
        (op.result A P m).1.toNat + (op.result A P m).1.toNat +
          ((op.result A P m).2.getBit .carry).toNat := by
  have hcarry := carry_shift op A P m
  cases op <;>
    simp only [ShiftOperation.leftward, if_true, Bool.false_eq_true, if_false] at hcarry ⊢ <;>
    rw [hcarry]
  case asl | rol => exact rolValue_digit m _
  case lsr | ror => exact rorValue_digit m _

/-! ## The chains -/

/-- The bytes in the cells, the lowest first. -/
def cellBytes (s : CPU6502) (cells : List Address) : List ℕ :=
  cells.map fun a => (s.memory.byteAt a).toNat

/-- The number in the cells. -/
def cellNumber (s : CPU6502) (cells : List Address) : ℕ := Nat.ofDigits 256 (cellBytes s cells)

/-- The carry as a digit. -/
def carryDigit (s : CPU6502) : ℕ := (s.P.getBit .carry).toNat

/-- `ROL` on all cells, from the lowest to the highest. -/
def rotateLeft (cells : List Address) : List (ShiftOperation × Address) :=
  cells.map fun a => (.rol, a)

/-- `ASL` on the lowest cell, then `ROL`. -/
def shiftLeft : List Address → List (ShiftOperation × Address)
  | [] => []
  | cell :: cells => (.asl, cell) :: rotateLeft cells

/-- `ROR` on cells given from the highest to the lowest. -/
def rotateDown (cells : List Address) : List (ShiftOperation × Address) :=
  cells.map fun a => (.ror, a)

/-- `ROR` on all cells, from the highest to the lowest. -/
def rotateRight (cells : List Address) : List (ShiftOperation × Address) :=
  rotateDown cells.reverse

/-- `LSR` on the highest cell, then `ROR`. -/
def shiftRight (cells : List Address) : List (ShiftOperation × Address) :=
  match cells.reverse with
  | [] => []
  | cell :: cells => (.lsr, cell) :: rotateDown cells

section Chain
variable {isa : CPU6502ISA} {op : ShiftOperation} {cell : Address} {cells : List Address}
  {ops : List (ShiftOperation × Address)} {s t u : CPU6502}

theorem digits_cellBytes (s : CPU6502) (cells : List Address) : Digits 256 (cellBytes s cells) := by
  intro d hd
  obtain ⟨a, -, rfl⟩ := List.mem_map.mp hd
  exact (s.memory.byteAt a).isLt

theorem length_cellBytes (s : CPU6502) (cells : List Address) :
    (cellBytes s cells).length = cells.length := List.length_map _

theorem getBit_of_carryDigit (h : carryDigit s = carryDigit t) :
    s.P.getBit .carry = t.P.getBit .carry := by
  rw [carryDigit, carryDigit] at h
  revert h
  cases s.P.getBit .carry <;> cases t.P.getBit .carry <;> simp

theorem carryDigit_le_one (s : CPU6502) : carryDigit s ≤ 1 := Bool.toNat_le _

/-- Bytes that are not written stay. -/
theorem cellBytes_of_not_mem (hnot : cell ∉ cells) (h : CellFrame [cell] s t) :
    cellBytes t cells = cellBytes s cells := by
  apply List.map_congr_left
  intro a ha
  rw [h.byteAt]
  rintro hin
  exact hnot (List.mem_singleton.mp hin ▸ ha)

/-- The first operation of a chain and the frame of the others. -/
theorem Performs.first (h : Performs shiftFamily isa ((op, cell) :: ops) s u)
    (hops : ∀ o ∈ ops, o.2 ∈ cells) (hnot : cell ∉ cells) :
    ∃ t, Performs shiftFamily isa ops t u ∧ CellFrame [cell] s t ∧
      (u.memory.byteAt cell).toNat = (op.result s.A s.P (s.memory.byteAt cell)).1.toNat ∧
      carryDigit t = ((op.result s.A s.P (s.memory.byteAt cell)).2.getBit .carry).toNat := by
  obtain ⟨t, head, tail, hbyte, hP⟩ := h.of_cons
  refine ⟨t, tail, head.frame (by simp), ?_, ?_⟩
  · rw [(tail.frame hops).byteAt hnot, hbyte]
    rfl
  · rw [carryDigit, hP]
    rfl

theorem mem_of_mem_map {o : ShiftOperation × Address} {op : ShiftOperation}
    (h : o ∈ cells.map fun a => (op, a)) : o.2 ∈ cells := by
  obtain ⟨a, ha, rfl⟩ := List.mem_map.mp h
  exact ha

/-- A shift to the left puts its digit below those of the chain that follows. -/
theorem adds_left (hleft : op.leftward = true) (hnot : cell ∉ cells)
    (hops : ∀ o ∈ ops, o.2 ∈ cells) (h : Performs shiftFamily isa ((op, cell) :: ops) s u)
    (rest : ∀ t, Performs shiftFamily isa ops t u → Adds 256 (cellBytes t cells)
      (cellBytes t cells) (carryDigit t) (cellBytes u cells) (carryDigit u)) :
    Adds 256 (cellBytes s (cell :: cells)) (cellBytes s (cell :: cells)) (op.carryIn s.P).toNat
      (cellBytes u (cell :: cells)) (carryDigit u) := by
  obtain ⟨t, tail, hframe, hbyte, hcarry⟩ := h.first hops hnot
  have hadds := rest t tail
  have hdigit := shift_digit op s.A s.P (s.memory.byteAt cell)
  rw [cellBytes_of_not_mem hnot hframe] at hadds
  rw [if_pos hleft, ← hbyte, ← hcarry] at hdigit
  exact .cons hdigit hadds

/-- A shift to the right puts its digit, read backwards, above those of the chain that
follows. -/
theorem adds_right (hright : op.leftward = false) (hnot : cell ∉ cells)
    (hops : ∀ o ∈ ops, o.2 ∈ cells) (h : Performs shiftFamily isa ((op, cell) :: ops) s u)
    (rest : ∀ t, Performs shiftFamily isa ops t u → Adds 256 (cellBytes u cells.reverse)
      (cellBytes u cells.reverse) (carryDigit u) (cellBytes t cells.reverse) (carryDigit t)) :
    Adds 256 (cellBytes u (cell :: cells).reverse) (cellBytes u (cell :: cells).reverse)
      (carryDigit u) (cellBytes s (cell :: cells).reverse) (op.carryIn s.P).toNat := by
  obtain ⟨t, tail, hframe, hbyte, hcarry⟩ := h.first hops hnot
  have hadds := rest t tail
  have hdigit := shift_digit op s.A s.P (s.memory.byteAt cell)
  have hsplit (v : CPU6502) : cellBytes v (cell :: cells).reverse =
      cellBytes v cells.reverse ++ [(v.memory.byteAt cell).toNat] := by
    rw [cellBytes, List.reverse_cons, List.map_append]
    rfl
  have hnot' : cell ∉ cells.reverse := by simpa using hnot
  rw [cellBytes_of_not_mem hnot' hframe] at hadds
  rw [hright, if_neg Bool.false_ne_true, ← hbyte, ← hcarry] at hdigit
  rw [hsplit, hsplit]
  exact hadds.snoc hdigit

theorem adds_rotateLeft (distinct : cells.Nodup)
    (h : Performs shiftFamily isa (rotateLeft cells) s u) :
    Adds 256 (cellBytes s cells) (cellBytes s cells) (carryDigit s) (cellBytes u cells)
      (carryDigit u) := by
  induction cells generalizing s with
  | nil =>
    cases h
    exact .nil _
  | cons cell cells ih =>
    obtain ⟨hnot, hdistinct⟩ := List.nodup_cons.mp distinct
    exact adds_left rfl hnot (fun o => mem_of_mem_map) h fun t ht => ih hdistinct ht

theorem adds_rotateDown (distinct : cells.Nodup)
    (h : Performs shiftFamily isa (rotateDown cells) s u) :
    Adds 256 (cellBytes u cells.reverse) (cellBytes u cells.reverse) (carryDigit u)
      (cellBytes s cells.reverse) (carryDigit s) := by
  induction cells generalizing s with
  | nil =>
    cases h
    exact .nil _
  | cons cell cells ih =>
    obtain ⟨hnot, hdistinct⟩ := List.nodup_cons.mp distinct
    exact adds_right rfl hnot (fun o => mem_of_mem_map) h fun t ht => ih hdistinct ht

theorem adds_shiftLeft (distinct : cells.Nodup) (hne : cells ≠ [])
    (h : Performs shiftFamily isa (shiftLeft cells) s u) :
    Adds 256 (cellBytes s cells) (cellBytes s cells) 0 (cellBytes u cells) (carryDigit u) := by
  cases cells with
  | nil => exact absurd rfl hne
  | cons cell cells =>
    obtain ⟨hnot, hdistinct⟩ := List.nodup_cons.mp distinct
    exact adds_left rfl hnot (fun o => mem_of_mem_map) h fun t ht => adds_rotateLeft hdistinct ht

theorem adds_rotateRight (distinct : cells.Nodup)
    (h : Performs shiftFamily isa (rotateRight cells) s u) :
    Adds 256 (cellBytes u cells) (cellBytes u cells) (carryDigit u) (cellBytes s cells)
      (carryDigit s) := by
  have hadds := adds_rotateDown (List.nodup_reverse.mpr distinct) h
  rwa [List.reverse_reverse] at hadds

theorem adds_shiftRight (distinct : cells.Nodup) (hne : cells ≠ [])
    (h : Performs shiftFamily isa (shiftRight cells) s u) :
    Adds 256 (cellBytes u cells) (cellBytes u cells) (carryDigit u) (cellBytes s cells) 0 := by
  have hdistinct := List.nodup_reverse.mpr distinct
  rw [shiftRight] at h
  rw [← cells.reverse_reverse]
  cases hcells : cells.reverse with
  | nil => exact absurd (List.reverse_eq_nil_iff.mp hcells) hne
  | cons cell below =>
    rw [hcells] at h hdistinct
    obtain ⟨hnot, hbelow⟩ := List.nodup_cons.mp hdistinct
    exact adds_right rfl hnot (fun o => mem_of_mem_map) h fun t ht => adds_rotateDown hbelow ht

end Chain

/-! ## Shifts and rotations of a number -/

/-- What a chain leaves alone: the registers, the other cells and the flags `V`, `D`, `I`
and `B`. -/
structure ShiftFrame (cells : List Address) (s t : CPU6502) : Prop where
  cells : CellFrame cells s t
  flags : ∀ bit ∈ unshiftedFlags, t.P.getBit bit = s.P.getBit bit

theorem Performs.shiftFrame {isa : CPU6502ISA} {ops : List (ShiftOperation × Address)}
    {cells : List Address} {s t : CPU6502} (h : Performs shiftFamily isa ops s t)
    (hops : ∀ op ∈ ops, op.2 ∈ cells) : ShiftFrame cells s t := by
  refine ⟨h.frame hops, fun bit hbit => ?_⟩
  have hne : bit ≠ .unused := by
    rintro rfl
    simp [unshiftedFlags] at hbit
  rw [PSR.getBit_eq_stored _ hne, PSR.getBit_eq_stored _ hne]
  exact h.stored fun op A P m => stored_shift hbit op A P m

section Cells
variable {cells : List Address}

theorem cells_of_rotateLeft : ∀ op ∈ rotateLeft cells, op.2 ∈ cells :=
  fun _ => mem_of_mem_map

theorem cells_of_rotateRight : ∀ op ∈ rotateRight cells, op.2 ∈ cells :=
  fun _ h => List.mem_reverse.mp (mem_of_mem_map h)

theorem cells_of_shiftLeft : ∀ op ∈ shiftLeft cells, op.2 ∈ cells := by
  intro op h
  cases cells with
  | nil => cases h
  | cons cell cells =>
    rcases List.mem_cons.mp h with rfl | h
    · exact List.mem_cons_self
    · exact List.mem_cons_of_mem _ (mem_of_mem_map h)

theorem cells_of_shiftRight : ∀ op ∈ shiftRight cells, op.2 ∈ cells := by
  intro op h
  rw [shiftRight] at h
  rw [← List.mem_reverse]
  cases hcells : cells.reverse with
  | nil =>
    rw [hcells] at h
    cases h
  | cons cell below =>
    rw [hcells] at h
    rcases List.mem_cons.mp h with rfl | h
    · exact List.mem_cons_self
    · exact List.mem_cons_of_mem _ (mem_of_mem_map h)

end Cells

section Number
variable {cells : List Address} {s t : CPU6502} {c : ℕ}

/-- A doubling as a number. -/
theorem number_of_adds (h : Adds 256 (cellBytes s cells) (cellBytes s cells) c
      (cellBytes t cells) (carryDigit t)) (hne : cells ≠ []) (hc : c ≤ 1) :
    cellNumber t cells = (2 * cellNumber s cells + c) % 256 ^ cells.length ∧
      (t.P.getBit .carry = true ↔ 256 ^ cells.length ≤ 2 * cellNumber s cells) := by
  have hdigits := digits_cellBytes t cells
  have hlength := length_cellBytes t cells
  have hbytes : cellBytes t cells ≠ [] := by simpa [cellBytes] using hne
  have hcarry : 0 < carryDigit t ↔ t.P.getBit .carry = true := by
    rw [carryDigit]
    cases t.P.getBit .carry <;> simp
  constructor
  · rw [cellNumber, h.result (by omega) hdigits, hlength, cellNumber, Nat.two_mul]
  · rw [← hcarry, h.double_carry (by omega) (by omega) hbytes hc hdigits, hlength, cellNumber]

theorem byteAt_of_cellBytes (h : cellBytes t cells = cellBytes s cells) :
    ∀ a ∈ cells, t.memory.byteAt a = s.memory.byteAt a := by
  intro a ha
  exact BitVec.eq_of_toNat_eq (List.map_inj_left.mp h a ha)

end Number

/-- The four chains on the distinct cells of a number: a shift to the left doubles it, a
shift to the right halves it, a rotation to the left doubles it with the carry, and the
rotation back undoes that; each leaves the bit it shifts out in the carry. Over a full memory
the chains come to their end. -/
theorem multi_byte_shifts (isa : CPU6502ISA) (cells : List Address) (hne : cells ≠ [])
    (distinct : cells.Nodup) (s : CPU6502) :
    (maxMemory ≤ s.memory.size → ∀ ops, Stands shiftFamily isa ops s →
      ∃ t, Performs shiftFamily isa ops s t) ∧
    (∀ t, Performs shiftFamily isa (shiftLeft cells) s t →
      cellNumber t cells = 2 * cellNumber s cells % 256 ^ cells.length ∧
      (t.P.getBit .carry = true ↔ 256 ^ cells.length ≤ 2 * cellNumber s cells) ∧
      ShiftFrame cells s t) ∧
    (∀ t, Performs shiftFamily isa (shiftRight cells) s t →
      cellNumber t cells = cellNumber s cells / 2 ∧
      (t.P.getBit .carry).toNat = cellNumber s cells % 2 ∧ ShiftFrame cells s t) ∧
    (∀ t, Performs shiftFamily isa (rotateLeft cells) s t →
      cellNumber t cells =
        (2 * cellNumber s cells + (s.P.getBit .carry).toNat) % 256 ^ cells.length ∧
      (t.P.getBit .carry = true ↔ 256 ^ cells.length ≤ 2 * cellNumber s cells) ∧
      ShiftFrame cells s t ∧
      (maxMemory ≤ s.memory.size → Stands shiftFamily isa (rotateRight cells) t →
        ∃ u, Performs shiftFamily isa (rotateRight cells) t u) ∧
      ∀ u, Performs shiftFamily isa (rotateRight cells) t u →
        (∀ a ∈ cells, u.memory.byteAt a = s.memory.byteAt a) ∧
        u.P.getBit .carry = s.P.getBit .carry ∧ ShiftFrame cells t u) := by
  refine ⟨fun hs ops h => h.exists_performs hs, fun t h => ?_, fun t h => ?_, fun t h => ?_⟩
  · obtain ⟨hvalue, hcarry⟩ := number_of_adds (adds_shiftLeft distinct hne h) hne (Nat.zero_le 1)
    exact ⟨hvalue, hcarry, h.shiftFrame cells_of_shiftLeft⟩
  · obtain ⟨hvalue, hcarry⟩ := (adds_shiftRight distinct hne h).half (carryDigit_le_one t)
    exact ⟨hvalue, hcarry, h.shiftFrame cells_of_shiftRight⟩
  · have hforth := adds_rotateLeft distinct h
    have hframe := h.shiftFrame cells_of_rotateLeft
    obtain ⟨hvalue, hcarry⟩ := number_of_adds hforth hne (carryDigit_le_one s)
    refine ⟨hvalue, hcarry, hframe, fun hs hstands => ?_, fun u hback => ?_⟩
    · apply hstands.exists_performs
      rw [hframe.cells.size]
      exact hs
    · obtain ⟨hbytes, hbit⟩ := (adds_rotateRight distinct hback).double_inj hforth (by omega)
        (carryDigit_le_one u) (carryDigit_le_one s) (digits_cellBytes u cells)
        (digits_cellBytes s cells)
      exact ⟨byteAt_of_cellBytes hbytes, getBit_of_carryDigit hbit,
        hback.shiftFrame cells_of_rotateRight⟩

/-- `ASL $10`, `ROL $11` on the number `0x0180`. -/
def shiftsNumber : CPU6502 :=
  CPU6502.initial (((GPMemory.ofProgram [0x06, 0x10, 0x26, 0x11]).updated 0x10 0x80).updated 0x11
    0x01) false

theorem stands_shiftsNumber :
    Stands shiftFamily isa (shiftLeft [0x10, 0x11]) shiftsNumber := by
  refine ⟨⟨by decide, _, rfl, rfl⟩, fun t h => ⟨?_, fun _ _ => trivial⟩⟩
  obtain rfl := h.state_eq
  exact ⟨by decide, _, rfl, rfl⟩

theorem multi_byte_shifts_shiftsNumber :
    ∃ t, Performs shiftFamily isa (shiftLeft [0x10, 0x11]) shiftsNumber t ∧
      cellNumber t [0x10, 0x11] = 0x0300 := by
  obtain ⟨hends, hleft, -⟩ :=
    multi_byte_shifts isa [0x10, 0x11] (by simp) (by decide) shiftsNumber
  obtain ⟨t, hrun⟩ := hends le_rfl _ stands_shiftsNumber
  exact ⟨t, hrun, (hleft t hrun).1.trans (by decide)⟩

end Sim6502
