import Sim6502.BitRings
import Sim6502.MultiByteShifts

/-!
# Rotations of several bytes

A chain of `ROL` or of `ROR` over the cells of a number turns a ring: the bits of all
cells and the carry above them. Rotations one after another, in both directions, add up.
-/
namespace Sim6502
open EventComputation CPU6502 CarryChain BitRings

/-- A rotation of the cells of a number by one place. -/
inductive Rotation where
  | left | right
  deriving DecidableEq

def Rotation.chain (cells : List Address) : Rotation → List (ShiftOperation × Address)
  | .left => rotateLeft cells
  | .right => rotateRight cells

def Rotation.places : Rotation → ℤ
  | .left => 1
  | .right => -1

/-- The operations of rotations one after another. -/
def rotationChain (cells : List Address) (rotations : List Rotation) :
    List (ShiftOperation × Address) :=
  rotations.flatMap (Rotation.chain cells)

/-- How far rotations turn the ring to the left. -/
def placesLeft (rotations : List Rotation) : ℤ := (rotations.map Rotation.places).sum

/-- The bits of the cells, from the lowest on, and the carry after them. -/
def ringBit (cells : List Address) (s : CPU6502) (i : ZMod (8 * cells.length + 1)) : Bool :=
  cells[i.val / 8]?.elim (s.P.getBit .carry) fun a => (s.memory.byteAt a).getLsbD (i.val % 8)

/-- The same bits as a number. -/
def ringNumber (cells : List Address) (s : CPU6502) : ℕ :=
  cellNumber s cells + 256 ^ cells.length * carryDigit s

section Ring
variable {isa : CPU6502ISA} {cells : List Address} {s t : CPU6502}

theorem testBit_ringNumber (s : CPU6502) (i : ZMod (8 * cells.length + 1)) :
    (ringNumber cells s).testBit i.val = ringBit cells s i := by
  have hlt := ZMod.val_lt i
  exact testBit_ofDigits (fun a => (s.memory.byteAt a).toNat) (s.P.getBit .carry)
    (fun a => (s.memory.byteAt a).isLt) cells i.val (by omega)

theorem cellNumber_lt (s : CPU6502) (cells : List Address) :
    cellNumber s cells < 2 ^ (8 * cells.length) := by
  have hlt := (digits_cellBytes s cells).lt (by omega)
  rwa [length_cellBytes, show 256 = 2 ^ 8 from rfl, ← pow_mul] at hlt

theorem ringNumber_eq (s : CPU6502) (cells : List Address) :
    ringNumber cells s = 2 ^ (8 * cells.length) * carryDigit s + cellNumber s cells := by
  rw [ringNumber, show 256 = 2 ^ 8 from rfl, ← pow_mul, Nat.add_comm]

theorem ringNumber_lt (s : CPU6502) (cells : List Address) :
    ringNumber cells s < 2 ^ (8 * cells.length + 1) := by
  have hnumber := cellNumber_lt s cells
  have hcarry := Nat.mul_le_mul_left (2 ^ (8 * cells.length)) (carryDigit_le_one s)
  rw [ringNumber_eq, pow_succ]
  omega

/-- A doubling of the cells with the carry turns the ring. -/
theorem turns_of_adds (h : Adds 256 (cellBytes s cells) (cellBytes s cells) (carryDigit s)
    (cellBytes t cells) (carryDigit t)) :
    Turns (8 * cells.length) (ringNumber cells s) (ringNumber cells t) := by
  have hlt := cellNumber_lt s cells
  have hvalue := h.value
  rw [length_cellBytes] at hvalue
  have hlow : ringNumber cells s % 2 ^ (8 * cells.length) = cellNumber s cells := by
    rw [ringNumber_eq, Nat.mul_add_mod, Nat.mod_eq_of_lt hlt]
  have hhigh : ringNumber cells s / 2 ^ (8 * cells.length) = carryDigit s := by
    rw [ringNumber_eq, Nat.mul_add_div (by positivity), Nat.div_eq_of_lt hlt, Nat.add_zero]
  rw [Turns, hlow, hhigh, Nat.two_mul]
  exact hvalue

theorem ringBit_of_adds (h : Adds 256 (cellBytes s cells) (cellBytes s cells) (carryDigit s)
    (cellBytes t cells) (carryDigit t)) (i : ZMod (8 * cells.length + 1)) :
    ringBit cells t i = ringBit cells s (i - 1) := by
  rw [← testBit_ringNumber, ← testBit_ringNumber]
  exact (turns_of_adds h).testBit (ringNumber_lt s cells) i

/-- One rotation turns the ring by one place. -/
theorem ringBit_rotation (distinct : cells.Nodup) (rotation : Rotation)
    (h : Performs shiftFamily isa (rotation.chain cells) s t) (i : ZMod (8 * cells.length + 1)) :
    ringBit cells t i = ringBit cells s (i - rotation.places) := by
  cases rotation with
  | left =>
    rw [ringBit_of_adds (adds_rotateLeft distinct h) i]
    simp [Rotation.places]
  | right =>
    have hback := ringBit_of_adds (adds_rotateRight distinct h) (i + 1)
    rw [add_sub_cancel_right] at hback
    rw [← hback]
    simp [Rotation.places]

/-- Rotations one after another: the places add up. -/
theorem ringBit_rotations (distinct : cells.Nodup) {rotations : List Rotation}
    (h : Performs shiftFamily isa (rotationChain cells rotations) s t)
    (i : ZMod (8 * cells.length + 1)) :
    ringBit cells t i = ringBit cells s (i - placesLeft rotations) := by
  induction rotations generalizing s with
  | nil =>
    cases h
    simp [placesLeft]
  | cons rotation rotations ih =>
    obtain ⟨u, head, tail⟩ := h.of_append
    have hsum : placesLeft (rotation :: rotations) = rotation.places + placesLeft rotations :=
      List.sum_cons
    rw [ih tail, ringBit_rotation distinct rotation head, hsum]
    congr 1
    push_cast
    ring

/-- The ring has every bit of the cells, and the carry. -/
theorem bytes_of_ringBit (h : ∀ i, ringBit cells t i = ringBit cells s i) :
    (∀ a ∈ cells, t.memory.byteAt a = s.memory.byteAt a) ∧
      t.P.getBit .carry = s.P.getBit .carry := by
  constructor
  · intro a ha
    obtain ⟨k, hk, rfl⟩ := List.mem_iff_getElem.mp ha
    apply BitVec.eq_of_getLsbD_eq
    intro j hj
    have hval : ((8 * k + j : ℕ) : ZMod (8 * cells.length + 1)).val = 8 * k + j :=
      ZMod.val_natCast_of_lt (by omega)
    have hbit := h (8 * k + j : ℕ)
    rw [ringBit, ringBit, hval, Nat.mul_add_mod, Nat.mod_eq_of_lt hj,
      Nat.mul_add_div (by omega), Nat.div_eq_of_lt hj, Nat.add_zero,
      List.getElem?_eq_getElem hk] at hbit
    exact hbit
  · have hval : ((8 * cells.length : ℕ) : ZMod (8 * cells.length + 1)).val = 8 * cells.length :=
      ZMod.val_natCast_of_lt (by omega)
    have hbit := h (8 * cells.length : ℕ)
    rw [ringBit, ringBit, hval, Nat.mul_div_cancel_left _ (by omega),
      List.getElem?_eq_none (Nat.le_refl _)] at hbit
    exact hbit

theorem cells_of_rotationChain {rotations : List Rotation} :
    ∀ op ∈ rotationChain cells rotations, op.2 ∈ cells := by
  intro op hop
  obtain ⟨rotation, -, hmem⟩ := List.mem_flatMap.mp hop
  cases rotation with
  | left => exact cells_of_rotateLeft op hmem
  | right => exact cells_of_rotateRight op hmem

end Ring

/-- However a number of `n` bytes is rotated, with the carry, its `8 n + 1` bits go round a
ring by as many places as there are more rotations to the left than to the right; full
turns restore every byte and the carry; nothing else changes. Over a full memory the rotations
come to their end. -/
theorem rotations_turn_ring (isa : CPU6502ISA) (cells : List Address) (distinct : cells.Nodup)
    (rotations : List Rotation) (s : CPU6502) :
    (maxMemory ≤ s.memory.size → Stands shiftFamily isa (rotationChain cells rotations) s →
      ∃ t, Performs shiftFamily isa (rotationChain cells rotations) s t) ∧
    ∀ t, Performs shiftFamily isa (rotationChain cells rotations) s t →
      (∀ i, ringBit cells t i = ringBit cells s (i - placesLeft rotations)) ∧
        (((8 * cells.length + 1 : ℕ) : ℤ) ∣ placesLeft rotations →
          (∀ a ∈ cells, t.memory.byteAt a = s.memory.byteAt a) ∧
            t.P.getBit .carry = s.P.getBit .carry) ∧
        ShiftFrame cells s t := by
  refine ⟨fun hs h => h.exists_performs hs, fun t h => ?_⟩
  refine ⟨ringBit_rotations distinct h, fun hdvd => ?_, h.shiftFrame cells_of_rotationChain⟩
  apply bytes_of_ringBit
  intro i
  rw [ringBit_rotations distinct h, (ZMod.intCast_zmod_eq_zero_iff_dvd _ _).mpr hdvd, sub_zero]

/-- `ROL $20` nine times over `0x5A`, with the carry clear. -/
def rotatesAround : CPU6502 :=
  CPU6502.initial ((GPMemory.ofProgram [0x26, 0x20, 0x26, 0x20, 0x26, 0x20, 0x26, 0x20, 0x26, 0x20,
    0x26, 0x20, 0x26, 0x20, 0x26, 0x20, 0x26, 0x20]).updated 0x20 0x5A) false

theorem rotations_turn_ring_rotatesAround :
    ∃ t, Performs shiftFamily isa (rotationChain [0x20] (List.replicate 9 .left)) rotatesAround t ∧
      t.memory.byteAt 0x20 = 0x5A := by
  have hrun : Performs shiftFamily isa (rotationChain [0x20] (List.replicate 9 .left))
      rotatesAround _ :=
    .cons (by decide) rfl rfl rfl (.cons (by decide) rfl rfl rfl (.cons (by decide) rfl rfl rfl
      (.cons (by decide) rfl rfl rfl (.cons (by decide) rfl rfl rfl (.cons (by decide) rfl rfl rfl
        (.cons (by decide) rfl rfl rfl (.cons (by decide) rfl rfl rfl (.cons (by decide) rfl rfl rfl
          (.nil _)))))))))
  obtain ⟨-, hturn, -⟩ := (rotations_turn_ring isa [0x20] (by simp) _ rotatesAround).2 _ hrun
  exact ⟨_, hrun, ((hturn (by decide)).1 0x20 (by simp)).trans (by decide)⟩

end Sim6502
