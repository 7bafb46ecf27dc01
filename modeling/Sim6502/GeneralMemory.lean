import Sim6502.EventComputations
import Sim6502.InstructionTypes
import Mathlib.Logic.Function.Basic
import Mathlib.Order.Basic

/-!
# The general purpose memory of `gp_memory.cpp`

The vector is a size and a cell function. `operator[]` of a vector has a meaning
only below its size, so an access at any other index ends the computation in
`Fault.undefined`. The event list records every access in the order of the
source, an attempted one included, together with the bytes of the print device.
-/
namespace Sim6502
open EventComputation

def maxMemory : ℕ := 0x10000
def defaultOutputAddress : Address := 0xFFFB

/-- `outOfRange` is the exception the documentation of `read` announces;
`undefined` is an access outside the vector, which C++ gives no meaning. -/
inductive Fault where
  | outOfRange
  | undefined (index : ℕ)
  deriving DecidableEq

/-- What the program tells its user on `std::cout`, apart from the print device. -/
inductive Message where
  | memoryOverLimit
  | resetVectorNotSet
  | unknownOpcode (opcode : Byte)
  | instruction (name : Mnemonic) (opcode : Byte) (pc : Address)
  | stpReached
  | breakpointReached
  | text (chars : List Char)
  deriving DecidableEq

inductive Event where
  | read (index : ℕ)
  | write (index : ℕ) (value : Byte)
  | print (value : Byte)
  | stackCell (cell : Address)
  | announce (message : Message)
  deriving DecidableEq

@[ext]
structure GPMemory where
  size : ℕ
  cell : ℕ → Byte
  printDeviceAddr : Address

abbrev MemoryComputation := Routine GPMemory Fault Event

namespace GPMemory

/-- The memory after importing an image into an empty one. -/
def ofImage (image : List Byte) : GPMemory where
  size := image.length
  cell index := image.getD index 0
  printDeviceAddr := defaultOutputAddress

/-- A memory of full size with a program at its start. -/
def ofProgram (program : List Byte) : GPMemory := { ofImage program with size := maxMemory }

/-- `read(size_t)`. -/
def read (index : ℕ) : MemoryComputation Byte where
  run m :=
    ⟨if index < m.size then .ok (m.cell index) else .error (.undefined index), m, [.read index]⟩

/-- `read(address)`. -/
def readAddress (address : Address) : MemoryComputation Byte := read address.toNat

/-- `memory_[index] = value`. -/
def store (index : ℕ) (value : Byte) : MemoryComputation Unit where
  run m :=
    if index < m.size then
      ⟨.ok (), { m with cell := Function.update m.cell index value }, [.write index value]⟩
    else ⟨.error (.undefined index), m, [.write index value]⟩

def write (address : Address) (value : Byte) : MemoryComputation Unit := do
  let m ← Routine.get
  if address = m.printDeviceAddr then
    Routine.emit (.print value)
  store address.toNat value

/-- The byte an address names. -/
def byteAt (m : GPMemory) (address : Address) : Byte := m.cell address.toNat

/-- The memory after a write inside its bounds. -/
def updated (m : GPMemory) (address : Address) (value : Byte) : GPMemory :=
  { m with cell := Function.update m.cell address.toNat value }

/-- The events of a write: the print device sees the byte before it is stored. -/
def writeEvents (m : GPMemory) (address : Address) (value : Byte) : List Event :=
  if address = m.printDeviceAddr then [.print value, .write address.toNat value]
  else [.write address.toNat value]

theorem lt_size (m : GPMemory) (h : maxMemory ≤ m.size) (a : Address) : a.toNat < m.size :=
  lt_of_lt_of_le a.isLt h

@[simp] theorem size_updated (m : GPMemory) (a : Address) (v : Byte) :
    (m.updated a v).size = m.size := by rfl

@[simp] theorem printDeviceAddr_updated (m : GPMemory) (a : Address) (v : Byte) :
    (m.updated a v).printDeviceAddr = m.printDeviceAddr := by rfl

@[simp] theorem cell_updated_self (m : GPMemory) (a : Address) (v : Byte) :
    (m.updated a v).cell a.toNat = v := by
  simp [updated]

theorem cell_updated_of_ne (m : GPMemory) {a : Address} {index : ℕ} (h : index ≠ a.toNat)
    (v : Byte) : (m.updated a v).cell index = m.cell index := by
  simp [updated, Function.update_of_ne h]

/-- Below the address limit a write shows at its own address and nowhere else. -/
theorem byteAt_updated (m : GPMemory) (a b : Address) (v : Byte) :
    (m.updated a v).byteAt b = if b = a then v else m.byteAt b := by
  by_cases h : b = a
  · simp [byteAt, h]
  · have hn : b.toNat ≠ a.toNat := fun he => h (BitVec.eq_of_toNat_eq he)
    rw [if_neg h, byteAt, cell_updated_of_ne m hn, byteAt]

theorem run_read (m : GPMemory) {index : ℕ} (h : index < m.size) :
    (read index).run m = ⟨.ok (m.cell index), m, [.read index]⟩ := by
  simp [read, h]

theorem run_store (m : GPMemory) {address : Address} (h : address.toNat < m.size) (value : Byte) :
    (store address.toNat value).run m =
      ⟨.ok (), m.updated address value, [.write address.toNat value]⟩ := by
  simp [store, h, updated]

theorem run_write (m : GPMemory) {address : Address} (h : address.toNat < m.size) (value : Byte) :
    (write address value).run m =
      ⟨.ok (), m.updated address value, m.writeEvents address value⟩ := by
  have hs := run_store m h value
  by_cases hp : address = m.printDeviceAddr
  · simp only [write, Routine.run_bind, Routine.run_get, if_pos hp, Routine.run_emit,
      hs, writeEvents, Outcome.after_mk, List.nil_append, List.singleton_append]
  · simp only [write, Routine.run_bind, Routine.run_get, if_neg hp,
      hs, writeEvents, Outcome.after_mk, List.nil_append]

/-! Outside the bounds the access is attempted and nothing changes. -/

theorem run_read_outside (m : GPMemory) {index : ℕ} (h : ¬index < m.size) :
    (read index).run m = ⟨.error (.undefined index), m, [.read index]⟩ := by
  simp [read, h]

theorem run_write_outside (m : GPMemory) {address : Address} (h : ¬address.toNat < m.size)
    (value : Byte) :
    (write address value).run m =
      ⟨.error (.undefined address.toNat), m, m.writeEvents address value⟩ := by
  have hs : (store address.toNat value).run m =
      ⟨.error (.undefined address.toNat), m, [.write address.toNat value]⟩ := by
    simp [store, h]
  by_cases hp : address = m.printDeviceAddr
  · simp only [write, Routine.run_bind, Routine.run_get, if_pos hp, Routine.run_emit,
      hs, writeEvents, Outcome.after_mk, List.nil_append, List.singleton_append]
  · simp only [write, Routine.run_bind, Routine.run_get, if_neg hp,
      hs, writeEvents, Outcome.after_mk, List.nil_append]

end GPMemory

end Sim6502
