import Sim6502.GeneralMemory
import Sim6502.MemoryFrame

/-!
# Importing into the memory of `gp_memory.cpp`

An import appends what the stream delivers to the vector. Together with `read`, `write`
and `set_print_device` it makes the memory a list of bytes with one address that is
printed, whatever the order in which these are called.
-/
namespace Sim6502
open EventComputation

namespace GPMemory

/-- `GP_Memory()`. -/
def empty : GPMemory where
  size := 0
  cell _ := 0
  printDeviceAddr := defaultOutputAddress

section Import
variable {ε : Type}

/-- `memory_.push_back(byte)`. -/
def pushBack (value : Byte) : Routine GPMemory ε Event Unit :=
  .modify fun m => { m with size := m.size + 1, cell := Function.update m.cell m.size value }

/-- `import(std::istream &)`, over what the stream has left. -/
def importStream : List Byte → Routine GPMemory ε Event Unit
  | [] => return
  | byte :: rest => do
    pushBack byte
    importStream rest

end Import

def setPrintDevice (addr : Address) : MemoryComputation Unit :=
  .modify fun m => { m with printDeviceAddr := addr }

/-- An exception with its text. -/
def throw {α : Type} (what : List Char) : Routine GPMemory (List Char) Event α :=
  ⟨fun m => ⟨.error what, m, []⟩⟩

end GPMemory

/-- `std::filesystem::file_size` delivers a size or throws, and a stream that is good
delivers the content. -/
structure FileSystem where
  fileSize : List Char → Except (List Char) ℕ
  content : List Char → Option (List Byte)

/-- `import(const std::string &)`. The size is for the reservation only. -/
def GPMemory.importFile (files : FileSystem) (filename : List Char) :
    Routine GPMemory (List Char) Event Unit :=
  match files.fileSize filename with
  | .error what => throw what
  | .ok _ => match files.content filename with
    | none => throw ("Could not open file ".toList ++ filename ++
        ". Make sure the assembled binary is there.".toList)
    | some bytes => importStream bytes

/-! ## What the memory is for -/

/-- The operations of the class, from outside. -/
inductive MemoryOperation where
  | importStream (bytes : List Byte)
  | read (index : ℕ)
  | write (address : Address) (value : Byte)
  | setPrintDevice (address : Address)

/-- A list of bytes, an address that is printed, and what was printed. -/
structure ByteStore where
  bytes : List Byte
  device : Address
  output : List Byte

namespace ByteStore

def empty : ByteStore := ⟨[], defaultOutputAddress, []⟩

/-- An operation with the value it delivers, if it has a meaning. -/
def perform (store : ByteStore) : MemoryOperation → Option (Option Byte × ByteStore)
  | .importStream bytes => some (none, { store with bytes := store.bytes ++ bytes })
  | .read index => store.bytes[index]?.map fun value => (some value, store)
  | .write address value =>
    if address.toNat < store.bytes.length then
      some (none, { store with
        bytes := store.bytes.set address.toNat value
        output := if address = store.device then store.output ++ [value] else store.output })
    else none
  | .setPrintDevice address => some (none, { store with device := address })

/-- The values read, in order, and the store at the end. -/
def performAll (store : ByteStore) : List MemoryOperation → Option (List Byte × ByteStore)
  | [] => some ([], store)
  | operation :: rest => do
    let (value, next) ← store.perform operation
    let (values, last) ← next.performAll rest
    return (value.toList ++ values, last)

end ByteStore

/-! ## The memory is such a store -/

/-- What the source does for an operation. -/
def MemoryOperation.run : MemoryOperation → MemoryComputation (Option Byte)
  | .importStream bytes => do
    GPMemory.importStream bytes
    return none
  | .read index => return some (← GPMemory.read index)
  | .write address value => do
    GPMemory.write address value
    return none
  | .setPrintDevice address => do
    GPMemory.setPrintDevice address
    return none

def runAll : List MemoryOperation → MemoryComputation (List Byte)
  | [] => return []
  | operation :: rest => do
    let value ← operation.run
    let values ← runAll rest
    return value.toList ++ values

/-- The vector holds the bytes of the store. -/
structure HoldsBytes (m : GPMemory) (store : ByteStore) : Prop where
  size : m.size = store.bytes.length
  cell : ∀ index (h : index < store.bytes.length), m.cell index = store.bytes[index]
  device : m.printDeviceAddr = store.device

theorem holdsBytes_empty : HoldsBytes .empty .empty :=
  ⟨rfl, fun index h => absurd h index.not_lt_zero, rfl⟩

section Refinement
variable {m : GPMemory} {store : ByteStore}

theorem HoldsBytes.pushBack (h : HoldsBytes m store) (value : Byte) :
    HoldsBytes { m with size := m.size + 1, cell := Function.update m.cell m.size value }
      { store with bytes := store.bytes ++ [value] } := by
  refine ⟨by simp [h.size], fun index hi => ?_, h.device⟩
  rw [List.length_append, List.length_singleton] at hi
  by_cases hlast : index = store.bytes.length
  · subst hlast
    simp [h.size]
  · have hlt : index < store.bytes.length := by omega
    have hne : index ≠ m.size := by rwa [h.size]
    simp only [Function.update_of_ne hne, List.getElem_append_left hlt]
    exact h.cell index hlt

/-- The bytes of the stream follow those that were there. -/
theorem HoldsBytes.run_importStream {ε : Type} (h : HoldsBytes m store) (bytes : List Byte) :
    ∃ m', (GPMemory.importStream bytes : Routine GPMemory ε Event Unit).run m =
        ⟨.ok (), m', []⟩ ∧ HoldsBytes m' { store with bytes := store.bytes ++ bytes } := by
  induction bytes generalizing m store with
  | nil =>
    rw [List.append_nil]
    exact ⟨m, rfl, h⟩
  | cons byte bytes ih =>
    obtain ⟨m', hrun, hholds⟩ := ih (h.pushBack byte)
    refine ⟨m', ?_, by simpa using hholds⟩
    rw [GPMemory.importStream, GPMemory.pushBack, Routine.run_bind_of_ok (Routine.run_modify _ m),
      hrun]
    rfl

theorem HoldsBytes.updated (h : HoldsBytes m store) (a : Address) (v : Byte) :
    HoldsBytes (m.updated a v) { store with bytes := store.bytes.set a.toNat v } := by
  refine ⟨by simp [h.size], fun index hi => ?_, h.device⟩
  rw [List.length_set] at hi
  by_cases ha : index = a.toNat
  · subst ha
    simp
  · rw [m.cell_updated_of_ne ha, List.getElem_set_of_ne (Ne.symm ha)]
    exact h.cell index hi

/-- An operation with a meaning does what the store does; any other is an access outside
the vector. -/
theorem HoldsBytes.run_operation (h : HoldsBytes m store) (operation : MemoryOperation) :
    match store.perform operation with
    | some (value, next) => ∃ m' events, operation.run.run m = ⟨.ok value, m', events⟩ ∧
        HoldsBytes m' next ∧ next.output = store.output ++ printed events
    | none => ∃ index, ¬index < m.size ∧
        (operation.run.run m).result = .error (.undefined index) := by
  cases operation with
  | importStream bytes =>
    obtain ⟨m', hrun, hholds⟩ := h.run_importStream bytes
    refine ⟨m', [], ?_, hholds, by simp⟩
    rw [MemoryOperation.run, Routine.run_bind_of_ok hrun]
    rfl
  | read index =>
    by_cases hi : index < store.bytes.length
    · have hin : index < m.size := h.size ▸ hi
      simp only [ByteStore.perform, List.getElem?_eq_getElem hi, Option.map_some]
      refine ⟨m, [.read index], ?_, h, by simp⟩
      rw [MemoryOperation.run, Routine.run_bind_of_ok (m.run_read hin), h.cell index hi]
      rfl
    · have hout : ¬index < m.size := h.size ▸ hi
      simp only [ByteStore.perform, List.getElem?_eq_none (Nat.not_lt.mp hi), Option.map_none]
      refine ⟨index, hout, ?_⟩
      rw [MemoryOperation.run, Routine.run_bind_of_error (m.run_read_outside hout)]
  | write a v =>
    by_cases hi : a.toNat < store.bytes.length
    · have hin : a.toNat < m.size := h.size ▸ hi
      simp only [ByteStore.perform, if_pos hi]
      refine ⟨m.updated a v, m.writeEvents a v, ?_, ?_, ?_⟩
      · rw [MemoryOperation.run, Routine.run_bind_of_ok (m.run_write hin v)]
        simp
      · exact ⟨(h.updated a v).size, (h.updated a v).cell, h.device⟩
      · rw [printed_writeEvents, h.device]
        split <;> simp
    · have hout : ¬a.toNat < m.size := h.size ▸ hi
      simp only [ByteStore.perform, if_neg hi]
      refine ⟨a.toNat, hout, ?_⟩
      rw [MemoryOperation.run, Routine.run_bind_of_error (m.run_write_outside hout v)]
  | setPrintDevice a =>
    refine ⟨{ m with printDeviceAddr := a }, [], rfl, ⟨h.size, h.cell, rfl⟩, by simp⟩

/-- The same for any sequence of operations. -/
theorem HoldsBytes.runAll (h : HoldsBytes m store) (operations : List MemoryOperation) :
    match store.performAll operations with
    | some (values, last) => ∃ m' events, (Sim6502.runAll operations).run m =
        ⟨.ok values, m', events⟩ ∧ HoldsBytes m' last ∧ last.output = store.output ++ printed events
    | none => ∃ index, ((Sim6502.runAll operations).run m).result = .error (.undefined index) := by
  induction operations generalizing m store with
  | nil => exact ⟨m, [], rfl, h, by simp⟩
  | cons operation rest ih =>
    have hfirst := h.run_operation operation
    rw [ByteStore.performAll]
    cases hperform : store.perform operation with
    | none =>
      rw [hperform] at hfirst
      obtain ⟨index, -, herror⟩ := hfirst
      rcases hrun : operation.run.run m with ⟨r, t, events⟩
      obtain rfl : r = .error (.undefined index) := by simpa [hrun] using herror
      refine ⟨index, ?_⟩
      rw [Sim6502.runAll, Routine.run_bind_of_error hrun]
    | some result =>
      obtain ⟨value, next⟩ := result
      rw [hperform] at hfirst
      obtain ⟨t, events, hrun, hnext, houtput⟩ := hfirst
      have hrest := ih hnext
      simp only [Option.bind_eq_bind, Option.bind_some]
      cases hlater : next.performAll rest with
      | none =>
        rw [hlater] at hrest
        obtain ⟨index, herror⟩ := hrest
        rcases hrun' : (Sim6502.runAll rest).run t with ⟨r, u, later⟩
        obtain rfl : r = .error (.undefined index) := by simpa [hrun'] using herror
        refine ⟨index, ?_⟩
        rw [Sim6502.runAll, Routine.run_bind_of_ok hrun, Routine.run_bind_of_error hrun']
        rfl
      | some result =>
        obtain ⟨values, last⟩ := result
        rw [hlater] at hrest
        obtain ⟨u, later, hrun', hlast, houtput'⟩ := hrest
        refine ⟨u, events ++ later, ?_, hlast, ?_⟩
        · rw [Sim6502.runAll, Routine.run_bind_of_ok hrun, Routine.run_bind_of_ok hrun']
          simp
        · rw [houtput', houtput, printed_append, List.append_assoc]

end Refinement

/-- Whatever operations are called on a new memory, it delivers, prints and holds what a
list of bytes would that grows at its end with every import, up to the first access
outside the list, which the vector does not define. -/
theorem memory_is_a_byte_store (operations : List MemoryOperation) :
    match ByteStore.empty.performAll operations with
    | some (values, last) => ∃ m events, (runAll operations).run .empty =
        ⟨.ok values, m, events⟩ ∧ HoldsBytes m last ∧ last.output = printed events
    | none => ∃ index, ((runAll operations).run .empty).result = .error (.undefined index) := by
  have h := holdsBytes_empty.runAll operations
  cases hperform : ByteStore.empty.performAll operations with
  | none => rwa [hperform] at h
  | some result => rwa [hperform] at h

example : (ByteStore.empty.performAll
    [.importStream [1, 2], .write 0 7, .importStream [3], .read 0, .read 2]).map Prod.fst =
      some [7, 3] := by decide

/-! ## A binary -/

/-- Another byte behind an image. -/
theorem pushBack_ofImage (image : List Byte) (value : Byte) :
    { GPMemory.ofImage image with
      size := (GPMemory.ofImage image).size + 1
      cell := Function.update (GPMemory.ofImage image).cell (GPMemory.ofImage image).size value } =
        GPMemory.ofImage (image ++ [value]) := by
  have hcell : Function.update (GPMemory.ofImage image).cell image.length value =
      (GPMemory.ofImage (image ++ [value])).cell := by
    funext index
    rcases Nat.lt_trichotomy index image.length with hlt | rfl | hgt
    · simp [GPMemory.ofImage, Function.update_of_ne (Nat.ne_of_lt hlt),
        List.getElem?_append_left hlt]
    · simp [GPMemory.ofImage]
    · have hout : (image ++ [value]).length ≤ index := by
        rw [List.length_append]
        exact hgt
      simp [GPMemory.ofImage, Function.update_of_ne (Nat.ne_of_gt hgt),
        List.getElem?_eq_none (Nat.le_of_lt hgt), List.getElem?_eq_none hout]
  apply GPMemory.ext
  · simp [GPMemory.ofImage]
  · exact hcell
  · rfl

/-- Imports one after the other put their contents one behind the other. -/
theorem run_importStream_ofImage {ε : Type} (image bytes : List Byte) :
    (GPMemory.importStream bytes : Routine GPMemory ε Event Unit).run (.ofImage image) =
      ⟨.ok (), .ofImage (image ++ bytes), []⟩ := by
  induction bytes generalizing image with
  | nil => rw [List.append_nil]; rfl
  | cons byte bytes ih =>
    rw [GPMemory.importStream, GPMemory.pushBack, Routine.run_bind_of_ok (Routine.run_modify _ _),
      pushBack_ofImage, ih]
    simp

end Sim6502
