import Sim6502.GeneralMemory
import Sim6502.StatusRegister

/-!
# The processor state of `6502cpu.h` and its primitive operations

The registers, the flags and the memory are one state. The accessors of the
class, `update_flags` and the two stack operations are computations over it.
-/
namespace Sim6502
open EventComputation

def resetVectorLow : ℕ := 0xFFFC
def resetVectorHigh : ℕ := 0xFFFD
def stackStart : ℕ := 0x1FF

@[ext]
structure CPU6502 where
  A : Byte
  X : Byte
  Y : Byte
  S : Byte
  P : PSR
  PC : Address
  memory : GPMemory
  debug : Bool
  verbose : Bool

abbrev Cpu := Routine CPU6502 Fault Event

namespace CPU6502

/-- The part of the state outside memory that instructions work on. -/
structure Registers where
  A : Byte
  X : Byte
  Y : Byte
  S : Byte
  P : PSR
  PC : Address
  deriving DecidableEq

def registers (cpu : CPU6502) : Registers := ⟨cpu.A, cpu.X, cpu.Y, cpu.S, cpu.P, cpu.PC⟩

/-- The member initialisers of the constructor. -/
def initial (memory : GPMemory) (debug : Bool) : CPU6502 where
  A := 0
  X := 0
  Y := 0
  S := BitVec.ofNat 8 stackStart
  P := .initial
  PC := 0
  memory := memory
  debug := debug
  verbose := false

def getA : Cpu Byte := return (← Routine.get).A
def getX : Cpu Byte := return (← Routine.get).X
def getY : Cpu Byte := return (← Routine.get).Y
def getS : Cpu Byte := return (← Routine.get).S
def getPC : Cpu Address := return (← Routine.get).PC
def getPSR : Cpu PSR := return (← Routine.get).P

def setA (value : Byte) : Cpu Unit := .modify fun cpu => { cpu with A := value }
def setX (value : Byte) : Cpu Unit := .modify fun cpu => { cpu with X := value }
def setY (value : Byte) : Cpu Unit := .modify fun cpu => { cpu with Y := value }
def setS (value : Byte) : Cpu Unit := .modify fun cpu => { cpu with S := value }
def setPC (value : Address) : Cpu Unit := .modify fun cpu => { cpu with PC := value }
def setPSR (value : PSR) : Cpu Unit := .modify fun cpu => { cpu with P := value }

def isDebug : Cpu Bool := return (← Routine.get).debug
def isVerbose : Cpu Bool := return (← Routine.get).verbose

/-- `get_PSR()->get_bit(bit)`. -/
def getBit (bit : PsrBit) : Cpu Bool := return (← getPSR).getBit bit

/-- `get_PSR()->set_bit(bit, value)`. -/
def setBit (bit : PsrBit) (value : Bool) : Cpu Unit :=
  .modify fun cpu => { cpu with P := cpu.P.setBit bit value }

/-- Run an operation of the memory object. -/
def onMemory {α : Type} (x : MemoryComputation α) : Cpu α :=
  x.zoom CPU6502.memory fun cpu memory => { cpu with memory := memory }

def readIndex (index : ℕ) : Cpu Byte := onMemory (GPMemory.read index)
def readMemory (address : Address) : Cpu Byte := onMemory (GPMemory.readAddress address)
def writeMemory (address : Address) (value : Byte) : Cpu Unit :=
  onMemory (GPMemory.write address value)

def announce (message : Message) : Cpu Unit := .emit (.announce message)

/-- The reset sequence in the body of the constructor. -/
def reset : Cpu Unit := do
  let cpu ← Routine.get
  if maxMemory < cpu.memory.size then
    announce .memoryOverLimit
  let low ← readIndex resetVectorLow
  let high ← readIndex resetVectorHigh
  if (low = fullByte ∧ high = fullByte) ∨ (low = zeroByte ∧ high = zeroByte) then
    announce .resetVectorNotSet
  setPC (.ofBytes low high)

/-- `CPU6502(memory, debug)`. -/
def construct (memory : GPMemory) (debug : Bool) : Outcome CPU6502 Fault Event Unit :=
  reset.run (initial memory debug)

def updateFlags (value : Byte) : Cpu Unit := do
  setBit .zero (value == zeroByte)
  setBit .negative (value &&& msBitMask != zeroByte)

/-- The cell is the byte `S` as an address. The marker event names the cell, so
that runs can be asked which cells the stack touched. -/
def popStack : Cpu Byte := do
  let cell := Address.ofByte (← getS)
  Routine.emit (.stackCell cell)
  let value ← readMemory cell
  setS (byteAddInt (← getS) 1).value
  return value

def pushStack (value : Byte) : Cpu Unit := do
  setS (byteSubInt (← getS) 1).value
  let cell := Address.ofByte (← getS)
  Routine.emit (.stackCell cell)
  writeMemory cell value

/-- The byte the next pop delivers. -/
def top (cpu : CPU6502) : Byte := cpu.memory.byteAt (.ofByte cpu.S)

def popped (cpu : CPU6502) : CPU6502 := { cpu with S := cpu.S + 1 }

def popEvents (cpu : CPU6502) : List Event := [.stackCell (.ofByte cpu.S), .read cpu.S.toNat]

def pushed (cpu : CPU6502) (value : Byte) : CPU6502 :=
  { cpu with S := cpu.S - 1, memory := cpu.memory.updated (.ofByte (cpu.S - 1)) value }

def pushEvents (cpu : CPU6502) (value : Byte) : List Event :=
  .stackCell (.ofByte (cpu.S - 1)) :: cpu.memory.writeEvents (.ofByte (cpu.S - 1)) value

/-! ## What each primitive does to a state -/

section Primitives
variable (cpu : CPU6502)

@[simp] theorem run_getA : getA.run cpu = ⟨.ok cpu.A, cpu, []⟩ := rfl
@[simp] theorem run_getX : getX.run cpu = ⟨.ok cpu.X, cpu, []⟩ := rfl
@[simp] theorem run_getY : getY.run cpu = ⟨.ok cpu.Y, cpu, []⟩ := rfl
@[simp] theorem run_getS : getS.run cpu = ⟨.ok cpu.S, cpu, []⟩ := rfl
@[simp] theorem run_getPC : getPC.run cpu = ⟨.ok cpu.PC, cpu, []⟩ := rfl
@[simp] theorem run_getPSR : getPSR.run cpu = ⟨.ok cpu.P, cpu, []⟩ := rfl
@[simp] theorem run_isDebug : isDebug.run cpu = ⟨.ok cpu.debug, cpu, []⟩ := rfl
@[simp] theorem run_isVerbose : isVerbose.run cpu = ⟨.ok cpu.verbose, cpu, []⟩ := rfl

@[simp] theorem run_setA (v : Byte) : (setA v).run cpu = ⟨.ok (), { cpu with A := v }, []⟩ := rfl
@[simp] theorem run_setX (v : Byte) : (setX v).run cpu = ⟨.ok (), { cpu with X := v }, []⟩ := rfl
@[simp] theorem run_setY (v : Byte) : (setY v).run cpu = ⟨.ok (), { cpu with Y := v }, []⟩ := rfl
@[simp] theorem run_setS (v : Byte) : (setS v).run cpu = ⟨.ok (), { cpu with S := v }, []⟩ := rfl
@[simp] theorem run_setPC (v : Address) :
    (setPC v).run cpu = ⟨.ok (), { cpu with PC := v }, []⟩ := rfl
@[simp] theorem run_setPSR (v : PSR) :
    (setPSR v).run cpu = ⟨.ok (), { cpu with P := v }, []⟩ := rfl

@[simp] theorem run_getBit (bit : PsrBit) :
    (getBit bit).run cpu = ⟨.ok (cpu.P.getBit bit), cpu, []⟩ := rfl

@[simp] theorem run_setBit (bit : PsrBit) (v : Bool) :
    (setBit bit v).run cpu = ⟨.ok (), { cpu with P := cpu.P.setBit bit v }, []⟩ := rfl

@[simp] theorem run_announce (message : Message) :
    (announce message).run cpu = ⟨.ok (), cpu, [.announce message]⟩ := rfl

theorem run_readIndex {index : ℕ} (h : index < cpu.memory.size) :
    (readIndex index).run cpu = ⟨.ok (cpu.memory.cell index), cpu, [.read index]⟩ := by
  simp only [readIndex, onMemory, Routine.run_zoom, GPMemory.run_read _ h]

theorem run_readMemory_of_lt {a : Address} (h : a.toNat < cpu.memory.size) :
    (readMemory a).run cpu = ⟨.ok (cpu.memory.byteAt a), cpu, [.read a.toNat]⟩ :=
  run_readIndex cpu h

theorem run_writeMemory_of_lt {a : Address} (h : a.toNat < cpu.memory.size) (v : Byte) :
    (writeMemory a v).run cpu =
      ⟨.ok (), { cpu with memory := cpu.memory.updated a v }, cpu.memory.writeEvents a v⟩ := by
  simp only [writeMemory, onMemory, Routine.run_zoom, GPMemory.run_write _ h]

theorem run_popStack_of_lt (h : cpu.S.toNat < cpu.memory.size) :
    popStack.run cpu = ⟨.ok cpu.top, cpu.popped, cpu.popEvents⟩ := by
  simp [popStack, Routine.run_bind, run_readMemory_of_lt, h, top, popped, popEvents]

theorem run_pushStack_of_lt (h : (cpu.S - 1).toNat < cpu.memory.size) (v : Byte) :
    (pushStack v).run cpu = ⟨.ok (), cpu.pushed v, cpu.pushEvents v⟩ := by
  have ha : (Address.ofByte (cpu.S - 1)).toNat < cpu.memory.size := by
    rwa [Address.toNat_ofByte]
  simp only [pushStack, Routine.run_bind, run_getS, run_setS, Routine.run_emit,
    byteSubInt_value, run_writeMemory_of_lt { cpu with S := cpu.S - 1 } ha v, Outcome.after_mk,
    List.nil_append, List.singleton_append, pushed, pushEvents]

theorem run_readIndex_outside {index : ℕ} (h : ¬index < cpu.memory.size) :
    (readIndex index).run cpu = ⟨.error (.undefined index), cpu, [.read index]⟩ := by
  simp only [readIndex, onMemory, Routine.run_zoom, GPMemory.run_read_outside _ h]

theorem run_readMemory_outside {a : Address} (h : ¬a.toNat < cpu.memory.size) :
    (readMemory a).run cpu = ⟨.error (.undefined a.toNat), cpu, [.read a.toNat]⟩ :=
  run_readIndex_outside cpu h

theorem run_writeMemory_outside {a : Address} (h : ¬a.toNat < cpu.memory.size) (v : Byte) :
    (writeMemory a v).run cpu =
      ⟨.error (.undefined a.toNat), cpu, cpu.memory.writeEvents a v⟩ := by
  simp only [writeMemory, onMemory, Routine.run_zoom, GPMemory.run_write_outside _ h]

theorem run_popStack_outside (h : ¬cpu.S.toNat < cpu.memory.size) :
    popStack.run cpu = ⟨.error (.undefined cpu.S.toNat), cpu, cpu.popEvents⟩ := by
  simp [popStack, Routine.run_bind, run_readMemory_outside, h, popEvents]

theorem run_pushStack_outside (h : ¬(cpu.S - 1).toNat < cpu.memory.size) (v : Byte) :
    (pushStack v).run cpu =
      ⟨.error (.undefined (cpu.S - 1).toNat), { cpu with S := cpu.S - 1 }, cpu.pushEvents v⟩ := by
  have ha : ¬(Address.ofByte (cpu.S - 1)).toNat < cpu.memory.size := by
    rwa [Address.toNat_ofByte]
  simp only [pushStack, Routine.run_bind, run_getS, run_setS, Routine.run_emit,
    byteSubInt_value, run_writeMemory_outside { cpu with S := cpu.S - 1 } ha v, Outcome.after_mk,
    List.nil_append, List.singleton_append, pushEvents, Address.toNat_ofByte]

/-! Over a memory of full size every address is in bounds. -/

theorem run_readMemory (hs : maxMemory ≤ cpu.memory.size) (a : Address) :
    (readMemory a).run cpu = ⟨.ok (cpu.memory.byteAt a), cpu, [.read a.toNat]⟩ :=
  run_readMemory_of_lt cpu (cpu.memory.lt_size hs a)

theorem run_writeMemory (hs : maxMemory ≤ cpu.memory.size) (a : Address) (v : Byte) :
    (writeMemory a v).run cpu =
      ⟨.ok (), { cpu with memory := cpu.memory.updated a v }, cpu.memory.writeEvents a v⟩ :=
  run_writeMemory_of_lt cpu (cpu.memory.lt_size hs a) v

theorem run_popStack (hs : maxMemory ≤ cpu.memory.size) :
    popStack.run cpu = ⟨.ok cpu.top, cpu.popped, cpu.popEvents⟩ :=
  run_popStack_of_lt cpu (by simpa using cpu.memory.lt_size hs (.ofByte cpu.S))

theorem run_pushStack (hs : maxMemory ≤ cpu.memory.size) (v : Byte) :
    (pushStack v).run cpu = ⟨.ok (), cpu.pushed v, cpu.pushEvents v⟩ :=
  run_pushStack_of_lt cpu (by simpa using cpu.memory.lt_size hs (.ofByte (cpu.S - 1))) v

end Primitives

section Stack
variable (cpu : CPU6502) (v : Byte)

-- Proved by tactic: a `rfl` proof term makes simp lose the side condition it rewrote.

@[simp] theorem A_pushed : (cpu.pushed v).A = cpu.A := by rfl
@[simp] theorem X_pushed : (cpu.pushed v).X = cpu.X := by rfl
@[simp] theorem Y_pushed : (cpu.pushed v).Y = cpu.Y := by rfl
@[simp] theorem S_pushed : (cpu.pushed v).S = cpu.S - 1 := by rfl
@[simp] theorem P_pushed : (cpu.pushed v).P = cpu.P := by rfl
@[simp] theorem PC_pushed : (cpu.pushed v).PC = cpu.PC := by rfl
@[simp] theorem debug_pushed : (cpu.pushed v).debug = cpu.debug := by rfl
@[simp] theorem verbose_pushed : (cpu.pushed v).verbose = cpu.verbose := by rfl
@[simp] theorem memory_pushed :
    (cpu.pushed v).memory = cpu.memory.updated (.ofByte (cpu.S - 1)) v := by rfl

@[simp] theorem A_popped : cpu.popped.A = cpu.A := by rfl
@[simp] theorem X_popped : cpu.popped.X = cpu.X := by rfl
@[simp] theorem Y_popped : cpu.popped.Y = cpu.Y := by rfl
@[simp] theorem S_popped : cpu.popped.S = cpu.S + 1 := by rfl
@[simp] theorem P_popped : cpu.popped.P = cpu.P := by rfl
@[simp] theorem PC_popped : cpu.popped.PC = cpu.PC := by rfl
@[simp] theorem debug_popped : cpu.popped.debug = cpu.debug := by rfl
@[simp] theorem verbose_popped : cpu.popped.verbose = cpu.verbose := by rfl
@[simp] theorem memory_popped : cpu.popped.memory = cpu.memory := by rfl

/-- A pushed byte is the next one popped. -/
@[simp] theorem top_pushed : (cpu.pushed v).top = v := by
  simp [top, GPMemory.byteAt_updated]

end Stack

/-- The constructor finds the reset vector, sets `PC` from it and changes nothing else. -/
theorem construct_of_lt {memory : GPMemory} (hhigh : resetVectorHigh < memory.size)
    (debug : Bool) :
    (construct memory debug).result = .ok () ∧
      (construct memory debug).state =
        { initial memory debug with
          PC := .ofBytes (memory.cell resetVectorLow) (memory.cell resetVectorHigh) } := by
  have hlow : resetVectorLow < memory.size := lt_trans (by decide) hhigh
  have hreadLow := run_readIndex (initial memory debug) hlow
  have hreadHigh := run_readIndex (initial memory debug) hhigh
  simp only [construct, reset, Routine.run_bind, Routine.run_get, Routine.run_ite,
    run_announce, run_setPC, hreadLow, hreadHigh, Outcome.after_mk]
  split <;> split <;> exact ⟨rfl, rfl⟩

/-- A memory without the whole reset vector is read outside its bounds. -/
theorem lt_of_construct_ok {memory : GPMemory} {debug : Bool}
    (h : (construct memory debug).result = .ok ()) : resetVectorHigh < memory.size := by
  by_contra hhigh
  have hreadHigh := run_readIndex_outside (initial memory debug) hhigh
  by_cases hlow : resetVectorLow < memory.size
  · have hreadLow := run_readIndex (initial memory debug) hlow
    simp only [construct, reset, Routine.run_bind, Routine.run_get, Routine.run_ite,
      run_announce, hreadLow, hreadHigh, Outcome.after_mk] at h
    split at h <;> cases h
  · have hreadLow := run_readIndex_outside (initial memory debug) hlow
    simp only [construct, reset, Routine.run_bind, Routine.run_get, Routine.run_ite,
      run_announce, hreadLow, Outcome.after_mk] at h
    split at h <;> cases h

/-- Over a full memory the constructor sets `PC` from the reset vector and nothing else. -/
theorem state_construct {memory : GPMemory} (hs : maxMemory ≤ memory.size) (debug : Bool) :
    (construct memory debug).state =
      { initial memory debug with
        PC := .ofBytes (memory.cell resetVectorLow) (memory.cell resetVectorHigh) } :=
  (construct_of_lt (lt_of_lt_of_le (by decide) hs) debug).2

/-- Reading never changes the state, in bounds or not. -/
theorem preserves_readIndex (index : ℕ) : Routine.Preserves Eq (readIndex index) :=
  fun _ => rfl

theorem emits_readIndex (index : ℕ) :
    Routine.Emits (fun e => e = .read index) (readIndex index) := by
  intro s e he
  exact List.mem_singleton.mp he

end CPU6502

/-- The two flags `update_flags` writes. -/
def PSR.updateFlags (p : PSR) (value : Byte) : PSR :=
  (p.setBit .zero (value == zeroByte)).setBit .negative (value &&& msBitMask != zeroByte)

@[simp] theorem CPU6502.run_updateFlags (cpu : CPU6502) (v : Byte) :
    (CPU6502.updateFlags v).run cpu = ⟨.ok (), { cpu with P := cpu.P.updateFlags v }, []⟩ := rfl

end Sim6502
