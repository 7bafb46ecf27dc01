import Sim6502.InstructionTable

/-!
# Fetch, decode and execute: `CPU6502::step` and `CPU6502::execute`

The local `op_address` of `step` is not initialised, and the mode `Implied`
leaves it so. The model takes the value it happens to hold as a parameter.
-/
namespace Sim6502
open EventComputation CPU6502

/-- `memory_->read((PC + offset).value)`. -/
def fetch (offset : Address) : Cpu Byte := do
  readMemory (addressAddInt (← getPC) offset).value

/-- The `switch` over the addressing mode. -/
def decode (unset : Address) : AddressingMode → Cpu Address
  | .absolute => do
    let low ← fetch 1
    let high ← fetch 2
    return .ofBytes low high
  | .absoluteIndexedIndirect => do
    let low ← fetch 1
    let high ← fetch 2
    let indirectAddress := Address.ofBytes low high
    let x ← getX
    let lowIndirect ← readMemory (addressAddByte indirectAddress x).value
    let highIndirect ← readMemory (addressAddInt (addressAddByte indirectAddress x).value 1).value
    return .ofBytes lowIndirect highIndirect
  | .absoluteIndexedX => do
    let low ← fetch 1
    let high ← fetch 2
    return (addressAddByte (.ofBytes low high) (← getX)).value
  | .absoluteIndexedY => do
    let low ← fetch 1
    let high ← fetch 2
    return (addressAddByte (.ofBytes low high) (← getY)).value
  | .absoluteIndirect => do
    let low ← fetch 1
    let high ← fetch 2
    -- a `size_t`: the second pointer byte is read at the index without wrapping
    let indirectAddress := high.toNat <<< 8 ||| low.toNat
    let lowIndirect ← readIndex indirectAddress
    let highIndirect ← readIndex (indirectAddress + 1)
    return .ofBytes lowIndirect highIndirect
  | .accumulator => return .ofByte (← getA)
  | .immediate => return (addressAddInt (← getPC) 1).value
  | .implied => return unset
  | .pcRelative => do
    let offset ← fetch 1
    return (addressAddInt (addressAddInt (← getPC) 2).value (offset.signExtend 16)).value
  | .stack => return .ofByte (← getS)
  | .zeroPage => return .ofByte (← fetch 1)
  | .zeroPageIndexedIndirect => do
    let low ← fetch 1
    let opAddress := Address.ofByte (byteAddByte low (← getX)).value
    let lowIndirect ← readMemory opAddress
    let highIndirect ← readMemory (addressAddInt opAddress 1).value
    return .ofBytes lowIndirect highIndirect
  | .zeroPageIndexedX => do
    let low ← fetch 1
    return .ofByte (byteAddByte low (← getX)).value
  | .zeroPageIndexedY => do
    let low ← fetch 1
    return .ofByte (byteAddByte low (← getY)).value
  | .zeroPageIndirect => do
    let low ← fetch 1
    let lowIndirect ← readMemory (.ofByte low)
    let highIndirect ← readMemory (addressAddInt (.ofByte low) 1).value
    return .ofBytes lowIndirect highIndirect
  | .zeroPageIndirectIndexedY => do
    let low ← fetch 1
    let lowIndirect ← readMemory (.ofByte low)
    let highIndirect ← readMemory (addressAddInt (.ofByte low) 1).value
    return (addressAddByte (.ofBytes lowIndirect highIndirect) (← getY)).value

/-- What follows a successful look-up in the table. -/
def executeInstruction (unset : Address) (instruction : Instruction) : Cpu InstructionErr := do
  let opAddress ← decode unset instruction.mode
  let retCode ← instruction.execute.execute opAddress
  if retCode = .okPCModified then
    return retCode
  else
    setPC (addressAddInt (← getPC) (BitVec.ofNat 16 instruction.bytes)).value
    return retCode

/-- One step, with the value of the uninitialised local. -/
def stepWith (isa : CPU6502ISA) (unset : Address) : Cpu InstructionErr := do
  let opcode ← readMemory (← getPC)
  match isa.find opcode with
  | none => do
    announce (.unknownOpcode opcode)
    return .unknownInstruction
  | some instruction => do
    if (← isVerbose) then
      announce (.instruction instruction.name opcode (← getPC))
    executeInstruction unset instruction

/-- `CPU6502::step`. The choice of the unset value has no effect on it. -/
def step (isa : CPU6502ISA) : Cpu InstructionErr := stepWith isa 0

/-- `CPU6502::execute` for a number of iterations of its loop: whether it has
returned by then. -/
def execute (isa : CPU6502ISA) : ℕ → Cpu Bool
  | 0 => return false
  | n + 1 => do
    let cpu ← Routine.get
    if cpu.PC.toNat < cpu.memory.size then
      let err ← step isa
      if err = .stop then
        announce .stpReached
        return true
      else
        execute isa n
    else
      return true

end Sim6502
