import Sim6502.Processor

/-!
# The bodies of the instruction table

One definition for each distinct `execute` function of `6502isa.cpp`. Bodies of
the source that differ in a register, a flag or a constant only are instances of
one parametrised definition; bodies that do something of their own are written
out. `InstructionBody` names them, so that the table is data.
-/
namespace Sim6502
open EventComputation CPU6502

abbrev Execute := Address → Cpu InstructionErr

namespace Execute

/-! ## Helper functions of the anonymous namespace -/

def adc : Execute := fun address => do
  let operand ← readMemory address
  let accumulator ← getA
  let result := resultAddInt (byteAddByte accumulator operand) (byteOfBool (← getBit .carry))
  setBit .carry result.carry
  let operandNegative := isNegative operand
  let accumNegative := isNegative accumulator
  let resultNegative := isNegative result.value
  let overflow := (!operandNegative && !accumNegative && resultNegative) ||
    (operandNegative && accumNegative && !resultNegative)
  setBit .overflow overflow
  setA result.value
  updateFlags (← getA)
  return .ok

/-- `AND`, `ORA` and the `EOR` bodies: the operation on `A` and the operand. -/
def logicA (op : Byte → Byte → Byte) : Execute := fun address => do
  setA (op (← getA) (← readMemory address))
  updateFlags (← getA)
  return .ok

def and : Execute := logicA (· &&& ·)
def ora : Execute := logicA (· ||| ·)
def eor : Execute := logicA (· ^^^ ·)

def aslMem : Execute := fun address => do
  let value ← readMemory address
  setBit .carry (value &&& msBitMask != zeroByte)
  let value := value <<< 1
  writeMemory address value
  updateFlags value
  return .ok

def sbc : Execute := fun address => do
  let value ← readMemory address
  let borrow := !(← getBit .carry)
  let a ← getA
  let m := value
  let result : BitVec 16 := a.setWidth 16 - m.setWidth 16 - (byteOfBool borrow).setWidth 16
  setBit .carry (m.toNat + (byteOfBool borrow).toNat ≤ a.toNat)
  let resultByte : Byte := result.setWidth 8
  let overflow := (a ^^^ resultByte) &&& (a ^^^ value) &&& 0x80 != 0
  setBit .overflow overflow
  setA resultByte
  updateFlags (← getA)
  return .ok

def bbrx (bit : ℕ) : Execute := fun address => do
  let value ← readMemory address
  if !isBitSet value bit then
    setPC address
    return .okPCModified
  else
    return .ok

/-- The parameter `bit` is not used: the body tests bit 0. -/
def bbsx (_bit : ℕ) : Execute := fun address => do
  let value ← readMemory address
  if isBitSet value 0 then
    setPC address
    return .okPCModified
  else
    return .ok

def rmbx (bit : ℕ) : Execute := fun address => do
  let value ← readMemory address
  writeMemory address (value &&& ~~~bitByte bit)
  return .ok

def smbx (bit : ℕ) : Execute := fun address => do
  let value ← readMemory address
  writeMemory address (value ||| bitByte bit)
  return .ok

def cmp : Execute := fun address => do
  let acc ← getA
  let value ← readMemory address
  setBit .carry (value ≤ acc)
  setBit .zero (acc == value)
  setBit .negative (byteSubByte acc value).negative
  return .ok

def rolMem : Execute := fun address => do
  let value ← readMemory address
  let carryOut := value &&& msBitMask != zeroByte
  let value := value <<< 1 ||| byteOfBool (← getBit .carry)
  setBit .carry carryOut
  updateFlags value
  writeMemory address value
  return .ok

def rorMem : Execute := fun address => do
  let value ← readMemory address
  let carryOut := value &&& lsBitMask != zeroByte
  let value := value >>> 1 ||| byteOfBool (← getBit .carry) <<< 7
  setBit .carry carryOut
  updateFlags value
  writeMemory address value
  return .ok

/-! ## Control transfer -/

def brk : Execute := fun _ => do
  pushStack (← getPC).high
  pushStack (← getPC).low
  pushStack (← getPSR).get
  let low ← readMemory 0xFFFE
  let high ← readMemory 0xFFFF
  setPC (.ofBytes low high)
  setBit .breakCommand true
  return .okPCModified

def dbg : Execute := fun _ => do
  if (← isDebug) then
    return .goToDebugger
  else
    return .ok

/-- The conditional branches: taken when the flag has the wanted value. -/
def branchOn (bit : PsrBit) (wanted : Bool) : Execute := fun address => do
  if (← getBit bit) = wanted then
    setPC address
    return .okPCModified
  else
    return .ok

def bpl : Execute := branchOn .negative false
def bmi : Execute := branchOn .negative true
def bvc : Execute := branchOn .overflow false
def bvs : Execute := branchOn .overflow true
def bcc : Execute := branchOn .carry false
def bcs : Execute := branchOn .carry true
def bne : Execute := branchOn .zero false
def beq : Execute := branchOn .zero true

/-- `BRA` and the three `JMP` entries. -/
def jump : Execute := fun address => do
  setPC address
  return .okPCModified

def bra : Execute := jump
def jmp : Execute := jump

def jsr : Execute := fun addr => do
  pushStack (← getPC).high
  pushStack (← getPC).low
  setPC addr
  return .okPCModified

def rti : Execute := fun _ => do
  setPSR (.ofByte (← popStack))
  let low ← popStack
  let high ← popStack
  setPC (addressAddInt (.ofBytes low high) 1).value
  return .okPCModified

def rts : Execute := fun _ => do
  let low ← popStack
  let high ← popStack
  setPC (addressAddInt (.ofBytes low high) 3).value
  return .okPCModified

/-! ## Loads, stores, transfers and comparisons -/

/-- The load bodies that update the flags from the loaded register. -/
def load (set : Byte → Cpu Unit) (get : Cpu Byte) : Execute := fun address => do
  set (← readMemory address)
  updateFlags (← get)
  return .ok

def lda : Execute := load setA getA
def ldx : Execute := load setX getX
def ldy : Execute := load setY getY

/-- The body of `0xAD`, which does not call `update_flags`. -/
def ldaAbsolute : Execute := fun address => do
  setA (← readMemory address)
  return .ok

def store (get : Cpu Byte) : Execute := fun address => do
  writeMemory address (← get)
  return .ok

def sta : Execute := store getA
def stx : Execute := store getX
def sty : Execute := store getY
def stz : Execute := store (pure 0)

/-- The comparison bodies that are not the helper `CMP`: `C` is the borrow, and
`Z` is `result.value >= std::byte(0)`. -/
def compare (get : Cpu Byte) (operand : Address → Cpu Byte) : Execute := fun address => do
  let result := byteSubByte (← get) (← operand address)
  setBit .carry result.carry
  setBit .zero (zeroByte ≤ result.value)
  setBit .negative result.negative
  return .ok

/-- The immediate bodies compare with the low byte of the operand's address. -/
def cpyImmediate : Execute := compare getY fun addrValue => pure addrValue.toByte
def cpxImmediate : Execute := compare getX fun addrValue => pure addrValue.toByte
def cpy : Execute := compare getY readMemory
def cpx : Execute := compare getX readMemory
def cmpZeroPageIndirect : Execute := compare getA readMemory

def transfer (get : Cpu Byte) (set : Byte → Cpu Unit) : Execute := fun _ => do
  set (← get)
  return .ok

def tya : Execute := transfer getY setA
def tay : Execute := transfer getA setY
def txa : Execute := transfer getX setA
def txs : Execute := transfer getX setS
def tax : Execute := transfer getA setX
def tsx : Execute := transfer getS setX

/-! ## Bits of memory -/

def tsb : Execute := fun address => do
  let memByte ← readMemory address
  setBit .zero (memByte &&& (← getA) == 0)
  writeMemory address (memByte ||| (← getA))
  return .ok

def trb : Execute := fun address => do
  let memByte ← readMemory address
  setBit .zero (memByte &&& (← getA) == 0)
  writeMemory address (memByte &&& ~~~(← getA))
  return .ok

/-- `BIT` in the zero page modes. -/
def bitZeroPage : Execute := fun address => do
  let memByte ← readMemory address
  setBit .zero (isZero memByte)
  setBit .overflow (isBitSet memByte 6)
  setBit .negative (isNegative memByte)
  return .ok

/-- `BIT` in the other modes. -/
def bitAbsolute : Execute := fun address => do
  let result := (← getA) &&& (← readMemory address)
  updateFlags result
  return .ok

/-! ## Shifts, increments and decrements -/

def lsrMem : Execute := fun address => do
  let value ← readMemory address
  let carryOut := value &&& 0x01
  let newValue := value >>> 1
  writeMemory address newValue
  setBit .carry (carryOut == 1)
  setBit .negative false
  return .ok

def stepMem (op : Byte → Byte → ByteResult) : Execute := fun address => do
  let value ← readMemory address
  let value := (op value 1).value
  writeMemory address value
  setBit .zero (isZero value)
  setBit .negative (isNegative value)
  return .ok

def decMem : Execute := stepMem byteSubInt
def incMem : Execute := stepMem byteAddInt

/-- Increment or decrement of a register that writes `Z` and `N` only. -/
def stepRegister (op : Byte → Byte → ByteResult) (get : Cpu Byte) (set : Byte → Cpu Unit) :
    Execute := fun _ => do
  let value ← get
  let value := (op value 1).value
  set value
  setBit .zero (isZero value)
  setBit .negative (isNegative value)
  return .ok

def incA : Execute := stepRegister byteAddInt getA setA
def decA : Execute := stepRegister byteSubInt getA setA
def dex : Execute := stepRegister byteSubInt getX setX

/-- Increment or decrement of an index register that sets `C` when it wraps. -/
def stepIndex (op : Byte → Byte → ByteResult) (get : Cpu Byte) (set : Byte → Cpu Unit) :
    Execute := fun _ => do
  let result := op (← get) 1
  if result.carry then
    setBit .carry true
  set result.value
  updateFlags (← get)
  return .ok

def dey : Execute := stepIndex byteSubInt getY setY
def iny : Execute := stepIndex byteAddInt getY setY
def inx : Execute := stepIndex byteAddInt getX setX

/-- The body of the second `0xE8` entry. -/
def inxRepeated : Execute := fun _ => do
  setX ((← getX) + 1)
  updateFlags (← getX)
  return .ok

def aslA : Execute := fun _ => do
  let value ← getA
  setBit .carry (value &&& msBitMask != zeroByte)
  setA (value <<< 1)
  updateFlags (← getA)
  return .ok

def rolA : Execute := fun _ => do
  let value ← getA
  let carryOut := value &&& msBitMask != zeroByte
  let value := value <<< 1 ||| byteOfBool (← getBit .carry)
  setBit .carry carryOut
  updateFlags value
  setA value
  return .ok

def lsrA : Execute := fun _ => do
  let value ← getA
  let carryOut := value &&& 0x01
  let newValue := value >>> 1
  setA newValue
  setBit .carry (carryOut == 1)
  setBit .negative false
  return .ok

def rorA : Execute := fun _ => do
  let value ← getA
  let carryOut := value &&& lsBitMask != zeroByte
  let value := value >>> 1 ||| byteOfBool (← getBit .carry) <<< 7
  setBit .carry carryOut
  updateFlags value
  setA value
  return .ok

/-! ## Flags and stack -/

def writeFlag (bit : PsrBit) (value : Bool) : Execute := fun _ => do
  setBit bit value
  return .ok

def clc : Execute := writeFlag .carry false
def sec : Execute := writeFlag .carry true
def cli : Execute := writeFlag .interruptDisable false
def sei : Execute := writeFlag .interruptDisable true
def clv : Execute := writeFlag .overflow false
def cld : Execute := writeFlag .decimalMode false
def sed : Execute := writeFlag .decimalMode true

def push (get : Cpu Byte) : Execute := fun _ => do
  pushStack (← get)
  return .ok

def pha : Execute := push getA
def phx : Execute := push getX
def phy : Execute := push getY

def pull (set : Byte → Cpu Unit) : Execute := fun _ => do
  set (← popStack)
  return .ok

def pla : Execute := pull setA
def plx : Execute := pull setX
def ply : Execute := pull setY

/-- The copy of the register is pushed with `break_command` set. -/
def php : Execute := fun _ => do
  let psr := (← getPSR).setBit .breakCommand true
  pushStack psr.get
  return .ok

def plp : Execute := fun _ => do
  let value ← popStack
  setPSR (.ofByte value)
  return .ok

def nop : Execute := fun _ => return .ok

def stp : Execute := fun _ => return .stop

end Execute

/-! ## The bodies as data -/

inductive InstructionBody where
  | adc | and | aslMem | sbc | sta | bbrx (bit : ℕ) | bbsx (bit : ℕ) | rmbx (bit : ℕ)
  | smbx (bit : ℕ) | cmp | rolMem | rorMem | ora
  | brk | dbg | bpl | jsr | bmi | rti | bvc | rts | bvs | bra | bcc | ldy | bcs | cpyImmediate
  | bne | cpxImmediate | beq | eor | lda | ldx | cmpZeroPageIndirect | tsb | trb | bitZeroPage
  | stz | sty | cpy | cpx | lsrMem | stx | decMem | incMem | php | clc | plp | sec | pha | cli
  | pla | sei | dey | tya | tay | clv | iny | cld | inx | sed | bitAbsolute | aslA | incA | rolA
  | decA | lsrA | phy | rorA | ply | txa | txs | tax | tsx | dex | phx | nop | plx | stp | jmp
  | ldaAbsolute | inxRepeated
  deriving DecidableEq

def InstructionBody.execute : InstructionBody → Execute
  | .adc => Execute.adc
  | .and => Execute.and
  | .aslMem => Execute.aslMem
  | .sbc => Execute.sbc
  | .sta => Execute.sta
  | .bbrx bit => Execute.bbrx bit
  | .bbsx bit => Execute.bbsx bit
  | .rmbx bit => Execute.rmbx bit
  | .smbx bit => Execute.smbx bit
  | .cmp => Execute.cmp
  | .rolMem => Execute.rolMem
  | .rorMem => Execute.rorMem
  | .ora => Execute.ora
  | .brk => Execute.brk
  | .dbg => Execute.dbg
  | .bpl => Execute.bpl
  | .jsr => Execute.jsr
  | .bmi => Execute.bmi
  | .rti => Execute.rti
  | .bvc => Execute.bvc
  | .rts => Execute.rts
  | .bvs => Execute.bvs
  | .bra => Execute.bra
  | .bcc => Execute.bcc
  | .ldy => Execute.ldy
  | .bcs => Execute.bcs
  | .cpyImmediate => Execute.cpyImmediate
  | .bne => Execute.bne
  | .cpxImmediate => Execute.cpxImmediate
  | .beq => Execute.beq
  | .eor => Execute.eor
  | .lda => Execute.lda
  | .ldx => Execute.ldx
  | .cmpZeroPageIndirect => Execute.cmpZeroPageIndirect
  | .tsb => Execute.tsb
  | .trb => Execute.trb
  | .bitZeroPage => Execute.bitZeroPage
  | .stz => Execute.stz
  | .sty => Execute.sty
  | .cpy => Execute.cpy
  | .cpx => Execute.cpx
  | .lsrMem => Execute.lsrMem
  | .stx => Execute.stx
  | .decMem => Execute.decMem
  | .incMem => Execute.incMem
  | .php => Execute.php
  | .clc => Execute.clc
  | .plp => Execute.plp
  | .sec => Execute.sec
  | .pha => Execute.pha
  | .cli => Execute.cli
  | .pla => Execute.pla
  | .sei => Execute.sei
  | .dey => Execute.dey
  | .tya => Execute.tya
  | .tay => Execute.tay
  | .clv => Execute.clv
  | .iny => Execute.iny
  | .cld => Execute.cld
  | .inx => Execute.inx
  | .sed => Execute.sed
  | .bitAbsolute => Execute.bitAbsolute
  | .aslA => Execute.aslA
  | .incA => Execute.incA
  | .rolA => Execute.rolA
  | .decA => Execute.decA
  | .lsrA => Execute.lsrA
  | .phy => Execute.phy
  | .rorA => Execute.rorA
  | .ply => Execute.ply
  | .txa => Execute.txa
  | .txs => Execute.txs
  | .tax => Execute.tax
  | .tsx => Execute.tsx
  | .dex => Execute.dex
  | .phx => Execute.phx
  | .nop => Execute.nop
  | .plx => Execute.plx
  | .stp => Execute.stp
  | .jmp => Execute.jmp
  | .ldaAbsolute => Execute.ldaAbsolute
  | .inxRepeated => Execute.inxRepeated

end Sim6502
