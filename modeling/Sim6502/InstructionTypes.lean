import Sim6502.BytesAndAddresses

/-! # The enumerations of `instruction_types.h` and the names the table uses -/
namespace Sim6502

inductive AddressingMode where
  | absolute
  | absoluteIndexedIndirect
  | absoluteIndexedX
  | absoluteIndexedY
  | absoluteIndirect
  | accumulator
  | immediate
  | implied
  | pcRelative
  | stack
  | zeroPage
  | zeroPageIndexedIndirect
  | zeroPageIndexedX
  | zeroPageIndexedY
  | zeroPageIndirect
  | zeroPageIndirectIndexedY
  deriving DecidableEq

def bytesForAddressingMode : AddressingMode → ℕ
  | .absolute | .absoluteIndexedX | .absoluteIndexedY | .absoluteIndirect => 3
  | .immediate | .pcRelative | .zeroPage | .zeroPageIndexedIndirect | .zeroPageIndexedX
  | .zeroPageIndexedY | .zeroPageIndirect | .zeroPageIndirectIndexedY => 2
  | .absoluteIndexedIndirect | .accumulator | .implied | .stack => 1

inductive InstructionErr where
  | ok
  | okPCModified
  | siRaised
  | unknownInstruction
  | goToDebugger
  | stop
  deriving DecidableEq

/-- The strings the table gives as instruction names; a name that carries a bit
number (`BBR0` to `SMB7`) is one constructor with that number. -/
inductive Mnemonic where
  | adc | and | asl | bbr (bit : ℕ) | bbs (bit : ℕ) | bcc | bcs | beq | bit | bmi | bne | bpl | bra
  | brk | bvc | bvs | clc | cld | cli | clv | cmp | cpx | cpy | dbg | dec | dex | dey | eor | inc
  | inx | iny | jmp | jsr | lda | ldx | ldy | lsr | nop | ora | pha | php | phx | phy | pla | plp
  | plx | ply | rmb (bit : ℕ) | rol | ror | rti | rts | sbc | sec | sed | smb (bit : ℕ) | sta | stp
  | stx | sty | stz | tax | tay | trb | tsb | tsx | txa | txs | tya
  deriving DecidableEq

end Sim6502
