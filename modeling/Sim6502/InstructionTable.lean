import Sim6502.InstructionBodies

/-!
# The initialiser list of `isa` and the maps it can initialise

The list repeats eight opcodes. Which of two equal keys an `unordered_map` keeps
is not specified, so a `CPU6502ISA` is any map that holds one entry of the list
for each of its keys and nothing else.
-/
namespace Sim6502

structure Instruction where
  name : Mnemonic
  mode : AddressingMode
  execute : InstructionBody
  deriving DecidableEq

def Instruction.bytes (instruction : Instruction) : ℕ := bytesForAddressingMode instruction.mode

theorem bytes_pos (instruction : Instruction) : 0 < instruction.bytes := by
  unfold Instruction.bytes
  cases instruction.mode <;> decide

theorem bytes_le_three (instruction : Instruction) : instruction.bytes ≤ 3 := by
  unfold Instruction.bytes
  cases instruction.mode <;> decide

def isaEntries : List (Byte × Instruction) :=
  [
    (0x00, ⟨.brk, .stack, .brk⟩),
    (0x02, ⟨.dbg, .implied, .dbg⟩),
    (0x10, ⟨.bpl, .pcRelative, .bpl⟩),
    (0x20, ⟨.jsr, .absolute, .jsr⟩),
    (0x30, ⟨.bmi, .pcRelative, .bmi⟩),
    (0x40, ⟨.rti, .stack, .rti⟩),
    (0x50, ⟨.bvc, .pcRelative, .bvc⟩),
    (0x60, ⟨.rts, .stack, .rts⟩),
    (0x70, ⟨.bvs, .pcRelative, .bvs⟩),
    (0x80, ⟨.bra, .pcRelative, .bra⟩),
    (0x90, ⟨.bcc, .pcRelative, .bcc⟩),
    (0xA0, ⟨.ldy, .immediate, .ldy⟩),
    (0xB0, ⟨.bcs, .pcRelative, .bcs⟩),
    (0xC0, ⟨.cpy, .immediate, .cpyImmediate⟩),
    (0xD0, ⟨.bne, .pcRelative, .bne⟩),
    (0xE0, ⟨.cpx, .immediate, .cpxImmediate⟩),
    (0xF0, ⟨.beq, .pcRelative, .beq⟩),
    (0x01, ⟨.ora, .zeroPageIndexedIndirect, .ora⟩),
    (0x11, ⟨.ora, .zeroPageIndirectIndexedY, .ora⟩),
    (0x21, ⟨.and, .zeroPageIndexedIndirect, .and⟩),
    (0x31, ⟨.and, .zeroPageIndirectIndexedY, .and⟩),
    (0x41, ⟨.eor, .zeroPageIndexedIndirect, .eor⟩),
    (0x51, ⟨.eor, .zeroPageIndirectIndexedY, .eor⟩),
    (0x61, ⟨.adc, .zeroPageIndexedIndirect, .adc⟩),
    (0x71, ⟨.adc, .zeroPageIndirectIndexedY, .adc⟩),
    (0x81, ⟨.sta, .zeroPageIndexedIndirect, .sta⟩),
    (0x91, ⟨.sta, .zeroPageIndirectIndexedY, .sta⟩),
    (0xA0, ⟨.ldy, .immediate, .ldy⟩),
    (0xA1, ⟨.lda, .zeroPageIndexedIndirect, .lda⟩),
    (0xB1, ⟨.lda, .zeroPageIndirectIndexedY, .lda⟩),
    (0xC1, ⟨.cmp, .zeroPageIndexedIndirect, .cmp⟩),
    (0xD1, ⟨.cmp, .zeroPageIndirectIndexedY, .cmp⟩),
    (0xE1, ⟨.sbc, .zeroPageIndexedIndirect, .sbc⟩),
    (0xF1, ⟨.sbc, .zeroPageIndirectIndexedY, .sbc⟩),
    (0x12, ⟨.ora, .zeroPage, .ora⟩),
    (0x32, ⟨.and, .zeroPage, .and⟩),
    (0x52, ⟨.eor, .zeroPage, .eor⟩),
    (0x72, ⟨.adc, .zeroPage, .adc⟩),
    (0x92, ⟨.sta, .zeroPage, .sta⟩),
    (0xA2, ⟨.ldx, .immediate, .ldx⟩),
    (0xB2, ⟨.lda, .zeroPage, .lda⟩),
    (0xD2, ⟨.cmp, .zeroPageIndirect, .cmpZeroPageIndirect⟩),
    (0xF2, ⟨.sbc, .zeroPageIndirect, .sbc⟩),
    (0x04, ⟨.tsb, .zeroPage, .tsb⟩),
    (0x14, ⟨.trb, .zeroPage, .trb⟩),
    (0x24, ⟨.bit, .zeroPage, .bitZeroPage⟩),
    (0x34, ⟨.bit, .zeroPageIndexedX, .bitZeroPage⟩),
    (0x64, ⟨.stz, .zeroPage, .stz⟩),
    (0x74, ⟨.stz, .zeroPageIndexedX, .stz⟩),
    (0x84, ⟨.sty, .zeroPage, .sty⟩),
    (0x94, ⟨.sty, .zeroPageIndexedX, .sty⟩),
    (0xA4, ⟨.ldy, .zeroPage, .ldy⟩),
    (0xB4, ⟨.ldy, .zeroPageIndexedX, .ldy⟩),
    (0xC4, ⟨.cpy, .zeroPage, .cpy⟩),
    (0xE4, ⟨.cpx, .zeroPage, .cpx⟩),
    (0x05, ⟨.ora, .zeroPage, .ora⟩),
    (0x15, ⟨.ora, .zeroPageIndexedX, .ora⟩),
    (0x25, ⟨.and, .zeroPage, .and⟩),
    (0x35, ⟨.and, .zeroPageIndexedX, .and⟩),
    (0x45, ⟨.eor, .zeroPage, .eor⟩),
    (0x55, ⟨.eor, .zeroPageIndexedX, .eor⟩),
    (0x65, ⟨.adc, .zeroPage, .adc⟩),
    (0x75, ⟨.adc, .zeroPageIndexedX, .adc⟩),
    (0x85, ⟨.sta, .zeroPage, .sta⟩),
    (0x95, ⟨.sta, .zeroPageIndexedX, .sta⟩),
    (0xA5, ⟨.lda, .zeroPage, .lda⟩),
    (0xB5, ⟨.lda, .zeroPageIndexedX, .lda⟩),
    (0xC5, ⟨.cmp, .zeroPage, .cmp⟩),
    (0xD5, ⟨.cmp, .zeroPageIndexedX, .cmp⟩),
    (0xE5, ⟨.sbc, .zeroPage, .sbc⟩),
    (0xF5, ⟨.sbc, .zeroPageIndexedX, .sbc⟩),
    (0x06, ⟨.asl, .zeroPage, .aslMem⟩),
    (0x16, ⟨.asl, .zeroPageIndexedX, .aslMem⟩),
    (0x26, ⟨.rol, .zeroPage, .rolMem⟩),
    (0x36, ⟨.rol, .zeroPageIndexedX, .rolMem⟩),
    (0x46, ⟨.lsr, .zeroPage, .lsrMem⟩),
    (0x56, ⟨.lsr, .zeroPageIndexedX, .lsrMem⟩),
    (0x66, ⟨.ror, .zeroPage, .rorMem⟩),
    (0x76, ⟨.ror, .zeroPageIndexedX, .rorMem⟩),
    (0x86, ⟨.stx, .zeroPage, .stx⟩),
    (0x96, ⟨.stx, .zeroPageIndexedY, .stx⟩),
    (0xA6, ⟨.ldx, .zeroPage, .ldx⟩),
    (0xB6, ⟨.ldx, .zeroPageIndexedY, .ldx⟩),
    (0xC6, ⟨.dec, .zeroPage, .decMem⟩),
    (0xD6, ⟨.dec, .zeroPageIndexedX, .decMem⟩),
    (0xE6, ⟨.inc, .zeroPage, .incMem⟩),
    (0xF6, ⟨.inc, .zeroPageIndexedX, .incMem⟩),
    (0x07, ⟨(.rmb 0), .zeroPage, (.rmbx 0)⟩),
    (0x17, ⟨(.rmb 1), .zeroPage, (.rmbx 1)⟩),
    (0x27, ⟨(.rmb 2), .zeroPage, (.rmbx 2)⟩),
    (0x37, ⟨(.rmb 3), .zeroPage, (.rmbx 3)⟩),
    (0x47, ⟨(.rmb 4), .zeroPage, (.rmbx 4)⟩),
    (0x57, ⟨(.rmb 5), .zeroPage, (.rmbx 5)⟩),
    (0x67, ⟨(.rmb 6), .zeroPage, (.rmbx 6)⟩),
    (0x77, ⟨(.rmb 7), .zeroPage, (.rmbx 7)⟩),
    (0x87, ⟨(.smb 0), .zeroPage, (.smbx 0)⟩),
    (0x97, ⟨(.smb 1), .zeroPage, (.smbx 1)⟩),
    (0xA7, ⟨(.smb 2), .zeroPage, (.smbx 2)⟩),
    (0xB7, ⟨(.smb 3), .zeroPage, (.smbx 3)⟩),
    (0xC7, ⟨(.smb 4), .zeroPage, (.smbx 4)⟩),
    (0xD7, ⟨(.smb 5), .zeroPage, (.smbx 5)⟩),
    (0xE7, ⟨(.smb 6), .zeroPage, (.smbx 6)⟩),
    (0xF7, ⟨(.smb 7), .zeroPage, (.smbx 7)⟩),
    (0x08, ⟨.php, .stack, .php⟩),
    (0x18, ⟨.clc, .implied, .clc⟩),
    (0x28, ⟨.plp, .stack, .plp⟩),
    (0x38, ⟨.sec, .implied, .sec⟩),
    (0x48, ⟨.pha, .stack, .pha⟩),
    (0x58, ⟨.cli, .implied, .cli⟩),
    (0x68, ⟨.pla, .stack, .pla⟩),
    (0x78, ⟨.cli, .implied, .sei⟩),
    (0x88, ⟨.dey, .implied, .dey⟩),
    (0x98, ⟨.tya, .implied, .tya⟩),
    (0xA8, ⟨.tay, .implied, .tay⟩),
    (0xB8, ⟨.clv, .implied, .clv⟩),
    (0xC8, ⟨.iny, .implied, .iny⟩),
    (0xD8, ⟨.cld, .implied, .cld⟩),
    (0xE8, ⟨.inx, .implied, .inx⟩),
    (0xF8, ⟨.sed, .implied, .sed⟩),
    (0x09, ⟨.ora, .immediate, .ora⟩),
    (0x19, ⟨.ora, .absoluteIndexedY, .ora⟩),
    (0x29, ⟨.and, .immediate, .and⟩),
    (0x39, ⟨.and, .absoluteIndexedY, .and⟩),
    (0x49, ⟨.eor, .immediate, .eor⟩),
    (0x59, ⟨.eor, .absoluteIndexedY, .eor⟩),
    (0x69, ⟨.adc, .immediate, .adc⟩),
    (0x79, ⟨.adc, .absoluteIndexedY, .adc⟩),
    (0x89, ⟨.bit, .immediate, .bitAbsolute⟩),
    (0x99, ⟨.sta, .absoluteIndexedY, .sta⟩),
    (0xA9, ⟨.lda, .immediate, .lda⟩),
    (0xB9, ⟨.lda, .absoluteIndexedY, .lda⟩),
    (0xB9, ⟨.lda, .absoluteIndexedY, .lda⟩),
    (0xC9, ⟨.cmp, .immediate, .cmp⟩),
    (0xD9, ⟨.cmp, .absoluteIndexedY, .cmp⟩),
    (0xE9, ⟨.sbc, .immediate, .sbc⟩),
    (0xF9, ⟨.sbc, .absoluteIndexedY, .sbc⟩),
    (0x0A, ⟨.asl, .accumulator, .aslA⟩),
    (0x1A, ⟨.inc, .accumulator, .incA⟩),
    (0x2A, ⟨.rol, .accumulator, .rolA⟩),
    (0x3A, ⟨.dec, .accumulator, .decA⟩),
    (0x4A, ⟨.lsr, .accumulator, .lsrA⟩),
    (0x5A, ⟨.phy, .stack, .phy⟩),
    (0x6A, ⟨.ror, .accumulator, .rorA⟩),
    (0x7A, ⟨.ply, .stack, .ply⟩),
    (0x8A, ⟨.txa, .implied, .txa⟩),
    (0x9A, ⟨.txs, .implied, .txs⟩),
    (0xAA, ⟨.tax, .implied, .tax⟩),
    (0xBA, ⟨.tsx, .implied, .tsx⟩),
    (0xCA, ⟨.dex, .implied, .dex⟩),
    (0xDA, ⟨.phx, .stack, .phx⟩),
    (0xEA, ⟨.nop, .implied, .nop⟩),
    (0xFA, ⟨.plx, .stack, .plx⟩),
    (0xDB, ⟨.stp, .implied, .stp⟩),
    (0x0C, ⟨.tsb, .absolute, .tsb⟩),
    (0x1C, ⟨.tsb, .absolute, .trb⟩),
    (0x2C, ⟨.bit, .absolute, .bitAbsolute⟩),
    (0x3C, ⟨.bit, .absoluteIndexedX, .bitAbsolute⟩),
    (0x4C, ⟨.jmp, .absolute, .jmp⟩),
    (0x6C, ⟨.jmp, .absoluteIndirect, .jmp⟩),
    (0x7C, ⟨.jmp, .absoluteIndexedIndirect, .jmp⟩),
    (0x8C, ⟨.sty, .absolute, .sty⟩),
    (0x9C, ⟨.stz, .absolute, .stz⟩),
    (0xAC, ⟨.ldy, .absolute, .ldy⟩),
    (0xBC, ⟨.ldy, .absoluteIndexedX, .ldy⟩),
    (0xCC, ⟨.cpy, .absolute, .cpy⟩),
    (0xEC, ⟨.cpx, .absolute, .cpx⟩),
    (0x0D, ⟨.ora, .absolute, .ora⟩),
    (0x1D, ⟨.ora, .absoluteIndexedX, .ora⟩),
    (0x2D, ⟨.and, .absolute, .and⟩),
    (0x3D, ⟨.and, .absoluteIndexedX, .and⟩),
    (0x4D, ⟨.eor, .absolute, .eor⟩),
    (0x5D, ⟨.eor, .absoluteIndexedX, .eor⟩),
    (0x6D, ⟨.adc, .absolute, .adc⟩),
    (0x7D, ⟨.adc, .absoluteIndexedX, .adc⟩),
    (0x8D, ⟨.sta, .absolute, .sta⟩),
    (0x9D, ⟨.sta, .absoluteIndexedX, .sta⟩),
    (0xAD, ⟨.lda, .absolute, .ldaAbsolute⟩),
    (0xBD, ⟨.lda, .absoluteIndexedX, .lda⟩),
    (0xCD, ⟨.cmp, .absolute, .cmp⟩),
    (0xDD, ⟨.cmp, .absoluteIndexedX, .cmp⟩),
    (0xED, ⟨.sbc, .absolute, .sbc⟩),
    (0xFD, ⟨.sbc, .absoluteIndexedX, .sbc⟩),
    (0x0E, ⟨.asl, .absolute, .aslMem⟩),
    (0x1E, ⟨.asl, .absoluteIndexedX, .aslMem⟩),
    (0x2E, ⟨.rol, .absolute, .rolMem⟩),
    (0x3E, ⟨.rol, .absoluteIndexedX, .rolMem⟩),
    (0x4E, ⟨.lsr, .absolute, .lsrMem⟩),
    (0x5E, ⟨.lsr, .absoluteIndexedX, .lsrMem⟩),
    (0x6E, ⟨.ror, .absolute, .rorMem⟩),
    (0x7E, ⟨.ror, .absoluteIndexedX, .rorMem⟩),
    (0x8E, ⟨.stx, .absolute, .stx⟩),
    (0x9E, ⟨.stz, .absoluteIndexedX, .stz⟩),
    (0xAE, ⟨.ldx, .absolute, .ldx⟩),
    (0xBE, ⟨.ldx, .absoluteIndexedY, .ldx⟩),
    (0xCE, ⟨.dec, .absolute, .decMem⟩),
    (0xDE, ⟨.dec, .absoluteIndexedX, .decMem⟩),
    (0xEE, ⟨.inc, .absolute, .incMem⟩),
    (0xFE, ⟨.inc, .absoluteIndexedX, .incMem⟩),
    (0x0F, ⟨(.bbr 0), .pcRelative, (.bbrx 0)⟩),
    (0x1F, ⟨(.bbr 1), .pcRelative, (.bbrx 1)⟩),
    (0x2F, ⟨(.bbr 2), .pcRelative, (.bbrx 2)⟩),
    (0x3F, ⟨(.bbr 3), .pcRelative, (.bbrx 3)⟩),
    (0x4F, ⟨(.bbr 4), .pcRelative, (.bbrx 4)⟩),
    (0x5F, ⟨(.bbr 5), .pcRelative, (.bbrx 5)⟩),
    (0x6F, ⟨(.bbr 6), .pcRelative, (.bbrx 6)⟩),
    (0x7F, ⟨(.bbr 7), .pcRelative, (.bbrx 7)⟩),
    (0x8F, ⟨(.bbs 0), .pcRelative, (.bbsx 0)⟩),
    (0x9F, ⟨(.bbs 1), .pcRelative, (.bbsx 1)⟩),
    (0xAF, ⟨(.bbs 2), .pcRelative, (.bbsx 2)⟩),
    (0xBF, ⟨(.bbs 3), .pcRelative, (.bbsx 3)⟩),
    (0xCF, ⟨(.bbs 4), .pcRelative, (.bbsx 4)⟩),
    (0xDF, ⟨(.bbs 5), .pcRelative, (.bbsx 5)⟩),
    (0xEF, ⟨(.bbs 6), .pcRelative, (.bbsx 6)⟩),
    (0xFF, ⟨(.bbs 7), .pcRelative, (.bbsx 7)⟩),
    (0xA9, ⟨.lda, .immediate, .lda⟩),
    (0xBD, ⟨.lda, .absoluteIndexedX, .lda⟩),
    (0xA2, ⟨.ldx, .immediate, .ldx⟩),
    (0xB9, ⟨.lda, .absoluteIndexedY, .lda⟩),
    (0x8D, ⟨.sta, .absolute, .sta⟩),
    (0xE8, ⟨.inx, .implied, .inxRepeated⟩),
    (0x4C, ⟨.jmp, .absolute, .jmp⟩)]

structure CPU6502ISA where
  find : Byte → Option Instruction
  find_mem : ∀ {opcode instruction}, find opcode = some instruction →
    (opcode, instruction) ∈ isaEntries
  find_none : ∀ {opcode}, find opcode = none → ∀ instruction, (opcode, instruction) ∉ isaEntries

/-- The map that keeps the first entry of each key. -/
def isa : CPU6502ISA where
  find opcode := (isaEntries.find? (·.1 == opcode)).map Prod.snd
  find_mem := by
    intro opcode instruction h
    obtain ⟨⟨key, value⟩, he, rfl⟩ := Option.map_eq_some_iff.mp h
    have hkey : key = opcode := by simpa using List.find?_some he
    exact hkey ▸ List.mem_of_find?_eq_some he
  find_none := by
    intro opcode h instruction hm
    have hn := List.find?_eq_none.mp (Option.map_eq_none_iff.mp h) _ hm
    simp at hn

/-- An opcode with one entry in the list is found with it in every map. -/
theorem CPU6502ISA.find_eq (isa : CPU6502ISA) {opcode : Byte} {instruction : Instruction}
    (h : (isaEntries.filter fun e => e.1 == opcode) = [(opcode, instruction)]) :
    isa.find opcode = some instruction := by
  have hmem : ∀ found, (opcode, found) ∈ isaEntries ↔ found = instruction := by
    intro found
    have hf : (opcode, found) ∈ isaEntries.filter (fun e => e.1 == opcode) ↔
        (opcode, found) ∈ isaEntries := by simp
    rw [← hf, h, List.mem_singleton, Prod.mk.injEq, and_iff_right rfl]
  cases hfind : isa.find opcode with
  | none => exact absurd ((hmem instruction).mpr rfl) (isa.find_none hfind instruction)
  | some found => exact congrArg some ((hmem found).mp (isa.find_mem hfind))

end Sim6502
