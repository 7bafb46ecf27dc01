import Sim6502.ProcessorStep

/-!
# Properties of everything that is made of processor operations

Decoding and the instruction bodies are sequences of a few operations of the processor.
A property that these operations have, and that sequences keep, is therefore one of every
decoder and every body, except of `DBG`, which also asks for the debug flag.
-/
namespace Sim6502
open EventComputation CPU6502

structure ClosedProperty where
  holds : ∀ {α : Type}, Cpu α → Prop
  pure : ∀ {α : Type} (a : α), holds (Pure.pure a)
  bind : ∀ {α β : Type} {x : Cpu α} {f : α → Cpu β},
    holds x → (∀ a, holds (f a)) → holds (x >>= f)
  getA : holds getA
  getX : holds getX
  getY : holds getY
  getS : holds getS
  getPC : holds getPC
  getPSR : holds getPSR
  setA : ∀ v, holds (setA v)
  setX : ∀ v, holds (setX v)
  setY : ∀ v, holds (setY v)
  setS : ∀ v, holds (setS v)
  setPC : ∀ v, holds (setPC v)
  setPSR : ∀ v, holds (setPSR v)
  setBit : ∀ bit v, holds (setBit bit v)
  stackCell : ∀ cell, holds (Routine.emit (.stackCell cell))
  readIndex : ∀ index, holds (readIndex index)
  writeMemory : ∀ a v, holds (writeMemory a v)

namespace ClosedProperty

variable (p : ClosedProperty)

theorem ite {α : Type} {c : Prop} [Decidable c] {x y : Cpu α} (hx : p.holds x) (hy : p.holds y) :
    p.holds (if c then x else y) := by
  split
  · exact hx
  · exact hy

theorem readMemory (a : Address) : p.holds (CPU6502.readMemory a) := p.readIndex a.toNat

theorem getBit (bit : PsrBit) : p.holds (CPU6502.getBit bit) :=
  p.bind p.getPSR fun _ => p.pure _

theorem updateFlags (v : Byte) : p.holds (CPU6502.updateFlags v) :=
  p.bind (p.setBit _ _) fun _ => p.setBit _ _

theorem popStack : p.holds CPU6502.popStack := by
  refine p.bind p.getS fun _ => p.bind (p.stackCell _) fun _ => p.bind (p.readMemory _) fun _ => ?_
  exact p.bind p.getS fun _ => p.bind (p.setS _) fun _ => p.pure _

theorem pushStack (v : Byte) : p.holds (CPU6502.pushStack v) := by
  refine p.bind p.getS fun _ => p.bind (p.setS _) fun _ => p.bind p.getS fun _ => ?_
  exact p.bind (p.stackCell _) fun _ => p.writeMemory _ _

theorem fetch (offset : Address) : p.holds (Sim6502.fetch offset) :=
  p.bind p.getPC fun _ => p.readMemory _

theorem decode (unset : Address) (mode : AddressingMode) :
    p.holds (Sim6502.decode unset mode) := by
  cases mode <;> simp only [Sim6502.decode] <;>
    repeat' with_reducible first
      | exact p.pure _
      | exact p.getA
      | exact p.getX
      | exact p.getY
      | exact p.getS
      | exact p.getPC
      | exact p.fetch _
      | exact p.readIndex _
      | exact p.readMemory _
      | refine p.bind ?_ fun _ => ?_

/-- This goes through the text of every body. -/
theorem execute {body : InstructionBody} (h : body ≠ .dbg) (a : Address) :
    p.holds (body.execute a) := by
  cases body
  case dbg => exact absurd rfl h
  all_goals
    simp only [InstructionBody.execute, Execute.adc, Execute.and, Execute.ora, Execute.eor,
      Execute.logicA, Execute.aslMem, Execute.sbc, Execute.bbrx, Execute.bbsx, Execute.rmbx,
      Execute.smbx, Execute.cmp, Execute.rolMem, Execute.rorMem, Execute.brk,
      Execute.branchOn, Execute.bpl, Execute.bmi, Execute.bvc, Execute.bvs, Execute.bcc,
      Execute.bcs, Execute.bne, Execute.beq, Execute.jump, Execute.bra, Execute.jmp, Execute.jsr,
      Execute.rti, Execute.rts, Execute.load, Execute.lda, Execute.ldx, Execute.ldy,
      Execute.ldaAbsolute, Execute.store, Execute.sta, Execute.stx, Execute.sty, Execute.stz,
      Execute.compare, Execute.cpyImmediate, Execute.cpxImmediate, Execute.cpy, Execute.cpx,
      Execute.cmpZeroPageIndirect, Execute.transfer, Execute.tya, Execute.tay, Execute.txa,
      Execute.txs, Execute.tax, Execute.tsx, Execute.tsb, Execute.trb, Execute.bitZeroPage,
      Execute.bitAbsolute, Execute.lsrMem, Execute.stepMem, Execute.decMem, Execute.incMem,
      Execute.stepRegister, Execute.incA, Execute.decA, Execute.dex, Execute.stepIndex,
      Execute.dey, Execute.iny, Execute.inx, Execute.inxRepeated, Execute.aslA, Execute.rolA,
      Execute.lsrA, Execute.rorA, Execute.writeFlag, Execute.clc, Execute.sec, Execute.cli,
      Execute.sei, Execute.clv, Execute.cld, Execute.sed, Execute.push, Execute.pha, Execute.phx,
      Execute.phy, Execute.pull, Execute.pla, Execute.plx, Execute.ply, Execute.php, Execute.plp,
      Execute.nop, Execute.stp]
    repeat' with_reducible first
      | exact p.pure _
      | exact p.getA
      | exact p.getX
      | exact p.getY
      | exact p.getS
      | exact p.getPC
      | exact p.getPSR
      | exact p.getBit _
      | exact p.setA _
      | exact p.setX _
      | exact p.setY _
      | exact p.setS _
      | exact p.setPC _
      | exact p.setPSR _
      | exact p.setBit _ _
      | exact p.updateFlags _
      | exact p.readMemory _
      | exact p.writeMemory _ _
      | exact p.popStack
      | exact p.pushStack _
      | refine p.ite ?_ ?_
      | refine p.bind ?_ fun _ => ?_

/-! ## The step -/

variable (hdebug : p.holds CPU6502.isDebug)
include hdebug

theorem executeBody (body : InstructionBody) (a : Address) : p.holds (body.execute a) := by
  by_cases h : body = .dbg
  · subst h
    exact p.bind hdebug fun debug => p.ite (p.pure _) (p.pure _)
  · exact p.execute h a

theorem executeInstruction (unset : Address) (instruction : Instruction) :
    p.holds (Sim6502.executeInstruction unset instruction) := by
  refine p.bind (p.decode unset instruction.mode) fun a => ?_
  refine p.bind (p.executeBody hdebug instruction.execute a) fun err => p.ite (p.pure _) ?_
  exact p.bind p.getPC fun _ => p.bind (p.setPC _) fun _ => p.pure _

theorem step (hverbose : p.holds CPU6502.isVerbose)
    (hunknown : ∀ opcode, p.holds (announce (.unknownOpcode opcode)))
    (hinstruction : ∀ name opcode pc, p.holds (announce (.instruction name opcode pc)))
    (isa : CPU6502ISA) : p.holds (Sim6502.step isa) := by
  refine p.bind p.getPC fun pc => p.bind (p.readMemory pc) fun opcode => ?_
  cases isa.find opcode with
  | none => exact p.bind (hunknown opcode) fun _ => p.pure _
  | some instruction =>
    refine p.bind hverbose fun verbose => ?_
    have hexecute := p.executeInstruction hdebug 0 instruction
    refine p.ite ?_ hexecute
    exact p.bind p.getPC fun _ => p.bind (hinstruction _ _ _) fun _ => hexecute

end ClosedProperty

/-! ## The events of the operations -/

section Emits
variable {p : Event → Prop}

theorem emits_announce {message : Message} (h : p (.announce message)) :
    Routine.Emits p (announce message : Cpu Unit) := by
  intro cpu e he
  obtain rfl := List.mem_singleton.mp he
  exact h

theorem emits_modify (f : CPU6502 → CPU6502) :
    Routine.Emits p (Routine.modify f : Cpu Unit) := by
  intro cpu e he
  cases he

theorem events_writeMemory (cpu : CPU6502) (a : Address) (v : Byte) :
    ((writeMemory a v).run cpu).events = cpu.memory.writeEvents a v := by
  rw [writeMemory, onMemory, Routine.run_zoom]
  by_cases h : a.toNat < cpu.memory.size
  · rw [cpu.memory.run_write h]
  · rw [cpu.memory.run_write_outside h]

/-- The operations of the processor only tell of accesses, of the stack and of the device. -/
def emitsAccesses (hread : ∀ index, p (.read index)) (hwrite : ∀ index v, p (.write index v))
    (hprint : ∀ v, p (.print v)) (hstack : ∀ cell, p (.stackCell cell)) : ClosedProperty where
  holds := Routine.Emits p
  pure := .pure
  bind := .bind
  getA := .bind .get fun _ => .pure _
  getX := .bind .get fun _ => .pure _
  getY := .bind .get fun _ => .pure _
  getS := .bind .get fun _ => .pure _
  getPC := .bind .get fun _ => .pure _
  getPSR := .bind .get fun _ => .pure _
  setA _ := emits_modify _
  setX _ := emits_modify _
  setY _ := emits_modify _
  setS _ := emits_modify _
  setPC _ := emits_modify _
  setPSR _ := emits_modify _
  setBit _ _ := emits_modify _
  stackCell cell := by
    intro cpu e he
    obtain rfl := List.mem_singleton.mp he
    exact hstack cell
  readIndex index := by
    intro cpu e he
    obtain rfl := List.mem_singleton.mp he
    exact hread index
  writeMemory a v := by
    intro cpu e he
    rw [events_writeMemory, GPMemory.writeEvents] at he
    split at he
    · rcases List.mem_cons.mp he with rfl | he
      · exact hprint v
      · obtain rfl := List.mem_singleton.mp he
        exact hwrite _ v
    · obtain rfl := List.mem_singleton.mp he
      exact hwrite _ v

end Emits

end Sim6502
