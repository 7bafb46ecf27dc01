import Sim6502.StackOperations
import Sim6502.StatusByte

/-!
# Nested calls and software interrupts

`JSR` leaves two bytes on the stack and `BRK` three. A run of calls is followed by
the list of its open frames; the stack holds their bytes, so each return finds
what its own call pushed, wherever `S` and `PC` wrap.
-/
namespace Sim6502
open EventComputation CPU6502 WrappingStack

inductive CallKind where
  | jsr | brk
  deriving DecidableEq

namespace CallKind

def callOpcode : CallKind → Byte
  | .jsr => 0x20
  | .brk => 0x00

/-- `RTS` and `RTI`. -/
def returnOpcode : CallKind → Byte
  | .jsr => 0x60
  | .brk => 0x40

/-- How far behind its call a return resumes. -/
def correction : CallKind → Address
  | .jsr => 3
  | .brk => 1

end CallKind

/-- An open call: its kind and the state it was made in. -/
structure Frame where
  kind : CallKind
  caller : CPU6502

/-- The bytes a call leaves, the one on top first. -/
def Frame.bytes (frame : Frame) : List Byte :=
  match frame.kind with
  | .jsr => [frame.caller.PC.low, frame.caller.PC.high]
  | .brk => [frame.caller.P.get, frame.caller.PC.low, frame.caller.PC.high]

/-- All live bytes of the stack, the most recent frame first. -/
def liveBytes (frames : List Frame) : List Byte := frames.flatMap Frame.bytes

/-- A well-nested run with its open frames. Between calls and returns stand arbitrary
steps that come back to the same `S` and write no live stack cell. -/
inductive CallRun (isa : CPU6502ISA) (start : CPU6502) : CPU6502 → List Frame → Prop where
  | start : CallRun isa start start []
  | other {s t : CPU6502} {frames : List Frame} {n : ℕ} {events : List Event}
      (before : CallRun isa start s frames) (run : Routine.Iterates (step isa) n s events t)
      (same : t.S = s.S)
      (unwritten : ∀ index ∈ writtenIndices events,
        ¬Live stackIndex s.S (liveBytes frames).length index) :
      CallRun isa start t frames
  | call {s t : CPU6502} {frames : List Frame} {err : InstructionErr} {events : List Event}
      (kind : CallKind) (before : CallRun isa start s frames)
      (opcode : opcodeAt s = kind.callOpcode)
      (room : (liveBytes (⟨kind, s⟩ :: frames)).length ≤ 256)
      (run : (step isa).run s = ⟨.ok err, t, events⟩) :
      CallRun isa start t (⟨kind, s⟩ :: frames)
  | ret {s t : CPU6502} {frame : Frame} {frames : List Frame} {err : InstructionErr}
      {events : List Event} (before : CallRun isa start s (frame :: frames))
      (opcode : opcodeAt s = frame.kind.returnOpcode)
      (run : (step isa).run s = ⟨.ok err, t, events⟩) :
      CallRun isa start t frames

/-! ## Pushing and popping a frame -/

/-- The state after pushing bytes, the last of the list first. -/
def pushBytes (cpu : CPU6502) : List Byte → CPU6502
  | [] => cpu
  | v :: bytes => (pushBytes cpu bytes).pushed v

section PushBytes
variable (cpu : CPU6502) (bytes : List Byte) {items : List Byte}

theorem S_pushBytes : (pushBytes cpu bytes).S + BitVec.ofNat 8 bytes.length = cpu.S := by
  induction bytes with
  | nil => simp [pushBytes]
  | cons v bytes ih =>
    rw [pushBytes, S_pushed, List.length_cons, ← ih, BitVec.ofNat_add,
      BitVec.add_comm (BitVec.ofNat 8 bytes.length), ← BitVec.add_assoc]
    congr 1
    exact BitVec.sub_add_cancel _ _

theorem holds_pushBytes (h : Holds stackIndex cpu.memory.cell cpu.S items)
    (hlen : (bytes ++ items).length ≤ 256) :
    Holds stackIndex (pushBytes cpu bytes).memory.cell (pushBytes cpu bytes).S
      (bytes ++ items) := by
  induction bytes with
  | nil => exact h
  | cons v bytes ih =>
    have hbytes := ih (Nat.le_of_succ_le hlen)
    exact hbytes.push stackIndex_injective hlen v

end PushBytes

section Step
variable (isa : CPU6502ISA) {s t : CPU6502} {err : InstructionErr} {events : List Event}

theorem find_jsr (h : opcodeAt s = 0x20) :
    isa.find (opcodeAt s) = some ⟨.jsr, .absolute, .jsr⟩ := by
  rw [h]; exact isa.find_eq rfl

theorem find_rts (h : opcodeAt s = 0x60) :
    isa.find (opcodeAt s) = some ⟨.rts, .stack, .rts⟩ := by
  rw [h]; exact isa.find_eq rfl

/-- A call pushes the bytes of its frame. -/
theorem step_call (kind : CallKind) (hs : maxMemory ≤ s.memory.size)
    (opcode : opcodeAt s = kind.callOpcode) (run : (step isa).run s = ⟨.ok err, t, events⟩) :
    t.S = (pushBytes s (Frame.bytes ⟨kind, s⟩)).S ∧
      t.memory = (pushBytes s (Frame.bytes ⟨kind, s⟩)).memory := by
  cases kind with
  | jsr =>
    have hjsr := run_step_of_find hs (find_jsr isa opcode) (pointerInside_of_ne s nofun)
      (Execute.run_jsr s (effectiveAddress 0 s .absolute) hs)
    obtain ⟨-, rfl, -⟩ := Outcome.mk.inj (run.symm.trans hjsr)
    simp [Frame.bytes, pushBytes]
  | brk =>
    obtain ⟨earlier, hbrk⟩ := run_step_stack hs (find_brk isa opcode)
      (Execute.run_brk s (.ofByte s.S) hs)
    obtain ⟨-, rfl, -⟩ := Outcome.mk.inj (run.symm.trans hbrk)
    simp [Frame.bytes, pushBytes, Execute.brkPushed]

/-- A return that finds the bytes of a frame takes them off and resumes behind the
call of the frame. -/
theorem step_return (frame : Frame) (below : List Byte) (hs : maxMemory ≤ s.memory.size)
    (opcode : opcodeAt s = frame.kind.returnOpcode)
    (holds : Holds stackIndex s.memory.cell s.S (frame.bytes ++ below)) :
    ∃ err t events, (step isa).run s = ⟨.ok err, t, events⟩ ∧
      t.PC = frame.caller.PC + frame.kind.correction ∧
      t.S = s.S + BitVec.ofNat 8 frame.bytes.length ∧ t.memory = s.memory ∧
      (frame.kind = .brk → t.P = frame.caller.P) := by
  obtain ⟨kind, caller⟩ := frame
  cases kind with
  | jsr =>
    obtain ⟨hlow, hhigh, -⟩ := holds
    obtain ⟨earlier, hrts⟩ := run_step_stack hs (find_rts isa opcode)
      (Execute.run_rts s (.ofByte s.S) hs)
    have hpc : Address.ofBytes s.top s.popped.top = caller.PC := by
      rw [show s.top = caller.PC.low from hlow, show s.popped.top = caller.PC.high from hhigh]
      exact Address.ofBytes_low_high caller.PC
    refine ⟨_, _, _, hrts, ?_, ?_, ?_, fun h => by cases h⟩
    · rw [advance, if_pos rfl, hpc]
      rfl
    · rw [S_advance, S_popped, S_popped, BitVec.add_assoc]
      rfl
    · rw [memory_advance]
      rfl
  | brk =>
    obtain ⟨hstatus, hlow, hhigh, -⟩ := holds
    obtain ⟨earlier, hrti⟩ := run_step_stack hs (find_rti isa opcode)
      (Execute.run_rti s (.ofByte s.S) hs)
    have hpc : Address.ofBytes s.popped.top s.popped.popped.top = caller.PC := by
      rw [show s.popped.top = caller.PC.low from hlow,
        show s.popped.popped.top = caller.PC.high from hhigh]
      exact Address.ofBytes_low_high caller.PC
    refine ⟨_, _, _, hrti, ?_, ?_, ?_, fun _ => ?_⟩
    · rw [advance, if_pos rfl, hpc]
      rfl
    · rw [S_advance, S_popped, S_popped, S_popped, BitVec.add_assoc, BitVec.add_assoc]
      rfl
    · rw [memory_advance]
      rfl
    · rw [P_advance, show s.top = caller.P.get from hstatus]
      rfl

end Step

/-! ## The invariant of a run of calls -/

/-- Every open call was made with `S` just above its bytes. -/
def CallersAt : Byte → List Frame → Prop
  | _, [] => True
  | p, frame :: frames =>
    frame.caller.S = p + BitVec.ofNat 8 frame.bytes.length ∧ CallersAt frame.caller.S frames

structure CallInvariant (s : CPU6502) (frames : List Frame) : Prop where
  size : maxMemory ≤ s.memory.size
  holds : Holds stackIndex s.memory.cell s.S (liveBytes frames)
  callers : CallersAt s.S frames

section Invariant
variable {isa : CPU6502ISA} {s t : CPU6502} {frame : Frame} {frames : List Frame}
  {err : InstructionErr} {events : List Event}

/-- Steps that leave `S` and the live cells alone. -/
theorem CallInvariant.other (h : CallInvariant s frames) {n : ℕ}
    (run : Routine.Iterates (step isa) n s events t) (same : t.S = s.S)
    (unwritten : ∀ index ∈ writtenIndices events,
      ¬Live stackIndex s.S (liveBytes frames).length index) :
    CallInvariant t frames where
  size := full_iterates h.size run
  holds := by
    rw [same]
    refine h.holds.congr fun index hlive => ?_
    have hnil : writtenTo index events = [] := by
      by_contra hne
      exact unwritten index (mem_writtenIndices hne) hlive
    rw [(memoryLaw_iterates run h.size).cell index, hnil, List.getLastD_nil]
  callers := by
    rw [same]
    exact h.callers

theorem CallInvariant.call (h : CallInvariant s frames) (kind : CallKind)
    (opcode : opcodeAt s = kind.callOpcode)
    (room : (liveBytes (⟨kind, s⟩ :: frames)).length ≤ 256)
    (run : (step isa).run s = ⟨.ok err, t, events⟩) :
    CallInvariant t (⟨kind, s⟩ :: frames) := by
  obtain ⟨hS, hmemory⟩ := step_call isa kind h.size opcode run
  refine ⟨full_step h.size run, ?_, ?_, h.callers⟩
  · rw [hmemory, hS]
    exact holds_pushBytes s _ h.holds room
  · rw [hS, S_pushBytes]

theorem CallInvariant.ret (h : CallInvariant s (frame :: frames))
    (opcode : opcodeAt s = frame.kind.returnOpcode)
    (run : (step isa).run s = ⟨.ok err, t, events⟩) : CallInvariant t frames := by
  obtain ⟨_, u, _, run', -, hS, hmemory, -⟩ :=
    step_return isa frame (liveBytes frames) h.size opcode h.holds
  obtain ⟨-, rfl, -⟩ := Outcome.mk.inj (run.symm.trans run')
  obtain ⟨hcaller, hcallers⟩ := h.callers
  have hbelow := (holds_append.mp h.holds).2
  refine ⟨by rw [hmemory]; exact h.size, ?_, ?_⟩
  · rw [hmemory, hS]
    exact hbelow
  · rw [hS, ← hcaller]
    exact hcallers

/-- The invariant holds along every well-nested run. -/
theorem CallRun.invariant {start : CPU6502} (h : CallRun isa start s frames)
    (hs : maxMemory ≤ start.memory.size) : CallInvariant s frames := by
  induction h with
  | start => exact ⟨hs, trivial, trivial⟩
  | other before run same unwritten ih => exact ih.other run same unwritten
  | call kind before opcode room run ih => exact ih.call kind opcode room run
  | ret before opcode run ih => exact ih.ret opcode run

end Invariant

/-- The return that matches the innermost open call, in any well-nested run. -/
theorem nested_calls_return (isa : CPU6502ISA) (start s : CPU6502) (frame : Frame)
    (frames : List Frame) (hs : maxMemory ≤ start.memory.size)
    (h : CallRun isa start s (frame :: frames)) (opcode : opcodeAt s = frame.kind.returnOpcode) :
    ∃ err t events, (step isa).run s = ⟨.ok err, t, events⟩ ∧ CallRun isa start t frames ∧
      t.PC = frame.caller.PC + frame.kind.correction ∧ t.S = frame.caller.S ∧
      (frame.kind = .brk → t.P = frame.caller.P) := by
  have hinv := h.invariant hs
  obtain ⟨err, t, events, run, hPC, hS, -, hP⟩ :=
    step_return isa frame (liveBytes frames) hinv.size opcode hinv.holds
  exact ⟨err, t, events, run, h.ret opcode run, hPC, hS.trans hinv.callers.1.symm, hP⟩

/-- `BRK`, whose handler at `$0010` calls a subroutine and returns. The interrupt leaves `S` at
zero, so that the call inside it wraps. -/
def interrupts : CPU6502 :=
  let program := List.replicate 16 0 ++ [0x20, 0x14, 0x00, 0x40, 0x60, 0x00]
  { CPU6502.initial ((GPMemory.ofProgram program).updated 0xFFFE 0x10) false with
    PC := 0x15, S := 3, P := ⟨0xC3⟩ }

theorem nested_calls_return_interrupts :
    ∃ err err' handler t events events',
      (step isa).run ((step isa).run ((step isa).run interrupts).state).state =
        ⟨.ok err, handler, events⟩ ∧ handler.PC = 0x13 ∧ handler.S = 0 ∧
      (step isa).run handler = ⟨.ok err', t, events'⟩ ∧
        t.PC = 0x16 ∧ t.S = 3 ∧ t.P = ⟨0xC3⟩ := by
  have hbrk : CallRun isa interrupts ((step isa).run interrupts).state [⟨.brk, interrupts⟩] :=
    .call .brk .start rfl (by decide) rfl
  have hjsr : CallRun isa interrupts ((step isa).run ((step isa).run interrupts).state).state
      [⟨.jsr, ((step isa).run interrupts).state⟩, ⟨.brk, interrupts⟩] :=
    .call .jsr hbrk rfl (by decide) rfl
  obtain ⟨err, handler, events, run, hreturned, hPC, hS, -⟩ :=
    nested_calls_return isa interrupts _ _ _ le_rfl hjsr rfl
  obtain rfl := congrArg Outcome.state run
  obtain ⟨err', t, events', run', -, hPC', hS', hP⟩ :=
    nested_calls_return isa interrupts _ _ _ le_rfl hreturned rfl
  exact ⟨err, err', _, t, events, events', run, hPC, hS, run', hPC', hS', hP rfl⟩

end Sim6502
