import Sim6502.DebuggerSession
import Sim6502.ExecuteLoop
import Sim6502.MemoryFrame

/-!
# Accesses outside the memory

`GP_Memory::read` and `GP_Memory::write` index their vector without a look at the size. An
access outside the vector is performed, and whoever asked for it has no meaning from there
on; the exception of the documentation is never thrown. For every caller this module tells
from which states that happens.
-/
namespace Sim6502
open EventComputation CPU6502

/-- Over a memory of `N` bytes the outcome has read and written inside it if `inside` holds,
and has otherwise ended with an access outside. -/
structure AccessesFit {α : Type} (N : ℕ) (inside : Prop) (o : Outcome CPU6502 Fault Event α) :
    Prop where
  size : o.state.memory.size = N
  performed : inside → ∀ index ∈ accesses o.events, index < N
  undefined : ¬inside → ∃ index ∈ accesses o.events,
    N ≤ index ∧ o.result = .error (.undefined index)

section AccessesFit
variable {α β : Type} {N : ℕ} {inside rest : Prop} {o : Outcome CPU6502 Fault Event α}

theorem AccessesFit.congr (h : AccessesFit N inside o) (hiff : inside ↔ rest) :
    AccessesFit N rest o := by
  rwa [← propext hiff]

/-- Accesses outside are exactly what `inside` excludes. -/
theorem AccessesFit.inside_iff (h : AccessesFit N inside o) :
    (∀ index ∈ accesses o.events, index < N) ↔ inside := by
  constructor
  · intro hall
    by_contra hout
    obtain ⟨index, hmem, hle, -⟩ := h.undefined hout
    exact absurd (hall index hmem) (Nat.not_lt.mpr hle)
  · exact h.performed

theorem AccessesFit.of_silent (hsize : o.state.memory.size = N) (h : accesses o.events = []) :
    AccessesFit N True o :=
  ⟨hsize, fun _ => by simp [h], fun hno => absurd trivial hno⟩

theorem AccessesFit.after {events : List Event} (hevents : ∀ index ∈ accesses events, index < N)
    (h : AccessesFit N inside o) : AccessesFit N inside (o.after events) where
  size := h.size
  performed hin := by
    rw [Outcome.events_after, accesses_append]
    exact List.forall_mem_append.mpr ⟨hevents, h.performed hin⟩
  undefined hout := by
    obtain ⟨index, hmem, hle, hresult⟩ := h.undefined hout
    refine ⟨index, ?_, hle, hresult⟩
    rw [Outcome.events_after, accesses_append]
    exact List.mem_append_right _ hmem

/-- A first part with its accesses inside hands over to the rest; another one ends it. -/
theorem AccessesFit.bind {x : Cpu α} {f : α → Cpu β} {s : CPU6502}
    (hx : AccessesFit N inside (x.run s))
    (hf : inside → ∀ a t events, x.run s = ⟨.ok a, t, events⟩ → AccessesFit N rest ((f a).run t))
    (hok : inside → ∃ a t events, x.run s = ⟨.ok a, t, events⟩) :
    AccessesFit N (inside ∧ rest) ((x >>= f).run s) := by
  by_cases hin : inside
  · obtain ⟨a, t, events, hrun⟩ := hok hin
    have hevents := hx.performed hin
    rw [hrun] at hevents
    rw [Routine.run_bind_of_ok hrun]
    exact ((hf hin a t events hrun).after hevents).congr (by simp [hin])
  · obtain ⟨index, hmem, hle, hresult⟩ := hx.undefined hin
    have hsize := hx.size
    rcases hrun : x.run s with ⟨r, t, events⟩
    rw [hrun] at hmem hresult hsize
    obtain rfl : r = .error (.undefined index) := hresult
    rw [Routine.run_bind_of_error hrun]
    exact ⟨hsize, fun hno => absurd hno.1 hin, fun _ => ⟨index, hmem, hle, rfl⟩⟩

end AccessesFit

section Primitives
variable (cpu : CPU6502)

theorem accessesFit_readIndex (index : ℕ) :
    AccessesFit cpu.memory.size (index < cpu.memory.size) ((readIndex index).run cpu) where
  size := rfl
  performed hin i hi := by
    obtain rfl : i = index := List.mem_singleton.mp hi
    exact hin
  undefined hout := by
    rw [run_readIndex_outside cpu hout]
    exact ⟨index, List.mem_singleton_self index, Nat.not_lt.mp hout, rfl⟩

variable {α : Type} {rest : Prop}

/-- A read, and what follows it where it is inside. -/
theorem accessesFit_readIndex_bind {index : ℕ} {f : Byte → Cpu α}
    (h : AccessesFit cpu.memory.size rest ((f (cpu.memory.cell index)).run cpu)) :
    AccessesFit cpu.memory.size (index < cpu.memory.size ∧ rest)
      ((readIndex index >>= f).run cpu) := by
  refine (accessesFit_readIndex cpu index).bind ?_ fun hin => ⟨_, _, _, run_readIndex cpu hin⟩
  intro hin v t events hrun
  rw [run_readIndex cpu hin] at hrun
  obtain ⟨⟨rfl⟩, rfl, -⟩ := Outcome.mk.inj hrun
  exact h

end Primitives

/-! ## Decoding -/

/-- The indices that decoding reads, in order. -/
def decodeReads (cpu : CPU6502) : AddressingMode → List ℕ
  | .absolute | .absoluteIndexedX | .absoluteIndexedY =>
    [(cpu.PC + 1).toNat, (cpu.PC + 2).toNat]
  | .absoluteIndexedIndirect =>
    [(cpu.PC + 1).toNat, (cpu.PC + 2).toNat, (operandWord cpu + cpu.X.setWidth 16).toNat,
      (operandWord cpu + cpu.X.setWidth 16 + 1).toNat]
  | .absoluteIndirect =>
    [(cpu.PC + 1).toNat, (cpu.PC + 2).toNat, (operandWord cpu).toNat,
      (operandWord cpu).toNat + 1]
  | .pcRelative | .zeroPage | .zeroPageIndexedX | .zeroPageIndexedY => [(cpu.PC + 1).toNat]
  | .zeroPageIndexedIndirect =>
    [(cpu.PC + 1).toNat, (Address.ofByte (operandByte cpu + cpu.X)).toNat,
      (Address.ofByte (operandByte cpu + cpu.X) + 1).toNat]
  | .zeroPageIndirect | .zeroPageIndirectIndexedY =>
    [(cpu.PC + 1).toNat, (Address.ofByte (operandByte cpu)).toNat,
      (Address.ofByte (operandByte cpu) + 1).toNat]
  | .accumulator | .immediate | .implied | .stack => []

def DecodeInside (cpu : CPU6502) (mode : AddressingMode) : Prop :=
  ∀ index ∈ decodeReads cpu mode, index < cpu.memory.size

/-- The outcome reads the indices in order and delivers the value, or stops at the first
index outside. -/
inductive ReadsInOrder {α : Type} (cpu : CPU6502) (value : α) :
    List ℕ → Outcome CPU6502 Fault Event α → Prop where
  | done : ReadsInOrder cpu value [] ⟨.ok value, cpu, []⟩
  | inside {index : ℕ} {indices : List ℕ} {o : Outcome CPU6502 Fault Event α}
      (h : index < cpu.memory.size) (rest : ReadsInOrder cpu value indices o) :
      ReadsInOrder cpu value (index :: indices) (o.after [.read index])
  | outside {index : ℕ} {indices : List ℕ} (h : ¬index < cpu.memory.size) :
      ReadsInOrder cpu value (index :: indices)
        ⟨.error (.undefined index), cpu, [.read index]⟩

section ReadsInOrder
variable {α β : Type} {cpu : CPU6502} {value : α} {indices : List ℕ}
  {o : Outcome CPU6502 Fault Event α}

theorem ReadsInOrder.eq_of_inside (h : ReadsInOrder cpu value indices o)
    (hin : ∀ index ∈ indices, index < cpu.memory.size) :
    o = ⟨.ok value, cpu, indices.map .read⟩ := by
  induction h with
  | done => rfl
  | inside h rest ih =>
    rw [ih (List.forall_mem_cons.mp hin).2]
    rfl
  | outside h => exact absurd (List.forall_mem_cons.mp hin).1 h

theorem ReadsInOrder.fits (h : ReadsInOrder cpu value indices o) :
    AccessesFit cpu.memory.size (∀ index ∈ indices, index < cpu.memory.size) o := by
  induction h with
  | done => exact ⟨rfl, fun _ => nofun, fun hout => absurd nofun hout⟩
  | @inside index indices o h rest ih =>
    have hevents : ∀ i ∈ accesses [.read index], i < cpu.memory.size := by simpa using h
    refine (ih.after hevents).congr ?_
    rw [List.forall_mem_cons, and_iff_right h]
  | @outside index indices h =>
    refine ⟨rfl, fun hin => absurd (List.forall_mem_cons.mp hin).1 h, fun _ => ?_⟩
    exact ⟨index, List.mem_singleton_self index, Nat.not_lt.mp h, rfl⟩

theorem ReadsInOrder.silent {x : Cpu β} {b : β} {f : β → Cpu α}
    (hx : x.run cpu = ⟨.ok b, cpu, []⟩) (h : ReadsInOrder cpu value indices ((f b).run cpu)) :
    ReadsInOrder cpu value indices ((x >>= f).run cpu) := by
  rwa [Routine.run_bind_of_ok hx, Outcome.after_nil]

theorem ReadsInOrder.read {index : ℕ} {f : Byte → Cpu α}
    (h : ReadsInOrder cpu value indices ((f (cpu.memory.cell index)).run cpu)) :
    ReadsInOrder cpu value (index :: indices) ((readIndex index >>= f).run cpu) := by
  by_cases hin : index < cpu.memory.size
  · rw [Routine.run_bind_of_ok (run_readIndex cpu hin)]
    exact .inside hin h
  · rw [Routine.run_bind_of_error (run_readIndex_outside cpu hin)]
    exact .outside hin

theorem ReadsInOrder.fetch {offset : Address} {f : Byte → Cpu α}
    (h : ReadsInOrder cpu value indices
      ((f (cpu.memory.byteAt (cpu.PC + offset))).run cpu)) :
    ReadsInOrder cpu value ((cpu.PC + offset).toNat :: indices)
      ((Sim6502.fetch offset >>= f).run cpu) := by
  have hfetch : (Sim6502.fetch offset).run cpu = (readMemory (cpu.PC + offset)).run cpu := by
    rw [Sim6502.fetch, Routine.run_bind_of_ok (run_getPC cpu), addressAddInt_value,
      Outcome.after_nil]
  rw [Routine.run_bind, hfetch, ← Routine.run_bind]
  exact .read h

end ReadsInOrder

/-- Decoding over a memory of any size. -/
theorem readsInOrder_decode (unset : Address) (cpu : CPU6502) (mode : AddressingMode) :
    ReadsInOrder cpu (effectiveAddress unset cpu mode) (decodeReads cpu mode)
      ((decode unset mode).run cpu) := by
  cases mode <;> simp only [decode, decodeReads, effectiveAddress, addressAddByte_value,
    addressAddInt_value, byteAddByte_value]
  case absolute => exact .fetch (.fetch .done)
  case absoluteIndexedIndirect => exact .fetch (.fetch (.silent rfl (.read (.read .done))))
  case absoluteIndexedX => exact .fetch (.fetch (.silent rfl .done))
  case absoluteIndexedY => exact .fetch (.fetch (.silent rfl .done))
  case absoluteIndirect =>
    refine .fetch (.fetch ?_)
    rw [pointer_toNat]
    exact .read (.read .done)
  case accumulator => exact .silent rfl .done
  case immediate => exact .silent rfl .done
  case implied => exact .done
  case pcRelative => exact .fetch (.silent rfl .done)
  case stack => exact .silent rfl .done
  case zeroPage => exact .fetch .done
  case zeroPageIndexedIndirect => exact .fetch (.silent rfl (.read (.read .done)))
  case zeroPageIndexedX => exact .fetch (.silent rfl .done)
  case zeroPageIndexedY => exact .fetch (.silent rfl .done)
  case zeroPageIndirect => exact .fetch (.read (.read .done))
  case zeroPageIndirectIndexedY => exact .fetch (.read (.read (.silent rfl .done)))

/-! ## Computations with known accesses -/

/-- The accesses are among the indices that are allowed. -/
structure AccessesWithin {α : Type} (allowed : ℕ → Prop) (x : Cpu α) : Prop where
  size : Routine.Preserves (fun s t => t.memory.size = s.memory.size) x
  events : Routine.Emits (fun e => ∀ index ∈ e.access, allowed index) x

/-- No access at all. -/
abbrev Silent {α : Type} (x : Cpu α) : Prop := AccessesWithin (fun _ => False) x

section AccessesWithin
variable {α β : Type} {allowed : ℕ → Prop}

theorem AccessesWithin.fits {x : Cpu α} (h : AccessesWithin allowed x) {cpu : CPU6502} {N : ℕ}
    (hN : cpu.memory.size = N) (hallowed : ∀ index, allowed index → index < N) :
    AccessesFit N True (x.run cpu) := by
  refine ⟨(h.size cpu).trans hN, fun _ index hindex => ?_, fun hno => absurd trivial hno⟩
  obtain ⟨e, he, haccess⟩ := List.mem_filterMap.mp hindex
  exact hallowed index (h.events cpu e he index haccess)

theorem Silent.fits {x : Cpu α} (h : Silent x) {cpu : CPU6502} {N : ℕ}
    (hN : cpu.memory.size = N) : AccessesFit N True (x.run cpu) :=
  AccessesWithin.fits h hN fun _ => False.elim

theorem AccessesWithin.pure (a : α) : AccessesWithin allowed (Pure.pure a : Cpu α) :=
  ⟨fun _ => rfl, .pure a⟩

theorem AccessesWithin.get : AccessesWithin allowed (Routine.get : Cpu CPU6502) :=
  ⟨fun _ => rfl, .get⟩

theorem AccessesWithin.modify {f : CPU6502 → CPU6502} (h : ∀ s, (f s).memory.size = s.memory.size) :
    AccessesWithin allowed (Routine.modify f) := by
  refine ⟨h, fun s e he => ?_⟩
  simp at he

theorem AccessesWithin.bind {x : Cpu α} {f : α → Cpu β} (hx : AccessesWithin allowed x)
    (hf : ∀ a, AccessesWithin allowed (f a)) : AccessesWithin allowed (x >>= f) := by
  refine ⟨fun s => ?_, hx.events.bind fun a => (hf a).events⟩
  have hsize := hx.size s
  rcases hrun : x.run s with ⟨_ | a, t, events⟩
  · rw [hrun] at hsize
    rw [Routine.run_bind_of_error hrun]
    exact hsize
  · rw [hrun] at hsize
    rw [Routine.run_bind_of_ok hrun]
    exact ((hf a).size t).trans hsize

theorem AccessesWithin.ite {c : Prop} [Decidable c] {x y : Cpu α} (hx : AccessesWithin allowed x)
    (hy : AccessesWithin allowed y) : AccessesWithin allowed (if c then x else y) := by
  split <;> assumption

theorem AccessesWithin.mono {more : ℕ → Prop} {x : Cpu α} (h : AccessesWithin allowed x)
    (hmore : ∀ index, allowed index → more index) : AccessesWithin more x :=
  ⟨h.size, h.events.mono fun _ he index hindex => hmore index (he index hindex)⟩

theorem accessesWithin_writeMemory (a : Address) (v : Byte) :
    AccessesWithin (fun index => index = a.toNat) (writeMemory a v) := by
  have hwrite (cpu : CPU6502) : ∃ r t, (writeMemory a v).run cpu =
      ⟨r, t, cpu.memory.writeEvents a v⟩ ∧ t.memory.size = cpu.memory.size := by
    by_cases h : a.toNat < cpu.memory.size
    · exact ⟨_, _, run_writeMemory_of_lt cpu h v, rfl⟩
    · exact ⟨_, _, run_writeMemory_outside cpu h v, rfl⟩
  constructor
  · intro cpu
    obtain ⟨r, t, hrun, hsize⟩ := hwrite cpu
    rw [hrun]
    exact hsize
  · intro cpu e he index hindex
    obtain ⟨r, t, hrun, -⟩ := hwrite cpu
    rw [hrun] at he
    have hmem : index ∈ accesses (cpu.memory.writeEvents a v) :=
      List.mem_filterMap.mpr ⟨e, he, hindex⟩
    rw [accesses_writeEvents] at hmem
    exact List.mem_singleton.mp hmem

theorem silent_emit {event : Event} (h : event.access = none) : Silent (Routine.emit event) := by
  refine ⟨fun _ => rfl, fun s e he index hindex => ?_⟩
  obtain rfl : e = event := List.mem_singleton.mp he
  rw [h] at hindex
  cases hindex

theorem silent_setPC (a : Address) : Silent (setPC a) := .modify fun _ => rfl

end AccessesWithin

/-! ## Bodies -/

section Stack
variable {α : Type} {N : ℕ} {rest : Prop}

theorem accessesFit_popStack_bind (cpu : CPU6502) {f : Byte → Cpu α} (hN : cpu.memory.size = N)
    (h : AccessesFit N rest ((f cpu.top).run cpu.popped)) :
    AccessesFit N (cpu.S.toNat < N ∧ rest) ((popStack >>= f).run cpu) := by
  subst hN
  by_cases hin : cpu.S.toNat < cpu.memory.size
  · rw [Routine.run_bind_of_ok (run_popStack_of_lt cpu hin)]
    exact (h.after (by simpa using hin)).congr (by simp [hin])
  · rw [Routine.run_bind_of_error (run_popStack_outside cpu hin)]
    refine ⟨rfl, fun hno => absurd hno.1 hin, fun _ => ⟨cpu.S.toNat, ?_, by omega, rfl⟩⟩
    simp

theorem accessesFit_pushStack_bind (cpu : CPU6502) (v : Byte) {f : Unit → Cpu α}
    (hN : cpu.memory.size = N) (h : AccessesFit N rest ((f ()).run (cpu.pushed v))) :
    AccessesFit N ((cpu.S - 1).toNat < N ∧ rest) ((pushStack v >>= f).run cpu) := by
  subst hN
  by_cases hin : (cpu.S - 1).toNat < cpu.memory.size
  · rw [Routine.run_bind_of_ok (run_pushStack_of_lt cpu hin v)]
    have hevents : ∀ index ∈ accesses (cpu.pushEvents v), index < cpu.memory.size := by
      rw [accesses_pushEvents]
      exact List.forall_mem_singleton.mpr hin
    exact (h.after hevents).congr (and_iff_right hin).symm
  · rw [Routine.run_bind_of_error (run_pushStack_outside cpu hin v)]
    refine ⟨rfl, fun hno => absurd hno.1 hin, fun _ => ⟨(cpu.S - 1).toNat, ?_, by omega, rfl⟩⟩
    simp

end Stack

/-- The bodies that have nothing to do with the memory. -/
def InstructionBody.accessesNothing : InstructionBody → Bool
  | .dbg | .bpl | .bmi | .bvc | .bvs | .bra | .bcc | .bcs | .bne | .beq | .jmp | .cpyImmediate
  | .cpxImmediate | .clc | .sec | .cli | .sei | .clv | .cld | .sed | .dey | .dex | .tya | .tay
  | .iny | .inx | .inxRepeated | .aslA | .incA | .rolA | .decA | .lsrA | .rorA | .txa | .txs | .tax
  | .tsx | .nop | .stp => true
  | _ => false

/-- The bodies that read the operand, and may write it back, but access nothing else. -/
def InstructionBody.readsOperand : InstructionBody → Bool
  | .adc | .and | .aslMem | .sbc | .bbrx _ | .bbsx _ | .rmbx _ | .smbx _ | .ora | .cmp | .rolMem
  | .rorMem | .ldy | .eor | .lda | .ldx | .cmpZeroPageIndirect | .tsb | .trb | .bitZeroPage
  | .cpy | .cpx | .lsrMem | .decMem | .incMem | .bitAbsolute | .ldaAbsolute => true
  | _ => false

theorem silent_execute {body : InstructionBody} (h : body.accessesNothing) (a : Address) :
    Silent (body.execute a) := by
  cases body <;> try cases h
  all_goals
    simp only [InstructionBody.execute, Execute.dbg, Execute.bpl, Execute.bmi, Execute.bvc,
      Execute.bvs, Execute.bcc, Execute.bcs, Execute.bne, Execute.beq, Execute.branchOn,
      Execute.bra, Execute.jmp, Execute.jump, Execute.cpyImmediate, Execute.cpxImmediate,
      Execute.compare, Execute.clc, Execute.sec, Execute.cli, Execute.sei, Execute.clv,
      Execute.cld, Execute.sed, Execute.writeFlag, Execute.dey, Execute.dex, Execute.iny,
      Execute.inx, Execute.stepIndex, Execute.stepRegister, Execute.tya, Execute.tay,
      Execute.txa, Execute.txs, Execute.tax, Execute.tsx, Execute.transfer,
      Execute.inxRepeated, Execute.aslA, Execute.incA, Execute.rolA, Execute.decA,
      Execute.lsrA, Execute.rorA, Execute.nop, Execute.stp,
      getA, getX, getY, getS, getPSR, isDebug, getBit, setA, setX, setY, setS, setPC,
      setBit, updateFlags]
    repeat' with_reducible first
      | exact .pure _
      | exact .get
      | exact .modify fun _ => rfl
      | refine .ite ?_ ?_
      | refine .bind ?_ fun _ => ?_

section Operand
variable {α : Type} {cpu : CPU6502}

/-- A read of the operand, and what follows it, which has no other access. -/
theorem accessesFit_operand_bind {a : Address} {f : Byte → Cpu α}
    (hf : ∀ v, AccessesWithin (fun index => index = a.toNat) (f v)) :
    AccessesFit cpu.memory.size (a.toNat < cpu.memory.size) ((readMemory a >>= f).run cpu) := by
  refine ((accessesFit_readIndex cpu a.toNat).bind ?_ fun hin =>
    ⟨_, _, _, run_readIndex cpu hin⟩).congr (iff_of_eq (and_true _))
  intro hin v t events hrun
  rw [run_readIndex cpu hin] at hrun
  obtain ⟨⟨rfl⟩, rfl, -⟩ := Outcome.mk.inj hrun
  refine (hf _).fits rfl fun index hindex => ?_
  rw [hindex]
  exact hin

theorem accessesFit_writeMemory_bind {a : Address} {v : Byte} {f : Unit → Cpu α}
    (hf : Silent (f ())) :
    AccessesFit cpu.memory.size (a.toNat < cpu.memory.size) ((writeMemory a v >>= f).run cpu) := by
  by_cases hin : a.toNat < cpu.memory.size
  · rw [Routine.run_bind_of_ok (run_writeMemory_of_lt cpu hin v)]
    have hevents : ∀ index ∈ accesses (cpu.memory.writeEvents a v), index < cpu.memory.size := by
      rw [accesses_writeEvents]
      exact List.forall_mem_singleton.mpr hin
    have hrest : AccessesFit cpu.memory.size True
        ((f ()).run { cpu with memory := cpu.memory.updated a v }) := Silent.fits hf rfl
    exact (hrest.after hevents).congr (iff_of_true trivial hin)
  · rw [Routine.run_bind_of_error (run_writeMemory_outside cpu hin v)]
    refine ⟨rfl, fun hno => absurd hno hin, fun _ => ⟨a.toNat, ?_, Nat.not_lt.mp hin, rfl⟩⟩
    simp

end Operand

theorem accessesFit_operand {body : InstructionBody} (h : body.readsOperand) (a : Address)
    (cpu : CPU6502) :
    AccessesFit cpu.memory.size (a.toNat < cpu.memory.size) ((body.execute a).run cpu) := by
  cases body <;> try cases h
  all_goals
    simp only [InstructionBody.execute, Execute.adc, Execute.and, Execute.ora, Execute.eor,
      Execute.logicA, Execute.aslMem, Execute.sbc, Execute.bbrx, Execute.bbsx, Execute.rmbx,
      Execute.smbx, Execute.cmp, Execute.rolMem, Execute.rorMem, Execute.lda, Execute.ldx,
      Execute.ldy, Execute.load, Execute.ldaAbsolute, Execute.cpx, Execute.cpy,
      Execute.cmpZeroPageIndirect, Execute.compare, Execute.tsb, Execute.trb,
      Execute.bitZeroPage, Execute.bitAbsolute, Execute.lsrMem, Execute.decMem, Execute.incMem,
      Execute.stepMem, getA, getX, getY, getPSR, getBit, setA, setX, setY, setPC, setBit,
      updateFlags]
    refine accessesFit_operand_bind fun v => ?_
    repeat' with_reducible first
      | exact .pure _
      | exact .get
      | exact .modify fun _ => rfl
      | exact accessesWithin_writeMemory _ _
      | refine .ite ?_ ?_
      | refine .bind ?_ fun _ => ?_

theorem accessesFit_pull {set : Byte → Cpu Unit} {cpu : CPU6502} (hset : ∀ v, Silent (set v))
    (a : Address) :
    AccessesFit cpu.memory.size (cpu.S.toNat < cpu.memory.size) ((Execute.pull set a).run cpu) := by
  have hsilent : Silent (do set cpu.top; return InstructionErr.ok) :=
    (hset _).bind fun _ => .pure _
  have hrest : AccessesFit cpu.memory.size True
      ((do set cpu.top; return InstructionErr.ok).run cpu.popped) := hsilent.fits rfl
  exact (accessesFit_popStack_bind cpu rfl hrest).congr (iff_of_eq (and_true _))

theorem accessesFit_push {get : Cpu Byte} {v : Byte} {cpu : CPU6502}
    (hget : get.run cpu = ⟨.ok v, cpu, []⟩) (a : Address) :
    AccessesFit cpu.memory.size ((cpu.S - 1).toNat < cpu.memory.size)
      ((Execute.push get a).run cpu) := by
  have hrest : AccessesFit cpu.memory.size True
      ((return InstructionErr.ok : Cpu InstructionErr).run (cpu.pushed v)) :=
    Silent.fits (.pure _) rfl
  rw [Execute.push, Routine.run_bind_of_ok hget, Outcome.after_nil]
  exact (accessesFit_pushStack_bind cpu v rfl hrest).congr (iff_of_eq (and_true _))

theorem accessesFit_store {get : Cpu Byte} {v : Byte} {cpu : CPU6502}
    (hget : get.run cpu = ⟨.ok v, cpu, []⟩) (a : Address) :
    AccessesFit cpu.memory.size (a.toNat < cpu.memory.size)
      ((Execute.store get a).run cpu) := by
  rw [Execute.store, Routine.run_bind_of_ok hget, Outcome.after_nil]
  exact accessesFit_writeMemory_bind (.pure _)

theorem accessesFit_jsr (a : Address) (cpu : CPU6502) :
    AccessesFit cpu.memory.size
      ((cpu.S - 1).toNat < cpu.memory.size ∧ (cpu.S - 1 - 1).toNat < cpu.memory.size)
      ((Execute.jsr a).run cpu) := by
  have hjump : Silent (do
      setPC a
      return InstructionErr.okPCModified) := (silent_setPC a).bind fun _ => .pure _
  have hsecond (u : CPU6502) : AccessesFit u.memory.size _ ((do
      pushStack (← getPC).low
      setPC a
      return InstructionErr.okPCModified).run u) :=
    accessesFit_pushStack_bind u u.PC.low rfl (hjump.fits rfl)
  have hbody : AccessesFit cpu.memory.size _ ((Execute.jsr a).run cpu) :=
    accessesFit_pushStack_bind cpu cpu.PC.high rfl (hsecond (cpu.pushed cpu.PC.high))
  refine hbody.congr ?_
  simp only [S_pushed, memory_pushed, GPMemory.size_updated, and_true]

/-- What `BRK` does after its pushes. -/
def vectorJump : Cpu InstructionErr := do
  let low ← readMemory 0xFFFE
  let high ← readMemory 0xFFFF
  setPC (.ofBytes low high)
  setBit .breakCommand true
  return .okPCModified

theorem accessesFit_vectorJump (cpu : CPU6502) :
    AccessesFit cpu.memory.size (0xFFFF < cpu.memory.size) (vectorJump.run cpu) := by
  have hset (target : Address) : Silent (do
      setPC target
      setBit .breakCommand true
      return InstructionErr.okPCModified) :=
    (silent_setPC target).bind fun _ => .bind (.modify fun _ => rfl) fun _ => .pure _
  have hhigh (low : Byte) :
      AccessesFit cpu.memory.size ((0xFFFF : Address).toNat < cpu.memory.size) ((do
        let high ← readMemory 0xFFFF
        setPC (.ofBytes low high)
        setBit .breakCommand true
        return InstructionErr.okPCModified).run cpu) :=
    accessesFit_operand_bind fun _ => (hset _).mono fun _ => False.elim
  have hjump : AccessesFit cpu.memory.size ((0xFFFE : Address).toNat < cpu.memory.size ∧
      (0xFFFF : Address).toNat < cpu.memory.size) (vectorJump.run cpu) :=
    accessesFit_readIndex_bind cpu (hhigh _)
  have hlow : (0xFFFE : Address).toNat = 0xFFFE := rfl
  have hlast : (0xFFFF : Address).toNat = 0xFFFF := rfl
  exact hjump.congr (by omega)

/-- The vector is read after the three pushes. -/
theorem accessesFit_brk (a : Address) (cpu : CPU6502) :
    AccessesFit cpu.memory.size
      ((cpu.S - 1).toNat < cpu.memory.size ∧ (cpu.S - 1 - 1).toNat < cpu.memory.size ∧
        (cpu.S - 1 - 1 - 1).toNat < cpu.memory.size ∧ 0xFFFF < cpu.memory.size)
      ((Execute.brk a).run cpu) := by
  have hthird (u : CPU6502) : AccessesFit u.memory.size _ ((do
      pushStack (← getPSR).get
      vectorJump).run u) :=
    accessesFit_pushStack_bind u u.P.get rfl (accessesFit_vectorJump (u.pushed u.P.get))
  have hsecond (u : CPU6502) : AccessesFit u.memory.size _ ((do
      pushStack (← getPC).low
      pushStack (← getPSR).get
      vectorJump).run u) :=
    accessesFit_pushStack_bind u u.PC.low rfl (hthird (u.pushed u.PC.low))
  have hbody : AccessesFit cpu.memory.size _ ((Execute.brk a).run cpu) :=
    accessesFit_pushStack_bind cpu cpu.PC.high rfl (hsecond (cpu.pushed cpu.PC.high))
  refine hbody.congr ?_
  simp only [S_pushed, memory_pushed, GPMemory.size_updated]

/-- Where the accesses of a body are inside: the operand that it reads or stores, the cells
that it pops and pushes, and the vector of `BRK`. -/
def InstructionBody.Inside (cpu : CPU6502) (a : Address) (body : InstructionBody) : Prop :=
  if body.readsOperand then a.toNat < cpu.memory.size
  else match body with
    | .sta | .stx | .sty | .stz => a.toNat < cpu.memory.size
    | .pha | .phx | .phy | .php => (cpu.S - 1).toNat < cpu.memory.size
    | .jsr => (cpu.S - 1).toNat < cpu.memory.size ∧ (cpu.S - 1 - 1).toNat < cpu.memory.size
    | .pla | .plx | .ply | .plp => cpu.S.toNat < cpu.memory.size
    | .rts => cpu.S.toNat < cpu.memory.size ∧ (cpu.S + 1).toNat < cpu.memory.size
    | .rti => cpu.S.toNat < cpu.memory.size ∧ (cpu.S + 1).toNat < cpu.memory.size ∧
        (cpu.S + 1 + 1).toNat < cpu.memory.size
    | .brk => (cpu.S - 1).toNat < cpu.memory.size ∧ (cpu.S - 1 - 1).toNat < cpu.memory.size ∧
        (cpu.S - 1 - 1 - 1).toNat < cpu.memory.size ∧ 0xFFFF < cpu.memory.size
    | _ => True

theorem accessesFit_execute (body : InstructionBody) (a : Address) (cpu : CPU6502) :
    AccessesFit cpu.memory.size (body.Inside cpu a) ((body.execute a).run cpu) := by
  have hjump (target : Address) : Silent (do
      setPC target
      return InstructionErr.okPCModified) := (silent_setPC target).bind fun _ => .pure _
  cases body
  case pla =>
    have hset (v : Byte) : Silent (setA v) := .modify fun _ => rfl
    exact accessesFit_pull hset a
  case plx =>
    have hset (v : Byte) : Silent (setX v) := .modify fun _ => rfl
    exact accessesFit_pull hset a
  case ply =>
    have hset (v : Byte) : Silent (setY v) := .modify fun _ => rfl
    exact accessesFit_pull hset a
  case plp =>
    have hset (v : Byte) : Silent (setPSR (.ofByte v)) := .modify fun _ => rfl
    exact accessesFit_pull hset a
  case rts =>
    have hsecond : AccessesFit cpu.memory.size _ ((do
        let high ← popStack
        setPC (addressAddInt (.ofBytes cpu.top high) 3).value
        return InstructionErr.okPCModified).run cpu.popped) :=
      accessesFit_popStack_bind _ rfl ((hjump _).fits rfl)
    exact (accessesFit_popStack_bind cpu rfl hsecond).congr
      (by simp [InstructionBody.Inside, InstructionBody.readsOperand])
  case rti =>
    have hthird (low : Byte) : AccessesFit cpu.memory.size _ ((do
        let high ← popStack
        setPC (addressAddInt (.ofBytes low high) 1).value
        return InstructionErr.okPCModified).run { cpu.popped.popped with P := .ofByte cpu.top }) :=
      accessesFit_popStack_bind _ rfl ((hjump _).fits rfl)
    have hsecond : AccessesFit cpu.memory.size _ ((do
        let low ← popStack
        let high ← popStack
        setPC (addressAddInt (.ofBytes low high) 1).value
        return InstructionErr.okPCModified).run { cpu.popped with P := .ofByte cpu.top }) :=
      accessesFit_popStack_bind _ rfl (hthird _)
    exact (accessesFit_popStack_bind cpu rfl hsecond).congr
      (by simp [InstructionBody.Inside, InstructionBody.readsOperand])
  case brk => exact accessesFit_brk a cpu
  case jsr => exact accessesFit_jsr a cpu
  case pha => exact accessesFit_push (run_getA cpu) a
  case phx => exact accessesFit_push (run_getX cpu) a
  case phy => exact accessesFit_push (run_getY cpu) a
  case php =>
    have hget : (return ((← getPSR).setBit .breakCommand true).get : Cpu Byte).run cpu =
        ⟨.ok (cpu.P.setBit .breakCommand true).get, cpu, []⟩ := rfl
    exact accessesFit_push hget a
  case sta => exact accessesFit_store (run_getA cpu) a
  case stx => exact accessesFit_store (run_getX cpu) a
  case sty => exact accessesFit_store (run_getY cpu) a
  case stz => exact accessesFit_store (Routine.run_pure 0 cpu) a
  all_goals first
    | exact accessesFit_operand rfl a cpu
    | exact (silent_execute rfl a).fits rfl

/-! ## Steps -/

section Sequence
variable {α β : Type} {N : ℕ} {inside : Prop} {cpu : CPU6502}

theorem AccessesFit.bind_silent {x : Cpu α} {f : α → Cpu β} (hx : AccessesFit N inside (x.run cpu))
    (hf : ∀ a, Silent (f a)) : AccessesFit N inside ((x >>= f).run cpu) := by
  rcases hrun : x.run cpu with ⟨_ | a, t, events⟩
  · rw [Routine.run_bind_of_error hrun]
    rw [hrun] at hx
    exact ⟨hx.size, hx.performed, fun hout => by simpa using hx.undefined hout⟩
  · rw [hrun] at hx
    have hin : inside := by
      by_contra hout
      obtain ⟨index, -, -, hresult⟩ := hx.undefined hout
      cases hresult
    rw [Routine.run_bind_of_ok hrun]
    exact (((hf a).fits hx.size).after (hx.performed hin)).congr (by simp [hin])

/-- What comes before leaves the state and accesses nothing. -/
theorem accessesFit_silent_bind {x : Cpu α} {a : α} {f : α → Cpu β} {events : List Event}
    (hx : x.run cpu = ⟨.ok a, cpu, events⟩) (hevents : accesses events = [])
    (h : AccessesFit N inside ((f a).run cpu)) : AccessesFit N inside ((x >>= f).run cpu) := by
  rw [Routine.run_bind_of_ok hx]
  exact h.after (by simp [hevents])

theorem accessesFit_ite {c : Prop} [Decidable c] {x y : Cpu α}
    (hx : AccessesFit N inside (x.run cpu)) (hy : AccessesFit N inside (y.run cpu)) :
    AccessesFit N inside ((if c then x else y).run cpu) := by
  split <;> assumption

end Sequence

section Step
variable (isa : CPU6502ISA) (cpu : CPU6502)

/-- The accesses of a step are inside: the opcode, what decoding reads, and what the body
reads and writes. -/
def StepInside : Prop :=
  cpu.PC.toNat < cpu.memory.size ∧ ∀ instruction, isa.find (opcodeAt cpu) = some instruction →
    DecodeInside cpu instruction.mode ∧
      instruction.execute.Inside cpu (effectiveAddress 0 cpu instruction.mode)

theorem accessesFit_executeInstruction (instruction : Instruction) :
    AccessesFit cpu.memory.size
      (DecodeInside cpu instruction.mode ∧
        instruction.execute.Inside cpu (effectiveAddress 0 cpu instruction.mode))
      ((executeInstruction 0 instruction).run cpu) := by
  have hdecode := readsInOrder_decode 0 cpu instruction.mode
  have hfinish (retCode : InstructionErr) : Silent (do
      if retCode = .okPCModified then
        return retCode
      else
        setPC (addressAddInt (← getPC) (BitVec.ofNat 16 instruction.bytes)).value
        return retCode) := by
    refine .ite (.pure _) (.bind (.bind .get fun _ => .pure _) fun _ => ?_)
    exact (silent_setPC _).bind fun _ => .pure _
  refine hdecode.fits.bind ?_ fun hin => ⟨_, _, _, hdecode.eq_of_inside hin⟩
  intro hin a t events hrun
  rw [hdecode.eq_of_inside hin] at hrun
  obtain ⟨⟨rfl⟩, rfl, -⟩ := Outcome.mk.inj hrun
  exact (accessesFit_execute instruction.execute _ cpu).bind_silent hfinish

theorem accessesFit_step :
    AccessesFit cpu.memory.size (StepInside isa cpu) ((step isa).run cpu) := by
  by_cases hPC : cpu.PC.toNat < cpu.memory.size
  · cases find : isa.find (opcodeAt cpu) with
    | none =>
      have hin : StepInside isa cpu := ⟨hPC, by simp [find]⟩
      rw [step, run_lookup_unknown hPC find]
      exact ⟨rfl, fun _ => by simpa using hPC, fun hout => absurd hin hout⟩
    | some instruction =>
      have hlookup : ∀ index ∈ accesses (lookupEvents cpu instruction),
          index < cpu.memory.size := by
        unfold lookupEvents
        split <;> simpa using hPC
      rw [step, run_lookup hPC find]
      refine ((accessesFit_executeInstruction cpu instruction).after hlookup).congr ?_
      simp [StepInside, hPC, find]
  · rw [step, stepWith, Routine.run_bind_of_ok (run_getPC cpu),
      Routine.run_bind_of_error (run_readMemory_outside cpu hPC)]
    refine ⟨rfl, fun hin => absurd hin.1 hPC, fun _ => ⟨cpu.PC.toNat, ?_, by omega, rfl⟩⟩
    exact List.mem_singleton_self _

end Step

/-! ## Callers -/

theorem silent_announce (message : Message) : Silent (announce message) := silent_emit rfl

/-- The constructor reads the two bytes of the reset vector. -/
theorem accessesFit_reset (cpu : CPU6502) :
    AccessesFit cpu.memory.size (0xFFFE ≤ cpu.memory.size) (reset.run cpu) := by
  have hfinish (low high : Byte) : Silent (do
      if (low = fullByte ∧ high = fullByte) ∨ (low = zeroByte ∧ high = zeroByte) then
        announce .resetVectorNotSet
      setPC (.ofBytes low high)) :=
    .ite ((silent_announce _).bind fun _ => silent_setPC _) (silent_setPC _)
  have hhigh (low : Byte) : AccessesFit cpu.memory.size (resetVectorHigh < cpu.memory.size) ((do
      let high ← readIndex resetVectorHigh
      if (low = fullByte ∧ high = fullByte) ∨ (low = zeroByte ∧ high = zeroByte) then
        announce .resetVectorNotSet
      setPC (.ofBytes low high)).run cpu) :=
    (accessesFit_readIndex_bind cpu ((hfinish low _).fits rfl)).congr (iff_of_eq (and_true _))
  have hvector : AccessesFit cpu.memory.size
      (resetVectorLow < cpu.memory.size ∧ resetVectorHigh < cpu.memory.size) ((do
      let low ← readIndex resetVectorLow
      let high ← readIndex resetVectorHigh
      if (low = fullByte ∧ high = fullByte) ∨ (low = zeroByte ∧ high = zeroByte) then
        announce .resetVectorNotSet
      setPC (.ofBytes low high)).run cpu) :=
    accessesFit_readIndex_bind cpu (hhigh _)
  refine AccessesFit.congr ?_ (show (resetVectorLow < cpu.memory.size ∧
    resetVectorHigh < cpu.memory.size) ↔ 0xFFFE ≤ cpu.memory.size by
      unfold resetVectorLow resetVectorHigh; omega)
  exact accessesFit_silent_bind (Routine.run_get cpu) rfl
    (accessesFit_ite (accessesFit_silent_bind (run_announce cpu _) rfl hvector) hvector)

/-- The loop of `print_memory` reads its range. -/
theorem accessesFit_printMemoryFrom (start remaining i : ℕ) (cpu : CPU6502) :
    AccessesFit cpu.memory.size (∀ j < remaining, start + i + j < cpu.memory.size)
      ((Debugger.printMemoryFrom start remaining i).run cpu) := by
  induction remaining generalizing i with
  | zero => exact (Silent.fits (.pure ()) rfl).congr (by simp)
  | succ remaining ih =>
    have hbyte : AccessesFit cpu.memory.size (start + i < cpu.memory.size ∧
        ∀ j < remaining, start + (i + 1) + j < cpu.memory.size) ((do
        let byte ← readIndex (start + i)
        Debugger.say (Debugger.padded 2 (Debugger.hex byte.toNat))
        Debugger.printMemoryFrom start remaining (i + 1)).run cpu) :=
      accessesFit_readIndex_bind cpu
        (accessesFit_silent_bind (Debugger.run_say cpu _) rfl (ih (i + 1)))
    have hiff : (start + i < cpu.memory.size ∧
        ∀ j < remaining, start + (i + 1) + j < cpu.memory.size) ↔
          ∀ j < remaining + 1, start + i + j < cpu.memory.size := by
      constructor
      · rintro ⟨hfirst, hrest⟩ j hj
        cases j with
        | zero => exact hfirst
        | succ j =>
          have hj' := hrest j (by omega)
          omega
      · intro hall
        refine ⟨hall 0 (by omega), fun j hj => ?_⟩
        have hj' := hall (j + 1) (by omega)
        omega
    rw [Debugger.printMemoryFrom_succ]
    exact (accessesFit_silent_bind (Debugger.run_say cpu _) rfl hbyte).congr hiff

/-- The indices that `get` asks for. -/
def GetInside (size : ℕ) : List (List Char) → Prop
  | [address] => hexToNumber address < size
  | [start, count] =>
    hexToNumber count = 0 ∨ hexToNumber start + hexToNumber count ≤ size
  | _ => True

theorem accessesFit_printMemory (start count : ℕ) (cpu : CPU6502) :
    AccessesFit cpu.memory.size (count = 0 ∨ start + count ≤ cpu.memory.size)
      ((Debugger.printMemory start count).run cpu) := by
  have hloop := accessesFit_printMemoryFrom start count 0 cpu
  refine AccessesFit.congr (hloop.bind_silent fun _ => silent_announce _) ?_
  constructor
  · intro hall
    rcases Nat.eq_zero_or_pos count with hzero | hpos
    · exact .inl hzero
    · have hlast := hall (count - 1) (by omega)
      omega
  · intro h j hj
    omega

theorem accessesFit_get (args : List (List Char)) (cpu : CPU6502) :
    AccessesFit cpu.memory.size (GetInside cpu.memory.size args) ((Debugger.get args).run cpu) := by
  match args with
  | [] => exact .of_silent rfl rfl
  | [address] =>
    refine (accessesFit_printMemory (hexToNumber address) 1 cpu).congr ?_
    unfold GetInside
    omega
  | [start, count] => exact accessesFit_printMemory _ _ cpu
  | _ :: _ :: _ :: _ => exact .of_silent rfl rfl

/-! ## The loop of `execute` -/

/-- The accesses of every step that the first `n` iterations take are inside. -/
def ExecuteInside (isa : CPU6502ISA) (n : ℕ) (cpu : CPU6502) : Prop :=
  ∀ k < n, ∀ events s, Continues isa k cpu events s → s.PC.toNat < s.memory.size →
    StepInside isa s

section Execute
variable {isa : CPU6502ISA} {cpu : CPU6502} {n : ℕ}

theorem executeInside_of_end (hin : cpu.PC.toNat < cpu.memory.size → StepInside isa cpu)
    (hend : ∀ {err t events}, cpu.PC.toNat < cpu.memory.size →
      (step isa).run cpu = ⟨.ok err, t, events⟩ → err = .stop) :
    ExecuteInside isa n cpu := by
  rintro k - events s hrun guard
  cases hrun with
  | refl => exact hin guard
  | next guard' head going tail => exact absurd (hend guard' head) going

/-- The first iteration and the ones after it. -/
theorem executeInside_succ {t : CPU6502} {err : InstructionErr} {events : List Event}
    (guard : cpu.PC.toNat < cpu.memory.size) (head : (step isa).run cpu = ⟨.ok err, t, events⟩)
    (going : err ≠ .stop) :
    ExecuteInside isa (n + 1) cpu ↔ StepInside isa cpu ∧ ExecuteInside isa n t := by
  constructor
  · intro h
    refine ⟨h 0 (by omega) [] cpu (.refl cpu) guard, fun k hk later s hrun => ?_⟩
    exact h (k + 1) (by omega) (events ++ later) s (.next guard head going hrun)
  · rintro ⟨hfirst, hrest⟩ k hk later s hrun guard'
    cases hrun with
    | refl => exact hfirst
    | next _ head' _ tail =>
      obtain ⟨-, rfl, -⟩ := Outcome.mk.inj (head.symm.trans head')
      exact hrest _ (by omega) _ _ tail guard'

theorem accessesFit_execute_loop (isa : CPU6502ISA) (n : ℕ) (cpu : CPU6502) :
    AccessesFit cpu.memory.size (ExecuteInside isa n cpu) ((execute isa n).run cpu) := by
  induction n generalizing cpu with
  | zero => exact (Silent.fits (.pure false) rfl).congr (by simp [ExecuteInside])
  | succ n ih =>
    have hstep := accessesFit_step isa cpu
    have hinside {err : InstructionErr} {t : CPU6502} {events : List Event}
        (head : (step isa).run cpu = ⟨.ok err, t, events⟩) : StepInside isa cpu := by
      rw [head] at hstep
      by_contra hout
      obtain ⟨index, -, -, hresult⟩ := hstep.undefined hout
      cases hresult
    generalize ho : (execute isa (n + 1)).run cpu = o
    cases iteration_cases_of_run ho with
    | ended guard =>
      have hall : ExecuteInside isa (n + 1) cpu :=
        executeInside_of_end (fun h => absurd h guard) fun h _ => absurd h guard
      exact (Silent.fits (.pure true) rfl).congr (by simp [hall])
    | failed guard head =>
      rw [head] at hstep
      refine ⟨hstep.size, fun hin => hstep.performed ?_, fun hout => ?_⟩
      · exact hin 0 (by omega) [] cpu (.refl cpu) guard
      · have hfirst : ¬StepInside isa cpu := by
          intro hin
          refine hout (executeInside_of_end (fun _ => hin) fun _ head' => ?_)
          rw [head] at head'
          cases head'
        obtain ⟨index, hmem, hle, hresult⟩ := hstep.undefined hfirst
        exact ⟨index, hmem, hle, by simpa using hresult⟩
    | stopped guard head =>
      have hin := hinside head
      have hall : ExecuteInside isa (n + 1) cpu := by
        refine executeInside_of_end (fun _ => hin) fun _ head' => ?_
        obtain ⟨⟨rfl⟩, -, -⟩ := Outcome.mk.inj (head.symm.trans head')
        rfl
      rw [head] at hstep
      have hend : Silent (do announce .stpReached; return true) :=
        (silent_announce _).bind fun _ => .pure true
      exact ((hend.fits hstep.size).after (hstep.performed hin)).congr (by simp [hall])
    | @next err t events guard head going =>
      have hin := hinside head
      rw [head] at hstep
      have hrest := ih t
      have hsize : t.memory.size = cpu.memory.size := hstep.size
      rw [hsize] at hrest
      refine (hrest.after (hstep.performed hin)).congr ?_
      rw [executeInside_succ guard head going, and_iff_right hin]

end Execute

/-! ## The promise of `read` -/

/-- `read` at an index outside the vector throws and touches nothing. -/
def ReportsOutside (m : GPMemory) (index : ℕ) : Prop :=
  m.size ≤ index → (GPMemory.read index).run m = ⟨.error .outOfRange, m, []⟩

/-- A computation reads and writes nothing outside the vector. -/
def AccessesChecked {α : Type} (x : Cpu α) (cpu : CPU6502) : Prop :=
  ∀ index ∈ accesses (x.run cpu).events, index < cpu.memory.size

/-- It ends with an access outside the vector. -/
def EndsOutside {α : Type} (x : Cpu α) (cpu : CPU6502) : Prop :=
  ∃ index ∈ accesses (x.run cpu).events, cpu.memory.size ≤ index ∧
    (x.run cpu).result = .error (.undefined index)

theorem AccessesFit.checked {α : Type} {x : Cpu α} {cpu : CPU6502} {inside : Prop}
    (h : AccessesFit cpu.memory.size inside (x.run cpu)) :
    (AccessesChecked x cpu ↔ inside) ∧ (¬inside → EndsOutside x cpu) :=
  ⟨h.inside_iff, h.undefined⟩

theorem reportsOutside_iff (m : GPMemory) (index : ℕ) :
    ReportsOutside m index ↔ index < m.size := by
  constructor
  · intro h
    by_contra hout
    have hreport := h (Nat.not_lt.mp hout)
    rw [GPMemory.run_read_outside m hout] at hreport
    cases hreport
  · exact fun hin hout => absurd hin (Nat.not_lt.mpr hout)

/-- `read` keeps its promise for no index outside the vector, and no caller is kept from
such an access: the constructor, a step, the loop of `execute` and `get` make one exactly
when one of their addresses is outside, and then have no meaning. -/
theorem outside_accesses_performed (isa : CPU6502ISA) (cpu : CPU6502) :
    (∀ index, ReportsOutside cpu.memory index ↔ index < cpu.memory.size) ∧
    (∀ debug,
      (AccessesChecked reset (initial cpu.memory debug) ↔ 0xFFFE ≤ cpu.memory.size) ∧
        (¬0xFFFE ≤ cpu.memory.size → EndsOutside reset (initial cpu.memory debug))) ∧
    ((AccessesChecked (step isa) cpu ↔ StepInside isa cpu) ∧
      (¬StepInside isa cpu → EndsOutside (step isa) cpu)) ∧
    (∀ n,
      (AccessesChecked (execute isa n) cpu ↔ ExecuteInside isa n cpu) ∧
        (¬ExecuteInside isa n cpu → EndsOutside (execute isa n) cpu)) ∧
    ∀ args,
      (AccessesChecked (Debugger.get args) cpu ↔ GetInside cpu.memory.size args) ∧
        (¬GetInside cpu.memory.size args → EndsOutside (Debugger.get args) cpu) :=
  ⟨reportsOutside_iff cpu.memory,
    fun debug => (accessesFit_reset (initial cpu.memory debug)).checked,
    (accessesFit_step isa cpu).checked, fun n => (accessesFit_execute_loop isa n cpu).checked,
    fun args => (accessesFit_get args cpu).checked⟩

/-- An image of one byte, the opcode of `LDA` absolute. -/
def endsAfterOpcode : CPU6502 := CPU6502.initial (.ofImage [0xAD]) false

theorem not_stepInside_endsAfterOpcode : ¬StepInside isa endsAfterOpcode := by
  rintro ⟨-, hstep⟩
  have hoperand := (hstep ⟨.lda, .absolute, .ldaAbsolute⟩ rfl).1 1 List.mem_cons_self
  exact absurd hoperand (by decide)

/-- The guard of the loop holds and the operand is read past the end. -/
theorem outside_accesses_performed_endsAfterOpcode :
    endsAfterOpcode.PC.toNat < endsAfterOpcode.memory.size ∧
      EndsOutside (execute isa 1) endsAfterOpcode := by
  obtain ⟨-, -, -, hloop, -⟩ := outside_accesses_performed isa endsAfterOpcode
  refine ⟨by decide, (hloop 1).2 fun h => ?_⟩
  have hstep := h 0 (by omega) [] endsAfterOpcode (.refl _) (by decide)
  exact not_stepInside_endsAfterOpcode hstep

theorem endsAfterOpcode_accesses_outside :
    ¬ReportsOutside endsAfterOpcode.memory 1 ∧ ¬AccessesChecked (step isa) endsAfterOpcode := by
  constructor
  · rw [reportsOutside_iff]
    decide
  · intro h
    exact not_stepInside_endsAfterOpcode ((accessesFit_step isa endsAfterOpcode).inside_iff.mp h)

end Sim6502
