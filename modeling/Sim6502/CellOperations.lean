import Sim6502.StepAnalysis

/-!
# Instructions that modify a memory cell

The shifts, the increments and the bit instructions read a cell, compute and write it
back. They are brought to one form here, and so are runs that apply several of them
to given cells, whatever the modes that find the cells and the size of the memory.
-/
namespace Sim6502
open EventComputation CPU6502

/-- The byte such a body writes back, with the flags it leaves. -/
def InstructionBody.modified (A : Byte) (P : PSR) (m : Byte) : InstructionBody → Option (Byte × PSR)
  | .aslMem => some (m <<< 1, (P.setBit .carry (m &&& msBitMask != zeroByte)).updateFlags (m <<< 1))
  | .rolMem => some (rolValue m (P.getBit .carry),
      (P.setBit .carry (m &&& msBitMask != zeroByte)).updateFlags (rolValue m (P.getBit .carry)))
  | .rorMem => some (rorValue m (P.getBit .carry),
      (P.setBit .carry (m &&& lsBitMask != zeroByte)).updateFlags (rorValue m (P.getBit .carry)))
  | .lsrMem => some (m >>> 1, (P.setBit .carry (m &&& 0x01 == 1)).setBit .negative false)
  | .incMem => some (m + 1, P.updateFlags (m + 1))
  | .decMem => some (m - 1, P.updateFlags (m - 1))
  | .rmbx bit => some (m &&& ~~~bitByte bit, P)
  | .smbx bit => some (m ||| bitByte bit, P)
  | .tsb => some (m ||| A, P.setBit .zero (m &&& A == 0))
  | .trb => some (m &&& ~~~A, P.setBit .zero (m &&& A == 0))
  | _ => none

section Modified
variable {body : InstructionBody} {cpu : CPU6502} {a : Address} {r : Byte} {P : PSR}

theorem run_modified (h : body.modified cpu.A cpu.P (cpu.memory.byteAt a) = some (r, P))
    (ha : a.toNat < cpu.memory.size) :
    (body.execute a).run cpu = ⟨.ok .ok, { cpu with P := P, memory := cpu.memory.updated a r },
      .read a.toNat :: cpu.memory.writeEvents a r⟩ := by
  cases body <;> simp only [InstructionBody.modified, reduceCtorEq, Option.some.injEq,
    Prod.mk.injEq] at h <;> obtain ⟨rfl, rfl⟩ := h
  case incMem | decMem =>
    simp [InstructionBody.execute, Execute.incMem, Execute.decMem, Execute.stepMem,
      Routine.run_bind, run_readMemory_of_lt, run_writeMemory_of_lt, ha, ← PSR.zeroNegative_eq,
      PSR.zeroNegative]
  all_goals
    simp [InstructionBody.execute, Execute.aslMem, Execute.rolMem, Execute.rorMem, Execute.lsrMem,
      Execute.rmbx, Execute.smbx, Execute.tsb, Execute.trb, Routine.run_bind, run_readMemory_of_lt,
      run_writeMemory_of_lt, ha, rolValue, rorValue]

/-- Outside the memory such a body does not come to its end. -/
theorem lt_size_of_modified (h : body.modified cpu.A cpu.P (cpu.memory.byteAt a) = some (r, P))
    {err : InstructionErr} {t : CPU6502} {events : List Event}
    (run : (body.execute a).run cpu = ⟨.ok err, t, events⟩) : a.toNat < cpu.memory.size := by
  by_contra ha
  cases body <;> simp only [InstructionBody.modified, reduceCtorEq] at h
  all_goals
    simp [InstructionBody.execute, Execute.aslMem, Execute.rolMem, Execute.rorMem, Execute.lsrMem,
      Execute.rmbx, Execute.smbx, Execute.tsb, Execute.trb, Execute.incMem, Execute.decMem,
      Execute.stepMem, Routine.run_bind, run_readMemory_outside, ha] at run

end Modified

/-! ## Families of such instructions -/

/-- Operations on a cell, each with the opcodes that the table has for it. -/
structure CellFamily (Op : Type) where
  opcodes : Op → List Byte
  body : Op → InstructionBody
  result : Op → Byte → PSR → Byte → Byte × PSR
  execute : ∀ op, ∀ e ∈ isaEntries, e.1 ∈ opcodes op → e.2.execute = body op
  modified : ∀ op A P m, (body op).modified A P m = some (result op A P m)

/-- Successful steps, each of one operation on the cell that its mode finds. -/
inductive Performs {Op : Type} (family : CellFamily Op) (isa : CPU6502ISA) :
    List (Op × Address) → CPU6502 → CPU6502 → Prop where
  | nil (s : CPU6502) : Performs family isa [] s s
  | cons {op : Op} {cell : Address} {ops : List (Op × Address)} {s t u : CPU6502}
      {instruction : Instruction} {err : InstructionErr} {events : List Event}
      (opcode : opcodeAt s ∈ family.opcodes op)
      (find : isa.find (opcodeAt s) = some instruction)
      (address : ((decode 0 instruction.mode).run s).result = .ok cell)
      (head : (step isa).run s = ⟨.ok err, t, events⟩) (tail : Performs family isa ops t u) :
      Performs family isa ((op, cell) :: ops) s u

/-- The operations stand in the program: the first one is the instruction at `PC`, its mode
finds the cell, and where it comes to its end the others stand. -/
def Stands {Op : Type} (family : CellFamily Op) (isa : CPU6502ISA) :
    List (Op × Address) → CPU6502 → Prop
  | [], _ => True
  | (op, cell) :: ops, s =>
    (opcodeAt s ∈ family.opcodes op ∧ ∃ instruction, isa.find (opcodeAt s) = some instruction ∧
      ((decode 0 instruction.mode).run s).result = .ok cell) ∧
    ∀ t, Performs family isa [(op, cell)] s t → Stands family isa ops t

/-- What operations on some cells leave alone. -/
structure CellFrame (cells : List Address) (s t : CPU6502) : Prop where
  A : t.A = s.A
  X : t.X = s.X
  Y : t.Y = s.Y
  S : t.S = s.S
  size : t.memory.size = s.memory.size
  cell : ∀ index, (∀ a ∈ cells, index ≠ a.toNat) → t.memory.cell index = s.memory.cell index

theorem CellFrame.refl (cells : List Address) (s : CPU6502) : CellFrame cells s s :=
  ⟨rfl, rfl, rfl, rfl, rfl, fun _ _ => rfl⟩

theorem CellFrame.byteAt {cells : List Address} {s t : CPU6502} (h : CellFrame cells s t)
    {a : Address} (ha : a ∉ cells) : t.memory.byteAt a = s.memory.byteAt a := by
  apply h.cell
  intro b hb heq
  exact ha (BitVec.eq_of_toNat_eq heq ▸ hb)

section Performs
variable {Op : Type} {family : CellFamily Op} {isa : CPU6502ISA} {op : Op} {cell : Address}
  {ops later : List (Op × Address)} {s t u : CPU6502}

/-- One operation: its cell, the flags and `PC` change. -/
theorem state_of_step {instruction : Instruction} {err : InstructionErr} {events : List Event}
    (opcode : opcodeAt s ∈ family.opcodes op)
    (find : isa.find (opcodeAt s) = some instruction)
    (address : ((decode 0 instruction.mode).run s).result = .ok cell)
    (head : (step isa).run s = ⟨.ok err, t, events⟩) :
    t = { s with
      P := (family.result op s.A s.P (s.memory.byteAt cell)).2
      memory := s.memory.updated cell (family.result op s.A s.P (s.memory.byteAt cell)).1
      PC := t.PC } := by
  obtain ⟨a, v, later, ha, hbody, rfl⟩ := of_step_ok find head
  obtain rfl : cell = a := Except.ok.inj (address.symm.trans ha)
  have hexecute : instruction.execute = family.body op :=
    family.execute op _ (isa.find_mem find) opcode
  have hmodified := family.modified op s.A s.P (s.memory.byteAt cell)
  rw [hexecute] at hbody
  have hrun := run_modified hmodified (lt_size_of_modified hmodified hbody)
  rw [hbody] at hrun
  obtain ⟨-, rfl, -⟩ := Outcome.mk.inj hrun
  unfold advance
  split <;> rfl

/-- The first operation of a run: the byte and the flags it leaves. -/
theorem Performs.of_cons (h : Performs family isa ((op, cell) :: ops) s u) :
    ∃ t, Performs family isa [(op, cell)] s t ∧ Performs family isa ops t u ∧
      t.memory.byteAt cell = (family.result op s.A s.P (s.memory.byteAt cell)).1 ∧
      t.P = (family.result op s.A s.P (s.memory.byteAt cell)).2 := by
  cases h with
  | @cons _ _ _ _ t _ instruction err events opcode find address head tail =>
    have hstate := state_of_step opcode find address head
    have hmemory := congrArg CPU6502.memory hstate
    have hP := congrArg CPU6502.P hstate
    refine ⟨t, .cons opcode find address head (.nil t), tail, ?_, hP⟩
    rw [hmemory, GPMemory.byteAt_updated, if_pos rfl]

theorem Performs.state_eq (h : Performs family isa [(op, cell)] s t) :
    t = ((step isa).run s).state := by
  cases h with
  | cons opcode find address head tail =>
    cases tail
    rw [head]

/-- Over a full memory an operation on the cell its mode finds comes to its end. -/
theorem exists_performs_one {instruction : Instruction} (hs : maxMemory ≤ s.memory.size)
    (opcode : opcodeAt s ∈ family.opcodes op)
    (find : isa.find (opcodeAt s) = some instruction)
    (address : ((decode 0 instruction.mode).run s).result = .ok cell) :
    ∃ t, Performs family isa [(op, cell)] s t := by
  rcases step_of_find hs find with ⟨err, t, events, -, -, hstep⟩ | ⟨-, hjump, -⟩
  · exact ⟨_, .cons opcode find address hstep (.nil _)⟩
  · have hmodified := family.modified op s.A s.P (s.memory.byteAt cell)
    rw [← family.execute op _ (isa.find_mem find) opcode, hjump] at hmodified
    cases hmodified

theorem Performs.append (h : Performs family isa ops s t) (h' : Performs family isa later t u) :
    Performs family isa (ops ++ later) s u := by
  induction h with
  | nil s => exact h'
  | cons opcode find address head tail ih => exact .cons opcode find address head (ih h')

theorem Performs.of_append (h : Performs family isa (ops ++ later) s u) :
    ∃ t, Performs family isa ops s t ∧ Performs family isa later t u := by
  induction ops generalizing s with
  | nil => exact ⟨s, .nil s, h⟩
  | cons op ops ih =>
    cases h with
    | cons opcode find address head tail =>
      obtain ⟨t, hfirst, hrest⟩ := ih tail
      exact ⟨t, .cons opcode find address head hfirst, hrest⟩

/-- The registers and all other cells are kept by a run. -/
theorem Performs.frame (h : Performs family isa ops s t) {cells : List Address}
    (hcells : ∀ op ∈ ops, op.2 ∈ cells) : CellFrame cells s t := by
  induction h with
  | nil s => exact .refl cells s
  | cons opcode find address head tail ih =>
    have hstate := state_of_step opcode find address head
    have hrest := ih fun op hop => hcells op (List.mem_cons_of_mem _ hop)
    have hcell := hcells _ List.mem_cons_self
    rw [hstate] at hrest
    refine ⟨hrest.A, hrest.X, hrest.Y, hrest.S, hrest.size, fun index hindex => ?_⟩
    rw [hrest.cell index hindex]
    exact GPMemory.cell_updated_of_ne _ (hindex _ hcell) _

/-- Over a full memory a chain that stands in the program comes to its end. -/
theorem Stands.exists_performs (hs : maxMemory ≤ s.memory.size) (h : Stands family isa ops s) :
    ∃ t, Performs family isa ops s t := by
  induction ops generalizing s with
  | nil => exact ⟨s, .nil s⟩
  | cons op ops ih =>
    obtain ⟨⟨opcode, instruction, find, address⟩, hrest⟩ := h
    obtain ⟨t, hfirst⟩ := exists_performs_one hs opcode find address
    have hframe : CellFrame [op.2] s t := hfirst.frame (by simp)
    have hsize : maxMemory ≤ t.memory.size := hframe.size ▸ hs
    obtain ⟨u, hlater⟩ := ih hsize (hrest t hfirst)
    exact ⟨u, hfirst.append hlater⟩

/-- A flag that no operation of the family writes is kept by a run. -/
theorem Performs.stored (h : Performs family isa ops s t) {bit : PsrBit}
    (hbit : ∀ op A P m, (family.result op A P m).2.stored bit = P.stored bit) :
    t.P.stored bit = s.P.stored bit := by
  induction h with
  | nil s => rfl
  | cons opcode find address head tail ih =>
    have hstate := state_of_step opcode find address head
    rw [ih, hstate]
    exact hbit _ _ _ _

end Performs

end Sim6502
