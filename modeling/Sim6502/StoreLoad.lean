import Sim6502.Comparisons
import Sim6502.ZeroPagePointers

/-!
# Loading what was stored

A store followed by the load of the same register with the same operand bytes finds
the same address again and the same value there, in every mode that has both and
wherever indices, addresses and `PC` wrap, as long as the store hits neither its own
code nor its pointer.
-/
namespace Sim6502
open EventComputation CPU6502

/-- The registers that are stored and loaded are those that are compared. -/
abbrev DataRegister := ComparedRegister

namespace ComparedRegister

def storeName : DataRegister → Mnemonic
  | .A => .sta
  | .X => .stx
  | .Y => .sty

def loadName : DataRegister → Mnemonic
  | .A => .lda
  | .X => .ldx
  | .Y => .ldy

def storeBody : DataRegister → InstructionBody
  | .A => .sta
  | .X => .stx
  | .Y => .sty

/-- The bodies of the loads; the absolute `LDA` has one of its own. -/
def loadBodies : DataRegister → List InstructionBody
  | .A => [.lda, .ldaAbsolute]
  | .X => [.ldx]
  | .Y => [.ldy]

end ComparedRegister

/-- The modes in which a register is stored. -/
def storeModes : List AddressingMode :=
  [.zeroPage, .zeroPageIndexedX, .zeroPageIndexedY, .absolute, .absoluteIndexedX,
    .absoluteIndexedY, .zeroPageIndexedIndirect, .zeroPageIndirectIndexedY]

theorem store_of_mem {opcode : Byte} {instruction : Instruction}
    (h : (opcode, instruction) ∈ isaEntries) {register : DataRegister}
    (hname : instruction.name = register.storeName) :
    instruction.execute = register.storeBody ∧ instruction.mode ∈ storeModes := by
  have hall : ∀ e ∈ isaEntries, e.2.name = register.storeName →
      e.2.execute = register.storeBody ∧ e.2.mode ∈ storeModes := by
    cases register <;> decide +kernel
  exact hall _ h hname

theorem load_of_mem {opcode : Byte} {instruction : Instruction}
    (h : (opcode, instruction) ∈ isaEntries) {register : DataRegister}
    (hname : instruction.name = register.loadName) :
    instruction.execute ∈ register.loadBodies := by
  have hall : ∀ e ∈ isaEntries, e.2.name = register.loadName →
      e.2.execute ∈ register.loadBodies := by
    cases register <;> decide +kernel
  exact hall _ h hname

/-! ## The two bodies -/

section Body
variable {cpu : CPU6502} (hs : maxMemory ≤ cpu.memory.size) (a : Address)
  (register : DataRegister)
include hs

theorem run_storeBody :
    (register.storeBody.execute a).run cpu =
      ⟨.ok .ok, { cpu with memory := cpu.memory.updated a (register.read cpu) },
        cpu.memory.writeEvents a (register.read cpu)⟩ := by
  cases register <;>
    simp [ComparedRegister.storeBody, ComparedRegister.read, InstructionBody.execute, hs]

/-- A load of the value the register has already changes flags only. -/
theorem run_loadBody {body : InstructionBody} (h : body ∈ register.loadBodies)
    (hvalue : cpu.memory.byteAt a = register.read cpu) :
    ∃ P : PSR, (body.execute a).run cpu = ⟨.ok .ok, { cpu with P := P }, [.read a.toNat]⟩ ∧
      ∀ bit ∉ [PsrBit.zero, .negative], P.stored bit = cpu.P.stored bit := by
  have hflags (v : Byte) : ∀ bit ∉ [PsrBit.zero, .negative],
      (cpu.P.updateFlags v).stored bit = cpu.P.stored bit := by
    intro bit hbit
    simp only [List.mem_cons, List.not_mem_nil, or_false, not_or] at hbit
    exact PSR.stored_updateFlags_frame _ hbit.1 hbit.2 v
  cases register with
  | A =>
    simp only [ComparedRegister.loadBodies, List.mem_cons, List.not_mem_nil, or_false] at h
    rcases h with rfl | rfl
    · refine ⟨_, (Execute.run_lda cpu a hs).trans ?_, hflags (cpu.memory.byteAt a)⟩
      rw [hvalue]
      rfl
    · refine ⟨cpu.P, (Execute.run_ldaAbsolute cpu a hs).trans ?_, fun _ _ => rfl⟩
      rw [hvalue]
      rfl
  | X =>
    obtain rfl : body = .ldx := List.mem_singleton.mp h
    refine ⟨_, (Execute.run_ldx cpu a hs).trans ?_, hflags (cpu.memory.byteAt a)⟩
    rw [hvalue]
    rfl
  | Y =>
    obtain rfl : body = .ldy := List.mem_singleton.mp h
    refine ⟨_, (Execute.run_ldy cpu a hs).trans ?_, hflags (cpu.memory.byteAt a)⟩
    rw [hvalue]
    rfl

end Body

/-! ## The code -/

/-- At `PC` stands a store and behind it a load of the same register, in the same mode
and with the same operand bytes. -/
structure StoreThenLoad (isa : CPU6502ISA) (cpu : CPU6502) (register : DataRegister)
    (store load : Instruction) : Prop where
  findStore : isa.find (opcodeAt cpu) = some store
  findLoad : isa.find (cpu.memory.byteAt (cpu.PC + BitVec.ofNat 16 store.bytes)) = some load
  storeName : store.name = register.storeName
  loadName : load.name = register.loadName
  mode : load.mode = store.mode
  operands : ∀ k, 0 < k → k < store.bytes →
    cpu.memory.byteAt (cpu.PC + BitVec.ofNat 16 (store.bytes + k)) =
      cpu.memory.byteAt (cpu.PC + BitVec.ofNat 16 k)

/-- The operand is neither a cell of the two instructions nor a byte of the pointer. -/
structure OperandApart (cpu : CPU6502) (store : Instruction) (a : Address) : Prop where
  code : ∀ k < 2 * store.bytes, a ≠ cpu.PC + BitVec.ofNat 16 k
  pointer : ∀ p, zeroPagePointer cpu store.mode = some p → a ≠ .ofByte p ∧ a ≠ .ofByte p + 1

/-- The state between the two steps. -/
def afterStore (cpu : CPU6502) (store : Instruction) (a : Address) (v : Byte) : CPU6502 :=
  { cpu with memory := cpu.memory.updated a v, PC := cpu.PC + BitVec.ofNat 16 store.bytes }

section Again
variable {isa : CPU6502ISA} {cpu : CPU6502} {register : DataRegister} {store load : Instruction}
  {a : Address} (v : Byte)

theorem byteAt_afterStore {b : Address} (h : a ≠ b) :
    (afterStore cpu store a v).memory.byteAt b = cpu.memory.byteAt b := by
  rw [afterStore, GPMemory.byteAt_updated, if_neg (Ne.symm h)]

theorem opcodeAt_afterStore (apart : OperandApart cpu store a) :
    opcodeAt (afterStore cpu store a v) =
      cpu.memory.byteAt (cpu.PC + BitVec.ofNat 16 store.bytes) := by
  have hpos := bytes_pos store
  exact byteAt_afterStore v (apart.code _ (by omega))

/-- The load has the operand bytes of the store. -/
theorem operand_afterStore (code : StoreThenLoad isa cpu register store load)
    (apart : OperandApart cpu store a) {k : ℕ} (hpos : 0 < k) (hk : k < store.bytes) :
    (afterStore cpu store a v).memory.byteAt
        ((afterStore cpu store a v).PC + BitVec.ofNat 16 k) =
      cpu.memory.byteAt (cpu.PC + BitVec.ofNat 16 k) := by
  have hPC : (afterStore cpu store a v).PC + BitVec.ofNat 16 k =
      cpu.PC + BitVec.ofNat 16 (store.bytes + k) := by
    rw [BitVec.ofNat_add, ← BitVec.add_assoc]
    rfl
  rw [hPC, byteAt_afterStore v (apart.code _ (by omega)), code.operands k hpos hk]

/-- The load finds the address of the store: operand bytes, indices and pointer are the
same. -/
theorem effectiveAddress_afterStore (code : StoreThenLoad isa cpu register store load)
    (apart : OperandApart cpu store a) (hmode : store.mode ∈ storeModes) :
    effectiveAddress 0 (afterStore cpu store a v) store.mode =
      effectiveAddress 0 cpu store.mode := by
  have hbyte (h : 1 < store.bytes) : operandByte (afterStore cpu store a v) = operandByte cpu :=
    operand_afterStore v code apart Nat.one_pos h
  have hword (h : 2 < store.bytes) : operandWord (afterStore cpu store a v) = operandWord cpu := by
    have hlow : (afterStore cpu store a v).memory.byteAt ((afterStore cpu store a v).PC + 1) =
        cpu.memory.byteAt (cpu.PC + 1) :=
      operand_afterStore v code apart Nat.one_pos (Nat.lt_of_succ_lt h)
    have hhigh : (afterStore cpu store a v).memory.byteAt ((afterStore cpu store a v).PC + 2) =
        cpu.memory.byteAt (cpu.PC + 2) :=
      operand_afterStore v code apart Nat.two_pos h
    rw [operandWord, operandWord, hlow, hhigh]
  have hpointer {p : Byte} (h : zeroPagePointer cpu store.mode = some p) :
      pointerAt (afterStore cpu store a v) (.ofByte p) = pointerAt cpu (.ofByte p) := by
    obtain ⟨hlow, hhigh⟩ := apart.pointer p h
    rw [pointerAt, byteAt_afterStore v hlow, byteAt_afterStore v hhigh, pointerAt]
  rw [Instruction.bytes] at hbyte hword
  have hX : (afterStore cpu store a v).X = cpu.X := rfl
  have hY : (afterStore cpu store a v).Y = cpu.Y := rfl
  cases hm : store.mode <;> rw [hm] at hmode hbyte hword hpointer <;>
    simp only [storeModes, List.mem_cons, List.not_mem_nil, reduceCtorEq, or_self] at hmode
  case zeroPage | zeroPageIndexedX | zeroPageIndexedY =>
    simp only [effectiveAddress, hbyte (by decide), hX, hY]
  case absolute | absoluteIndexedX | absoluteIndexedY =>
    simp only [effectiveAddress, hword (by decide), hX, hY]
  case zeroPageIndexedIndirect | zeroPageIndirectIndexedY =>
    simp only [effectiveAddress, hbyte (by decide), hX, hY, hpointer rfl]

end Again

/-! ## The two steps -/

section Steps
variable {isa : CPU6502ISA} {cpu : CPU6502} {register : DataRegister} {instruction : Instruction}
  {a : Address} (hs : maxMemory ≤ cpu.memory.size)
  (find : isa.find (opcodeAt cpu) = some instruction)
  (hmode : instruction.mode ≠ .absoluteIndirect)
  (ha : effectiveAddress 0 cpu instruction.mode = a)
include hs find hmode ha

theorem run_step_store (hbody : instruction.execute = register.storeBody) :
    ∃ events, (step isa).run cpu =
      ⟨.ok .ok, afterStore cpu instruction a (register.read cpu), events⟩ := by
  have hrun := run_storeBody hs a register
  rw [← hbody, ← ha] at hrun
  obtain ⟨events, hstep⟩ := run_step_of_ok hs find hmode hrun
  rw [ha] at hstep
  exact ⟨events, hstep⟩

theorem run_step_load (hbody : instruction.execute ∈ register.loadBodies)
    (hvalue : cpu.memory.byteAt a = register.read cpu) :
    ∃ P events, (step isa).run cpu = ⟨.ok .ok,
        { cpu with P := P, PC := cpu.PC + BitVec.ofNat 16 instruction.bytes }, events⟩ ∧
      ∀ bit ∉ [PsrBit.zero, .negative], P.stored bit = cpu.P.stored bit := by
  obtain ⟨P, hrun, hflags⟩ := run_loadBody hs a register hbody hvalue
  rw [← ha] at hrun
  obtain ⟨events, hstep⟩ := run_step_of_ok hs find hmode hrun
  exact ⟨P, events, hstep, hflags⟩

end Steps

/-- What a store and the load behind it leave: the value in the register and in memory,
and everything else as it was but `N`, `Z` and `PC`. -/
structure ReadsBack (register : DataRegister) (a : Address) (length : ℕ) (s u : CPU6502) :
    Prop where
  value : u.memory.byteAt a = register.read s
  A : u.A = s.A
  X : u.X = s.X
  Y : u.Y = s.Y
  S : u.S = s.S
  flags : ∀ bit ∉ [PsrBit.zero, .negative], u.P.stored bit = s.P.stored bit
  size : u.memory.size = s.memory.size
  cell : ∀ index, index ≠ a.toNat → u.memory.cell index = s.memory.cell index
  PC : u.PC = s.PC + BitVec.ofNat 16 (2 * length)

/-- A store followed by the load of the same register in the same mode reads back. -/
theorem store_then_load (isa : CPU6502ISA) (cpu : CPU6502) (register : DataRegister)
    (store load : Instruction) (a : Address) (hs : maxMemory ≤ cpu.memory.size)
    (code : StoreThenLoad isa cpu register store load)
    (ha : ((decode 0 store.mode).run cpu).result = .ok a) (apart : OperandApart cpu store a) :
    ∃ t u events later, (step isa).run cpu = ⟨.ok .ok, t, events⟩ ∧
      (step isa).run t = ⟨.ok .ok, u, later⟩ ∧
      ((decode 0 load.mode).run t).result = .ok a ∧ register.read u = register.read cpu ∧
      ReadsBack register a store.bytes cpu u := by
  obtain ⟨hstore, hmode⟩ := store_of_mem (isa.find_mem code.findStore) code.storeName
  have hload := load_of_mem (isa.find_mem code.findLoad) code.loadName
  have hdirect : store.mode ≠ .absoluteIndirect := by
    intro h
    rw [h] at hmode
    simp [storeModes] at hmode
  have hdirect' : load.mode ≠ .absoluteIndirect := code.mode ▸ hdirect
  have haddress : effectiveAddress 0 cpu store.mode = a :=
    Except.ok.inj ((result_decode 0 hs (pointerInside_of_ne cpu hdirect)).symm.trans ha)
  obtain ⟨events, hfirst⟩ := run_step_store hs code.findStore hdirect haddress hstore
  have hfull : maxMemory ≤ (afterStore cpu store a (register.read cpu)).memory.size := hs
  have hagain : effectiveAddress 0 (afterStore cpu store a (register.read cpu)) load.mode = a := by
    rw [code.mode, effectiveAddress_afterStore _ code apart hmode, haddress]
  have find : isa.find (opcodeAt (afterStore cpu store a (register.read cpu))) = some load := by
    rw [opcodeAt_afterStore _ apart, code.findLoad]
  have hread : register.read (afterStore cpu store a (register.read cpu)) = register.read cpu := by
    cases register <;> rfl
  have hvalue : (afterStore cpu store a (register.read cpu)).memory.byteAt a =
      register.read cpu := GPMemory.cell_updated_self _ a _
  obtain ⟨P, later, hsecond, hflags⟩ :=
    run_step_load hfull find hdirect' hagain hload (hvalue.trans hread.symm)
  refine ⟨_, _, events, later, hfirst, hsecond, ?_, ?_, ?_⟩
  · rw [result_decode 0 hfull (pointerInside_of_ne _ hdirect'), hagain]
  · cases register <;> rfl
  · refine ⟨hvalue, rfl, rfl, rfl, rfl, hflags, rfl, fun index hindex => ?_, ?_⟩
    · exact cpu.memory.cell_updated_of_ne hindex _
    · have hbytes : load.bytes = store.bytes := congrArg bytesForAddressingMode code.mode
      change cpu.PC + BitVec.ofNat 16 store.bytes + BitVec.ofNat 16 load.bytes = _
      rw [hbytes, BitVec.add_assoc, ← BitVec.ofNat_add, Nat.two_mul]

/-- `STA ($10),Y` and `LDA ($10),Y`, where the address wraps past the last one. -/
def storesAndLoads : CPU6502 :=
  { CPU6502.initial (((GPMemory.ofProgram [0x91, 0x10, 0xB1, 0x10]).updated 0x10 0xF0).updated 0x11
      0xFF) false with A := 0x5A, Y := 0x90 }

theorem store_then_load_storesAndLoads :
    ∃ t u events later, (step isa).run storesAndLoads = ⟨.ok .ok, t, events⟩ ∧
      (step isa).run t = ⟨.ok .ok, u, later⟩ ∧ u.A = 0x5A ∧ u.memory.byteAt 0x80 = 0x5A := by
  have code : StoreThenLoad isa storesAndLoads .A ⟨.sta, .zeroPageIndirectIndexedY, .sta⟩
      ⟨.lda, .zeroPageIndirectIndexedY, .lda⟩ := by
    refine ⟨rfl, rfl, rfl, rfl, rfl, fun k hpos hk => ?_⟩
    obtain rfl : k = 1 := Nat.le_antisymm (Nat.le_of_lt_succ hk) hpos
    rfl
  have apart : OperandApart storesAndLoads ⟨.sta, .zeroPageIndirectIndexedY, .sta⟩ 0x80 := by
    refine ⟨by decide, fun p hp => ?_⟩
    obtain rfl : 0x10 = p := Option.some.inj hp
    decide
  obtain ⟨t, u, events, later, hfirst, hsecond, -, hA, hback⟩ :=
    store_then_load isa storesAndLoads .A _ _ 0x80 le_rfl code rfl apart
  exact ⟨t, u, events, later, hfirst, hsecond, hA, hback.value⟩

end Sim6502
