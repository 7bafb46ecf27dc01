import Sim6502.StepAnalysis

/-!
# Branches

The displacement of a branch is a signed byte that is counted from the next
instruction, in both directions and across both ends of the address space. The
branches on a bit are decoded like the others: they have two bytes, and the bit they
test is one of the byte they would branch to.
-/
namespace Sim6502
open EventComputation CPU6502

/-- At most `PC` changes: to the next instruction, displaced by a signed byte when the
branch is taken. -/
structure Branched (length : ℕ) (s t : CPU6502) (displacement : Byte) (taken : Bool) : Prop where
  frame : t = { s with PC := t.PC }
  target : (t.PC.toNat : ℤ) =
    (s.PC.toNat + length + if taken then displacement.toInt else 0) % 0x10000

/-- The step reports that it branched. -/
def Takes (isa : CPU6502ISA) (cpu : CPU6502) : Prop :=
  ((step isa).run cpu).result = .ok .okPCModified

/-- The address a branch of two bytes leads to. -/
def relativeTarget (cpu : CPU6502) : Address :=
  cpu.PC + 2 + (operandByte cpu).signExtend 16

/-- The state after a branch of two bytes. -/
def relativeBranch (cpu : CPU6502) (taken : Bool) : CPU6502 :=
  { cpu with PC := if taken then relativeTarget cpu else cpu.PC + 2 }

section Displacement
variable (cpu : CPU6502)

theorem toNat_signExtend (d : Byte) : ((d.signExtend 16).toNat : ℤ) = d.toInt % 0x10000 := by
  have hlow := d.le_toInt
  have hhigh := d.toInt_lt
  rw [BitVec.signExtend, BitVec.toNat_ofInt]
  omega

theorem toNat_relativeTarget :
    ((relativeTarget cpu).toNat : ℤ) =
      (cpu.PC.toNat + 2 + (operandByte cpu).toInt) % 0x10000 := by
  have hsign := toNat_signExtend (operandByte cpu)
  rw [relativeTarget, BitVec.toNat_add, BitVec.toNat_add]
  simp only [BitVec.reduceToNat]
  omega

theorem branched_relativeBranch (taken : Bool) :
    Branched 2 cpu (relativeBranch cpu taken) (operandByte cpu) taken := by
  refine ⟨rfl, ?_⟩
  cases taken
  · simp only [relativeBranch, Bool.false_eq_true, if_false, BitVec.toNat_add,
      BitVec.reduceToNat]
    omega
  · simpa [relativeBranch] using toNat_relativeTarget cpu

end Displacement

/-- The step of an instruction that either sets `PC` to its relative target or does
nothing. -/
theorem run_step_relative {isa : CPU6502ISA} {cpu : CPU6502} (hs : maxMemory ≤ cpu.memory.size)
    {name : Mnemonic} {body : InstructionBody}
    (find : isa.find (opcodeAt cpu) = some ⟨name, .pcRelative, body⟩) {taken : Bool}
    {events : List Event}
    (run : (body.execute (relativeTarget cpu)).run cpu =
      ⟨.ok (branchErr taken), branchTo cpu taken (relativeTarget cpu), events⟩) :
    ∃ later, (step isa).run cpu = ⟨.ok (branchErr taken), relativeBranch cpu taken, later⟩ := by
  have hstep := run_step_of_find hs find (pointerInside_of_ne cpu (by simp)) run
  have hstate : advance ⟨name, .pcRelative, body⟩ (branchErr taken)
      (branchTo cpu taken (relativeTarget cpu)) = relativeBranch cpu taken := by
    cases taken <;> rfl
  rw [hstate] at hstep
  exact ⟨_, hstep⟩

theorem takes_iff {isa : CPU6502ISA} {cpu t : CPU6502} {taken : Bool} {events : List Event}
    (run : (step isa).run cpu = ⟨.ok (branchErr taken), t, events⟩) :
    Takes isa cpu ↔ taken = true := by
  rw [Takes, run]
  cases taken <;> simp [branchErr]

/-! ## The branches on a flag -/

inductive BranchCondition where
  | on (bit : PsrBit) (wanted : Bool)
  | always
  deriving DecidableEq

def BranchCondition.holds (p : PSR) : BranchCondition → Bool
  | .on bit wanted => p.getBit bit == wanted
  | .always => true

def Mnemonic.branchCondition : Mnemonic → Option BranchCondition
  | .bpl => some (.on .negative false)
  | .bmi => some (.on .negative true)
  | .bvc => some (.on .overflow false)
  | .bvs => some (.on .overflow true)
  | .bcc => some (.on .carry false)
  | .bcs => some (.on .carry true)
  | .bne => some (.on .zero false)
  | .beq => some (.on .zero true)
  | .bra => some .always
  | _ => none

def InstructionBody.branchCondition : InstructionBody → Option BranchCondition
  | .bpl => some (.on .negative false)
  | .bmi => some (.on .negative true)
  | .bvc => some (.on .overflow false)
  | .bvs => some (.on .overflow true)
  | .bcc => some (.on .carry false)
  | .bcs => some (.on .carry true)
  | .bne => some (.on .zero false)
  | .beq => some (.on .zero true)
  | .bra => some .always
  | _ => none

theorem branch_of_mem {opcode : Byte} {instruction : Instruction}
    (h : (opcode, instruction) ∈ isaEntries) {condition : BranchCondition}
    (hc : instruction.name.branchCondition = some condition) :
    instruction.mode = .pcRelative ∧ instruction.execute.branchCondition = some condition := by
  have hall : ∀ e ∈ isaEntries, e.2.name.branchCondition.isSome →
      e.2.mode = .pcRelative ∧ e.2.execute.branchCondition = e.2.name.branchCondition := by
    decide +kernel
  obtain ⟨hmode, hbody⟩ := hall _ h (by rw [hc]; rfl)
  exact ⟨hmode, hbody.trans hc⟩

/-- What the nine bodies have in common. -/
theorem run_branch {body : InstructionBody} {condition : BranchCondition}
    (h : body.branchCondition = some condition) (a : Address) (cpu : CPU6502) :
    (body.execute a).run cpu = ⟨.ok (branchErr (condition.holds cpu.P)),
      branchTo cpu (condition.holds cpu.P) a, []⟩ := by
  cases body <;>
    simp only [InstructionBody.branchCondition, reduceCtorEq, Option.some.injEq] at h <;>
    subst h <;>
    simp [InstructionBody.execute, BranchCondition.holds, branchErr, branchTo]

section Flag
variable {isa : CPU6502ISA} {cpu : CPU6502} (hs : maxMemory ≤ cpu.memory.size)
include hs

theorem run_step_branch {instruction : Instruction} {condition : BranchCondition}
    (find : isa.find (opcodeAt cpu) = some instruction)
    (hc : instruction.name.branchCondition = some condition) :
    ∃ events, (step isa).run cpu = ⟨.ok (branchErr (condition.holds cpu.P)),
      relativeBranch cpu (condition.holds cpu.P), events⟩ := by
  obtain ⟨hmode, hbody⟩ := branch_of_mem (isa.find_mem find) hc
  obtain ⟨name, mode, body⟩ := instruction
  obtain rfl : mode = .pcRelative := hmode
  exact run_step_relative hs find (run_branch hbody _ cpu)

/-- The opcodes of the branches on one flag, clear and set. -/
def complementaryBranches : List (Byte × Byte × PsrBit) :=
  [(0x10, 0x30, .negative), (0x50, 0x70, .overflow), (0x90, 0xB0, .carry), (0xD0, 0xF0, .zero)]

omit hs in
theorem find_complementary (isa : CPU6502ISA) {clear set : Byte} {flag : PsrBit}
    (h : (clear, set, flag) ∈ complementaryBranches) :
    ∃ i j, isa.find clear = some i ∧ i.name.branchCondition = some (.on flag false) ∧
      isa.find set = some j ∧ j.name.branchCondition = some (.on flag true) := by
  simp only [complementaryBranches, List.mem_cons, Prod.mk.injEq, List.not_mem_nil, or_false] at h
  rcases h with ⟨rfl, rfl, rfl⟩ | ⟨rfl, rfl, rfl⟩ | ⟨rfl, rfl, rfl⟩ | ⟨rfl, rfl, rfl⟩ <;>
    exact ⟨_, _, isa.find_eq rfl, rfl, isa.find_eq rfl, rfl⟩

theorem takes_complementary {clear set : Byte} {flag : PsrBit}
    (h : (clear, set, flag) ∈ complementaryBranches) :
    Takes isa (withOpcode cpu clear) ↔ ¬Takes isa (withOpcode cpu set) := by
  obtain ⟨i, j, hi, hclear, hj, hset⟩ := find_complementary isa h
  have hfull (opcode : Byte) : maxMemory ≤ (withOpcode cpu opcode).memory.size := hs
  obtain ⟨events, run⟩ :=
    run_step_branch (hfull clear) (by rw [opcodeAt_withOpcode]; exact hi) hclear
  obtain ⟨later, run'⟩ := run_step_branch (hfull set) (by rw [opcodeAt_withOpcode]; exact hj) hset
  rw [takes_iff run, takes_iff run']
  simp [BranchCondition.holds, withOpcode]

/-- The second displacement undoes the first and both lengths. -/
theorem PC_branch_back {t : CPU6502} {i j : Instruction} {c d : BranchCondition}
    (find : isa.find (opcodeAt cpu) = some i) (hi : i.name.branchCondition = some c)
    (hc : c.holds cpu.P) (run : ((step isa).run cpu).state = t)
    (find' : isa.find (opcodeAt t) = some j) (hj : j.name.branchCondition = some d)
    (hd : d.holds t.P) (hback : (operandByte t).toInt = -((operandByte cpu).toInt + 4)) :
    ((step isa).run t).state.PC = cpu.PC := by
  obtain ⟨_, hstep⟩ := run_step_branch hs find hi
  rw [hstep, hc] at run
  obtain rfl : relativeBranch cpu true = t := run
  have hfull : maxMemory ≤ (relativeBranch cpu true).memory.size := hs
  obtain ⟨_, hstep'⟩ := run_step_branch hfull find' hj
  rw [hstep', hd]
  have hfirst : ((relativeBranch cpu true).PC.toNat : ℤ) =
      (cpu.PC.toNat + 2 + (operandByte cpu).toInt) % 0x10000 := toNat_relativeTarget cpu
  have hsecond := toNat_relativeTarget (relativeBranch cpu true)
  have hlt := cpu.PC.isLt
  change relativeTarget (relativeBranch cpu true) = cpu.PC
  apply BitVec.eq_of_toNat_eq
  omega

end Flag

/-- The nine branches: where each leads, that exactly one of each pair is taken, and
that a branch back is the inverse of a branch. -/
theorem branch_law (isa : CPU6502ISA) (cpu : CPU6502) (hs : maxMemory ≤ cpu.memory.size) :
    (∀ instruction condition, isa.find (opcodeAt cpu) = some instruction →
      instruction.name.branchCondition = some condition →
        ∃ t events, (step isa).run cpu = ⟨.ok (branchErr (condition.holds cpu.P)), t, events⟩ ∧
          Branched 2 cpu t (operandByte cpu) (condition.holds cpu.P)) ∧
    (∀ clear set flag, (clear, set, flag) ∈ complementaryBranches →
      (Takes isa (withOpcode cpu clear) ↔ ¬Takes isa (withOpcode cpu set))) ∧
    ∀ i c t j d, isa.find (opcodeAt cpu) = some i → i.name.branchCondition = some c →
      c.holds cpu.P → ((step isa).run cpu).state = t →
      isa.find (opcodeAt t) = some j → j.name.branchCondition = some d → d.holds t.P →
      (operandByte t).toInt = -((operandByte cpu).toInt + 4) →
        ((step isa).run t).state.PC = cpu.PC := by
  refine ⟨fun instruction condition find hc => ?_, fun clear set flag h => ?_, ?_⟩
  · obtain ⟨events, run⟩ := run_step_branch hs find hc
    exact ⟨_, events, run, branched_relativeBranch cpu _⟩
  · exact takes_complementary hs h
  · intro i c t j d find hi hc run find' hj hd hback
    exact PC_branch_back hs find hi hc run find' hj hd hback

/-- `BRA` forth to address four, and there `BRA` back. -/
def branchesForth : CPU6502 :=
  CPU6502.initial (.ofProgram [0x80, 0x02, 0xEA, 0xEA, 0x80, 0xFA]) false

theorem branch_law_branchesForth :
    (∃ t events, (step isa).run branchesForth = ⟨.ok .okPCModified, t, events⟩ ∧
      Branched 2 branchesForth t 0x02 true) ∧
      ((step isa).run ((step isa).run branchesForth).state).state.PC = 0 := by
  obtain ⟨hlaw, -, hback⟩ := branch_law isa branchesForth le_rfl
  exact ⟨hlaw ⟨.bra, .pcRelative, .bra⟩ .always rfl rfl,
    hback ⟨.bra, .pcRelative, .bra⟩ .always _ ⟨.bra, .pcRelative, .bra⟩ .always rfl rfl rfl rfl
      rfl rfl rfl (by decide)⟩

/-! ## The branches on a bit -/

/-- The number of the bit and the value it should have. -/
def Mnemonic.branchBit : Mnemonic → Option (ℕ × Bool)
  | .bbr n => some (n, false)
  | .bbs n => some (n, true)
  | _ => none

/-- The bit of the byte at the target that a body looks at: `BBSx` always takes bit 0. -/
def InstructionBody.branchBit : InstructionBody → Option (ℕ × Bool)
  | .bbrx n => some (n, false)
  | .bbsx _ => some (0, true)
  | _ => none

def testedBit (bit : ℕ) (wanted : Bool) : ℕ := if wanted then 0 else bit

theorem branchBit_of_mem {opcode : Byte} {instruction : Instruction}
    (h : (opcode, instruction) ∈ isaEntries) {bit : ℕ} {wanted : Bool}
    (hb : instruction.name.branchBit = some (bit, wanted)) :
    instruction.mode = .pcRelative ∧
      instruction.execute.branchBit = some (testedBit bit wanted, wanted) := by
  have hall : ∀ e ∈ isaEntries, e.2.name.branchBit.isSome → e.2.mode = .pcRelative ∧
      e.2.execute.branchBit = e.2.name.branchBit.map fun b => (testedBit b.1 b.2, b.2) := by
    decide +kernel
  obtain ⟨hmode, hbody⟩ := hall _ h (by rw [hb]; rfl)
  rw [hb] at hbody
  exact ⟨hmode, hbody⟩

theorem run_branchBit {body : InstructionBody} {bit : ℕ} {wanted : Bool}
    (h : body.branchBit = some (bit, wanted)) (a : Address) {cpu : CPU6502}
    (hs : maxMemory ≤ cpu.memory.size) :
    (body.execute a).run cpu = ⟨.ok (branchErr (isBitSet (cpu.memory.byteAt a) bit == wanted)),
      branchTo cpu (isBitSet (cpu.memory.byteAt a) bit == wanted) a, [.read a.toNat]⟩ := by
  cases body <;>
    simp only [InstructionBody.branchBit, reduceCtorEq, Option.some.injEq, Prod.mk.injEq] at h <;>
    obtain ⟨rfl, rfl⟩ := h <;> simp [InstructionBody.execute, hs]

/-- Whether the code branches: it asks for the bit of the byte it would branch to. -/
def branchesAtTarget (cpu : CPU6502) (bit : ℕ) (wanted : Bool) : Bool :=
  isBitSet (cpu.memory.byteAt (relativeTarget cpu)) (testedBit bit wanted) == wanted

/-- Whether the instruction should branch: the bit is one of the cell that the first
operand byte names. -/
def branchesAtOperand (cpu : CPU6502) (bit : ℕ) (wanted : Bool) : Bool :=
  (cpu.memory.byteAt (.ofByte (operandByte cpu))).getLsbD bit == wanted

/-- The second operand byte. -/
def secondOperand (cpu : CPU6502) : Byte := cpu.memory.byteAt (cpu.PC + 2)

/-- When the two come out at the same address: the displacement that is taken, if any,
makes up for the third byte. -/
def BitBranchFits (cpu : CPU6502) (bit : ℕ) (wanted : Bool) : Prop :=
  (if branchesAtTarget cpu bit wanted then (operandByte cpu).toInt else 0) =
    (if branchesAtOperand cpu bit wanted then (secondOperand cpu).toInt else 0) + 1

instance (cpu : CPU6502) (bit : ℕ) (wanted : Bool) : Decidable (BitBranchFits cpu bit wanted) :=
  inferInstanceAs (Decidable (_ = _))

/-- `BBR0` to `BBR7`. -/
def bbrOpcode (bit : Fin 8) : Byte := 0x0F + 0x10 * BitVec.ofFin ⟨bit, by omega⟩

/-- `BBS0` to `BBS7`. -/
def bbsOpcode (bit : Fin 8) : Byte := 0x8F + 0x10 * BitVec.ofFin ⟨bit, by omega⟩

theorem find_bbr (isa : CPU6502ISA) (bit : Fin 8) :
    isa.find (bbrOpcode bit) = some ⟨.bbr bit, .pcRelative, .bbrx bit⟩ := by
  have hall : ∀ bit : Fin 8, (isaEntries.filter fun e => e.1 == bbrOpcode bit) =
      [(bbrOpcode bit, ⟨.bbr bit, .pcRelative, .bbrx bit⟩)] := by decide +kernel
  exact isa.find_eq (hall bit)

theorem find_bbs (isa : CPU6502ISA) (bit : Fin 8) :
    isa.find (bbsOpcode bit) = some ⟨.bbs bit, .pcRelative, .bbsx bit⟩ := by
  have hall : ∀ bit : Fin 8, (isaEntries.filter fun e => e.1 == bbsOpcode bit) =
      [(bbsOpcode bit, ⟨.bbs bit, .pcRelative, .bbsx bit⟩)] := by decide +kernel
  exact isa.find_eq (hall bit)

section Bit
variable {isa : CPU6502ISA} {cpu : CPU6502} (hs : maxMemory ≤ cpu.memory.size)
include hs

theorem run_step_branchBit {instruction : Instruction} {bit : ℕ} {wanted : Bool}
    (find : isa.find (opcodeAt cpu) = some instruction)
    (hb : instruction.name.branchBit = some (bit, wanted)) :
    ∃ events, (step isa).run cpu = ⟨.ok (branchErr (branchesAtTarget cpu bit wanted)),
      relativeBranch cpu (branchesAtTarget cpu bit wanted), events⟩ := by
  obtain ⟨hmode, hbody⟩ := branchBit_of_mem (isa.find_mem find) hb
  obtain ⟨name, mode, body⟩ := instruction
  obtain rfl : mode = .pcRelative := hmode
  exact run_step_relative hs find (run_branchBit hbody _ hs)

end Bit

/-- Two addresses in signed reach of each other are compared by their displacements. -/
theorem branched_relativeBranch_iff (cpu : CPU6502) (taken taken' : Bool) (d : Byte) :
    Branched 3 cpu (relativeBranch cpu taken) d taken' ↔
      (if taken then (operandByte cpu).toInt else 0) = (if taken' then d.toInt else 0) + 1 := by
  have htarget := (branched_relativeBranch cpu taken).target
  have hlow := (operandByte cpu).le_toInt
  have hhigh := (operandByte cpu).toInt_lt
  have hlow' := d.le_toInt
  have hhigh' := d.toInt_lt
  have hiff : Branched 3 cpu (relativeBranch cpu taken) d taken' ↔
      ((relativeBranch cpu taken).PC.toNat : ℤ) =
        (cpu.PC.toNat + (3 : ℕ) + if taken' then d.toInt else 0) % 0x10000 :=
    ⟨Branched.target, fun h => ⟨rfl, h⟩⟩
  rw [hiff, htarget]
  cases taken <;> cases taken' <;> simp only [if_true, Bool.false_eq_true, if_false] <;> omega

/-- A branch on a bit does what it should exactly when the two displacements differ by
one; and of a pair with the same operands exactly one branches when bit `n` of the
byte at the target, as the one finds it, is bit 0 as the other finds it. -/
theorem branch_on_bit_law (isa : CPU6502ISA) (cpu : CPU6502) (hs : maxMemory ≤ cpu.memory.size) :
    (∀ instruction bit wanted, isa.find (opcodeAt cpu) = some instruction →
      instruction.name.branchBit = some (bit, wanted) →
        (Branched 3 cpu ((step isa).run cpu).state (secondOperand cpu)
          (branchesAtOperand cpu bit wanted) ↔ BitBranchFits cpu bit wanted)) ∧
    ∀ bit : Fin 8,
      (Takes isa (withOpcode cpu (bbrOpcode bit)) ↔ ¬Takes isa (withOpcode cpu (bbsOpcode bit))) ↔
        isBitSet ((withOpcode cpu (bbrOpcode bit)).memory.byteAt (relativeTarget cpu)) bit =
          isBitSet ((withOpcode cpu (bbsOpcode bit)).memory.byteAt (relativeTarget cpu)) 0 := by
  constructor
  · intro instruction bit wanted find hb
    obtain ⟨events, run⟩ := run_step_branchBit hs find hb
    rw [run]
    exact branched_relativeBranch_iff cpu _ _ _
  · intro bit
    have hfull (opcode : Byte) : maxMemory ≤ (withOpcode cpu opcode).memory.size := hs
    have find : isa.find (opcodeAt (withOpcode cpu (bbrOpcode bit))) =
        some ⟨.bbr bit, .pcRelative, .bbrx bit⟩ := by
      rw [opcodeAt_withOpcode]
      exact find_bbr isa bit
    have find' : isa.find (opcodeAt (withOpcode cpu (bbsOpcode bit))) =
        some ⟨.bbs bit, .pcRelative, .bbsx bit⟩ := by
      rw [opcodeAt_withOpcode]
      exact find_bbs isa bit
    obtain ⟨events, run⟩ := run_step_branchBit (hfull (bbrOpcode bit)) find rfl
    obtain ⟨later, run'⟩ := run_step_branchBit (hfull (bbsOpcode bit)) find' rfl
    have htarget (opcode : Byte) : relativeTarget (withOpcode cpu opcode) = relativeTarget cpu := by
      rw [relativeTarget, operandByte_withOpcode]
      rfl
    rw [takes_iff run, takes_iff run', branchesAtTarget, branchesAtTarget, htarget, htarget]
    simp only [testedBit, Bool.false_eq_true, if_false, if_true]
    cases isBitSet ((withOpcode cpu (bbrOpcode bit)).memory.byteAt (relativeTarget cpu)) bit <;>
      cases isBitSet ((withOpcode cpu (bbsOpcode bit)).memory.byteAt (relativeTarget cpu)) 0 <;>
        simp

/-- `BBR0` with a first operand byte of one, which leads behind the third byte. -/
def branchesByOne : CPU6502 := CPU6502.initial (.ofProgram [0x0F, 0x01, 0x00]) false

theorem branch_on_bit_law_branchesByOne :
    Branched 3 branchesByOne ((step isa).run branchesByOne).state 0x00 false :=
  ((branch_on_bit_law isa branchesByOne le_rfl).1 ⟨.bbr 0, .pcRelative, .bbrx 0⟩ 0 false rfl
    rfl).mpr (by decide +kernel)

/-- `BBR0 $10,+$20` with a clear bit in the cell. -/
def branchesOnClear : CPU6502 := CPU6502.initial (.ofProgram [0x0F, 0x10, 0x20]) false

theorem branchesOnClear_misses_target :
    ¬∀ cpu : CPU6502, maxMemory ≤ cpu.memory.size → ∀ instruction,
      isa.find (opcodeAt cpu) = some instruction → ∀ bit wanted,
        instruction.name.branchBit = some (bit, wanted) →
          Branched 3 cpu ((step isa).run cpu).state (secondOperand cpu)
            (branchesAtOperand cpu bit wanted) := by
  intro h
  have hlaw := h branchesOnClear le_rfl ⟨.bbr 0, .pcRelative, .bbrx 0⟩ rfl 0 false rfl
  have hPC : ((step isa).run branchesOnClear).state.PC = 0x12 := by decide +kernel
  have htarget := hlaw.target
  rw [hPC] at htarget
  revert htarget
  decide +kernel

end Sim6502
