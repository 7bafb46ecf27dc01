import Sim6502.Branches
import Sim6502.FlagDiscipline
import Sim6502.PrintLoop
import Sim6502.SavedRegisters
import Sim6502.TimedTriples

/-!
# Loops that count an index register

Code that ends with `DEX`, `DEY`, `INX` or `INY` and a `BNE` back to its start is run as
often as the register takes to get to zero: 256 times when it is zero at the start. What the
code in front of the two instructions does is a parameter. The four counters differ in the
direction, and in what a register that wraps does to the carry.
-/
namespace Sim6502
open EventComputation CPU6502 TimedTriples WrappingStack

/-! ## The run loop as a machine -/

/-- An iteration of the loop of `execute` after which it goes on. -/
def Moves (isa : CPU6502ISA) (s t : CPU6502) : Prop :=
  s.PC.toNat < s.memory.size ∧
    ∃ err events, (step isa).run s = ⟨.ok err, t, events⟩ ∧ err ≠ .stop

theorem continues_of_reaches {isa : CPU6502ISA} {n : ℕ} {s t : CPU6502}
    (h : Reaches (Moves isa) n s t) : ∃ events, Continues isa n s events t := by
  induction h with
  | refl s => exact ⟨[], .refl s⟩
  | head first rest ih =>
    obtain ⟨guard, err, events, run, going⟩ := first
    obtain ⟨later, hrest⟩ := ih
    exact ⟨_, .next guard run going hrest⟩

/-- The step of an instruction whose body does not set `PC`. -/
theorem moves_of_ok {isa : CPU6502ISA} {s t : CPU6502} {instruction : Instruction}
    (hs : maxMemory ≤ s.memory.size) (find : isa.find (opcodeAt s) = some instruction)
    (hmode : instruction.mode ≠ .absoluteIndirect) {events : List Event}
    (run : (instruction.execute.execute (effectiveAddress 0 s instruction.mode)).run s =
      ⟨.ok .ok, t, events⟩) :
    Moves isa s { t with PC := t.PC + BitVec.ofNat 16 instruction.bytes } := by
  obtain ⟨later, hstep⟩ := run_step_of_ok hs find hmode run
  exact ⟨s.memory.lt_size hs s.PC, _, _, hstep, by simp⟩

/-! ## The counters -/

inductive Counter where
  | dex
  | dey
  | inx
  | iny
  deriving DecidableEq

namespace Counter

def opcode : Counter → Byte
  | dex => 0xCA
  | dey => 0x88
  | inx => 0xE8
  | iny => 0xC8

/-- The register that counts, and the other index register. -/
def read (cpu : CPU6502) : Counter → Byte
  | dex | inx => cpu.X
  | dey | iny => cpu.Y

def other (cpu : CPU6502) : Counter → Byte
  | dex | inx => cpu.Y
  | dey | iny => cpu.X

def next (v : Byte) : Counter → Byte
  | dex | dey => v - 1
  | inx | iny => v + 1

/-- What the register has come to after some rounds. -/
def after (v : Byte) (k : ℕ) : Counter → Byte
  | dex | dey => v - BitVec.ofNat 8 k
  | inx | iny => v + BitVec.ofNat 8 k

/-- The rounds it takes from a value to zero. -/
def rounds (v : Byte) : Counter → ℕ
  | dex | dey => if v = 0 then 256 else v.toNat
  | inx | iny => 256 - v.toNat

/-- The step sets the carry, which `DEX` never does. -/
def wraps (v : Byte) : Counter → Bool
  | dex => false
  | dey => v = 0
  | inx | iny => v = 0xFF

section Values
variable (c : Counter) (v : Byte)

theorem after_zero : c.after v 0 = v := by
  cases c <;> simp [after]

theorem after_succ (k : ℕ) : c.after v (k + 1) = c.next (c.after v k) := by
  cases c <;> simp only [after, next, BitVec.ofNat_add] <;> bv_omega

theorem rounds_pos : 0 < c.rounds v := by
  have hlt := v.isLt
  cases c <;> simp only [rounds]
  case dex | dey =>
    split
    · decide
    · next hne => exact Nat.pos_of_ne_zero fun h => hne (BitVec.eq_of_toNat_eq h)
  case inx | iny => omega

theorem rounds_le : c.rounds v ≤ 256 := by
  have hlt := v.isLt
  cases c <;> simp only [rounds]
  case dex | dey => split <;> omega
  case inx | iny => omega

theorem after_eq_zero_iff {k : ℕ} (hpos : 0 < k) (hk : k ≤ c.rounds v) :
    c.after v k = 0 ↔ k = c.rounds v := by
  have hlt := v.isLt
  have hle := c.rounds_le v
  rw [← BitVec.toNat_inj]
  cases c <;>
    simp only [rounds, after, BitVec.toNat_sub, BitVec.toNat_add, BitVec.toNat_ofNat,
      ← BitVec.toNat_inj] at hk hle ⊢ <;>
    simp only [BitVec.reduceToNat] at hk hle ⊢
  case dex | dey => split at hk <;> split <;> omega
  case inx | iny => omega

theorem after_rounds : c.after v (c.rounds v) = 0 :=
  (c.after_eq_zero_iff v (c.rounds_pos v) le_rfl).mpr rfl

/-- No value comes twice. -/
theorem after_injOn {j k : ℕ} (hj : j < c.rounds v) (hk : k < c.rounds v)
    (h : c.after v j = c.after v k) : j = k := by
  have hle := c.rounds_le v
  have hnat := congrArg BitVec.toNat h
  have hlt := v.isLt
  cases c <;>
    simp only [after, BitVec.toNat_sub, BitVec.toNat_add, BitVec.toNat_ofNat] at hnat <;> omega

end Values

end Counter

/-! ## The end of the loop -/

/-- Everything that counting leaves as it is. `PC` is not in it. -/
structure Counted (c : Counter) (s t : CPU6502) : Prop where
  count : c.read t = c.next (c.read s)
  other : c.other t = c.other s
  A : t.A = s.A
  S : t.S = s.S
  memory : t.memory = s.memory
  flags : ∀ bit ∉ [PsrBit.zero, .negative],
    (bit = .carry → c.wraps (c.read s) = false) → t.P.stored bit = s.P.stored bit

/-- At `PC` the register is counted, and a branch leads back to the start. -/
structure ClosesLoop (c : Counter) (start : Address) (s : CPU6502) : Prop where
  full : maxMemory ≤ s.memory.size
  counter : opcodeAt s = c.opcode
  branch : s.memory.byteAt (s.PC + 1) = 0xD0
  target : s.PC + 3 + (s.memory.byteAt (s.PC + 2)).signExtend 16 = start

section Closing
variable {isa : CPU6502ISA} {c : Counter} {s : CPU6502} {start : Address}

theorem zero_updateFlags (P : PSR) (v : Byte) : (P.updateFlags v).getBit .zero = (v == 0) := by
  rw [PSR.updateFlags, PSR.getBit_setBit_of_ne _ (by simp), PSR.getBit_setBit_self _ (by simp)]
  rfl

/-- Flags of a counter step that may set the carry. -/
theorem stored_counted (P : PSR) (v : Byte) {carry : Bool} {bit : PsrBit}
    (hbit : bit ∉ [PsrBit.zero, .negative]) (h : bit = .carry → carry = false) :
    ((P.wrapCarry carry).updateFlags v).stored bit = P.stored bit := by
  rw [List.mem_pair, not_or] at hbit
  rw [PSR.stored_updateFlags_frame _ hbit.1 hbit.2]
  cases carry with
  | false => rfl
  | true =>
    rw [PSR.wrapCarry, if_pos rfl]
    exact PSR.stored_setBit_of_ne _ (fun heq => absurd (h heq.symm) (by simp)) _

theorem carry_inc {v : Byte} (h : c.wraps v = false) (hc : c = .inx ∨ c = .iny) :
    (byteAddInt v 1).carry = false := by
  have hne : v ≠ 0xFF := by
    rcases hc with rfl | rfl <;> exact of_decide_eq_false h
  rw [byteAddInt_carry]
  apply decide_eq_false
  bv_omega

theorem carry_dey {v : Byte} (h : Counter.dey.wraps v = false) :
    (byteSubInt v 1).carry = false := by
  have hne : v ≠ 0 := of_decide_eq_false h
  rw [byteSubInt_carry]
  apply decide_eq_false
  bv_omega

theorem run_step_counter (hs : maxMemory ≤ s.memory.size) (hop : opcodeAt s = c.opcode) :
    ∃ t events, (step isa).run s = ⟨.ok .ok, t, events⟩ ∧ Counted c s t ∧ t.PC = s.PC + 1 ∧
      t.P.getBit .zero = (c.next (c.read s) == 0) := by
  cases c with
  | dex =>
    have find : isa.find (opcodeAt s) = some ⟨.dex, .implied, .dex⟩ :=
      hop ▸ find_of_mem isa (by decide +kernel) (by decide)
    obtain ⟨events, run⟩ := run_step_of_ok hs find (by simp) (Execute.run_dex s _)
    refine ⟨_, events, run, ⟨rfl, rfl, rfl, rfl, rfl, fun bit hbit _ => ?_⟩, rfl,
      zero_updateFlags _ _⟩
    rw [List.mem_pair, not_or] at hbit
    exact PSR.stored_updateFlags_frame s.P hbit.1 hbit.2 _
  | dey =>
    have find : isa.find (opcodeAt s) = some ⟨.dey, .implied, .dey⟩ :=
      hop ▸ find_of_mem isa (by decide +kernel) (by decide)
    obtain ⟨events, run⟩ := run_step_of_ok hs find (by simp) (Execute.run_dey s _)
    refine ⟨_, events, run, ⟨rfl, rfl, rfl, rfl, rfl, fun bit hbit hkept => ?_⟩, rfl,
      zero_updateFlags _ _⟩
    exact stored_counted s.P _ hbit fun h => carry_dey (hkept h)
  | iny =>
    have find : isa.find (opcodeAt s) = some ⟨.iny, .implied, .iny⟩ :=
      hop ▸ find_of_mem isa (by decide +kernel) (by decide)
    obtain ⟨events, run⟩ := run_step_of_ok hs find (by simp) (Execute.run_iny s _)
    refine ⟨_, events, run, ⟨rfl, rfl, rfl, rfl, rfl, fun bit hbit hkept => ?_⟩, rfl,
      zero_updateFlags _ _⟩
    exact stored_counted s.P _ hbit fun h => carry_inc (hkept h) (.inr rfl)
  | inx =>
    -- the list has two entries of this opcode
    have hopcode : (0xE8 : Byte) = opcodeAt s := hop.symm
    rcases find_inx isa with find | find <;> rw [hopcode] at find
    · obtain ⟨events, run⟩ := run_step_of_ok hs find (by simp) (Execute.run_inx s _)
      refine ⟨_, events, run, ⟨rfl, rfl, rfl, rfl, rfl, fun bit hbit hkept => ?_⟩, rfl,
        zero_updateFlags _ _⟩
      exact stored_counted s.P _ hbit fun h => carry_inc (hkept h) (.inl rfl)
    · obtain ⟨events, run⟩ := run_step_of_ok hs find (by simp)
        (Execute.run_inxRepeated s (effectiveAddress 0 s .implied))
      refine ⟨_, events, run, ⟨rfl, rfl, rfl, rfl, rfl, fun bit hbit _ => ?_⟩, rfl,
        zero_updateFlags _ _⟩
      rw [List.mem_pair, not_or] at hbit
      exact PSR.stored_updateFlags_frame s.P hbit.1 hbit.2 _

/-- The two instructions at the end of a round. -/
theorem reaches_end (h : ClosesLoop c start s) :
    ∃ t, Reaches (Moves isa) 2 s t ∧ Counted c s t ∧
      t.PC = if c.next (c.read s) = 0 then s.PC + 3 else start := by
  obtain ⟨u, events, hfirst, hcounted, hPC, hzero⟩ := run_step_counter h.full h.counter
  have hfull : maxMemory ≤ u.memory.size := by
    rw [hcounted.memory]
    exact h.full
  have hnext : u.PC + 1 = s.PC + 2 := by
    rw [hPC, BitVec.add_assoc]
    rfl
  have hbranch : opcodeAt u = 0xD0 := by
    rw [opcodeAt, hPC, hcounted.memory, h.branch]
  have find : isa.find (opcodeAt u) = some ⟨.bne, .pcRelative, .bne⟩ :=
    hbranch ▸ find_of_mem isa (by decide +kernel) (by decide)
  obtain ⟨later, hsecond⟩ := run_step_branch hfull find rfl
  have htaken : (BranchCondition.on .zero false).holds u.P = !(c.next (c.read s) == 0) := by
    rw [BranchCondition.holds, hzero]
    cases c.next (c.read s) == 0 <;> rfl
  rw [htaken] at hsecond
  have hgoing : branchErr (!(c.next (c.read s) == 0)) ≠ .stop := by
    cases c.next (c.read s) == 0 <;> simp [branchErr]
  have hfirst' : Moves isa s u := ⟨s.memory.lt_size h.full s.PC, _, _, hfirst, by simp⟩
  have hsecond' : Moves isa u (relativeBranch u (!(c.next (c.read s) == 0))) :=
    ⟨u.memory.lt_size hfull u.PC, _, _, hsecond, hgoing⟩
  refine ⟨_, .head hfirst' (.one hsecond'), ?_, ?_⟩
  · obtain ⟨hcount, hother, hA, hS, hmemory, hflags⟩ := hcounted
    have hread (v : CPU6502) (hX : v.X = u.X) (hY : v.Y = u.Y) :
        c.read v = c.read u ∧ c.other v = c.other u := by
      cases c <;> exact ⟨by assumption, by assumption⟩
    obtain ⟨hcount', hother'⟩ := hread (relativeBranch u (!(c.next (c.read s) == 0))) rfl rfl
    exact ⟨hcount'.trans hcount, hother'.trans hother, hA, hS, hmemory, hflags⟩
  · have htarget : relativeTarget u = start := by
      have hbase : u.PC + 2 = s.PC + 3 := by
        rw [hPC, BitVec.add_assoc]
        rfl
      rw [relativeTarget, operandByte, hnext, hbase, hcounted.memory, h.target]
    rw [relativeBranch]
    by_cases hend : c.next (c.read s) = 0
    · rw [if_pos hend, hend]
      change u.PC + 2 = s.PC + 3
      rw [hPC, BitVec.add_assoc]
      rfl
    · have hne : (c.next (c.read s) == 0) = false := by simpa using hend
      simp only [if_neg hend, hne, Bool.not_false, if_true]
      exact htarget

end Closing

/-! ## The loop -/

/-- A loop is run as often as its register takes to get to zero, whatever it does apart from
counting: `I k` holds before the round `k` and `J k` when its code is through. -/
theorem counted_rounds (isa : CPU6502ISA) (c : Counter) (start stop : Address) (v : Byte)
    (cost : ℕ → ℕ) (I J : ℕ → CPU6502 → Prop)
    (body : ∀ k < c.rounds v, Triple (Moves isa) (cost k)
      (fun s => s.PC = start ∧ c.read s = c.after v k ∧ I k s)
      (fun s => s.PC = stop ∧ c.read s = c.after v k ∧ ClosesLoop c start s ∧ J k s))
    (count : ∀ k < c.rounds v, ∀ s t, J k s → Counted c s t → I (k + 1) t) :
    Triple (Moves isa) (∑ k ∈ Finset.range (c.rounds v), (cost k + 2))
      (fun s => s.PC = start ∧ c.read s = v ∧ I 0 s)
      (fun s => s.PC = stop + 3 ∧ c.read s = 0 ∧ I (c.rounds v) s) := by
  have hpos := c.rounds_pos v
  have again (k : ℕ) (hk : k + 1 < c.rounds v) : Triple (Moves isa) 2
      (fun s => s.PC = stop ∧ c.read s = c.after v k ∧ ClosesLoop c start s ∧ J k s)
      (fun s => s.PC = start ∧ c.read s = c.after v (k + 1) ∧ I (k + 1) s) := by
    rintro s ⟨-, hread, hcloses, hJ⟩
    obtain ⟨t, hrun, hcounted, hPC⟩ := reaches_end hcloses
    have hnext : c.next (c.read s) = c.after v (k + 1) := by rw [hread, c.after_succ]
    have hne : c.after v (k + 1) ≠ 0 := fun h =>
      absurd ((c.after_eq_zero_iff v (Nat.succ_pos k) hk.le).mp h) hk.ne
    rw [hnext, if_neg hne] at hPC
    exact ⟨t, hrun, hPC, hcounted.count.trans hnext, count k (by omega) s t hJ hcounted⟩
  have leave : Triple (Moves isa) 2
      (fun s => s.PC = stop ∧ c.read s = c.after v (c.rounds v - 1) ∧ ClosesLoop c start s ∧
        J (c.rounds v - 1) s)
      (fun s => s.PC = stop + 3 ∧ c.read s = 0 ∧ I (c.rounds v) s) := by
    rintro s ⟨hstop, hread, hcloses, hJ⟩
    obtain ⟨t, hrun, hcounted, hPC⟩ := reaches_end hcloses
    have hlast : c.rounds v - 1 + 1 = c.rounds v := by omega
    have hnext : c.next (c.read s) = 0 := by
      rw [hread, ← c.after_succ, hlast, c.after_rounds]
    rw [hnext, if_pos rfl, hstop] at hPC
    have hI := count _ (by omega) s t hJ hcounted
    rw [hlast] at hI
    exact ⟨t, hrun, hPC, hcounted.count.trans hnext, hI⟩
  refine (Triple.doWhile hpos body again leave).conseq (fun s hs => ?_) fun s hs => hs
  obtain ⟨hPC, hread, hI⟩ := hs
  exact ⟨hPC, hread.trans (c.after_zero v).symm, hI⟩

end Sim6502
