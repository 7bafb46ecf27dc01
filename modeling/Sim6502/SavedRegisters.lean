import Sim6502.NestedCalls

/-!
# Saving and restoring registers

Pushes of registers in any order, with repeats, followed by the matching pulls in the
reverse order, with or without other steps in between. The pushes leave the values on
the stack from the last one up, and each pull finds the value of its own push, wherever
`S` and `PC` wrap.
-/
namespace Sim6502
open EventComputation CPU6502 WrappingStack

/-- The registers that can be pushed and pulled. -/
inductive SavedRegister where
  | A | X | Y | P
  deriving DecidableEq

namespace SavedRegister

/-- `PHA`, `PHX`, `PHY` and `PHP`. -/
def pushOpcode : SavedRegister → Byte
  | .A => 0x48
  | .X => 0xDA
  | .Y => 0x5A
  | .P => 0x08

/-- `PLA`, `PLX`, `PLY` and `PLP`. -/
def pullOpcode : SavedRegister → Byte
  | .A => 0x68
  | .X => 0xFA
  | .Y => 0x7A
  | .P => 0x28

def push : SavedRegister → Instruction
  | .A => ⟨.pha, .stack, .pha⟩
  | .X => ⟨.phx, .stack, .phx⟩
  | .Y => ⟨.phy, .stack, .phy⟩
  | .P => ⟨.php, .stack, .php⟩

def pull : SavedRegister → Instruction
  | .A => ⟨.pla, .stack, .pla⟩
  | .X => ⟨.plx, .stack, .plx⟩
  | .Y => ⟨.ply, .stack, .ply⟩
  | .P => ⟨.plp, .stack, .plp⟩

/-- The byte that is pushed; the status register goes there with `B` set. -/
def saved (cpu : CPU6502) : SavedRegister → Byte
  | .A => cpu.A
  | .X => cpu.X
  | .Y => cpu.Y
  | .P => (cpu.P.setBit .breakCommand true).get

/-- The byte the register holds. -/
def value (cpu : CPU6502) : SavedRegister → Byte
  | .A => cpu.A
  | .X => cpu.X
  | .Y => cpu.Y
  | .P => cpu.P.get

/-- The register is in `t` what it was in `s`, where of the status register all bits
but `B` count. -/
def Restored (s t : CPU6502) : SavedRegister → Prop
  | .A => t.A = s.A
  | .X => t.X = s.X
  | .Y => t.Y = s.Y
  | .P => ∀ bit, bit ≠ .breakCommand → t.P.stored bit = s.P.stored bit

variable {s t : CPU6502} {register : SavedRegister}

theorem restored_of_saved (h : register.value t = register.saved s) : register.Restored s t := by
  cases register with
  | A => exact h
  | X => exact h
  | Y => exact h
  | P =>
    intro bit hbit
    have hstored : t.P.stored bit = (s.P.setBit .breakCommand true).stored bit :=
      congrArg (fun byte => byte.getLsbD bit.index) h
    rw [hstored, PSR.stored_setBit_of_ne _ (Ne.symm hbit)]

theorem restored_of_value (h : register.value t = register.value s) : register.Restored s t := by
  cases register with
  | A => exact h
  | X => exact h
  | Y => exact h
  | P => exact fun bit _ => congrArg (fun byte => byte.getLsbD bit.index) h

/-- The state in which the register has taken a byte from the stack. -/
def pulled (cpu : CPU6502) : SavedRegister → CPU6502
  | .A => { cpu.popped with A := cpu.top }
  | .X => { cpu.popped with X := cpu.top }
  | .Y => { cpu.popped with Y := cpu.top }
  | .P => { cpu.popped with P := .ofByte cpu.top }

end SavedRegister

open SavedRegister

/-! ## One step -/

section Step
variable (isa : CPU6502ISA) {cpu : CPU6502} {register : SavedRegister}

theorem find_push (h : opcodeAt cpu = register.pushOpcode) :
    isa.find (opcodeAt cpu) = some register.push := by
  rw [h]
  cases register <;> exact isa.find_eq rfl

theorem find_pull (h : opcodeAt cpu = register.pullOpcode) :
    isa.find (opcodeAt cpu) = some register.pull := by
  rw [h]
  cases register <;> exact isa.find_eq rfl

variable (hs : maxMemory ≤ cpu.memory.size)
include hs

theorem run_push (register : SavedRegister) (a : Address) :
    (register.push.execute.execute a).run cpu =
      ⟨.ok .ok, cpu.pushed (register.saved cpu), cpu.pushEvents (register.saved cpu)⟩ := by
  cases register <;> simp [SavedRegister.push, SavedRegister.saved, InstructionBody.execute, hs]

theorem run_pull (register : SavedRegister) (a : Address) :
    (register.pull.execute.execute a).run cpu =
      ⟨.ok .ok, register.pulled cpu, cpu.popEvents⟩ := by
  cases register <;> simp [SavedRegister.pull, SavedRegister.pulled, InstructionBody.execute, hs]

theorem step_push (opcode : opcodeAt cpu = register.pushOpcode) :
    ∃ events, (step isa).run cpu =
      ⟨.ok .ok, { cpu.pushed (register.saved cpu) with PC := cpu.PC + 1 }, events⟩ := by
  have hmode : register.push.mode = .stack := by cases register <;> rfl
  have hbytes : register.push.bytes = 1 := by rw [Instruction.bytes, hmode]; rfl
  obtain ⟨events, hstep⟩ := run_step_of_ok hs (find_push isa opcode) (by simp [hmode])
    (run_push hs register _)
  rw [hbytes] at hstep
  exact ⟨events, hstep⟩

theorem step_pull (opcode : opcodeAt cpu = register.pullOpcode) :
    ∃ events, (step isa).run cpu =
      ⟨.ok .ok, { register.pulled cpu with PC := cpu.PC + 1 }, events⟩ := by
  have hmode : register.pull.mode = .stack := by cases register <;> rfl
  have hbytes : register.pull.bytes = 1 := by rw [Instruction.bytes, hmode]; rfl
  have hPC : (register.pulled cpu).PC = cpu.PC := by cases register <;> rfl
  obtain ⟨events, hstep⟩ := run_step_of_ok hs (find_pull isa opcode) (by simp [hmode])
    (run_pull hs register _)
  rw [hbytes, hPC] at hstep
  exact ⟨events, hstep⟩

end Step

/-! ## The pushes -/

/-- The cells that `n` pushes write. -/
def PushedCell (cpu : CPU6502) (n : ℕ) (index : ℕ) : Prop :=
  Live stackIndex (cpu.S - BitVec.ofNat 8 n) n index

/-- The state behind the pushes of some registers, the last of the list first. -/
def afterPushes (cpu : CPU6502) (registers : List SavedRegister) : CPU6502 :=
  { pushBytes cpu (registers.map (saved cpu)) with
    PC := cpu.PC + BitVec.ofNat 16 registers.length }

section Pushes
variable (cpu : CPU6502) (bytes : List Byte)

theorem S_pushBytes_eq : (pushBytes cpu bytes).S = cpu.S - BitVec.ofNat 8 bytes.length := by
  rw [← S_pushBytes cpu bytes, BitVec.add_sub_cancel]

/-- Pushes change no register but `S`. -/
theorem saved_pushBytes (register : SavedRegister) :
    register.saved (pushBytes cpu bytes) = register.saved cpu := by
  induction bytes with
  | nil => rfl
  | cons v bytes ih =>
    rw [← ih]
    cases register <;> rfl

theorem value_pushBytes (register : SavedRegister) :
    register.value (pushBytes cpu bytes) = register.value cpu := by
  induction bytes with
  | nil => rfl
  | cons v bytes ih =>
    rw [← ih]
    cases register <;> rfl

/-- The cell of each push is one of the pushed cells, so all others stay. -/
theorem cell_pushBytes {index : ℕ} (h : ¬PushedCell cpu bytes.length index) :
    (pushBytes cpu bytes).memory.cell index = cpu.memory.cell index := by
  rw [PushedCell, ← S_pushBytes_eq] at h
  induction bytes with
  | nil => rfl
  | cons v bytes ih =>
    rw [pushBytes, S_pushed] at h
    have hcell : index ≠ stackIndex ((pushBytes cpu bytes).S - 1) := by
      intro heq
      exact h (heq ▸ live_head _ _)
    have hrest := ih fun hlive => h (Live.succ (by rwa [BitVec.sub_add_cancel]))
    rw [← hrest]
    exact GPMemory.cell_updated_of_ne _ hcell v

end Pushes

theorem PushedCell.succ {cpu : CPU6502} {n index : ℕ} (h : PushedCell cpu n index) :
    PushedCell cpu (n + 1) index := by
  apply Live.succ
  rw [BitVec.ofNat_add, ← BitVec.sub_sub]
  rwa [show (BitVec.ofNat 8 1) = 1 by rfl, BitVec.sub_add_cancel]

/-- Opcodes that stand from an address on. -/
abbrev CodeAt (memory : GPMemory) : Address → List Byte → Prop := Holds BitVec.toNat memory.cell

/-- The pushes one after the other; the last one of the list comes first. -/
theorem iterates_pushes (isa : CPU6502ISA) (cpu : CPU6502) (registers : List SavedRegister)
    (later : List Byte) (hs : maxMemory ≤ cpu.memory.size)
    (code : CodeAt cpu.memory cpu.PC (registers.reverse.map pushOpcode ++ later))
    (apart : ∀ index, Live BitVec.toNat cpu.PC registers.length index →
      ¬PushedCell cpu registers.length index) :
    ∃ events, Routine.Iterates (step isa) registers.length cpu events
      (afterPushes cpu registers) := by
  induction registers generalizing later with
  | nil =>
    have hsame : afterPushes cpu [] = cpu := by simp [afterPushes, pushBytes]
    rw [hsame]
    exact ⟨[], .refl cpu⟩
  | cons register registers ih =>
    rw [List.reverse_cons, List.map_append, List.append_assoc] at code
    have hlive {index : ℕ} (h : Live BitVec.toNat cpu.PC registers.length index) :
        Live BitVec.toNat cpu.PC (registers.length + 1) index := by
      obtain ⟨i, hi, rfl⟩ := h
      exact ⟨i, Nat.lt_succ_of_lt hi, rfl⟩
    obtain ⟨events, run⟩ := ih _ code fun index h hpushed => apart index (hlive h) hpushed.succ
    -- the opcode of the last push has not been written to
    have hopcode : opcodeAt (afterPushes cpu registers) = register.pushOpcode := by
      obtain ⟨-, hlast⟩ := holds_append.mp code
      rw [List.length_map, List.length_reverse] at hlast
      have hcell : ¬PushedCell cpu (registers.map (saved cpu)).length
          (cpu.PC + BitVec.ofNat 16 registers.length).toNat := by
        rw [List.length_map]
        exact fun h => apart _ ⟨registers.length, Nat.lt_succ_self _, rfl⟩ h.succ
      exact (cell_pushBytes cpu _ hcell).trans hlast.1
    have hsize : maxMemory ≤ (afterPushes cpu registers).memory.size := full_iterates hs run
    obtain ⟨last, hstep⟩ := step_push isa hsize hopcode
    have hsaved : register.saved (afterPushes cpu registers) = register.saved cpu := by
      rw [← saved_pushBytes cpu (registers.map (saved cpu)) register]
      cases register <;> rfl
    rw [hsaved] at hstep
    have hend : afterPushes cpu (register :: registers) =
        { (afterPushes cpu registers).pushed (register.saved cpu) with
          PC := (afterPushes cpu registers).PC + 1 } := by
      have hPC : cpu.PC + BitVec.ofNat 16 (registers.length + 1) =
          cpu.PC + BitVec.ofNat 16 registers.length + 1 := by
        rw [BitVec.ofNat_add, ← BitVec.add_assoc]
        rfl
      rw [afterPushes, List.length_cons, hPC]
      rfl
    rw [hend]
    exact ⟨_, run.trans (.step hstep (.refl _))⟩

/-! ## The pulls -/

/-- What pulls of some registers leave, the first of the list first. -/
structure Pulled (s u v : CPU6502) (registers : List SavedRegister) : Prop where
  S : v.S = u.S + BitVec.ofNat 8 registers.length
  PC : v.PC = u.PC + BitVec.ofNat 16 registers.length
  memory : v.memory = u.memory
  saved : ∀ register ∈ registers, register.value v = register.saved s
  kept : ∀ register ∉ registers, register.value v = register.value u

section Pulls
variable {s u v : CPU6502} {register : SavedRegister} {registers : List SavedRegister}

theorem value_pulled : register.value (register.pulled u) = u.top := by
  cases register <;> rfl

theorem value_pulled_of_ne {other : SavedRegister} (h : other ≠ register) :
    other.value (register.pulled u) = other.value u := by
  cases register <;> cases other <;> first | rfl | exact absurd rfl h

/-- One pull before the others. -/
theorem Pulled.cons {t : CPU6502} (htop : u.top = register.saved s)
    (ht : t = { register.pulled u with PC := u.PC + 1 }) (h : Pulled s t v registers) :
    Pulled s u v (register :: registers) := by
  have hvalue (other : SavedRegister) : other.value t = other.value (register.pulled u) := by
    rw [ht]
    cases other <;> rfl
  refine ⟨?_, ?_, ?_, ?_, ?_⟩
  · have hS : t.S = u.S + 1 := by
      rw [ht]
      cases register <;> rfl
    rw [h.S, hS, List.length_cons, BitVec.ofNat_add, BitVec.add_comm (BitVec.ofNat 8 _),
      ← BitVec.add_assoc]
    rfl
  · have hPC : t.PC = u.PC + 1 := by rw [ht]
    rw [h.PC, hPC, List.length_cons, BitVec.ofNat_add, BitVec.add_comm (BitVec.ofNat 16 _),
      ← BitVec.add_assoc]
    rfl
  · rw [h.memory, ht]
    cases register <;> rfl
  · intro other hother
    by_cases hrest : other ∈ registers
    · exact h.saved other hrest
    · obtain rfl : other = register := by simpa [hrest] using hother
      rw [h.kept other hrest, hvalue, value_pulled, htop]
  · intro other hother
    rw [List.mem_cons, not_or] at hother
    rw [h.kept other hother.2, hvalue, value_pulled_of_ne hother.1]

end Pulls

/-- The pulls one after the other find the values that were pushed. -/
theorem iterates_pulls (isa : CPU6502ISA) (s u : CPU6502) (registers : List SavedRegister)
    (hs : maxMemory ≤ u.memory.size) (code : CodeAt u.memory u.PC (registers.map pullOpcode))
    (holds : Holds stackIndex u.memory.cell u.S (registers.map (saved s))) :
    ∃ events v, Routine.Iterates (step isa) registers.length u events v ∧
      Pulled s u v registers := by
  induction registers generalizing u with
  | nil =>
    refine ⟨[], u, .refl u, by simp, by simp, rfl, ?_, fun _ _ => rfl⟩
    intro register h
    exact absurd h List.not_mem_nil
  | cons register registers ih =>
    obtain ⟨hopcode, hcode⟩ := code
    obtain ⟨htop, hholds⟩ := holds
    obtain ⟨events, run⟩ := step_pull isa hs hopcode
    have hmemory : (register.pulled u).memory = u.memory := by cases register <;> rfl
    have hS : (register.pulled u).S = u.S + 1 := by cases register <;> rfl
    obtain ⟨later, v, hrest, hpulled⟩ := ih { register.pulled u with PC := u.PC + 1 }
      (by simpa only [hmemory] using hs) (by simpa only [hmemory] using hcode)
      (by simpa only [hmemory, hS] using hholds)
    exact ⟨_, v, .step run hrest, hpulled.cons htop rfl⟩

/-! ## The pushes and the pulls -/

/-- Code at `PC` none of whose cells is written by `n` pushes. -/
structure CodeApart (cpu : CPU6502) (n : ℕ) (opcodes : List Byte) : Prop where
  code : CodeAt cpu.memory cpu.PC opcodes
  apart : ∀ index, Live BitVec.toNat cpu.PC opcodes.length index → ¬PushedCell cpu n index

section Restore
variable {cpu u : CPU6502} {registers : List SavedRegister}

theorem CodeApart.iterates_pushes (isa : CPU6502ISA) {later : List Byte}
    (hs : maxMemory ≤ cpu.memory.size)
    (h : CodeApart cpu registers.length (registers.map pushOpcode ++ later)) :
    ∃ events, Routine.Iterates (step isa) registers.length cpu events
      (afterPushes cpu registers.reverse) := by
  have code := h.code
  rw [← List.reverse_reverse registers] at code
  have hrun := Sim6502.iterates_pushes isa cpu registers.reverse later hs code
  rw [List.length_reverse] at hrun
  refine hrun fun index hlive => h.apart index ?_
  obtain ⟨i, hi, rfl⟩ := hlive
  exact ⟨i, by simp only [List.length_append, List.length_map]; omega, rfl⟩

theorem S_afterPushes :
    (afterPushes cpu registers.reverse).S = cpu.S - BitVec.ofNat 8 registers.length := by
  have h := S_pushBytes_eq cpu (registers.reverse.map (saved cpu))
  rwa [List.length_map, List.length_reverse] at h

theorem PC_afterPushes :
    (afterPushes cpu registers.reverse).PC = cpu.PC + BitVec.ofNat 16 registers.length := by
  rw [afterPushes, List.length_reverse]

theorem cell_afterPushes {index : ℕ} (h : ¬PushedCell cpu registers.length index) :
    (afterPushes cpu registers.reverse).memory.cell index = cpu.memory.cell index :=
  cell_pushBytes cpu _ (by rwa [List.length_map, List.length_reverse])

theorem value_afterPushes (register : SavedRegister) :
    register.value (afterPushes cpu registers.reverse) = register.value cpu := by
  rw [← value_pushBytes cpu (registers.reverse.map (saved cpu)) register]
  cases register <;> rfl

/-- The pulls from any state that has `S` and the pushed cells as the pushes left them. -/
theorem pulls_restore (isa : CPU6502ISA) (hs : maxMemory ≤ u.memory.size)
    (hlen : registers.length ≤ 256) (hS : u.S = (afterPushes cpu registers.reverse).S)
    (hcell : ∀ index, PushedCell cpu registers.length index →
      u.memory.cell index = (afterPushes cpu registers.reverse).memory.cell index)
    (code : CodeAt u.memory u.PC (registers.reverse.map pullOpcode)) :
    ∃ events v, Routine.Iterates (step isa) registers.length u events v ∧
      Pulled cpu u v registers.reverse ∧ v.S = cpu.S := by
  have hpushed : Holds stackIndex (afterPushes cpu registers.reverse).memory.cell
      (afterPushes cpu registers.reverse).S (registers.reverse.map (saved cpu)) := by
    have hnone : Holds stackIndex cpu.memory.cell cpu.S [] := trivial
    have hbytes := holds_pushBytes cpu (registers.reverse.map (saved cpu)) hnone
    simp only [List.append_nil, List.length_map, List.length_reverse] at hbytes
    exact hbytes hlen
  have hholds : Holds stackIndex u.memory.cell u.S (registers.reverse.map (saved cpu)) := by
    rw [hS]
    refine hpushed.congr fun index hlive => hcell index ?_
    rwa [S_afterPushes, List.length_map, List.length_reverse] at hlive
  obtain ⟨events, v, hrun, hpulled⟩ := iterates_pulls isa cpu u registers.reverse hs code hholds
  rw [List.length_reverse] at hrun
  refine ⟨events, v, hrun, hpulled, ?_⟩
  rw [hpulled.S, hS, S_afterPushes, List.length_reverse, BitVec.sub_add_cancel]

end Restore

/-- Pushes and the matching pulls in reverse order. Right behind each other they restore
every register, whether the list saves it or not. With any steps in between that come
back to the same `S`, leave the pushed cells and end at the code of the pulls, they
restore what the list saves. -/
theorem save_restore (isa : CPU6502ISA) (cpu : CPU6502) (registers : List SavedRegister)
    (hs : maxMemory ≤ cpu.memory.size) (hlen : registers.length ≤ 256) :
    (CodeApart cpu registers.length
        (registers.map pushOpcode ++ registers.reverse.map pullOpcode) →
      ∃ events v, Routine.Iterates (step isa) (2 * registers.length) cpu events v ∧
        (∀ register : SavedRegister, register.Restored cpu v) ∧ v.S = cpu.S ∧
        v.PC = cpu.PC + BitVec.ofNat 16 (2 * registers.length) ∧
        ∀ index, ¬PushedCell cpu registers.length index →
          v.memory.cell index = cpu.memory.cell index) ∧
    (CodeApart cpu registers.length (registers.map pushOpcode) →
      ∃ events t, Routine.Iterates (step isa) registers.length cpu events t ∧
        (∀ register : SavedRegister, register.Restored cpu t) ∧
        t.S = cpu.S - BitVec.ofNat 8 registers.length ∧
        t.PC = cpu.PC + BitVec.ofNat 16 registers.length ∧
        (∀ index, ¬PushedCell cpu registers.length index →
          t.memory.cell index = cpu.memory.cell index) ∧
        ∀ m between u, Routine.Iterates (step isa) m t between u → u.S = t.S →
          (∀ index, PushedCell cpu registers.length index →
            u.memory.cell index = t.memory.cell index) →
          CodeAt u.memory u.PC (registers.reverse.map pullOpcode) →
          ∃ later v, Routine.Iterates (step isa) registers.length u later v ∧
            (∀ register ∈ registers, register.Restored cpu v) ∧ v.S = cpu.S ∧
            v.PC = u.PC + BitVec.ofNat 16 registers.length ∧ v.memory = u.memory) := by
  constructor
  · intro h
    obtain ⟨events, hpush⟩ := h.iterates_pushes isa hs
    have hcode : CodeAt (afterPushes cpu registers.reverse).memory
        (afterPushes cpu registers.reverse).PC (registers.reverse.map pullOpcode) := by
      have hafter := (holds_append.mp
        (h.code.congr fun index hlive => cell_afterPushes (h.apart index hlive))).2
      rwa [List.length_map, ← PC_afterPushes] at hafter
    obtain ⟨later, v, hpull, hpulled, hS⟩ :=
      pulls_restore isa (full_iterates hs hpush) hlen rfl (fun _ _ => rfl) hcode
    refine ⟨_, v, Nat.two_mul _ ▸ hpush.trans hpull, fun register => ?_, hS, ?_, ?_⟩
    · by_cases hmem : register ∈ registers.reverse
      · exact restored_of_saved (hpulled.saved register hmem)
      · exact restored_of_value ((hpulled.kept register hmem).trans (value_afterPushes register))
    · rw [hpulled.PC, PC_afterPushes, List.length_reverse, BitVec.add_assoc,
        ← BitVec.ofNat_add, Nat.two_mul]
    · intro index hindex
      rw [hpulled.memory, cell_afterPushes hindex]
  · intro h
    rw [← List.append_nil (registers.map pushOpcode)] at h
    obtain ⟨events, hpush⟩ := h.iterates_pushes isa hs
    refine ⟨events, _, hpush, fun register => restored_of_value (value_afterPushes register),
      S_afterPushes, PC_afterPushes, fun index => cell_afterPushes, ?_⟩
    intro m between u hbetween hS hcell hcode
    obtain ⟨later, v, hpull, hpulled, hback⟩ := pulls_restore isa
      (full_iterates (full_iterates hs hpush) hbetween) hlen hS hcell hcode
    refine ⟨later, v, hpull, fun register hmem => ?_, hback, ?_, hpulled.memory⟩
    · exact restored_of_saved (hpulled.saved register (List.mem_reverse.mpr hmem))
    · rw [hpulled.PC, List.length_reverse]

/-- `PHP`, `PHA`, `LDA #$00`, `PLA`, `PLP` with `S` in front of its wrap. -/
def savesRegisters : CPU6502 :=
  { CPU6502.initial (.ofProgram [0x08, 0x48, 0xA9, 0x00, 0x68, 0x28]) false with
    A := 0x5A, S := 0x00, P := ⟨0xC3⟩ }

theorem save_restore_savesRegisters :
    ∃ t u v between later, Routine.Iterates (step isa) 1 t between u ∧ u.A = 0 ∧
      Routine.Iterates (step isa) 2 u later v ∧ v.A = 0x5A ∧ v.S = 0x00 ∧
      v.P.stored .carry = true := by
  have h : CodeApart savesRegisters 2 [0x08, 0x48] := by
    refine ⟨⟨rfl, rfl, trivial⟩, ?_⟩
    rintro index ⟨i, hi, rfl⟩ ⟨j, hj, heq⟩
    change i < 2 at hi
    interval_cases i <;> interval_cases j <;> revert heq <;> decide
  obtain ⟨-, hbetween⟩ := save_restore isa savesRegisters [.P, .A] le_rfl (by decide)
  obtain ⟨events, t, hpush, -, -, -, -, hpull⟩ := hbetween h
  have ht : t = ((step isa).run ((step isa).run savesRegisters).state).state := by
    cases hpush with
    | step hphp hrest =>
      cases hrest with
      | step hpha hend =>
        cases hend
        rw [hphp, hpha]
  obtain ⟨between, hload⟩ :
      ∃ between, Routine.Iterates (step isa) 1 t between ((step isa).run t).state := by
    rw [ht]
    exact ⟨_, .step rfl (.refl _)⟩
  have hframe : ((step isa).run t).state.S = t.S ∧
      ((step isa).run t).state.memory.cell = t.memory.cell ∧
      CodeAt ((step isa).run t).state.memory ((step isa).run t).state.PC [0x68, 0x28] := by
    rw [ht]
    exact ⟨rfl, rfl, rfl, rfl, trivial⟩
  obtain ⟨later, v, hrun, hrestored, hS, -⟩ :=
    hpull 1 _ _ hload hframe.1 (fun index _ => congrFun hframe.2.1 index) hframe.2.2
  refine ⟨t, _, v, between, later, hload, by rw [ht]; rfl, hrun, hrestored .A (by decide), hS, ?_⟩
  exact hrestored .P (by decide) .carry (by decide)

end Sim6502
