import Sim6502.FlagDiscipline
import Sim6502.MemoryFrame

/-!
# Bits 4 and 5 of the status register over runs

No instruction writes bit 5 except by pulling a whole status byte, and none but
`BRK` writes bit 4. Both bits therefore depend, over every run, on the bytes that
`PLP` and `RTI` take from the stack as they are.
-/
namespace Sim6502
open EventComputation CPU6502

/-! ## The opcodes that move the status byte -/

def ExecutesPhp (cpu : CPU6502) : Prop := opcodeAt cpu = 0x08
def ExecutesBrk (cpu : CPU6502) : Prop := opcodeAt cpu = 0x00

/-- `PLP` and `RTI`. -/
def PullsStatus (cpu : CPU6502) : Prop := opcodeAt cpu = 0x28 ∨ opcodeAt cpu = 0x40

instance (cpu : CPU6502) : Decidable (ExecutesPhp cpu) := inferInstanceAs (Decidable (_ = _))
instance (cpu : CPU6502) : Decidable (ExecutesBrk cpu) := inferInstanceAs (Decidable (_ = _))
instance (cpu : CPU6502) : Decidable (PullsStatus cpu) := inferInstanceAs (Decidable (_ ∨ _))

section Find
variable (isa : CPU6502ISA) {cpu : CPU6502}

theorem find_brk (h : opcodeAt cpu = 0x00) :
    isa.find (opcodeAt cpu) = some ⟨.brk, .stack, .brk⟩ := by
  rw [h]; exact isa.find_eq rfl

theorem find_php (h : opcodeAt cpu = 0x08) :
    isa.find (opcodeAt cpu) = some ⟨.php, .stack, .php⟩ := by
  rw [h]; exact isa.find_eq rfl

theorem find_plp (h : opcodeAt cpu = 0x28) :
    isa.find (opcodeAt cpu) = some ⟨.plp, .stack, .plp⟩ := by
  rw [h]; exact isa.find_eq rfl

theorem find_rti (h : opcodeAt cpu = 0x40) :
    isa.find (opcodeAt cpu) = some ⟨.rti, .stack, .rti⟩ := by
  rw [h]; exact isa.find_eq rfl

end Find

theorem rawBits_of_mem {opcode : Byte} {instruction : Instruction}
    (h : (opcode, instruction) ∈ isaEntries) (hp : ¬(opcode = 0x28 ∨ opcode = 0x40)) :
    PsrBit.unused ∉ instruction.execute.flagsWritten ∧
      (opcode ≠ 0x00 → PsrBit.breakCommand ∉ instruction.execute.flagsWritten) := by
  have hall : ∀ e ∈ isaEntries, ¬(e.1 = 0x28 ∨ e.1 = 0x40) →
      PsrBit.unused ∉ e.2.execute.flagsWritten ∧
        (e.1 ≠ 0x00 → PsrBit.breakCommand ∉ e.2.execute.flagsWritten) := by decide +kernel
  exact hall _ h hp

/-! ## One step -/

section Step
variable {isa : CPU6502ISA} {cpu t : CPU6502} {err : InstructionErr} {events : List Event}

/-- A pull of the status byte succeeds and takes the byte as it is. -/
theorem step_of_pullsStatus (isa : CPU6502ISA) (hs : maxMemory ≤ cpu.memory.size)
    (h : PullsStatus cpu) :
    ∃ err t events, (step isa).run cpu = ⟨.ok err, t, events⟩ ∧ t.P = .ofByte cpu.top := by
  rcases h with h | h
  · obtain ⟨earlier, run⟩ := run_step_stack hs (find_plp isa h)
      (Execute.run_plp cpu (.ofByte cpu.S) hs)
    exact ⟨_, _, _, run, by simp⟩
  · obtain ⟨earlier, run⟩ := run_step_stack hs (find_rti isa h)
      (Execute.run_rti cpu (.ofByte cpu.S) hs)
    exact ⟨_, _, _, run, by simp⟩

/-- What a pull that ended in a named state left there. -/
theorem P_of_pullsStatus (hs : maxMemory ≤ cpu.memory.size)
    (run : (step isa).run cpu = ⟨.ok err, t, events⟩) (h : PullsStatus cpu) :
    t.P = .ofByte cpu.top := by
  obtain ⟨_, _, _, run', hP⟩ := step_of_pullsStatus isa hs h
  obtain ⟨-, rfl, -⟩ := Outcome.mk.inj (run.symm.trans run')
  exact hP

theorem top_step_php (isa : CPU6502ISA) (hs : maxMemory ≤ cpu.memory.size) (h : ExecutesPhp cpu) :
    ((step isa).run cpu).state.top = (cpu.P.setBit .breakCommand true).get := by
  obtain ⟨earlier, run⟩ := run_step_stack hs (find_php isa h)
    (Execute.run_php cpu (.ofByte cpu.S) hs)
  rw [run]
  simp [top, GPMemory.byteAt_updated]

/-- `BRK` pushes the register before it sets the flag. -/
theorem top_step_brk (isa : CPU6502ISA) (hs : maxMemory ≤ cpu.memory.size) (h : ExecutesBrk cpu) :
    ((step isa).run cpu).state.top = cpu.P.get := by
  obtain ⟨earlier, run⟩ := run_step_stack hs (find_brk isa h)
    (Execute.run_brk cpu (.ofByte cpu.S) hs)
  rw [run]
  simp [top, Execute.brkPushed, GPMemory.byteAt_updated]

/-- A status byte that `BRK` pushes carries `B` as it was, so it is the byte of `PHP`
when `B` was set before. -/
theorem top_step_brk_iff (isa : CPU6502ISA) (hs : maxMemory ≤ cpu.memory.size)
    (h : ExecutesBrk cpu) :
    ((step isa).run cpu).state.top.getLsbD PsrBit.breakCommand.index =
        cpu.P.stored .breakCommand ∧
      (((step isa).run cpu).state.top = (cpu.P.setBit .breakCommand true).get ↔
        cpu.P.stored .breakCommand = true) := by
  rw [top_step_brk isa hs h]
  refine ⟨rfl, fun heq => ?_, fun hset => ?_⟩
  · have hstored := PSR.stored_setBit_self cpu.P (show PsrBit.breakCommand ≠ .unused by decide) true
    rwa [PSR.stored, ← heq] at hstored
  · have hsame := PSR.setBit_getBit cpu.P .breakCommand
    rw [PSR.getBit_eq_stored _ (by simp), hset] at hsame
    rw [hsame]

/-- Without a pull bit 5 stays, and without a `BRK` bit 4 stays as well. -/
theorem stored_step (hs : maxMemory ≤ cpu.memory.size)
    (run : (step isa).run cpu = ⟨.ok err, t, events⟩) (hp : ¬PullsStatus cpu) :
    t.P.stored .unused = cpu.P.stored .unused ∧
      (¬ExecutesBrk cpu → t.P.stored .breakCommand = cpu.P.stored .breakCommand) := by
  cases step_cases_of_run hs run with
  | unknown find => exact ⟨rfl, fun _ => rfl⟩
  | @executed instruction _ u later find inside hbody =>
    obtain ⟨hunused, hbreak⟩ := rawBits_of_mem (isa.find_mem find) hp
    have hkept (bit : PsrBit) (h : bit ∉ instruction.execute.flagsWritten) :=
      stored_execute instruction.execute (effectiveAddress 0 cpu instruction.mode) hs h
    rw [hbody] at hkept
    rw [P_advance]
    exact ⟨hkept _ hunused, fun hb => hkept _ (hbreak hb)⟩

/-- The invariant of bit 5: a step keeps it if the byte it may pull has the bit. -/
theorem unused_step (hs : maxMemory ≤ cpu.memory.size)
    (run : (step isa).run cpu = ⟨.ok err, t, events⟩)
    (hpull : PullsStatus cpu → cpu.top.getLsbD PsrBit.unused.index = true)
    (hset : cpu.P.stored .unused = true) : t.P.stored .unused = true := by
  by_cases h : PullsStatus cpu
  · rw [P_of_pullsStatus hs run h]
    exact hpull h
  · rw [(stored_step hs run h).1]
    exact hset

/-- The invariant of bit 4: a step other than `BRK` keeps it clear if the byte it may
pull has it clear. -/
theorem break_step (hs : maxMemory ≤ cpu.memory.size)
    (run : (step isa).run cpu = ⟨.ok err, t, events⟩) (hbrk : ¬ExecutesBrk cpu)
    (hpull : PullsStatus cpu → cpu.top.getLsbD PsrBit.breakCommand.index = false)
    (hclear : cpu.P.stored .breakCommand = false) : t.P.stored .breakCommand = false := by
  by_cases h : PullsStatus cpu
  · rw [P_of_pullsStatus hs run h]
    exact hpull h
  · rw [(stored_step hs run h).2 hbrk]
    exact hclear

end Step

/-- What a step pushes last has bit 4 set and is the byte `PHP` pushes in this state. -/
def PushesBreak (isa : CPU6502ISA) (cpu : CPU6502) : Prop :=
  ((step isa).run cpu).state.top.getLsbD PsrBit.breakCommand.index = true ∧
    ((step isa).run cpu).state.top = (cpu.P.setBit .breakCommand true).get

/-! ## Runs from the constructor -/

section Runs
variable (isa : CPU6502ISA) (memory : GPMemory) (hs : maxMemory ≤ memory.size) (debug : Bool)
  (n : ℕ)

private theorem size_construct (hs : maxMemory ≤ memory.size) :
    maxMemory ≤ (construct memory debug).state.memory.size := by
  rw [state_construct hs]
  exact hs

private theorem P_construct (hs : maxMemory ≤ memory.size) :
    (construct memory debug).state.P = .initial := by
  rw [state_construct hs]
  rfl

include hs

private theorem size_reached {u : CPU6502} {k : ℕ} {events : List Event}
    (h : Routine.Iterates (step isa) k (construct memory debug).state events u) :
    maxMemory ≤ u.memory.size := full_iterates (size_construct memory debug hs) h

/-- Bit 5 stays set, in the register and in every status byte pushed, exactly in the
runs that pull only status bytes in which it is set. -/
theorem bit_five_set :
    (Routine.StepsFrom (step isa) (n + 1) (construct memory debug).state
        (fun u => u.P.stored .unused = true) ∧
      Routine.StepsFrom (step isa) n (construct memory debug).state (fun u =>
        ExecutesPhp u ∨ ExecutesBrk u →
          ((step isa).run u).state.top.getLsbD PsrBit.unused.index = true)) ↔
      Routine.StepsFrom (step isa) n (construct memory debug).state (fun u =>
        PullsStatus u → u.top.getLsbD PsrBit.unused.index = true) := by
  constructor
  · rintro ⟨hset, -⟩ k hk events u hu hpull
    have hsize := size_reached isa memory hs debug hu
    obtain ⟨err, t, later, run, hP⟩ := step_of_pullsStatus isa hsize hpull
    have ht : t.P.stored .unused = true :=
      hset (k + 1) (Nat.succ_lt_succ hk) _ t (hu.trans (.step run (.refl t)))
    rwa [hP] at ht
  · intro hpulls
    have hset : Routine.StepsFrom (step isa) (n + 1) (construct memory debug).state
        (fun u => u.P.stored .unused = true) := by
      intro k hk events u hu
      have hinv := (hpulls.mono (Nat.le_of_lt_succ hk)).invariant
        (I := fun u => maxMemory ≤ u.memory.size ∧ u.P.stored .unused = true) hu
        (fun hI hpull run => ⟨full_step hI.1 run, unused_step hI.1 run hpull hI.2⟩)
        ⟨size_construct memory debug hs, by rw [P_construct memory debug hs]; decide⟩
      exact hinv.2
    refine ⟨hset, fun k hk events u hu hpush => ?_⟩
    have hu5 : u.P.stored .unused = true := hset k (Nat.lt_succ_of_lt hk) events u hu
    have hsize := size_reached isa memory hs debug hu
    rcases hpush with hphp | hbrk
    · rw [top_step_php isa hsize hphp]
      exact (PSR.stored_setBit_of_ne u.P (by simp) true).trans hu5
    · rw [top_step_brk isa hsize hbrk]
      exact hu5

/-- `B` is clear until the first `BRK` and set in what every `BRK` pushes exactly in the
runs that execute no `BRK` and pull only status bytes with the bit clear. -/
theorem break_discipline :
    (((∀ k ≤ n, ∀ events u,
          Routine.Iterates (step isa) k (construct memory debug).state events u →
          Routine.StepsFrom (step isa) k (construct memory debug).state
            (fun v => ¬ExecutesBrk v) →
          u.P.stored .breakCommand = false) ∧
        Routine.StepsFrom (step isa) n (construct memory debug).state (fun u =>
          ExecutesBrk u → PushesBreak isa u)) ↔
      Routine.StepsFrom (step isa) n (construct memory debug).state (fun u =>
        ¬ExecutesBrk u ∧
          (PullsStatus u → u.top.getLsbD PsrBit.breakCommand.index = false))) ∧
    ∀ u : CPU6502, maxMemory ≤ u.memory.size → ExecutesBrk u →
      (PushesBreak isa u ↔ u.P.stored .breakCommand = true) := by
  refine ⟨?_, fun u hu h => ?_⟩
  swap
  · obtain ⟨hbit, hbyte⟩ := top_step_brk_iff isa hu h
    rw [PushesBreak, hbit, hbyte, and_self]
  constructor
  · rintro ⟨hclear, hbrk⟩
    have hno : ∀ k ≤ n, Routine.StepsFrom (step isa) k (construct memory debug).state
        (fun v => ¬ExecutesBrk v) := by
      intro k
      induction k with
      | zero => exact fun _ => .zero _ _
      | succ k ih =>
        intro hk
        have hbefore := ih (Nat.le_of_succ_le hk)
        refine hbefore.snoc fun events u hu h => ?_
        -- the first `BRK` finds the bit clear and pushes it so
        have hu4 := hclear k (Nat.le_of_succ_le hk) events u hu hbefore
        have hpushed := (hbrk k hk events u hu h).1
        rw [(top_step_brk_iff isa (size_reached isa memory hs debug hu) h).1, hu4] at hpushed
        cases hpushed
    intro k hk events u hu
    have hnext := hno (k + 1) hk
    refine ⟨hnext k k.lt_succ_self events u hu, fun hpull => ?_⟩
    have hsize := size_reached isa memory hs debug hu
    obtain ⟨err, t, later, run, hP⟩ := step_of_pullsStatus isa hsize hpull
    have ht := hclear (k + 1) hk _ t (hu.trans (.step run (.refl t))) hnext
    rwa [hP] at ht
  · intro h
    refine ⟨fun k hk events u hu _ => ?_, fun k hk events u hu hb => ?_⟩
    · have hinv := (h.mono hk).invariant
        (I := fun u => maxMemory ≤ u.memory.size ∧ u.P.stored .breakCommand = false) hu
        (fun hI hstep run => ⟨full_step hI.1 run, break_step hI.1 run hstep.1 hstep.2 hI.2⟩)
        ⟨size_construct memory debug hs, by rw [P_construct memory debug hs]; decide⟩
      exact hinv.2
    · exact absurd hb (h k hk events u hu).1

end Runs

/-- `PHP`, `PLP`. -/
def pullsPushed : GPMemory := .ofProgram [0x08, 0x28]

/-- `LDA #$00`, `PHA`, `PLP`. -/
def pullsZero : GPMemory := .ofProgram [0xA9, 0x00, 0x48, 0x28]

theorem bit_five_set_pullsPushed :
    Routine.StepsFrom (step isa) 3 (construct pullsPushed false).state
        (fun u => u.P.stored .unused = true) ∧
      Routine.StepsFrom (step isa) 2 (construct pullsPushed false).state (fun u =>
        ExecutesPhp u ∨ ExecutesBrk u →
          ((step isa).run u).state.top.getLsbD PsrBit.unused.index = true) := by
  refine (bit_five_set isa pullsPushed le_rfl false 2).mpr ?_
  refine .cons (by decide +kernel) fun a t events run => .cons ?_ fun _ _ _ _ => .zero _ _
  obtain ⟨-, rfl, -⟩ := Outcome.mk.inj run
  decide +kernel

theorem break_discipline_pullsZero :
    ∃ u events, Routine.Iterates (step isa) 3 (construct pullsZero false).state events u ∧
      u.P.stored .breakCommand = false := by
  have hsteps : Routine.StepsFrom (step isa) 3 (construct pullsZero false).state (fun u =>
      ¬ExecutesBrk u ∧ (PullsStatus u → u.top.getLsbD PsrBit.breakCommand.index = false)) := by
    refine .cons (by decide +kernel) fun _ t _ load => ?_
    obtain ⟨-, rfl, -⟩ := Outcome.mk.inj load
    refine .cons (by decide +kernel) fun _ u _ push => ?_
    obtain ⟨-, rfl, -⟩ := Outcome.mk.inj push
    exact .cons (by decide +kernel) fun _ _ _ _ => .zero _ _
  obtain ⟨hclear, -⟩ := (break_discipline isa pullsZero le_rfl false 3).1.mpr hsteps
  have hrun : Routine.Iterates (step isa) 3 (construct pullsZero false).state _ _ :=
    .step rfl (.step rfl (.step rfl (.refl _)))
  exact ⟨_, _, hrun, hclear 3 le_rfl _ _ hrun fun k hk w u hu => (hsteps k hk w u hu).1⟩

theorem pullsZero_clears_bit_five :
    ¬∀ memory : GPMemory, maxMemory ≤ memory.size → ∀ debug n,
      Routine.StepsFrom (step isa) (n + 1) (construct memory debug).state
        (fun u => u.P.stored .unused = true) := by
  intro h
  have hrun : Routine.Iterates (step isa) 3 (construct pullsZero false).state _ _ :=
    .step rfl (.step rfl (.step rfl (.refl _)))
  have hset := h pullsZero le_rfl false 3 3 (by decide) _ _ hrun
  revert hset
  decide +kernel

/-- `BRK` at the start. -/
def breaksFirst : GPMemory := .ofProgram [0x00]

theorem break_discipline_fails :
    (¬∀ memory : GPMemory, maxMemory ≤ memory.size → ∀ debug n, ∀ k ≤ n, ∀ events u,
      Routine.Iterates (step isa) k (construct memory debug).state events u →
      Routine.StepsFrom (step isa) k (construct memory debug).state
        (fun v => ¬ExecutesBrk v) →
      u.P.stored .breakCommand = false) ∧
    ¬∀ memory : GPMemory, maxMemory ≤ memory.size → ∀ debug n,
      Routine.StepsFrom (step isa) n (construct memory debug).state
        (fun u => ExecutesBrk u → PushesBreak isa u) := by
  constructor
  · intro h
    have hrun : Routine.Iterates (step isa) 2 (construct pullsPushed false).state _ _ :=
      .step rfl (.step rfl (.refl _))
    have hno : Routine.StepsFrom (step isa) 2 (construct pullsPushed false).state
        (fun v => ¬ExecutesBrk v) := by
      refine .cons (by decide +kernel) fun a t events run => .cons ?_ fun _ _ _ _ => .zero _ _
      obtain ⟨-, rfl, -⟩ := Outcome.mk.inj run
      decide +kernel
    have hclear := h pullsPushed le_rfl false 2 2 le_rfl _ _ hrun hno
    revert hclear
    decide +kernel
  · intro h
    have hpushed := (h breaksFirst le_rfl false 1 0 Nat.one_pos _ _ (.refl _)
      (by decide +kernel)).1
    revert hpushed
    decide +kernel

end Sim6502
