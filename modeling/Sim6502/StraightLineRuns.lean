import Sim6502.ExecuteLoop
import Sim6502.MemoryFrame
import Sim6502.RunLoops

/-!
# Straight-line programs over a full memory

The guard of `execute` compares a counter of 16 bits with the size of the memory.
Over a full memory it always holds: a program without jumps runs past the last byte,
its counter wraps, and the loop goes on at the start of the memory.
-/
namespace Sim6502
open EventComputation CPU6502

/-- The step executes a known instruction that neither sets `PC` nor stops. -/
def FallsThrough (isa : CPU6502ISA) (s : CPU6502) : Prop :=
  ∃ instruction err t later, isa.find (opcodeAt s) = some instruction ∧
    (step isa).run s = ⟨.ok err, t, later⟩ ∧ err ≠ .okPCModified ∧ err ≠ .stop

/-- From here on every step falls through. -/
def StraightLine (isa : CPU6502ISA) (cpu : CPU6502) : Prop :=
  ∀ n events s, Routine.Iterates (step isa) n cpu events s → FallsThrough isa s

/-- The instruction at `PC` has its successor in the memory. -/
def BeforeEnd (isa : CPU6502ISA) (s : CPU6502) : Prop :=
  ∀ instruction, isa.find (opcodeAt s) = some instruction →
    s.PC.toNat + instruction.bytes < maxMemory

/-- Every step falls through up to the one that runs past the last address. -/
def StraightToEnd (isa : CPU6502ISA) (cpu : CPU6502) : Prop :=
  ∀ n events s, Routine.Iterates (step isa) n cpu events s →
    Routine.StepsFrom (step isa) n cpu (BeforeEnd isa) → FallsThrough isa s

theorem StraightLine.straightToEnd {isa : CPU6502ISA} {cpu : CPU6502}
    (straight : StraightLine isa cpu) : StraightToEnd isa cpu :=
  fun n events s h _ => straight n events s h

/-- The step from `s` runs past the last address and comes out at `t`. -/
def PassesEnd (isa : CPU6502ISA) (s t : CPU6502) : Prop :=
  ∃ instruction err events, isa.find (opcodeAt s) = some instruction ∧
    (step isa).run s = ⟨.ok err, t, events⟩ ∧
    t.PC.toNat + maxMemory = s.PC.toNat + instruction.bytes

/-- A body that does not say it set `PC` has not set it. -/
theorem PC_execute (body : InstructionBody) (a : Address) {cpu : CPU6502}
    (hs : maxMemory ≤ cpu.memory.size)
    (h : ((body.execute a).run cpu).result ≠ .ok .okPCModified) :
    ((body.execute a).run cpu).state.PC = cpu.PC := by
  revert h
  cases body <;> simp +contextual [InstructionBody.execute, hs, branchErr, branchTo]

section FallsThrough
variable {isa : CPU6502ISA} {cpu t : CPU6502} {err : InstructionErr} {events : List Event}

/-- A step that sets no `PC` moves it behind the instruction. -/
theorem PC_step (hs : maxMemory ≤ cpu.memory.size) {instruction : Instruction}
    (find : isa.find (opcodeAt cpu) = some instruction)
    (run : (step isa).run cpu = ⟨.ok err, t, events⟩) (h : err ≠ .okPCModified) :
    t.PC = cpu.PC + BitVec.ofNat 16 instruction.bytes := by
  rcases step_of_find hs find with ⟨err', u, later, -, hbody, hstep⟩ | ⟨-, -, hstep⟩
  · rw [run] at hstep
    simp only [Outcome.mk.injEq, Except.ok.injEq] at hstep
    obtain ⟨rfl, rfl, -⟩ := hstep
    have hPC := PC_execute instruction.execute (effectiveAddress 0 cpu instruction.mode) hs
      (by rw [hbody]; simpa using h)
    rw [hbody] at hPC
    simp only at hPC
    rw [advance, if_neg h, hPC]
  · rw [run] at hstep
    cases hstep

theorem StraightLine.tail (straight : StraightLine isa cpu)
    (run : (step isa).run cpu = ⟨.ok err, t, events⟩) : StraightLine isa t :=
  fun n later s h => straight (n + 1) (events ++ later) s (.step run h)

theorem StraightToEnd.tail (straight : StraightToEnd isa cpu) (hbefore : BeforeEnd isa cpu)
    (run : (step isa).run cpu = ⟨.ok err, t, events⟩) : StraightToEnd isa t := by
  intro n later s h hsteps
  refine straight (n + 1) (events ++ later) s (.step run h) (.cons hbefore ?_)
  intro err' u w run'
  obtain ⟨-, rfl, -⟩ := Outcome.mk.inj (run.symm.trans run')
  exact hsteps

/-- The distance to the end of the memory bounds the steps to it. -/
theorem StraightToEnd.exists_passesEnd (straight : StraightToEnd isa cpu)
    (hs : maxMemory ≤ cpu.memory.size) :
    ∃ n events s passing t, n + cpu.PC.toNat < maxMemory ∧ Continues isa n cpu events s ∧
      Continues isa 1 s passing t ∧ PassesEnd isa s t := by
  induction hd : maxMemory - cpu.PC.toNat using Nat.strong_induction_on generalizing cpu with
  | _ distance ih =>
    obtain ⟨instruction, err, t, events, find, run, hmodified, hstop⟩ :=
      straight 0 [] cpu (.refl cpu) (.zero cpu _)
    have hlt := cpu.PC.isLt
    have hpos := bytes_pos instruction
    have hle := bytes_le_three instruction
    have hguard := cpu.memory.lt_size hs cpu.PC
    have hPC : t.PC.toNat = (cpu.PC.toNat + instruction.bytes) % 2 ^ 16 := by
      rw [PC_step hs find run hmodified, BitVec.toNat_add, BitVec.toNat_ofNat, Nat.add_mod_mod]
    by_cases hend : cpu.PC.toNat + instruction.bytes < maxMemory
    · have hPC' : t.PC.toNat = cpu.PC.toNat + instruction.bytes := by
        rw [hPC]
        exact Nat.mod_eq_of_lt hend
      have hbefore : BeforeEnd isa cpu := by
        intro instruction' find'
        obtain rfl := Option.some.inj (find.symm.trans find')
        exact hend
      obtain ⟨n, later, s, passing, u, hn, hrun, hlast, hpass⟩ :=
        ih (maxMemory - t.PC.toNat) (by omega) (straight.tail hbefore run) (full_step hs run) rfl
      exact ⟨n + 1, _, s, passing, u, by omega, .next hguard run hstop hrun, hlast, hpass⟩
    · refine ⟨0, [], cpu, _, t, by unfold maxMemory; omega, .refl cpu,
        .next hguard run hstop (.refl t), instruction, err, events, find, run, ?_⟩
      unfold maxMemory at *
      omega

/-- No iteration ends the loop. -/
theorem StraightLine.continues (straight : StraightLine isa cpu)
    (hs : maxMemory ≤ cpu.memory.size) (n : ℕ) : ∃ t events, Continues isa n cpu events t := by
  induction n generalizing cpu with
  | zero => exact ⟨cpu, [], .refl cpu⟩
  | succ n ih =>
    obtain ⟨instruction, err, t, events, find, run, -, hstop⟩ := straight 0 [] cpu (.refl cpu)
    obtain ⟨u, later, hrest⟩ := ih (straight.tail run) (full_step hs run)
    exact ⟨u, _, .next (cpu.memory.lt_size hs cpu.PC) run hstop hrest⟩

end FallsThrough

/-- Over a memory of 64K the loop does not return from a straight-line program at the end of
the memory: within the memory's length it passes the last byte, wraps to its start, and goes on
there. If the program is straight from there on too, the loop never returns. -/
theorem straight_line_never_ends (isa : CPU6502ISA) (cpu : CPU6502)
    (hs : cpu.memory.size = maxMemory) (straight : StraightToEnd isa cpu) :
    (∃ n < maxMemory, ∃ before s events t, Continues isa n cpu before s ∧ PassesEnd isa s t ∧
      Continues isa (n + 1) cpu events t ∧ t.PC.toNat < t.memory.size ∧
      ∀ m, (execute isa (m + (n + 1))).run cpu = ((execute isa m).run t).after events) ∧
    (StraightLine isa cpu → ¬ExecuteReturns isa cpu ∧
      ∀ n, ∃ t events, Continues isa n cpu events t ∧
        (execute isa n).run cpu = ⟨.ok false, t, events⟩) := by
  constructor
  · obtain ⟨n, before, s, passing, t, hn, hrun, hlast, hpass⟩ := straight.exists_passesEnd hs.ge
    have hwhole := hrun.trans hlast
    rw [Nat.add_comm] at hwhole
    have hfull := full_iterates hs.ge hwhole.iterates
    exact ⟨n, by omega, before, s, _, t, hrun, hpass, hwhole, t.memory.lt_size hfull t.PC,
      hwhole.run_execute⟩
  · intro hline
    have hgoes := hline.continues hs.ge
    refine ⟨?_, fun n => ?_⟩
    · rintro ⟨n, h⟩
      obtain ⟨t, events, hrun⟩ := hgoes n
      rw [hrun.running] at h
      cases h
    · obtain ⟨t, events, hrun⟩ := hgoes n
      exact ⟨t, events, hrun, hrun.running⟩

/-- A memory of `NOP`s. -/
def allNops : CPU6502 := CPU6502.initial ⟨maxMemory, fun _ => 0xEA, defaultOutputAddress⟩ false

theorem find_nop (isa : CPU6502ISA) : isa.find 0xEA = some ⟨.nop, .implied, .nop⟩ :=
  isa.find_eq rfl

theorem straightLine_allNops (isa : CPU6502ISA) : StraightLine isa allNops := by
  intro n events s run
  have find {u : CPU6502} (hu : u.memory = allNops.memory) :
      isa.find (opcodeAt u) = some ⟨.nop, .implied, .nop⟩ := by
    rw [opcodeAt, hu]
    exact find_nop isa
  have hstep {u : CPU6502} (hu : u.memory = allNops.memory) :=
    run_step_of_find (hu ▸ le_rfl) (find hu) (pointerInside_of_ne u (by simp))
      (Execute.run_nop u (effectiveAddress 0 u .implied))
  have hmemory : s.memory = allNops.memory := by
    refine run.invariant (I := fun u => u.memory = allNops.memory) ?_ rfl
    intro u v err later hu hrun
    rw [hstep hu] at hrun
    obtain ⟨-, rfl, -⟩ := Outcome.mk.inj hrun
    rw [memory_advance, hu]
  exact ⟨_, _, _, _, find hmemory, hstep hmemory, by simp, by simp⟩

theorem straight_line_never_ends_allNops :
    (∃ n < maxMemory, ∃ before s t, Continues isa n allNops before s ∧ PassesEnd isa s t) ∧
      ¬ExecuteReturns isa allNops := by
  have straight := straightLine_allNops isa
  obtain ⟨⟨n, hn, before, s, -, t, hrun, hpass, -⟩, hnever⟩ :=
    straight_line_never_ends isa allNops rfl straight.straightToEnd
  exact ⟨⟨n, hn, before, s, t, hrun, hpass⟩, (hnever straight).1⟩

theorem allNops_runs_past_the_end :
    ¬∀ cpu : CPU6502, cpu.memory.size = maxMemory → StraightLine isa cpu →
      ∃ n ≤ maxMemory, ((execute isa (n + 1)).run cpu).result = .ok true := by
  intro h
  obtain ⟨n, -, hreturns⟩ := h allNops rfl (straightLine_allNops isa)
  obtain ⟨t, events, hrun⟩ := (straightLine_allNops isa).continues le_rfl (n + 1)
  rw [hrun.running] at hreturns
  cases hreturns

end Sim6502
