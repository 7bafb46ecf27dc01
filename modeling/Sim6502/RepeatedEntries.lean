import Sim6502.FlagDiscipline

/-!
# Opcodes with more than one entry

Eight opcodes stand more than once in the initialiser list of `isa`. The entries
of one opcode are the same, except for the two of `INX`: the first sets the carry
when `X` wraps, the second leaves it. Both do the same when the carry is set.
-/
namespace Sim6502
open EventComputation CPU6502

/-- Two outcomes with the same return code, registers, flags and memory. -/
structure SameEffect (o o' : Outcome CPU6502 Fault Event InstructionErr) : Prop where
  result : o.result = o'.result
  registers : o.state.registers = o'.state.registers
  memory : o.state.memory = o'.state.memory

theorem SameEffect.refl (o : Outcome CPU6502 Fault Event InstructionErr) : SameEffect o o :=
  ⟨rfl, rfl, rfl⟩

theorem sameEffect_comm {o o' : Outcome CPU6502 Fault Event InstructionErr} :
    SameEffect o o' ↔ SameEffect o' o :=
  ⟨fun h => ⟨h.result.symm, h.registers.symm, h.memory.symm⟩,
    fun h => ⟨h.result.symm, h.registers.symm, h.memory.symm⟩⟩

/-- Entries of one opcode that differ are the two of `INX`. -/
theorem repeated_of_mem {first second : Byte × Instruction} (h : first ∈ isaEntries)
    (h' : second ∈ isaEntries) (same : first.1 = second.1) :
    first.2 = second.2 ∨ first.1 = 0xE8 ∧
      (first.2 = ⟨.inx, .implied, .inx⟩ ∧ second.2 = ⟨.inx, .implied, .inxRepeated⟩ ∨
        first.2 = ⟨.inx, .implied, .inxRepeated⟩ ∧ second.2 = ⟨.inx, .implied, .inx⟩) := by
  have hall : ∀ e ∈ isaEntries,
      isa.find e.1 = some e.2 ∨ e = (0xE8, ⟨.inx, .implied, .inxRepeated⟩) := by decide +kernel
  have hinx : isa.find 0xE8 = some ⟨.inx, .implied, .inx⟩ := by decide +kernel
  rcases hall _ h with hfirst | rfl <;> rcases hall _ h' with hsecond | rfl
  · rw [← same] at hsecond
    exact .inl (Option.some.inj (hfirst.symm.trans hsecond))
  · rw [same] at hfirst
    exact .inr ⟨same, .inl ⟨Option.some.inj (hfirst.symm.trans hinx), rfl⟩⟩
  · rw [← same] at hsecond
    exact .inr ⟨rfl, .inr ⟨rfl, Option.some.inj (hsecond.symm.trans hinx)⟩⟩
  · exact .inl rfl

/-! ## The two bodies of `INX` -/

/-- `X` wraps while the carry is clear. -/
def WrapsX (cpu : CPU6502) : Prop := cpu.X = 0xFF ∧ cpu.P.getBit .carry = false

instance (cpu : CPU6502) : Decidable (WrapsX cpu) := inferInstanceAs (Decidable (_ ∧ _))

/-- Setting the carry shows unless it is set already. -/
theorem PSR.wrapCarry_updateFlags (p : PSR) (carry : Bool) (value : Byte) :
    (p.wrapCarry carry).updateFlags value = p.updateFlags value ↔
      ¬(carry = true ∧ p.getBit .carry = false) := by
  constructor
  · rintro heq ⟨rfl, hclear⟩
    have hbit := congrArg (fun q => q.getBit .carry) heq
    simp [PSR.updateFlags, PSR.wrapCarry, hclear] at hbit
  · intro h
    cases carry with
    | false => rfl
    | true =>
      have hset : p.getBit .carry = true := by simpa using h
      have hsame : p.setBit .carry true = p := by
        rw [← hset]
        exact p.setBit_getBit .carry
      rw [wrapCarry, if_pos rfl, hsame]

/-- What the two bodies leave in `P`. -/
theorem P_inx_eq_iff (cpu : CPU6502) :
    (cpu.P.wrapCarry (byteAddInt cpu.X 1).carry).updateFlags (cpu.X + 1) =
        cpu.P.updateFlags (cpu.X + 1) ↔ ¬WrapsX cpu := by
  have hcarry : (byteAddInt cpu.X 1).carry = decide (cpu.X = 0xFF) := increment_carry cpu.X
  rw [PSR.wrapCarry_updateFlags, hcarry, decide_eq_true_iff]
  rfl

theorem sameEffect_inx (cpu : CPU6502) (a : Address) :
    SameEffect ((Execute.inx a).run cpu) ((Execute.inxRepeated a).run cpu) ↔ ¬WrapsX cpu := by
  rw [← P_inx_eq_iff, Execute.run_inx, Execute.run_inxRepeated]
  constructor
  · intro h
    exact congrArg Registers.P h.registers
  · intro h
    refine ⟨rfl, ?_, rfl⟩
    simp only [CPU6502.registers, h]

/-- A step that finds one body in one map and the other in the other. -/
theorem sameEffect_step_inx {isa isa' : CPU6502ISA} {cpu : CPU6502}
    (hs : maxMemory ≤ cpu.memory.size)
    (find : isa.find (opcodeAt cpu) = some ⟨.inx, .implied, .inx⟩)
    (find' : isa'.find (opcodeAt cpu) = some ⟨.inx, .implied, .inxRepeated⟩) :
    SameEffect ((step isa).run cpu) ((step isa').run cpu) ↔ ¬WrapsX cpu := by
  have inside : PointerInside cpu .implied := pointerInside_of_ne cpu nofun
  have run := run_step_of_find hs find inside (Execute.run_inx cpu 0)
  have run' := run_step_of_find hs find' inside (Execute.run_inxRepeated cpu 0)
  rw [← P_inx_eq_iff, run, run']
  constructor
  · intro h
    exact congrArg Registers.P h.registers
  · intro h
    refine ⟨rfl, ?_, rfl⟩
    simp only [h, CPU6502.registers]
    rfl

/-! ## The table as a function of the opcode -/

/-- A step looks the map up at one opcode. -/
theorem run_step_congr {isa isa' : CPU6502ISA} {cpu : CPU6502} (hs : maxMemory ≤ cpu.memory.size)
    (h : isa.find (opcodeAt cpu) = isa'.find (opcodeAt cpu)) :
    (step isa).run cpu = (step isa').run cpu := by
  unfold opcodeAt at h
  rw [step, step, stepWith, stepWith, Routine.run_bind_of_ok (run_getPC cpu),
    Routine.run_bind_of_ok (run_getPC cpu), Routine.run_bind_of_ok (run_readMemory cpu hs cpu.PC),
    Routine.run_bind_of_ok (run_readMemory cpu hs cpu.PC), h]

/-- What two maps find for one opcode. -/
theorem find_of_repeated (isa isa' : CPU6502ISA) (opcode : Byte) :
    isa.find opcode = isa'.find opcode ∨ opcode = 0xE8 ∧
      (isa.find opcode = some ⟨.inx, .implied, .inx⟩ ∧
          isa'.find opcode = some ⟨.inx, .implied, .inxRepeated⟩ ∨
        isa.find opcode = some ⟨.inx, .implied, .inxRepeated⟩ ∧
          isa'.find opcode = some ⟨.inx, .implied, .inx⟩) := by
  cases h : isa.find opcode with
  | none =>
    cases h' : isa'.find opcode with
    | none => exact .inl rfl
    | some found' => exact absurd (isa'.find_mem h') (isa.find_none h found')
  | some found =>
    cases h' : isa'.find opcode with
    | none => exact absurd (isa.find_mem h) (isa'.find_none h' found)
    | some found' =>
      simpa using repeated_of_mem (isa.find_mem h) (isa'.find_mem h') rfl

/-- Every map finds an entry of the list, if it is not one of the two of `INX`. -/
theorem find_of_mem (isa : CPU6502ISA) {opcode : Byte} {instruction : Instruction}
    (h : (opcode, instruction) ∈ isaEntries) (hne : opcode ≠ 0xE8) :
    isa.find opcode = some instruction := by
  cases hfind : isa.find opcode with
  | none => exact absurd h (isa.find_none hfind instruction)
  | some found =>
    rcases repeated_of_mem (isa.find_mem hfind) h rfl with heq | ⟨hkey, -⟩
    · exact congrArg some heq
    · exact absurd hkey hne

theorem mem_inx : ((0xE8, ⟨.inx, .implied, .inx⟩) : Byte × Instruction) ∈ isaEntries := by
  decide +kernel

theorem mem_inxRepeated :
    ((0xE8, ⟨.inx, .implied, .inxRepeated⟩) : Byte × Instruction) ∈ isaEntries := by
  decide +kernel

theorem find_inx (isa : CPU6502ISA) :
    isa.find 0xE8 = some ⟨.inx, .implied, .inx⟩ ∨
      isa.find 0xE8 = some ⟨.inx, .implied, .inxRepeated⟩ := by
  cases hfind : isa.find 0xE8 with
  | none => exact absurd mem_inx (isa.find_none hfind _)
  | some found =>
    rcases repeated_of_mem (isa.find_mem hfind) mem_inx rfl with
      rfl | ⟨-, ⟨-, h⟩ | ⟨rfl, -⟩⟩
    · exact .inl rfl
    · cases h
    · exact .inr rfl

/-- Entries of one opcode agree, and so do the steps of any two maps of the list,
exactly where they are not the two of `INX` with `X` about to wrap and the carry
clear. -/
theorem repeated_entries_agree (isa isa' : CPU6502ISA) (cpu : CPU6502) :
    (∀ first ∈ isaEntries, ∀ second ∈ isaEntries, first.1 = second.1 → ∀ a : Address,
      (first.2.mode = second.2.mode ∧
        SameEffect ((first.2.execute.execute a).run cpu)
          ((second.2.execute.execute a).run cpu)) ↔
      ¬(first.1 = 0xE8 ∧ first.2 ≠ second.2 ∧ WrapsX cpu)) ∧
    (maxMemory ≤ cpu.memory.size →
      (SameEffect ((step isa).run cpu) ((step isa').run cpu) ↔
        ¬(opcodeAt cpu = 0xE8 ∧ isa.find 0xE8 ≠ isa'.find 0xE8 ∧ WrapsX cpu))) := by
  constructor
  · intro first h second h' same a
    rcases repeated_of_mem h h' same with heq | ⟨hkey, ⟨hfirst, hsecond⟩ | ⟨hfirst, hsecond⟩⟩
    · rw [heq]
      exact iff_of_true ⟨rfl, .refl _⟩ fun hno => hno.2.1 rfl
    · have hbodies := sameEffect_inx cpu a
      simpa [hkey, hfirst, hsecond, InstructionBody.execute] using hbodies
    · have hbodies := sameEffect_comm.trans (sameEffect_inx cpu a)
      simpa [hkey, hfirst, hsecond, InstructionBody.execute] using hbodies
  · intro hs
    rcases find_of_repeated isa isa' (opcodeAt cpu) with
      heq | ⟨hkey, ⟨find, find'⟩ | ⟨find, find'⟩⟩
    · rw [run_step_congr hs heq]
      refine iff_of_true (.refl _) fun hno => hno.2.1 ?_
      rw [← hno.1]
      exact heq
    · have hsteps := sameEffect_step_inx hs find find'
      rw [hkey] at find find'
      have hne : isa.find 0xE8 ≠ isa'.find 0xE8 := by
        rw [find, find']
        simp
      exact hsteps.trans (not_congr ⟨fun h => ⟨hkey, hne, h⟩, fun h => h.2.2⟩)
    · have hsteps := sameEffect_comm.trans (sameEffect_step_inx hs find' find)
      rw [hkey] at find find'
      have hne : isa.find 0xE8 ≠ isa'.find 0xE8 := by
        rw [find, find']
        simp
      exact hsteps.trans (not_congr ⟨fun h => ⟨hkey, hne, h⟩, fun h => h.2.2⟩)

theorem repeated_entries_agree_inx :
    SameEffect ((Execute.inx 0).run (CPU6502.initial (.ofProgram [0xE8]) false))
        ((Execute.inxRepeated 0).run (CPU6502.initial (.ofProgram [0xE8]) false)) ∧
      SameEffect ((step isa).run (CPU6502.initial (.ofProgram [0xE8]) false))
        ((step isa).run (CPU6502.initial (.ofProgram [0xE8]) false)) := by
  obtain ⟨hbodies, hsteps⟩ :=
    repeated_entries_agree isa isa (CPU6502.initial (.ofProgram [0xE8]) false)
  refine ⟨?_, (hsteps le_rfl).mpr fun h => h.2.1 rfl⟩
  have hwraps : ¬WrapsX (CPU6502.initial (.ofProgram [0xE8]) false) := by decide +kernel
  exact ((hbodies _ mem_inx _ mem_inxRepeated rfl 0).mpr fun h => hwraps h.2.2).2

/-- `INX` with `X` about to wrap. -/
def incrementsFull : CPU6502 := { CPU6502.initial (.ofProgram [0xE8]) false with X := 0xFF }

/-- The two entries of `INX` leave different carries. -/
theorem incrementsFull_differs :
    ¬∀ first ∈ isaEntries, ∀ second ∈ isaEntries, first.1 = second.1 →
      ∀ (cpu : CPU6502) (a : Address), first.2.mode = second.2.mode ∧
        SameEffect ((first.2.execute.execute a).run cpu)
          ((second.2.execute.execute a).run cpu) := by
  intro h
  have heffect := (h _ mem_inx _ mem_inxRepeated rfl incrementsFull 0).2
  exact (sameEffect_inx incrementsFull 0).mp heffect ⟨rfl, rfl⟩

end Sim6502
