import Sim6502.MemoryFrame

/-!
# The 16-bit address space

Every access of a step goes through an `address` and stays below 64K, except the
second pointer byte of the indirect jump. Runs that never take that jump through
the last address cannot tell apart two memories that agree below the limit.
-/
namespace Sim6502
open EventComputation CPU6502

/-- The indices at which memory is read or written. -/
def accessed : List Event → List ℕ :=
  List.filterMap fun
    | .read index | .write index _ => some index
    | _ => none

@[simp] theorem accessed_append (events later : List Event) :
    accessed (events ++ later) = accessed events ++ accessed later := List.filterMap_append

def InAddressSpace (events : List Event) : Prop := ∀ index ∈ accessed events, index ≤ 0xFFFF

instance (events : List Event) : Decidable (InAddressSpace events) :=
  inferInstanceAs (Decidable (∀ _ ∈ _, _))

theorem inAddressSpace_append {events later : List Event} :
    InAddressSpace (events ++ later) ↔ InAddressSpace events ∧ InAddressSpace later := by
  simp only [InAddressSpace, accessed_append, List.forall_mem_append]

theorem inAddressSpace_of_reads {events : List Event} (h : ∀ e ∈ events, ReadsBelowLimit e) :
    InAddressSpace events := by
  intro index hi
  obtain ⟨e, he, hsome⟩ := List.mem_filterMap.mp hi
  obtain ⟨i, hle, rfl⟩ := h e he
  obtain rfl : i = index := by simpa using hsome
  exact hle

private theorem toNat_le (a : Address) : a.toNat ≤ 0xFFFF := Nat.le_of_lt_succ a.isLt

theorem inAddressSpace_read (a : Address) : InAddressSpace [.read a.toNat] := by
  intro index hi
  obtain rfl : index = a.toNat := by simpa [accessed] using hi
  exact toNat_le a

theorem inAddressSpace_writeEvents (m : GPMemory) (a : Address) (v : Byte) :
    InAddressSpace (m.writeEvents a v) := by
  intro index hi
  obtain rfl : index = a.toNat := by
    unfold GPMemory.writeEvents at hi
    split at hi <;> simpa [accessed] using hi
  exact toNat_le a

theorem inAddressSpace_pushEvents (cpu : CPU6502) (v : Byte) :
    InAddressSpace (cpu.pushEvents v) :=
  inAddressSpace_writeEvents cpu.memory (.ofByte (cpu.S - 1)) v

theorem inAddressSpace_popEvents (cpu : CPU6502) : InAddressSpace cpu.popEvents := by
  have h := inAddressSpace_read (.ofByte cpu.S)
  rwa [Address.toNat_ofByte] at h

/-- A body accesses its operand and the stack through addresses. -/
theorem inAddressSpace_execute (body : InstructionBody) (a : Address) {cpu : CPU6502}
    (hs : maxMemory ≤ cpu.memory.size) :
    InAddressSpace ((body.execute a).run cpu).events := by
  have hnil : InAddressSpace [] := by simp [InAddressSpace, accessed]
  have hvector : InAddressSpace [.read 0xFFFE, .read 0xFFFF] := by decide
  have hmodify (v : Byte) : InAddressSpace (.read a.toNat :: cpu.memory.writeEvents a v) :=
    inAddressSpace_append.mpr ⟨inAddressSpace_read a, inAddressSpace_writeEvents _ a v⟩
  cases body <;>
    simp [InstructionBody.execute, hs, hnil, hvector, hmodify, inAddressSpace_append,
      inAddressSpace_read, inAddressSpace_writeEvents, inAddressSpace_pushEvents,
      inAddressSpace_popEvents]

/-! ## The one access that leaves the address space -/

/-- `JMP ($FFFF)`: the second pointer byte is read at index `0x10000`. -/
def LastIndirectJump (cpu : CPU6502) : Prop := opcodeAt cpu = 0x6C ∧ operandWord cpu = 0xFFFF

instance (cpu : CPU6502) : Decidable (LastIndirectJump cpu) := inferInstanceAs (Decidable (_ ∧ _))

theorem find_indirectJump (isa : CPU6502ISA) :
    isa.find 0x6C = some ⟨.jmp, .absoluteIndirect, .jmp⟩ :=
  isa.find_eq rfl

theorem mode_absoluteIndirect {opcode : Byte} {instruction : Instruction}
    (h : (opcode, instruction) ∈ isaEntries) (hm : instruction.mode = .absoluteIndirect) :
    opcode = 0x6C := by
  have hall : ∀ e ∈ isaEntries, e.2.mode = .absoluteIndirect → e.1 = 0x6C := by decide +kernel
  exact hall _ h hm

/-- The jump is the only instruction whose decoding can meet the last pointer. -/
theorem lastPointer_iff {isa : CPU6502ISA} {cpu : CPU6502} {instruction : Instruction}
    (find : isa.find (opcodeAt cpu) = some instruction) :
    LastPointer cpu instruction.mode ↔ LastIndirectJump cpu := by
  constructor
  · rintro ⟨hm, hw⟩
    exact ⟨mode_absoluteIndirect (isa.find_mem find) hm, hw⟩
  · rintro ⟨ho, hw⟩
    rw [ho, find_indirectJump, Option.some.injEq] at find
    exact ⟨by rw [← find], hw⟩

private theorem inAddressSpace_decodeEvents {cpu : CPU6502} (hs : maxMemory ≤ cpu.memory.size)
    (mode : AddressingMode) :
    InAddressSpace (decodeEvents 0 cpu mode) ↔ ¬LastPointer cpu mode := by
  by_cases hm : mode = .absoluteIndirect
  · subst hm
    have hlow := toNat_le (operandWord cpu)
    have hlast : (operandWord cpu).toNat = 0xFFFF ↔ operandWord cpu = 0xFFFF :=
      BitVec.toNat_inj (y := 0xFFFF)
    have hpc (k : Address) : (cpu.PC + k).toNat ≤ 0xFFFF := toNat_le _
    rw [decodeEvents, run_decode_absoluteIndirect 0 hs]
    simp only [InAddressSpace, accessed, List.filterMap_cons, List.filterMap_nil,
      List.forall_mem_cons, List.not_mem_nil, false_imp_iff, implies_true, and_true, hpc, hlow,
      true_and, LastPointer]
    rw [← hlast]
    omega
  · exact iff_of_true (inAddressSpace_of_reads (emits_decode 0 hm cpu)) fun h => hm h.1

private theorem inAddressSpace_lookupEvents (cpu : CPU6502) (instruction : Instruction) :
    InAddressSpace (lookupEvents cpu instruction) := by
  have hpc := toNat_le cpu.PC
  cases h : cpu.verbose <;> simpa [lookupEvents, h, InAddressSpace, accessed] using hpc

/-- Exactly one jump takes a step out of the address space. -/
theorem inAddressSpace_step (isa : CPU6502ISA) {cpu : CPU6502}
    (hs : maxMemory ≤ cpu.memory.size) :
    InAddressSpace ((step isa).run cpu).events ↔ ¬LastIndirectJump cpu := by
  rcases ho : (step isa).run cpu with ⟨r, t, events⟩
  cases step_cases_of_run hs ho with
  | unknown find =>
    refine iff_of_true ?_ fun h => ?_
    · simpa [InAddressSpace, accessed] using toNat_le cpu.PC
    · rw [h.1, find_indirectJump] at find
      cases find
  | @executed instruction err t events find inside run =>
    have hbody := inAddressSpace_execute instruction.execute
      (effectiveAddress 0 cpu instruction.mode) hs
    rw [run] at hbody
    rw [← lastPointer_iff find, ← inAddressSpace_decodeEvents hs]
    simp only [inAddressSpace_append, inAddressSpace_lookupEvents, hbody, true_and, and_true]
  | outside instruction find outside =>
    rw [← lastPointer_iff find, ← inAddressSpace_decodeEvents hs]
    simp only [inAddressSpace_append, inAddressSpace_lookupEvents, true_and]

/-- Over a memory of exactly 64K that jump is the only step that goes out of bounds. -/
theorem step_succeeds (isa : CPU6502ISA) {cpu : CPU6502} (hs : maxMemory ≤ cpu.memory.size) :
    (∃ err, ((step isa).run cpu).result = .ok err) ↔
      (LastIndirectJump cpu → maxMemory < cpu.memory.size) := by
  rcases ho : (step isa).run cpu with ⟨r, t, events⟩
  cases step_cases_of_run hs ho with
  | unknown find =>
    refine iff_of_true ⟨_, rfl⟩ fun h => ?_
    rw [h.1, find_indirectJump] at find
    cases find
  | executed instruction find inside run =>
    exact iff_of_true ⟨_, rfl⟩ fun h => inside ((lastPointer_iff find).mpr h)
  | outside instruction find outside =>
    refine iff_of_false (by simp) fun h => outside fun hl => h ((lastPointer_iff find).mp hl)

/-! ## What lies past the limit -/

/-- The same registers and the same first 64K. -/
structure AgreeBelow (s s' : CPU6502) : Prop where
  registers : s'.registers = s.registers
  cell : ∀ index < maxMemory, s'.memory.cell index = s.memory.cell index

section AgreeBelow
variable {cpu cpu' : CPU6502}

theorem AgreeBelow.byteAt (h : AgreeBelow cpu cpu') (a : Address) :
    cpu'.memory.byteAt a = cpu.memory.byteAt a := h.cell _ a.isLt

theorem agreeBelow_of_byteAt (hr : cpu'.registers = cpu.registers)
    (h : ∀ a, cpu'.memory.byteAt a = cpu.memory.byteAt a) : AgreeBelow cpu cpu' := by
  refine ⟨hr, fun index hi => ?_⟩
  have ha := h (BitVec.ofNat 16 index)
  have hn : (BitVec.ofNat 16 index).toNat = index := Nat.mod_eq_of_lt hi
  rwa [GPMemory.byteAt, GPMemory.byteAt, hn] at ha

theorem AgreeBelow.fields (h : AgreeBelow cpu cpu') :
    cpu'.A = cpu.A ∧ cpu'.X = cpu.X ∧ cpu'.Y = cpu.Y ∧ cpu'.S = cpu.S ∧ cpu'.P = cpu.P ∧
      cpu'.PC = cpu.PC := by
  have hr := h.registers
  simp only [CPU6502.registers, Registers.mk.injEq] at hr
  exact hr

theorem AgreeBelow.opcodeAt (h : AgreeBelow cpu cpu') :
    Sim6502.opcodeAt cpu' = Sim6502.opcodeAt cpu := by
  obtain ⟨-, -, -, -, -, hPC⟩ := h.fields
  rw [Sim6502.opcodeAt, Sim6502.opcodeAt, hPC, h.byteAt]

theorem AgreeBelow.operandWord (h : AgreeBelow cpu cpu') :
    Sim6502.operandWord cpu' = Sim6502.operandWord cpu := by
  obtain ⟨-, -, -, -, -, hPC⟩ := h.fields
  rw [Sim6502.operandWord, Sim6502.operandWord, hPC, h.byteAt, h.byteAt]

theorem AgreeBelow.lastIndirectJump (h : AgreeBelow cpu cpu') :
    LastIndirectJump cpu' ↔ LastIndirectJump cpu := by
  rw [LastIndirectJump, LastIndirectJump, h.opcodeAt, h.operandWord]

theorem AgreeBelow.effectiveAddress (h : AgreeBelow cpu cpu') {mode : AddressingMode}
    (hp : ¬LastPointer cpu mode) :
    Sim6502.effectiveAddress 0 cpu' mode = Sim6502.effectiveAddress 0 cpu mode := by
  obtain ⟨hA, hX, hY, hS, -, hPC⟩ := h.fields
  have hb := h.byteAt
  have hw := h.operandWord
  cases mode
  case absoluteIndirect =>
    have hne : (Sim6502.operandWord cpu).toNat ≠ 0xFFFF :=
      fun he => hp ⟨rfl, BitVec.eq_of_toNat_eq he⟩
    have hle := toNat_le (Sim6502.operandWord cpu)
    have hhigh := h.cell ((Sim6502.operandWord cpu).toNat + 1) (by unfold maxMemory; omega)
    simp only [Sim6502.effectiveAddress, hw, hb, hhigh]
  all_goals
    simp only [Sim6502.effectiveAddress, pointerAt, operandByte, hw, hb, hA, hX, hY, hS, hPC]

/-- At the same operand address a body does the same below the limit, and sets the
program counter in both or in neither. -/
theorem AgreeBelow.execute (h : AgreeBelow cpu cpu') (body : InstructionBody) (a : Address)
    (hs : maxMemory ≤ cpu.memory.size) (hs' : maxMemory ≤ cpu'.memory.size) :
    AgreeBelow ((body.execute a).run cpu).state ((body.execute a).run cpu').state ∧
      (((body.execute a).run cpu').result = .ok .okPCModified ↔
        ((body.execute a).run cpu).result = .ok .okPCModified) := by
  obtain ⟨hA, hX, hY, hS, hP, hPC⟩ := h.fields
  have hb := h.byteAt
  cases body <;> refine ⟨agreeBelow_of_byteAt ?_ ?_, ?_⟩ <;>
    simp [InstructionBody.execute, hs, hs', hA, hX, hY, hS, hP, hPC, hb, CPU6502.registers,
      branchTo, top, Execute.brkPushed, GPMemory.byteAt_updated]
  -- the return code of `DBG` depends on the debug mode, which is not part of the registers
  case dbg => split <;> split <;> decide

theorem AgreeBelow.advance (h : AgreeBelow cpu cpu') (instruction : Instruction)
    {err err' : InstructionErr} (he : err' = .okPCModified ↔ err = .okPCModified) :
    AgreeBelow (Sim6502.advance instruction err cpu) (Sim6502.advance instruction err' cpu') := by
  obtain ⟨hA, hX, hY, hS, hP, hPC⟩ := h.fields
  refine agreeBelow_of_byteAt ?_ fun a => by simpa using h.byteAt a
  by_cases hm : err = .okPCModified
  · simp [CPU6502.registers, Sim6502.advance, hm, he.mpr hm, hA, hX, hY, hS, hP, hPC]
  · have hm' : err' ≠ .okPCModified := fun h' => hm (he.mp h')
    simp [CPU6502.registers, Sim6502.advance, hm, hm', hA, hX, hY, hS, hP, hPC]

/-- A step other than the jump through the last address. -/
theorem AgreeBelow.step (h : AgreeBelow cpu cpu') (isa : CPU6502ISA)
    (hs : maxMemory ≤ cpu.memory.size) (hs' : maxMemory ≤ cpu'.memory.size)
    (hj : ¬LastIndirectJump cpu) {err : InstructionErr} {t : CPU6502} {events : List Event}
    (run : (step isa).run cpu = ⟨.ok err, t, events⟩) :
    ∃ err' t' events', (Sim6502.step isa).run cpu' = ⟨.ok err', t', events'⟩ ∧ AgreeBelow t t' := by
  have hop := h.opcodeAt
  cases step_cases_of_run hs run with
  | unknown find =>
    rcases ho : (Sim6502.step isa).run cpu' with ⟨r, t', events'⟩
    cases step_cases_of_run hs' ho with
    | unknown find' => exact ⟨_, _, _, rfl, h⟩
    | executed instruction find' inside' run' => simp [hop, find] at find'
    | outside instruction find' outside' => simp [hop, find] at find'
  | @executed instruction _ u later find inside hbody =>
    have hp : ¬LastPointer cpu instruction.mode := fun hl => hj ((lastPointer_iff find).mp hl)
    have find' : isa.find (Sim6502.opcodeAt cpu') = some instruction := by rw [hop, find]
    have inside' : PointerInside cpu' instruction.mode := fun hl =>
      absurd (h.lastIndirectJump.mp ((lastPointer_iff find').mp hl)) hj
    obtain ⟨hstate, hcode⟩ :=
      h.execute instruction.execute (Sim6502.effectiveAddress 0 cpu instruction.mode) hs hs'
    obtain ⟨err', herr'⟩ := result_execute instruction.execute
      (Sim6502.effectiveAddress 0 cpu' instruction.mode) hs'
    rcases hrun' : (instruction.execute.execute
      (Sim6502.effectiveAddress 0 cpu' instruction.mode)).run cpu' with ⟨r, u', later'⟩
    rw [hrun'] at herr'
    obtain rfl : r = .ok err' := herr'
    rw [← h.effectiveAddress hp, hrun', h.effectiveAddress hp, hbody] at hstate hcode
    exact ⟨_, _, _, run_step_of_find hs' find' inside' hrun',
      hstate.advance instruction (by simpa using hcode)⟩

/-- Two runs from states that agree stay together as long as no step takes that jump. -/
theorem AgreeBelow.iterates (h : AgreeBelow cpu cpu') {isa : CPU6502ISA}
    (hs : maxMemory ≤ cpu.memory.size) (hs' : maxMemory ≤ cpu'.memory.size) {n : ℕ}
    {t : CPU6502} {events : List Event} (run : Routine.Iterates (Sim6502.step isa) n cpu events t)
    (hj : Routine.StepsFrom (Sim6502.step isa) n cpu fun s => ¬LastIndirectJump s) :
    ∃ t' events', Routine.Iterates (Sim6502.step isa) n cpu' events' t' ∧ AgreeBelow t t' := by
  induction run generalizing cpu' with
  | refl s => exact ⟨cpu', [], .refl _, h⟩
  | step head tail ih =>
    obtain ⟨err', u', events', head', hagree⟩ := h.step isa hs hs' hj.head head
    obtain ⟨t', later', tail', hend⟩ := ih hagree (full_step hs head) (full_step hs' head')
      (hj.tail head)
    exact ⟨t', _, .step head' tail', hend⟩

end AgreeBelow

/-- A step stays in the address space and in bounds exactly when it is not the jump
through the last address; runs without that jump do not see what lies past the limit. -/
theorem step_stays_in_address_space (isa : CPU6502ISA) :
    (∀ cpu : CPU6502, maxMemory ≤ cpu.memory.size →
      (InAddressSpace ((step isa).run cpu).events ↔ ¬LastIndirectJump cpu) ∧
      (cpu.memory.size = maxMemory →
        ((∃ err, ((step isa).run cpu).result = .ok err) ↔ ¬LastIndirectJump cpu))) ∧
    ∀ s s' : CPU6502, maxMemory ≤ s.memory.size → maxMemory ≤ s'.memory.size → AgreeBelow s s' →
      ∀ n events t, Routine.Iterates (step isa) n s events t →
        Routine.StepsFrom (step isa) n s (fun u => ¬LastIndirectJump u) →
        ∃ t' events', Routine.Iterates (step isa) n s' events' t' ∧ AgreeBelow t t' := by
  refine ⟨fun cpu hs => ⟨inAddressSpace_step isa hs, fun hsize => ?_⟩, ?_⟩
  · rw [step_succeeds isa hs, hsize]
    exact ⟨fun h hj => (lt_irrefl _ (h hj)).elim, fun h hj => absurd hj h⟩
  · intro s s' hs hs' hagree n events t run hj
    exact hagree.iterates hs hs' run hj

/-- `NOP` in a memory of exactly 64K, and in one with a byte past the limit. -/
def nopAtLimit : CPU6502 := CPU6502.initial (.ofProgram [0xEA]) false

def nopPastLimit : CPU6502 :=
  { nopAtLimit with
    memory := { nopAtLimit.memory with
      size := maxMemory + 1
      cell := Function.update nopAtLimit.memory.cell maxMemory 0x55 } }

theorem step_stays_in_address_space_nop :
    InAddressSpace ((step isa).run nopAtLimit).events ∧
      ∃ t' events', Routine.Iterates (step isa) 1 nopPastLimit events' t' ∧
        AgreeBelow ((step isa).run nopAtLimit).state t' := by
  obtain ⟨hstep, hruns⟩ := step_stays_in_address_space isa
  have hj : ¬LastIndirectJump nopAtLimit := by decide +kernel
  have hagree : AgreeBelow nopAtLimit nopPastLimit :=
    ⟨rfl, fun index hi => Function.update_of_ne (Nat.ne_of_lt hi) _ _⟩
  refine ⟨(hstep nopAtLimit le_rfl).1.mpr hj, ?_⟩
  exact hruns nopAtLimit nopPastLimit le_rfl (Nat.le_succ _) hagree 1 _ _ (.step rfl (.refl _))
    (.cons hj fun _ _ _ _ => .zero _ _)

/-- `JMP ($FFFF)` in a memory of exactly 64K. -/
def jumpsThroughLast : CPU6502 := CPU6502.initial (.ofProgram [0x6C, 0xFF, 0xFF]) false

theorem jumpsThroughLast_leaves_address_space :
    ¬∀ cpu : CPU6502, maxMemory ≤ cpu.memory.size →
      InAddressSpace ((step isa).run cpu).events ∧
        ∃ err, ((step isa).run cpu).result = .ok err := by
  intro h
  obtain ⟨hin, -⟩ := h jumpsThroughLast le_rfl
  have hout : ¬InAddressSpace ((step isa).run jumpsThroughLast).events := by decide +kernel
  exact hout hin

end Sim6502
