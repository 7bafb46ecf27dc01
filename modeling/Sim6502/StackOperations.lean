import Sim6502.MemoryFrame
import Sim6502.WrappingStacks

/-!
# The hardware stack

`push_stack` and `pop_stack` address their cell by the byte `S` alone. Within one
wrap of `S` they are a last-in first-out stack; its cells are those of page zero.
-/
namespace Sim6502
open EventComputation CPU6502 WrappingStack

/-! ## Sequences of calls -/

/-- One call, with the value a pop delivers. -/
def stackCall : StackCall Byte → Cpu (List Byte)
  | .push v => do
    pushStack v
    return []
  | .pop => return [← popStack]

/-- The calls in order, with the values the pops deliver. -/
def stackCalls : List (StackCall Byte) → Cpu (List Byte)
  | [] => return []
  | c :: calls => do
    let out ← stackCall c
    return out ++ (← stackCalls calls)

/-- The index of the cell that the byte `S` names. -/
def stackIndex (S : Byte) : ℕ := (Address.ofByte S).toNat

theorem stackIndex_injective : Function.Injective stackIndex := by
  intro S S' h
  simpa [stackIndex, BitVec.toNat_inj] using h

/-- The pointer and the cells that the two operations work on. -/
def stackMachine (cpu : CPU6502) : Machine 8 ℕ Byte := ⟨cpu.S, cpu.memory.cell⟩

section Machine
variable (cpu : CPU6502) (v : Byte)

theorem stackMachine_pushed :
    stackMachine (cpu.pushed v) = (stackMachine cpu).push stackIndex v := rfl
theorem stackMachine_popped : stackMachine cpu.popped = (stackMachine cpu).popped := rfl
theorem top_stackMachine : (stackMachine cpu).top stackIndex = cpu.top := rfl

end Machine

/-- A pop changes no memory, in bounds or not. -/
theorem memory_popStack (cpu : CPU6502) : (popStack.run cpu).state.memory = cpu.memory := by
  by_cases h : cpu.S.toNat < cpu.memory.size
  · rw [run_popStack_of_lt cpu h]
    rfl
  · rw [run_popStack_outside cpu h]

/-- A push changes no cell but the one it addresses. -/
theorem cell_pushStack (cpu : CPU6502) (v : Byte) {index : ℕ}
    (hne : ((pushStack v).run cpu).state.memory.cell index ≠ cpu.memory.cell index) :
    index = stackIndex (cpu.S - 1) := by
  by_contra hindex
  by_cases h : (cpu.S - 1).toNat < cpu.memory.size
  · rw [run_pushStack_of_lt cpu h v] at hne
    exact hne (cpu.memory.cell_updated_of_ne hindex v)
  · rw [run_pushStack_outside cpu h v] at hne
    exact hne rfl

/-- What a sequence of calls leaves alone. -/
structure StackFrame (s t : CPU6502) : Prop where
  A : t.A = s.A
  X : t.X = s.X
  Y : t.Y = s.Y
  P : t.P = s.P
  PC : t.PC = s.PC
  size : t.memory.size = s.memory.size

theorem StackFrame.refl (s : CPU6502) : StackFrame s s := ⟨rfl, rfl, rfl, rfl, rfl, rfl⟩

theorem StackFrame.trans {s t u : CPU6502} (h : StackFrame s t) (h' : StackFrame t u) :
    StackFrame s u :=
  ⟨h'.A.trans h.A, h'.X.trans h.X, h'.Y.trans h.Y, h'.P.trans h.P, h'.PC.trans h.PC,
    h'.size.trans h.size⟩

/-- The cells a stack of this depth occupies are inside the memory. -/
def RoomFor (depth : ℕ) (start : Byte) (size : ℕ) : Prop :=
  ∀ j < depth, cellBelow stackIndex start j < size

section Simulation
variable {start : Machine 8 ℕ Byte} {cpu : CPU6502} {s t u : BoundedStack Byte 256}
  {out outs : List Byte} {peak peak' : ℕ}

theorem toNat_S_pred (hrep : Represents stackIndex start (stackMachine cpu) s.items peak) :
    (cpu.S - 1).toNat = cellBelow stackIndex start.pointer s.items.length := by
  have hp : cpu.S - 1 = start.pointer - BitVec.ofNat 8 (s.items.length + 1) := hrep.pred_pointer
  rw [hp, cellBelow, stackIndex, Address.toNat_ofByte]

/-- One call of the processor does what the stack says, below the peak of the stack. -/
theorem run_stackCall (c : StackCall Byte)
    (hrep : Represents stackIndex start (stackMachine cpu) s.items peak)
    (hc : s.call c = some (out, t))
    (hroom : RoomFor (max peak t.items.length) start.pointer cpu.memory.size) :
    ∃ cpu' events, (stackCall c).run cpu = ⟨.ok out, cpu', events⟩ ∧
      Represents stackIndex start (stackMachine cpu') t.items (max peak t.items.length) ∧
      StackFrame cpu cpu' := by
  obtain ⟨hout, hrep'⟩ := hrep.call stackIndex_injective le_rfl hc
  cases c with
  | push v =>
    by_cases hfull : s.items.length < 256
    · simp only [BoundedStack.call, dif_pos hfull, Option.some.injEq, Prod.mk.injEq] at hc
      obtain ⟨rfl, rfl⟩ := hc
      have hlt : (cpu.S - 1).toNat < cpu.memory.size := by
        rw [toNat_S_pred hrep]
        exact hroom _ (lt_max_of_lt_right s.items.length.lt_succ_self)
      refine ⟨cpu.pushed v, cpu.pushEvents v ++ [], ?_, ?_, by constructor <;> simp⟩
      · rw [stackCall, Routine.run_bind_of_ok (run_pushStack_of_lt cpu hlt v)]
        rfl
      · rw [stackMachine_pushed]
        exact hrep'
    · simp only [BoundedStack.call, dif_neg hfull, reduceCtorEq] at hc
  | pop =>
    obtain ⟨items, hitems⟩ := s
    cases items with
    | nil => simp only [BoundedStack.call, reduceCtorEq] at hc
    | cons v items =>
      obtain ⟨j, hj, hindex⟩ := hrep.pointer_below
      have hlt : cpu.S.toNat < cpu.memory.size := by
        rw [← Address.toNat_ofByte]
        exact hindex.trans_lt (hroom j (lt_max_of_lt_left hj))
      rw [Machine.call, top_stackMachine] at hout
      refine ⟨cpu.popped, cpu.popEvents ++ [], ?_, ?_, by constructor <;> simp⟩
      · rw [stackCall, Routine.run_bind_of_ok (run_popStack_of_lt cpu hlt), ← hout]
        rfl
      · rw [stackMachine_popped]
        exact hrep'

/-- The simulation, from any state on the way. -/
theorem run_stackCalls (calls : List (StackCall Byte))
    (hrep : Represents stackIndex start (stackMachine cpu) s.items peak)
    (hcalls : BoundedStack.calls calls s = some (outs, u, peak'))
    (hroom : RoomFor (max peak peak') start.pointer cpu.memory.size) :
    ∃ cpu' events, (stackCalls calls).run cpu = ⟨.ok outs, cpu', events⟩ ∧
      Represents stackIndex start (stackMachine cpu') u.items (max peak peak') ∧
      StackFrame cpu cpu' := by
  induction calls generalizing cpu s outs peak peak' with
  | nil =>
    simp only [BoundedStack.calls, Option.some.injEq, Prod.mk.injEq] at hcalls
    obtain ⟨rfl, rfl, rfl⟩ := hcalls
    exact ⟨cpu, [], rfl, hrep.mono (le_max_left _ _), .refl cpu⟩
  | cons c calls ih =>
    simp only [BoundedStack.calls, Option.bind_eq_bind, Option.bind_eq_some_iff, Option.pure_def,
      Option.some.injEq, Prod.mk.injEq] at hcalls
    obtain ⟨⟨out, t⟩, hc, ⟨later, _, peak''⟩, hrest, rfl, rfl, rfl⟩ := hcalls
    dsimp only at hroom ⊢
    have hlen : t.items.length ≤ peak'' := BoundedStack.length_le_peak hrest
    have hdepth := hrep.depth
    have hpeak : max (max peak t.items.length) peak'' = max peak (max s.items.length peak'') := by
      omega
    obtain ⟨cpu₁, events₁, hrun₁, hrep₁, hframe₁⟩ := run_stackCall c hrep hc fun j hj =>
      hroom j (by omega)
    obtain ⟨cpu₂, events₂, hrun₂, hrep₂, hframe₂⟩ := ih hrep₁ hrest (by
      rw [hpeak, hframe₁.size]
      exact hroom)
    refine ⟨cpu₂, events₁ ++ (events₂ ++ []), ?_, hpeak ▸ hrep₂, hframe₁.trans hframe₂⟩
    rw [stackCalls, Routine.run_bind_of_ok hrun₁, Routine.run_bind_of_ok hrun₂]
    rfl

end Simulation

/-- The two operations refine a stack of 256 bytes: for every sequence of calls that
such a stack can serve, and so after each call of it. -/
theorem stack_refines_lifo (cpu : CPU6502) (calls : List (StackCall Byte)) (outs : List Byte)
    (final : BoundedStack Byte 256) (peak : ℕ)
    (hcalls : BoundedStack.calls calls BoundedStack.empty = some (outs, final, peak))
    (hroom : RoomFor peak cpu.S cpu.memory.size) :
    ∃ t events, (stackCalls calls).run cpu = ⟨.ok outs, t, events⟩ ∧
      t.S = cpu.S - BitVec.ofNat 8 final.items.length ∧
      StackFrame cpu t ∧
      {index | t.memory.cell index ≠ cpu.memory.cell index}.encard ≤ peak ∧
      (popStack.run t).state.memory = t.memory ∧
      ∀ v index, ((pushStack v).run t).state.memory.cell index ≠ t.memory.cell index →
        index = stackIndex (t.S - 1) := by
  have hstart : Represents stackIndex (stackMachine cpu) (stackMachine cpu)
      (BoundedStack.empty : BoundedStack Byte 256).items 0 := .refl _
  obtain ⟨t, events, hrun, hrep, hframe⟩ := run_stackCalls calls hstart hcalls
    (by rwa [Nat.zero_max])
  rw [Nat.zero_max] at hrep
  exact ⟨t, events, hrun, hrep.pointer, hframe, hrep.encard_changed, memory_popStack t,
    fun v index => cell_pushStack t v⟩

/-- Two pushes, a pop, a push and two pops, across the wrap of `S`. -/
def wrappingCalls : List (StackCall Byte) := [.push 1, .push 2, .pop, .push 3, .pop, .pop]

theorem stack_refines_lifo_wrappingCalls :
    ∃ t events, (stackCalls wrappingCalls).run { printsLetter with S := 0x01 } =
        ⟨.ok [2, 3, 1], t, events⟩ ∧
      t.S = 0x01 := by
  obtain ⟨t, events, hrun, hS, -⟩ := stack_refines_lifo { printsLetter with S := 0x01 }
    wrappingCalls [2, 3, 1] BoundedStack.empty 2 rfl (by unfold RoomFor; decide)
  exact ⟨t, events, hrun, hS⟩

/-! ## Where the cells are -/

def Event.marksStack : Event → Bool
  | .stackCell _ => true
  | _ => false

/-- The indices that the stack operations read and wrote. Each of them marks its access, which
comes next. -/
def stackAccesses : List Event → List ℕ
  | [] => []
  | event :: events =>
    (if event.marksStack then (events.findSome? Event.access).toList else []) ++
      stackAccesses events

/-- Every stack access among the events is in `0x0100..0x01FF`. -/
def InPageOne (events : List Event) : Prop :=
  ∀ index ∈ stackAccesses events, 0x0100 ≤ index ∧ index ≤ 0x01FF

instance (events : List Event) : Decidable (InPageOne events) :=
  inferInstanceAs (Decidable (∀ _ ∈ _, _))

section StackAccesses
variable {index : ℕ} {events : List Event}

theorem mem_stackAccesses_left (h : index ∈ stackAccesses events) (later : List Event) :
    index ∈ stackAccesses (events ++ later) := by
  induction events with
  | nil => cases h
  | cons event events ih =>
    rw [List.cons_append, stackAccesses]
    rcases List.mem_append.mp h with hnext | hrest
    · apply List.mem_append_left
      by_cases hmarks : event.marksStack
      · rw [if_pos hmarks, Option.mem_toList] at hnext
        rw [if_pos hmarks, List.findSome?_append, hnext]
        exact List.mem_singleton_self index
      · rw [if_neg hmarks] at hnext
        cases hnext
    · exact List.mem_append_right _ (ih hrest)

theorem mem_stackAccesses_right (h : index ∈ stackAccesses events) (earlier : List Event) :
    index ∈ stackAccesses (earlier ++ events) := by
  induction earlier with
  | nil => exact h
  | cons event earlier ih => exact List.mem_append_right _ ih

theorem not_inPageOne {S : Byte} (h : S.toNat ∈ stackAccesses events) : ¬InPageOne events := by
  intro hpage
  have hlow := (hpage _ h).1
  have hS := S.isLt
  omega

variable (cpu : CPU6502) (v : Byte)

theorem mem_stackAccesses_pop : cpu.S.toNat ∈ stackAccesses cpu.popEvents :=
  List.mem_singleton_self _

theorem mem_stackAccesses_push : (cpu.S - 1).toNat ∈ stackAccesses (cpu.pushEvents v) := by
  have hwrite : (cpu.memory.writeEvents (.ofByte (cpu.S - 1)) v).findSome? Event.access =
      some (cpu.S - 1).toNat := by
    rw [← Address.toNat_ofByte]
    unfold GPMemory.writeEvents
    split <;> rfl
  apply List.mem_append_left
  rw [hwrite]
  exact List.mem_singleton_self _

theorem events_popStack : (popStack.run cpu).events = cpu.popEvents := by
  by_cases h : cpu.S.toNat < cpu.memory.size
  · rw [run_popStack_of_lt cpu h]
  · rw [run_popStack_outside cpu h]

theorem events_pushStack : ((pushStack v).run cpu).events = cpu.pushEvents v := by
  by_cases h : (cpu.S - 1).toNat < cpu.memory.size
  · rw [run_pushStack_of_lt cpu h v]
  · rw [run_pushStack_outside cpu h v]

end StackAccesses

/-- The instructions that push or pop. -/
def Mnemonic.usesStack : Mnemonic → Bool
  | .pha | .phx | .phy | .php | .pla | .plx | .ply | .plp | .jsr | .rts | .brk | .rti => true
  | _ => false

def InstructionBody.usesStack : InstructionBody → Bool
  | .pha | .phx | .phy | .php | .pla | .plx | .ply | .plp | .jsr | .rts | .brk | .rti => true
  | _ => false

theorem usesStack_of_mem {opcode : Byte} {instruction : Instruction}
    (h : (opcode, instruction) ∈ isaEntries) :
    instruction.execute.usesStack = instruction.name.usesStack := by
  have hall : ∀ e ∈ isaEntries, e.2.execute.usesStack = e.2.name.usesStack := by decide +kernel
  exact hall _ h

/-- Each of them accesses a cell whose index is one byte. -/
theorem exists_stackAccess_execute {body : InstructionBody} (a : Address) {cpu : CPU6502}
    (hs : maxMemory ≤ cpu.memory.size) (h : body.usesStack) :
    ∃ S : Byte, S.toNat ∈ stackAccesses ((body.execute a).run cpu).events := by
  have hpush (v : Byte) := mem_stackAccesses_push cpu v
  have hpop := mem_stackAccesses_pop cpu
  cases body <;> simp [InstructionBody.usesStack] at h <;>
    simp only [InstructionBody.execute, Execute.run_brk, Execute.run_jsr, Execute.run_rti,
      Execute.run_rts, Execute.run_php, Execute.run_plp, Execute.run_pha, Execute.run_pla,
      Execute.run_phx, Execute.run_plx, Execute.run_phy, Execute.run_ply, hs]
  -- a frame is several pushes or pops, of which the first suffices
  case brk =>
    apply Exists.intro
    apply mem_stackAccesses_left
    apply mem_stackAccesses_left
    exact mem_stackAccesses_left (hpush _) _
  case jsr => exact ⟨_, mem_stackAccesses_left (hpush _) _⟩
  case rti =>
    apply Exists.intro
    apply mem_stackAccesses_left
    exact mem_stackAccesses_left hpop _
  case rts => exact ⟨_, mem_stackAccesses_left hpop _⟩
  case php | pha | phx | phy => exact ⟨_, hpush _⟩
  case plp | pla | plx | ply => exact ⟨_, hpop⟩

/-- No stack access is ever in page one: both operations read and write at an index of one
byte, so every instruction that uses them accesses page zero, where each push stores its
byte. -/
theorem stack_never_in_page_one (isa : CPU6502ISA) (cpu : CPU6502) :
    (accesses (popStack.run cpu).events = [cpu.S.toNat] ∧ ¬InPageOne (popStack.run cpu).events) ∧
      (∀ v, accesses ((pushStack v).run cpu).events = [(cpu.S - 1).toNat] ∧
        ¬InPageOne ((pushStack v).run cpu).events) ∧
      (maxMemory ≤ cpu.memory.size → ∀ v,
        stackIndex (cpu.S - 1) ≤ 0xFF ∧
          ((pushStack v).run cpu).state.memory.cell (stackIndex (cpu.S - 1)) = v) ∧
      (maxMemory ≤ cpu.memory.size → ∀ instruction,
        isa.find (opcodeAt cpu) = some instruction → instruction.name.usesStack →
          ¬InPageOne ((step isa).run cpu).events) := by
  refine ⟨?_, fun v => ?_, fun hs v => ⟨?_, ?_⟩, ?_⟩
  · rw [events_popStack]
    exact ⟨accesses_popEvents cpu, not_inPageOne (mem_stackAccesses_pop cpu)⟩
  · rw [events_pushStack]
    exact ⟨accesses_pushEvents cpu v, not_inPageOne (mem_stackAccesses_push cpu v)⟩
  · have hS := (cpu.S - 1).isLt
    rw [stackIndex, Address.toNat_ofByte]
    omega
  · rw [run_pushStack cpu hs v]
    exact cpu.memory.cell_updated_self _ v
  · intro hs instruction find huses
    have hbody := (usesStack_of_mem (isa.find_mem find)).trans huses
    rcases step_of_find hs find with ⟨err, t, events, -, run, hstep⟩ | ⟨-, hjump, -⟩
    · obtain ⟨S, hS⟩ := exists_stackAccess_execute
        (effectiveAddress 0 cpu instruction.mode) hs hbody
      rw [run] at hS
      rw [hstep]
      apply not_inPageOne
      apply mem_stackAccesses_right
      exact mem_stackAccesses_right hS _
    · rw [hjump] at hbody
      cases hbody

/-- `PHA` with `S` as the constructor leaves it. -/
def pushesAccumulator : CPU6502 := CPU6502.initial (.ofProgram [0x48]) false

theorem stack_never_in_page_one_pushesAccumulator :
    stackIndex (pushesAccumulator.S - 1) ≤ 0xFF ∧
      ¬InPageOne ((step isa).run pushesAccumulator).events := by
  obtain ⟨-, -, hstore, hstep⟩ := stack_never_in_page_one isa pushesAccumulator
  exact ⟨(hstore le_rfl 0x41).1, hstep le_rfl ⟨.pha, .stack, .pha⟩ rfl rfl⟩

theorem pushesAccumulator_into_page_zero :
    ¬∀ cpu : CPU6502, maxMemory ≤ cpu.memory.size → ∀ instruction,
      isa.find (opcodeAt cpu) = some instruction → instruction.name.usesStack →
        InPageOne ((step isa).run cpu).events := by
  intro h
  have hpage := h pushesAccumulator le_rfl ⟨.pha, .stack, .pha⟩ rfl rfl
  have haccesses : stackAccesses ((step isa).run pushesAccumulator).events = [0xFE] := by
    decide +kernel
  have hlow := (hpage 0xFE (by rw [haccesses]; exact List.mem_singleton_self _)).1
  omega

end Sim6502
