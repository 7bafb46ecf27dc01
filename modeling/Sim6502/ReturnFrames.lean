import Sim6502.NestedCalls

/-!
# Frames that a program builds or inspects itself

On the processor `JSR` stacks the address of its own last byte, `RTS` resumes one
behind the address it finds, and `RTI` at that address. Here `JSR` stacks its own
address and the returns add 3 and 1, so that calls and returns match each other
and every other frame is off by a constant.
-/
namespace Sim6502
open EventComputation CPU6502 WrappingStack

/-- The bytes of an address as the two pushes of its high and then its low byte leave
them, the one on top first. -/
def addressBytes (a : Address) : List Byte := [a.low, a.high]

/-- The state finds these bytes on its stack, the first on top. -/
def OnStack (s : CPU6502) (bytes : List Byte) : Prop := Holds stackIndex s.memory.cell s.S bytes

/-- Pushing the bytes in turn, the last of the list first. -/
def pushes : List Byte → Cpu Unit
  | [] => return
  | v :: bytes => do
    pushes bytes
    pushStack v

theorem run_pushes {cpu : CPU6502} (hs : maxMemory ≤ cpu.memory.size) (bytes : List Byte) :
    ∃ events, (pushes bytes).run cpu = ⟨.ok (), pushBytes cpu bytes, events⟩ ∧
      (pushBytes cpu bytes).memory.size = cpu.memory.size := by
  induction bytes with
  | nil => exact ⟨[], rfl, rfl⟩
  | cons v bytes ih =>
    obtain ⟨events, hrun, hsize⟩ := ih
    refine ⟨events ++ (pushBytes cpu bytes).pushEvents v, ?_, hsize⟩
    rw [pushes, Routine.run_bind_of_ok hrun, run_pushStack _ (hs.trans_eq hsize.symm)]
    rfl

/-- What was pushed is on the stack, wherever `S` wraps. -/
theorem onStack_pushBytes (cpu : CPU6502) {bytes : List Byte} (h : bytes.length ≤ 256) :
    OnStack (pushBytes cpu bytes) bytes := by
  have hholds : Holds stackIndex (pushBytes cpu bytes).memory.cell (pushBytes cpu bytes).S
      (bytes ++ []) := holds_pushBytes cpu bytes trivial (by simpa using h)
  rwa [List.append_nil] at hholds

/-! ## What the returns and the call do with a frame -/

section Returns
variable (isa : CPU6502ISA) {u : CPU6502} (hs : maxMemory ≤ u.memory.size)
include hs

/-- `RTS` resumes three behind the address it finds. -/
theorem PC_rts (stacked : Address) (opcode : opcodeAt u = 0x60)
    (h : OnStack u (addressBytes stacked)) : ((step isa).run u).state.PC = stacked + 3 := by
  have hholds : Holds stackIndex u.memory.cell u.S
      (Frame.bytes ⟨.jsr, { u with PC := stacked }⟩ ++ []) := by
    simpa [Frame.bytes, OnStack, addressBytes] using h
  obtain ⟨err, t, events, run, hPC, -⟩ :=
    step_return isa ⟨.jsr, { u with PC := stacked }⟩ [] hs opcode hholds
  rw [run]
  exact hPC

/-- `RTI` takes the status byte as it is and resumes one behind the address. -/
theorem state_rti (stacked : Address) (status : Byte) (opcode : opcodeAt u = 0x40)
    (h : OnStack u (status :: addressBytes stacked)) :
    ((step isa).run u).state.PC = stacked + 1 ∧ ((step isa).run u).state.P = .ofByte status := by
  have hholds : Holds stackIndex u.memory.cell u.S
      (Frame.bytes ⟨.brk, { u with PC := stacked, P := .ofByte status }⟩ ++ []) := by
    simpa [Frame.bytes, OnStack, addressBytes, PSR.ofByte, PSR.get] using h
  obtain ⟨err, t, events, run, hPC, -, -, hP⟩ :=
    step_return isa ⟨.brk, { u with PC := stacked, P := .ofByte status }⟩ [] hs opcode hholds
  rw [run]
  exact ⟨hPC, hP rfl⟩

/-- `JSR` leaves its own address. -/
theorem onStack_jsr (opcode : opcodeAt u = 0x20) :
    OnStack ((step isa).run u).state (addressBytes u.PC) := by
  have run := run_step_of_find hs (find_jsr isa opcode) (pointerInside_of_ne u nofun)
    (Execute.run_jsr u (effectiveAddress 0 u .absolute) hs)
  obtain ⟨hS, hmemory⟩ := step_call isa .jsr hs opcode run
  have hlength : (addressBytes u.PC).length ≤ 256 := by simp [addressBytes]
  have hpushed := onStack_pushBytes u hlength
  rw [run, OnStack, hS, hmemory]
  exact hpushed

end Returns

/-- The flags a status byte on the stack restores. -/
def restoredFlags : List PsrBit :=
  [.negative, .overflow, .decimalMode, .interruptDisable, .zero, .carry]

theorem getBit_ofByte (status : Byte) {bit : PsrBit} (h : bit ∈ restoredFlags) :
    (PSR.ofByte status).getBit bit = status.getLsbD bit.index := by
  have hne : bit ≠ .unused := by
    rintro rfl
    simp [restoredFlags] at h
  exact PSR.getBit_eq_stored _ hne

theorem addressBytes_injective {a b : Address} (h : addressBytes a = addressBytes b) : a = b := by
  obtain ⟨hlow, hhigh, -⟩ : a.low = b.low ∧ a.high = b.high ∧ True := by
    simpa [addressBytes] using h
  rw [← Address.ofBytes_low_high a, hlow, hhigh, Address.ofBytes_low_high]

/-- A stack holds one address only. -/
theorem onStack_unique {s : CPU6502} {a b : Address} (h : OnStack s (addressBytes a))
    (h' : OnStack s (addressBytes b)) : a = b := by
  obtain ⟨hlow, hhigh, -⟩ := h
  obtain ⟨hlow', hhigh', -⟩ := h'
  apply addressBytes_injective
  rw [addressBytes, addressBytes, ← hlow, ← hhigh, ← hlow', ← hhigh']

/-- No hand-built frame works as on the processor: with the frame of `target` on the
stack, `RTS` goes two too far and `RTI`, which does restore the flags, one; and no
`JSR` leaves the address of its last byte. -/
theorem hand_built_frames_off (isa : CPU6502ISA) (u : CPU6502) (hs : maxMemory ≤ u.memory.size) :
    (∀ bytes : List Byte, bytes.length ≤ 256 →
      ∃ t events, (pushes bytes).run u = ⟨.ok (), t, events⟩ ∧ OnStack t bytes) ∧
    (∀ target : Address, opcodeAt u = 0x60 → OnStack u (addressBytes (target - 1)) →
      ((step isa).run u).state.PC = target + 2 ∧ ((step isa).run u).state.PC ≠ target) ∧
    (∀ (target : Address) (status : Byte), opcodeAt u = 0x40 →
      OnStack u (status :: addressBytes target) →
        ((step isa).run u).state.PC = target + 1 ∧ ((step isa).run u).state.PC ≠ target ∧
          ∀ bit ∈ restoredFlags,
            ((step isa).run u).state.P.getBit bit = status.getLsbD bit.index) ∧
    (opcodeAt u = 0x20 →
      OnStack ((step isa).run u).state (addressBytes u.PC) ∧
        ¬OnStack ((step isa).run u).state (addressBytes (u.PC + 2))) := by
  refine ⟨fun bytes hlen => ?_, fun target opcode h => ?_, fun target status opcode h => ?_,
    fun opcode => ?_⟩
  · obtain ⟨events, hrun, -⟩ := run_pushes hs bytes
    exact ⟨_, events, hrun, onStack_pushBytes u hlen⟩
  · have hPC := PC_rts isa hs (target - 1) opcode h
    have hsum : target - 1 + 3 = target + 2 := by bv_omega
    rw [hPC, hsum]
    exact ⟨rfl, by bv_omega⟩
  · obtain ⟨hPC, hP⟩ := state_rti isa hs target status opcode h
    rw [hPC, hP]
    exact ⟨rfl, by bv_omega, fun bit hbit => getBit_ofByte status hbit⟩
  · have hjsr := onStack_jsr isa hs opcode
    refine ⟨hjsr, fun h => ?_⟩
    have hPC : u.PC = u.PC + 2 := onStack_unique hjsr h
    bv_omega

/-- `RTS` at address zero, with the bytes of address zero on the stack. -/
def returnsFromZero : CPU6502 :=
  { CPU6502.initial (.ofProgram [0x60]) false with S := 0x10 }

theorem hand_built_frames_off_returnsFromZero :
    ((step isa).run returnsFromZero).state.PC = 3 := by
  obtain ⟨-, hrts, -⟩ := hand_built_frames_off isa returnsFromZero le_rfl
  exact (hrts 1 rfl ⟨rfl, rfl, trivial⟩).1

theorem returnsFromZero_misses_target :
    ¬∀ u : CPU6502, maxMemory ≤ u.memory.size → ∀ target : Address, opcodeAt u = 0x60 →
      OnStack u (addressBytes (target - 1)) → ((step isa).run u).state.PC = target := by
  intro h
  have htarget := h returnsFromZero le_rfl 1 rfl ⟨rfl, rfl, trivial⟩
  have hPC := PC_rts isa (u := returnsFromZero) le_rfl 0 rfl ⟨rfl, rfl, trivial⟩
  rw [hPC] at htarget
  cases htarget

end Sim6502
