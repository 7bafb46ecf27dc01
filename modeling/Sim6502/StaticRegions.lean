import Sim6502.ExecuteLoop
import Sim6502.MemoryFrame

/-!
# Regions of code that a program does not leave

Where control goes after an instruction and which cells it writes are bounded by its
bytes, whatever the registers hold. A region of addresses is checked when every
instruction in it goes on inside the region and writes no byte of the region's code.
From a checked region no run of `execute` escapes, and it never fails.
-/
namespace Sim6502
open EventComputation CPU6502

/-! ## Control and operands from the bytes of an instruction -/

/-- The ways control leaves an instruction: behind it, there or at the operand address, at
the operand address, at an address that memory holds, or nowhere. -/
inductive Flow where
  | falls | branches | jumps | returns | stops
  deriving DecidableEq

def InstructionBody.flow : InstructionBody → Flow
  | .bbrx _ | .bbsx _ | .bpl | .bmi | .bvc | .bvs | .bcc | .bcs | .bne | .beq => .branches
  | .jsr | .bra | .jmp => .jumps
  | .brk | .rti | .rts => .returns
  | .stp => .stops
  | _ => .falls

/-- What is known of the return code and of `PC` behind a body. -/
def Flow.Allows (pc a : Address) (err : InstructionErr) (next : Address) : Flow → Prop
  | .falls => err ≠ .okPCModified ∧ err ≠ .stop ∧ next = pc
  | .branches => err = .ok ∧ next = pc ∨ err = .okPCModified ∧ next = a
  | .jumps => err = .okPCModified ∧ next = a
  | .returns => err = .okPCModified
  | .stops => err = .stop ∧ next = pc

theorem allows_branch (cpu : CPU6502) (taken : Bool) (a : Address) :
    Flow.branches.Allows cpu.PC a (branchErr taken) (branchTo cpu taken a).PC := by
  cases taken
  · exact .inl ⟨rfl, rfl⟩
  · exact .inr ⟨rfl, rfl⟩

theorem flow_execute (body : InstructionBody) (a : Address) {cpu t : CPU6502}
    {err : InstructionErr} {events : List Event} (hs : maxMemory ≤ cpu.memory.size)
    (run : (body.execute a).run cpu = ⟨.ok err, t, events⟩) :
    body.flow.Allows cpu.PC a err t.PC := by
  have hdbg : (if cpu.debug then InstructionErr.goToDebugger else .ok) ≠ .okPCModified ∧
      (if cpu.debug then InstructionErr.goToDebugger else .ok) ≠ .stop := by
    cases cpu.debug <;> simp
  have hbranch := allows_branch cpu
  unfold Flow.Allows at hbranch
  cases body <;> simp [InstructionBody.execute, hs] at run <;> obtain ⟨rfl, rfl, -⟩ := run <;>
    simp [InstructionBody.flow, Flow.Allows, hdbg, hbranch]

/-- A processor that is about to fetch at an address. -/
def placed (m : GPMemory) (pc : Address) : CPU6502 := { initial m false with PC := pc }

/-- The modes whose operand address is in the bytes of the instruction. -/
def AddressingMode.isStatic : AddressingMode → Bool
  | .absolute | .immediate | .pcRelative | .zeroPage => true
  | _ => false

/-- The addresses that the operand can have. -/
def mayAddress (m : GPMemory) (pc : Address) (mode : AddressingMode) (a : Address) : Bool :=
  match mode with
  | .absolute | .immediate | .pcRelative | .zeroPage =>
    a == effectiveAddress 0 (placed m pc) mode
  | .absoluteIndexedX | .absoluteIndexedY => (a - operandWord (placed m pc)).toNat < 256
  | .zeroPageIndexedX | .zeroPageIndexedY | .accumulator | .stack => a.toNat < 256
  | .implied | .absoluteIndirect | .absoluteIndexedIndirect | .zeroPageIndirect
  | .zeroPageIndexedIndirect | .zeroPageIndirectIndexedY => true

/-- The cells that the instruction at an address can write: its operand, and page zero,
where the stack is. -/
def mayWrite (m : GPMemory) (pc : Address) (instruction : Instruction) (a : Address) : Bool :=
  (instruction.execute.writesOperand && mayAddress m pc instruction.mode a) ||
    (0 < instruction.execute.pushCount && a.toNat < 256)

/-- Where control can go next, if the bytes tell. -/
def successors (m : GPMemory) (pc : Address) (instruction : Instruction) :
    Option (List Address) :=
  let next := pc + BitVec.ofNat 16 instruction.bytes
  let target := effectiveAddress 0 (placed m pc) instruction.mode
  match instruction.execute.flow with
  | .falls => some [next]
  | .branches => if instruction.mode.isStatic then some [next, target] else none
  | .jumps => if instruction.mode.isStatic then some [target] else none
  | .returns => none
  | .stops => some []

/-- The cells of an instruction. -/
def instructionCells (pc : Address) (instruction : Instruction) : List Address :=
  (List.range instruction.bytes).map fun k => pc + BitVec.ofNat 16 k

/-! ## Checked regions -/

section Check
variable (isa : CPU6502ISA) (m : GPMemory) (region : List Address)

/-- The instruction a memory holds at an address. -/
def instructionAt (pc : Address) : Option Instruction := isa.find (m.byteAt pc)

/-- The cells of the instructions of a region. -/
def codeCells : List Address :=
  region.flatMap fun pc => ((instructionAt isa m pc).map (instructionCells pc)).getD []

/-- The cells that instructions of a region can write. -/
def regionWrites (a : Address) : Bool :=
  region.any fun pc => (instructionAt isa m pc).any fun instruction => mayWrite m pc instruction a

def checkPoint (pc : Address) : Bool :=
  match instructionAt isa m pc with
  | none => false
  | some instruction => (successors m pc instruction).any fun targets => targets.all region.contains

/-- Control stays in the region, and no instruction of it writes its code. -/
def checkRegion : Bool :=
  region.all (checkPoint isa m region) &&
    (codeCells isa m region).all fun a => !regionWrites isa m region a

end Check

/-! ## What the bytes of an instruction tell is true -/

section Sound
variable {m : GPMemory} {cpu : CPU6502} {mode : AddressingMode}

/-- The bytes from `PC` on are those of the image. -/
def SameBytes (m : GPMemory) (cpu : CPU6502) (count : ℕ) : Prop :=
  ∀ k < count, cpu.memory.byteAt (cpu.PC + BitVec.ofNat 16 k) =
    m.byteAt (cpu.PC + BitVec.ofNat 16 k)

theorem operandByte_placed {count : ℕ} (h : SameBytes m cpu count) (hcount : 1 < count) :
    operandByte (placed m cpu.PC) = operandByte cpu :=
  (h 1 hcount).symm

theorem operandWord_placed {count : ℕ} (h : SameBytes m cpu count) (hcount : 2 < count) :
    operandWord (placed m cpu.PC) = operandWord cpu :=
  congrArg₂ Address.ofBytes (h 1 (by omega)).symm (h 2 hcount).symm

theorem effectiveAddress_placed (hmode : mode.isStatic)
    (h : SameBytes m cpu (bytesForAddressingMode mode)) :
    effectiveAddress 0 (placed m cpu.PC) mode = effectiveAddress 0 cpu mode := by
  cases mode <;> cases hmode
  case absolute => exact operandWord_placed h (by decide)
  case immediate => rfl
  case pcRelative =>
    rw [effectiveAddress, operandByte_placed h (by decide)]
    rfl
  case zeroPage => rw [effectiveAddress, operandByte_placed h (by decide), effectiveAddress]

theorem toNat_add_byte_sub (a : Address) (b : Byte) : (a + b.setWidth 16 - a).toNat < 256 := by
  have hb := b.isLt
  bv_omega

theorem toNat_ofByte_lt (b : Byte) : (Address.ofByte b).toNat < 256 := by
  rw [Address.toNat_ofByte]
  exact b.isLt

theorem mayAddress_effectiveAddress (h : SameBytes m cpu (bytesForAddressingMode mode)) :
    mayAddress m cpu.PC mode (effectiveAddress 0 cpu mode) = true := by
  cases mode
  case absolute | immediate | pcRelative | zeroPage =>
    exact beq_iff_eq.mpr (effectiveAddress_placed rfl h).symm
  case absoluteIndexedX | absoluteIndexedY =>
    rw [mayAddress, operandWord_placed h (by decide), effectiveAddress]
    exact decide_eq_true (toNat_add_byte_sub _ _)
  case zeroPageIndexedX | zeroPageIndexedY | accumulator | stack =>
    exact decide_eq_true (toNat_ofByte_lt _)
  all_goals rfl

end Sound

/-! ## One step -/

/-- A state in a region whose code is still the one that was checked. -/
structure Within (isa : CPU6502ISA) (m : GPMemory) (region : List Address) (cpu : CPU6502) :
    Prop where
  full : maxMemory ≤ cpu.memory.size
  point : cpu.PC ∈ region
  code : ∀ a ∈ codeCells isa m region, cpu.memory.byteAt a = m.byteAt a

/-- The end of a program that was in a region. -/
def StopsIn (m : GPMemory) (region : List Address) (t : CPU6502) : Prop :=
  ∃ pc ∈ region, m.byteAt pc = 0xDB ∧ t.PC = pc + 1

/-- The indices are those of cells that the region can write. -/
def WritesOf (isa : CPU6502ISA) (m : GPMemory) (region : List Address) (events : List Event) :
    Prop :=
  ∀ index ∈ writtenIndices events, ∃ a, regionWrites isa m region a = true ∧ index = a.toNat

section Step
variable {isa : CPU6502ISA} {m : GPMemory} {region : List Address} {cpu t : CPU6502}
  {instruction : Instruction} {err : InstructionErr} {targets : List Address}
  {events later : List Event}

theorem mem_codeCells {pc : Address} (hpc : pc ∈ region)
    (hat : instructionAt isa m pc = some instruction) {k : ℕ} (hk : k < instruction.bytes) :
    pc + BitVec.ofNat 16 k ∈ codeCells isa m region := by
  refine List.mem_flatMap.mpr ⟨pc, hpc, ?_⟩
  rw [hat]
  exact List.mem_map.mpr ⟨k, List.mem_range.mpr hk, rfl⟩

theorem Within.sameBytes (h : Within isa m region cpu)
    (hat : instructionAt isa m cpu.PC = some instruction) :
    SameBytes m cpu instruction.bytes :=
  fun _ hk => h.code _ (mem_codeCells h.point hat hk)

theorem Within.find (h : Within isa m region cpu)
    (hat : instructionAt isa m cpu.PC = some instruction) :
    isa.find (opcodeAt cpu) = some instruction := by
  have hopcode := h.sameBytes hat 0 (bytes_pos instruction)
  rw [BitVec.add_zero] at hopcode
  rw [opcodeAt, hopcode]
  exact hat

/-- A jump through memory has no successors that are known. -/
theorem ne_absoluteIndirect {opcode : Byte} (hmem : (opcode, instruction) ∈ isaEntries)
    {pc : Address} (hsucc : successors m pc instruction = some targets) :
    instruction.mode ≠ .absoluteIndirect := by
  intro hmode
  rw [successors, execute_of_absoluteIndirect hmem hmode, hmode] at hsucc
  cases hsucc

theorem mem_successors (hbytes : SameBytes m cpu instruction.bytes)
    (hsucc : successors m cpu.PC instruction = some targets)
    (hallows : instruction.execute.flow.Allows cpu.PC (effectiveAddress 0 cpu instruction.mode)
      err t.PC) (going : err ≠ .stop) : (advance instruction err t).PC ∈ targets := by
  unfold successors at hsucc
  unfold advance
  cases hflow : instruction.execute.flow <;> rw [hflow] at hsucc hallows
  case falls =>
    obtain ⟨hne, -, hpc⟩ := hallows
    obtain rfl := Option.some.inj hsucc
    simp [hne, hpc]
  case branches =>
    obtain ⟨hstatic, rfl⟩ : instruction.mode.isStatic ∧ _ = targets := by simpa using hsucc
    have htarget := effectiveAddress_placed hstatic hbytes
    rcases hallows with ⟨rfl, hpc⟩ | ⟨rfl, hpc⟩
    · simp [hpc]
    · rw [if_pos rfl, hpc, ← htarget]
      exact List.mem_cons_of_mem _ List.mem_cons_self
  case jumps =>
    obtain ⟨hstatic, rfl⟩ : instruction.mode.isStatic ∧ _ = targets := by simpa using hsucc
    obtain ⟨rfl, hpc⟩ := hallows
    have htarget := effectiveAddress_placed hstatic hbytes
    rw [if_pos rfl, hpc, ← htarget]
    exact List.mem_cons_self
  case returns => cases hsucc
  case stops => exact absurd hallows.1 going

/-- The opcode of the only body that stops. -/
theorem stp_of_flow {opcode : Byte} (hmem : (opcode, instruction) ∈ isaEntries)
    (hflow : instruction.execute.flow = .stops) : opcode = 0xDB ∧ instruction.bytes = 1 := by
  have hall : ∀ e ∈ isaEntries, e.2.execute.flow = .stops → e.1 = 0xDB ∧ e.2.bytes = 1 := by
    decide +kernel
  exact hall _ hmem hflow

theorem stopsIn_of_allows (hpoint : cpu.PC ∈ region)
    (hat : instructionAt isa m cpu.PC = some instruction)
    (hallows : instruction.execute.flow.Allows cpu.PC (effectiveAddress 0 cpu instruction.mode)
      .stop t.PC) : StopsIn m region (advance instruction .stop t) := by
  cases hflow : instruction.execute.flow <;> rw [hflow] at hallows
  case falls => exact absurd rfl hallows.2.1
  case branches => rcases hallows with ⟨h, -⟩ | ⟨h, -⟩ <;> cases h
  case jumps => cases hallows.1
  case returns => cases hallows
  case stops =>
    obtain ⟨hopcode, hlength⟩ := stp_of_flow (isa.find_mem hat) hflow
    refine ⟨cpu.PC, hpoint, hopcode, ?_⟩
    rw [advance, if_neg (by simp), hallows.2, hlength]
    rfl

theorem writesOf_execute (hs : maxMemory ≤ cpu.memory.size) (hpoint : cpu.PC ∈ region)
    (hat : instructionAt isa m cpu.PC = some instruction)
    (hbytes : SameBytes m cpu instruction.bytes)
    (run : (instruction.execute.execute (effectiveAddress 0 cpu instruction.mode)).run cpu =
      ⟨.ok err, t, events⟩) : WritesOf isa m region events := by
  have hwritten := writtenIndices_execute instruction.execute
    (effectiveAddress 0 cpu instruction.mode) hs
  have hregion {a : Address} (ha : mayWrite m cpu.PC instruction a = true) :
      regionWrites isa m region a = true :=
    List.any_eq_true.mpr ⟨cpu.PC, hpoint, by rw [hat]; exact ha⟩
  intro index hindex
  rw [run] at hwritten
  rw [hwritten, List.mem_append] at hindex
  rcases hindex with hoperand | hpush
  · by_cases hwrites : instruction.execute.writesOperand
    · rw [if_pos hwrites, List.mem_singleton] at hoperand
      refine ⟨_, hregion ?_, hoperand⟩
      rw [mayWrite, hwrites, mayAddress_effectiveAddress hbytes]
      rfl
    · simp [hwrites] at hoperand
  · obtain ⟨k, hk, rfl⟩ := List.mem_map.mp hpush
    have hcount : 0 < instruction.execute.pushCount := by
      have hlt := List.mem_range.mp hk
      omega
    have hzeroPage : (pushCell cpu k).toNat < 256 := toNat_ofByte_lt _
    refine ⟨pushCell cpu k, hregion ?_, rfl⟩
    rw [mayWrite, decide_eq_true hcount, decide_eq_true hzeroPage, Bool.and_self, Bool.or_true]

theorem code_of_writesOf (hs : maxMemory ≤ cpu.memory.size)
    (check : checkRegion isa m region = true)
    (code : ∀ a ∈ codeCells isa m region, cpu.memory.byteAt a = m.byteAt a)
    {r : Except Fault InstructionErr} (run : (step isa).run cpu = ⟨r, t, events⟩)
    (hwrites : WritesOf isa m region events) :
    ∀ a ∈ codeCells isa m region, t.memory.byteAt a = m.byteAt a := by
  intro a ha
  have hlaw := memoryLaw_step isa hs
  rw [run] at hlaw
  have hkept : regionWrites isa m region a = false := by
    simpa using List.all_eq_true.mp ((Bool.and_eq_true _ _).mp check).2 a ha
  have hnone : writtenTo a.toNat events = [] := by
    by_contra hne
    obtain ⟨b, hb, hindex⟩ := hwrites _ (mem_writtenIndices hne)
    rw [BitVec.eq_of_toNat_eq hindex, hb] at hkept
    cases hkept
  rw [GPMemory.byteAt, hlaw.cell, hnone]
  exact code a ha

/-- A step in a checked region comes to its end, writes what the region can write, and
leaves the state in the region or at the end of the program. -/
theorem Within.run_step (h : Within isa m region cpu) (check : checkRegion isa m region = true) :
    ∃ err t events, (step isa).run cpu = ⟨.ok err, t, events⟩ ∧ WritesOf isa m region events ∧
      (err = .stop → StopsIn m region t) ∧
      if err = .stop then ∀ a ∈ codeCells isa m region, t.memory.byteAt a = m.byteAt a
      else Within isa m region t := by
  have hpoint := List.all_eq_true.mp ((Bool.and_eq_true _ _).mp check).1 cpu.PC h.point
  unfold checkPoint at hpoint
  cases hat : instructionAt isa m cpu.PC with
  | none => simp [hat] at hpoint
  | some instruction =>
    rw [hat] at hpoint
    obtain ⟨targets, hsucc, htargets⟩ := (Option.any_eq_true _ _).mp hpoint
    have hbytes := h.sameBytes hat
    have hmode := ne_absoluteIndirect (isa.find_mem hat) hsucc
    obtain ⟨err, herr⟩ := result_execute instruction.execute
      (effectiveAddress 0 cpu instruction.mode) h.full
    rcases run : (instruction.execute.execute (effectiveAddress 0 cpu instruction.mode)).run cpu
      with ⟨r, t, later⟩
    rw [run] at herr
    subst herr
    have hallows := flow_execute _ _ h.full run
    have head := run_step_of_find h.full (h.find hat) (pointerInside_of_ne cpu hmode) run
    have hwrites : WritesOf isa m region (lookupEvents cpu instruction ++
        (decodeEvents 0 cpu instruction.mode ++ later)) := by
      intro index hindex
      apply writesOf_execute h.full h.point hat hbytes run index
      simpa using hindex
    have hcode := code_of_writesOf h.full check h.code head hwrites
    refine ⟨err, _, _, head, hwrites, ?_, ?_⟩
    · rintro rfl
      exact stopsIn_of_allows h.point hat hallows
    · by_cases hstop : err = .stop
      · rw [if_pos hstop]
        exact hcode
      · rw [if_neg hstop]
        have hnext := mem_successors hbytes hsucc hallows hstop
        have hregion := List.all_eq_true.mp htargets _ hnext
        exact ⟨full_step h.full head, by simpa using hregion, hcode⟩

end Step

/-! ## A whole run -/

theorem WritesOf.append {isa : CPU6502ISA} {m : GPMemory} {region : List Address}
    {events later : List Event} (h : WritesOf isa m region events)
    (h' : WritesOf isa m region later) : WritesOf isa m region (events ++ later) := by
  intro index hindex
  rw [writtenIndices_append, List.mem_append] at hindex
  exact hindex.elim (h index) (h' index)

/-- From any state in a checked region `execute` never fails. After any number of
iterations it is in the region, or has returned behind an `STP` of the region; the code is
as it was, and what was written is what instructions of the region can write. -/
theorem checked_region_is_kept (isa : CPU6502ISA) (m : GPMemory) (region : List Address)
    (check : checkRegion isa m region = true) (cpu : CPU6502) (h : Within isa m region cpu)
    (n : ℕ) :
    ∃ returned t events, (execute isa n).run cpu = ⟨.ok returned, t, events⟩ ∧
      (if returned then StopsIn m region t else t.PC ∈ region) ∧
      (∀ a ∈ codeCells isa m region, t.memory.byteAt a = m.byteAt a) ∧
      WritesOf isa m region events := by
  induction n generalizing cpu with
  | zero => exact ⟨false, cpu, [], rfl, h.point, h.code, by simp [WritesOf]⟩
  | succ n ih =>
    have guard := cpu.memory.lt_size h.full cpu.PC
    obtain ⟨err, t, events, head, hwrites, hstops, hnext⟩ := h.run_step check
    by_cases hstop : err = .stop
    · subst hstop
      refine ⟨true, t, _, run_execute_stop guard head n, hstops rfl, hnext, ?_⟩
      exact hwrites.append (by simp [WritesOf, writtenIndices])
    · rw [if_neg hstop] at hnext
      obtain ⟨returned, u, later, hrun, hends, hcode, hlater⟩ := ih t hnext
      refine ⟨returned, u, events ++ later, ?_, hends, hcode, hwrites.append hlater⟩
      rw [run_execute_next guard head hstop, hrun]
      rfl

/-- A loop that counts `X` down, stores it at `$0200` and stops. -/
def countsDown : GPMemory :=
  .ofProgram [0x8E, 0x00, 0x02,  -- loop: stx $0200
    0xCA,                        --       dex
    0xD0, 0xFA,                  --       bne loop
    0xDB]                        --       stp

/-- A thousand iterations, without running them. -/
theorem checked_region_is_kept_countsDown :
    ∃ returned t events, (execute isa 1000).run (placed countsDown 0) =
        ⟨.ok returned, t, events⟩ ∧
      (if returned then StopsIn countsDown [0, 3, 4, 6] t else t.PC ∈ [0, 3, 4, 6]) ∧
      ∀ a ∈ codeCells isa countsDown [0, 3, 4, 6], t.memory.byteAt a = countsDown.byteAt a := by
  have check : checkRegion isa countsDown [0, 3, 4, 6] = true := by decide +kernel
  obtain ⟨returned, t, events, hrun, hends, hcode, -⟩ := checked_region_is_kept isa countsDown
    [0, 3, 4, 6] check (placed countsDown 0) ⟨le_rfl, List.mem_cons_self, fun _ _ => rfl⟩ 1000
  exact ⟨returned, t, events, hrun, hends, hcode⟩

end Sim6502
