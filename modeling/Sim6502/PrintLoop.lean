import Sim6502.ExecuteLoop
import Sim6502.MemoryFrame
import Sim6502.RepeatedEntries

/-!
# The program `hello.s`

The program prints the bytes from `message` on up to a zero. The code loads each
byte through `X`, leaves the loop at the zero, and writes every other byte to the
print device. One round of the loop is five steps and one byte of output.
-/
namespace Sim6502
open EventComputation CPU6502

/-- The code of `hello.s`, assembled for `0x8000`. -/
def helloCode : List Byte :=
  [0xA2, 0x00,        -- start:   ldx #0
   0xBD, 0x0F, 0x80,  -- loop:    lda message,x
   0xF0, 0x07,        --          beq done
   0x8D, 0xFB, 0xFF,  --          PRINT
   0xE8,              --          inx
   0x4C, 0x02, 0x80,  --          jmp loop
   0xDB]              -- done:    stp

/-- The cells from `start` on hold the bytes. -/
def HoldsAt (memory : GPMemory) (start : ℕ) (bytes : List Byte) : Prop :=
  ∀ (i : ℕ) (h : i < bytes.length), memory.cell (start + i) = bytes[i]

instance (memory : GPMemory) (start : ℕ) (bytes : List Byte) :
    Decidable (HoldsAt memory start bytes) :=
  Nat.decidableBallLT bytes.length fun i _ => memory.cell (start + i) = bytes[i]

/-- An image of the program for a message. -/
structure HelloImage (memory : GPMemory) (message : List Byte) : Prop where
  size : memory.size = maxMemory
  device : memory.printDeviceAddr = defaultOutputAddress
  code : HoldsAt memory 0x8000 helloCode
  text : HoldsAt memory 0x800F (message ++ [0])
  vector : HoldsAt memory resetVectorLow [0x00, 0x80]

/-- The image as the program leaves it: only the cell of the device has changed. -/
structure Untouched (image memory : GPMemory) : Prop where
  size : memory.size = image.size
  device : memory.printDeviceAddr = image.printDeviceAddr
  cell : ∀ index, index ≠ 0xFFFB → memory.cell index = image.cell index

/-- What the program looks at of a state. -/
structure View (image : GPMemory) (s : CPU6502) (pc : Address) (a x : Byte) : Prop where
  PC : s.PC = pc
  A : s.A = a
  X : s.X = x
  memory : Untouched image s.memory

/-- The image, read through a memory the program has worked on. -/
theorem HoldsAt.byteAt {image memory : GPMemory} {start : ℕ} {bytes : List Byte}
    (h : HoldsAt image start bytes) (hu : Untouched image memory) {a : Address} (i : ℕ)
    (hi : i < bytes.length) (ha : a.toNat = start + i) (hne : a.toNat ≠ 0xFFFB) :
    memory.byteAt a = bytes[i] := by
  rw [GPMemory.byteAt, hu.cell _ hne, ha, h i hi]

section Steps
variable {isa : CPU6502ISA} {image : GPMemory} {message : List Byte} {s t : CPU6502}
  {pc : Address} {a x c : Byte} {k : ℕ}

theorem Untouched.full (h : Untouched image s.memory) (holds : HelloImage image message) :
    maxMemory ≤ s.memory.size := by
  rw [h.size, holds.size]

/-- One iteration of the loop, for an instruction whose body is known. -/
theorem continues_one (hs : maxMemory ≤ s.memory.size) {instruction : Instruction}
    (find : isa.find (opcodeAt s) = some instruction)
    (hmode : instruction.mode ≠ .absoluteIndirect) {err : InstructionErr} {later : List Event}
    (run : (instruction.execute.execute (effectiveAddress 0 s instruction.mode)).run s =
      ⟨.ok err, t, later⟩) (going : err ≠ .stop) :
    ∃ events, Continues isa 1 s events (advance instruction err t) ∧
      printed events = printed later := by
  have head := run_step_of_find hs find (pointerInside_of_ne s hmode) run
  refine ⟨_, .next (s.memory.lt_size hs s.PC) head going (.refl _), ?_⟩
  simp

/-- A body that leaves `PC` alone: the next instruction is the one behind it. -/
theorem View.falls_through (hs : maxMemory ≤ s.memory.size) {instruction : Instruction}
    (find : isa.find (opcodeAt s) = some instruction)
    (hmode : instruction.mode ≠ .absoluteIndirect) {later : List Event}
    (run : (instruction.execute.execute (effectiveAddress 0 s instruction.mode)).run s =
      ⟨.ok .ok, t, later⟩) (h : View image t pc a x) :
    ∃ u events, Continues isa 1 s events u ∧
      View image u (pc + BitVec.ofNat 16 instruction.bytes) a x ∧ u.P = t.P ∧
      printed events = printed later := by
  obtain ⟨events, hrun, hprinted⟩ := continues_one hs find hmode run (by simp)
  refine ⟨_, events, hrun, ⟨?_, ?_, ?_, ?_⟩, P_advance _ _ _, hprinted⟩
  · rw [advance, if_neg (by simp), h.PC]
  · rw [A_advance, h.A]
  · rw [X_advance, h.X]
  · rw [memory_advance]
    exact h.memory

variable (isa) (holds : HelloImage image message)
include holds

theorem HelloImage.opcodeAt (h : View image s pc a x) (i : ℕ) (hi : i < helloCode.length)
    (hpc : pc.toNat = 0x8000 + i) : Sim6502.opcodeAt s = helloCode[i] := by
  have hlt : i < 15 := hi
  rw [Sim6502.opcodeAt, h.PC]
  exact holds.code.byteAt h.memory i hi hpc (by omega)

theorem HelloImage.find (h : View image s pc a x) (i : ℕ) (hi : i < helloCode.length)
    (hpc : pc.toNat = 0x8000 + i) {instruction : Instruction}
    (mem : (helloCode[i], instruction) ∈ isaEntries) (hne : helloCode[i] ≠ 0xE8) :
    isa.find (Sim6502.opcodeAt s) = some instruction := by
  rw [holds.opcodeAt h i hi hpc]
  exact find_of_mem isa mem hne

/-- The two operand bytes of an instruction of the program. -/
theorem HelloImage.operandWord (h : View image s pc a x) (i : ℕ) (hi : i + 2 < helloCode.length)
    (hpc : pc.toNat = 0x8000 + i) :
    Sim6502.operandWord s = .ofBytes helloCode[i + 1] helloCode[i + 2] := by
  have hlt : i + 2 < 15 := hi
  have hlow : (pc + 1).toNat = 0x8000 + (i + 1) := by bv_omega
  have hhigh : (pc + 2).toNat = 0x8000 + (i + 2) := by bv_omega
  rw [Sim6502.operandWord, h.PC]
  exact congrArg₂ Address.ofBytes (holds.code.byteAt h.memory (i + 1) (by omega) hlow (by omega))
    (holds.code.byteAt h.memory (i + 2) hi hhigh (by omega))

theorem view_ldx (h : View image s 0x8000 a x) :
    ∃ t events, Continues isa 1 s events t ∧ View image t 0x8002 a 0 ∧ printed events = [] := by
  have hs := h.memory.full holds
  have find : isa.find (opcodeAt s) = some ⟨.ldx, .immediate, .ldx⟩ :=
    holds.find isa h 0 (by decide) rfl (by decide +kernel) (by decide)
  have haddress : effectiveAddress 0 s .immediate = 0x8001 := by
    rw [effectiveAddress, h.PC]
    rfl
  have hoperand : s.memory.byteAt 0x8001 = 0 :=
    holds.code.byteAt h.memory 1 (by decide) rfl (by decide)
  have run := Execute.run_ldx s (effectiveAddress 0 s .immediate) hs
  rw [haddress, hoperand] at run
  rw [← haddress] at run
  obtain ⟨t, events, hrun, hview, -, hprinted⟩ :=
    View.falls_through hs find (by simp) run ⟨h.PC, h.A, rfl, h.memory⟩
  exact ⟨t, events, hrun, hview, hprinted⟩

/-- The operand of the load is the byte of the message at `X`. -/
theorem view_lda (h : View image s 0x8002 a (BitVec.ofNat 8 k))
    (hc : image.cell (0x800F + k) = c) (hk : k ≤ 255) :
    ∃ t events, Continues isa 1 s events t ∧ View image t 0x8005 c (BitVec.ofNat 8 k) ∧
      t.P.getBit .zero = (c == 0) ∧ printed events = [] := by
  have hs := h.memory.full holds
  have find : isa.find (opcodeAt s) = some ⟨.lda, .absoluteIndexedX, .lda⟩ :=
    holds.find isa h 2 (by decide) rfl (by decide +kernel) (by decide)
  have hword : operandWord s = 0x800F :=
    (holds.operandWord h 2 (by decide) rfl).trans (by decide)
  have haddress : (effectiveAddress 0 s .absoluteIndexedX).toNat = 0x800F + k := by
    rw [effectiveAddress, hword, h.X, BitVec.toNat_add, BitVec.toNat_setWidth, BitVec.toNat_ofNat]
    have hlow : k % 2 ^ 8 = k := Nat.mod_eq_of_lt (by omega)
    rw [hlow]
    have hbase : (0x800F : Address).toNat = 0x800F := rfl
    omega
  have hoperand : s.memory.byteAt (effectiveAddress 0 s .absoluteIndexedX) = c := by
    rw [GPMemory.byteAt, haddress, h.memory.cell _ (by omega), hc]
  have run := Execute.run_lda s (effectiveAddress 0 s .absoluteIndexedX) hs
  rw [hoperand] at run
  obtain ⟨t, events, hrun, hview, hP, hprinted⟩ :=
    View.falls_through hs find (by simp) run ⟨h.PC, rfl, h.X, h.memory⟩
  refine ⟨t, events, hrun, hview, ?_, hprinted⟩
  rw [hP, PSR.updateFlags]
  simp only [PSR.getBit_setBit_of_ne _ (show PsrBit.negative ≠ .zero by simp),
    PSR.getBit_setBit_self _ (show PsrBit.zero ≠ .unused by simp)]
  rfl

/-- The branch leaves the loop at the zero. -/
theorem view_beq (h : View image s 0x8005 a x) :
    ∃ t events, Continues isa 1 s events t ∧ printed events = [] ∧
      View image t (if s.P.getBit .zero then 0x800E else 0x8007) a x := by
  have hs := h.memory.full holds
  have find : isa.find (opcodeAt s) = some ⟨.beq, .pcRelative, .beq⟩ :=
    holds.find isa h 5 (by decide) rfl (by decide +kernel) (by decide)
  have hoffset : s.memory.byteAt 0x8006 = 0x07 :=
    holds.code.byteAt h.memory 6 (by decide) rfl (by decide)
  have haddress : effectiveAddress 0 s .pcRelative = 0x800E := by
    rw [effectiveAddress, operandByte, h.PC]
    exact congrArg (fun b : Byte => (0x8007 : Address) + b.signExtend 16) hoffset
  have run := Execute.run_branchOn s (effectiveAddress 0 s .pcRelative) .zero true
  rw [haddress] at run
  cases hzero : s.P.getBit .zero
  · rw [hzero] at run
    rw [← haddress] at run
    obtain ⟨t, events, hrun, hview, -, hprinted⟩ :=
      View.falls_through hs find (by simp) run ⟨h.PC, h.A, h.X, h.memory⟩
    exact ⟨t, events, hrun, hprinted, hview⟩
  · rw [hzero, ← haddress] at run
    obtain ⟨events, hrun, hprinted⟩ := continues_one hs find (by simp) run (by simp [branchErr])
    exact ⟨_, events, hrun, hprinted, haddress, h.A, h.X, h.memory⟩

theorem view_sta (h : View image s 0x8007 a x) :
    ∃ t events, Continues isa 1 s events t ∧ View image t 0x800A a x ∧ printed events = [a] := by
  have hs := h.memory.full holds
  have find : isa.find (opcodeAt s) = some ⟨.sta, .absolute, .sta⟩ :=
    holds.find isa h 7 (by decide) rfl (by decide +kernel) (by decide)
  have haddress : effectiveAddress 0 s .absolute = 0xFFFB :=
    (holds.operandWord h 7 (by decide) rfl).trans (by decide)
  have run := Execute.run_sta s (effectiveAddress 0 s .absolute) hs
  have hu : Untouched image (s.memory.updated (effectiveAddress 0 s .absolute) s.A) := by
    refine ⟨h.memory.size, h.memory.device, fun index hne => ?_⟩
    rw [haddress, GPMemory.cell_updated_of_ne _ (by simpa using hne), h.memory.cell index hne]
  obtain ⟨t, events, hrun, hview, -, hprinted⟩ :=
    View.falls_through hs find (by simp) run ⟨h.PC, h.A, h.X, hu⟩
  refine ⟨t, events, hrun, hview, ?_⟩
  have hdevice : (0xFFFB : Address) = s.memory.printDeviceAddr := by
    rw [h.memory.device, holds.device]
    rfl
  rw [hprinted, printed_writeEvents, haddress, if_pos hdevice, h.A]

theorem view_inx (h : View image s 0x800A a (BitVec.ofNat 8 k)) :
    ∃ t events, Continues isa 1 s events t ∧ View image t 0x800B a (BitVec.ofNat 8 (k + 1)) ∧
      printed events = [] := by
  have hs := h.memory.full holds
  have hop : opcodeAt s = 0xE8 := holds.opcodeAt h 10 (by decide) rfl
  have hnext : s.X + 1 = BitVec.ofNat 8 (k + 1) := by
    rw [h.X]
    exact (BitVec.ofNat_add k 1).symm
  rcases find_inx isa with find | find <;> rw [← hop] at find
  · have run := Execute.run_inx s (effectiveAddress 0 s .implied)
    obtain ⟨t, events, hrun, hview, -, hprinted⟩ :=
      View.falls_through hs find (by simp) run ⟨h.PC, h.A, hnext, h.memory⟩
    exact ⟨t, events, hrun, hview, hprinted⟩
  · have run := Execute.run_inxRepeated s (effectiveAddress 0 s .implied)
    obtain ⟨t, events, hrun, hview, -, hprinted⟩ :=
      View.falls_through hs find (by simp) run ⟨h.PC, h.A, hnext, h.memory⟩
    exact ⟨t, events, hrun, hview, hprinted⟩

theorem view_jmp (h : View image s 0x800B a x) :
    ∃ t events, Continues isa 1 s events t ∧ View image t 0x8002 a x ∧ printed events = [] := by
  have hs := h.memory.full holds
  have find : isa.find (opcodeAt s) = some ⟨.jmp, .absolute, .jmp⟩ :=
    holds.find isa h 11 (by decide) rfl (by decide +kernel) (by decide)
  have haddress : effectiveAddress 0 s .absolute = 0x8002 :=
    (holds.operandWord h 11 (by decide) rfl).trans (by decide)
  have run := Execute.run_jump s (effectiveAddress 0 s .absolute)
  obtain ⟨events, hrun, hprinted⟩ := continues_one hs find (by simp) run (by simp)
  exact ⟨_, events, hrun, ⟨haddress, h.A, h.X, h.memory⟩, hprinted⟩

theorem view_stp (h : View image s 0x800E a x) :
    ∃ t events, (step isa).run s = ⟨.ok .stop, t, events⟩ ∧ View image t 0x800F a x ∧
      printed events = [] := by
  have hs := h.memory.full holds
  have find : isa.find (opcodeAt s) = some ⟨.stp, .implied, .stp⟩ :=
    holds.find isa h 14 (by decide) rfl (by decide +kernel) (by decide)
  have run := run_step_of_find hs find (pointerInside_of_ne s (by simp))
    (Execute.run_stp s (effectiveAddress 0 s .implied))
  refine ⟨_, _, run, ⟨?_, ?_, ?_, ?_⟩, by simp⟩
  · rw [advance, if_neg (by simp), h.PC]
    rfl
  · rw [A_advance, h.A]
  · rw [X_advance, h.X]
  · rw [memory_advance]
    exact h.memory

/-! ## The loop -/

/-- One round prints the byte at `X` and counts it. -/
theorem view_round (hlen : message.length ≤ 255) (hbytes : ∀ b ∈ message, b ≠ 0)
    (h : View image s 0x8002 a (BitVec.ofNat 8 k)) (hk : k < message.length) :
    ∃ t events, Continues isa 5 s events t ∧
      View image t 0x8002 message[k] (BitVec.ofNat 8 (k + 1)) ∧ printed events = [message[k]] := by
  have hcell : image.cell (0x800F + k) = message[k] := by
    rw [holds.text k (by simp; omega), List.getElem_append_left hk]
  have hne : message[k] ≠ 0 := hbytes _ (List.getElem_mem hk)
  obtain ⟨s₁, e₁, h₁, v₁, hzero, p₁⟩ := view_lda isa holds h hcell (by omega)
  obtain ⟨s₂, e₂, h₂, p₂, v₂⟩ := view_beq isa holds v₁
  have hgoes : s₁.P.getBit .zero = false := by
    rw [hzero]
    simpa using hne
  rw [hgoes] at v₂
  obtain ⟨s₃, e₃, h₃, v₃, p₃⟩ := view_sta isa holds v₂
  obtain ⟨s₄, e₄, h₄, v₄, p₄⟩ := view_inx isa holds v₃
  obtain ⟨s₅, e₅, h₅, v₅, p₅⟩ := view_jmp isa holds v₄
  refine ⟨s₅, _, h₁.trans (h₂.trans (h₃.trans (h₄.trans h₅))), v₅, ?_⟩
  simp [p₁, p₂, p₃, p₄, p₅]

/-- From the byte `k` on the loop prints the rest of the message. -/
theorem view_loop (hlen : message.length ≤ 255) (hbytes : ∀ b ∈ message, b ≠ 0) (remaining : ℕ)
    (h : View image s 0x8002 a (BitVec.ofNat 8 k)) (hk : k + remaining = message.length) :
    ∃ t events c, Continues isa (5 * remaining) s events t ∧
      View image t 0x8002 c (BitVec.ofNat 8 message.length) ∧
      printed events = message.drop k := by
  induction remaining generalizing s a k with
  | zero =>
    obtain rfl : k = message.length := hk
    exact ⟨s, [], a, .refl s, h, by simp⟩
  | succ remaining ih =>
    have hlt : k < message.length := by omega
    obtain ⟨t, events, hround, hview, hprinted⟩ := view_round isa holds hlen hbytes h hlt
    obtain ⟨u, later, c, hrest, hend, hprinted'⟩ := ih hview (by omega)
    refine ⟨u, _, c, hround.trans hrest, hend, ?_⟩
    rw [printed_append, hprinted, hprinted', List.drop_eq_getElem_cons hlt]
    rfl

/-- The zero behind the message leads to `done`. -/
theorem view_finish (hlen : message.length ≤ 255)
    (h : View image s 0x8002 a (BitVec.ofNat 8 message.length)) :
    ∃ t events, Continues isa 2 s events t ∧
      View image t 0x800E 0 (BitVec.ofNat 8 message.length) ∧ printed events = [] := by
  have hcell : image.cell (0x800F + message.length) = 0 := by
    rw [holds.text message.length (by simp)]
    simp
  obtain ⟨t, events, hrun, hview, hzero, hprinted⟩ := view_lda isa holds h hcell hlen
  obtain ⟨u, later, hrun', hprinted', hview'⟩ := view_beq isa holds hview
  have hleaves : t.P.getBit .zero = true := by rw [hzero]; rfl
  rw [hleaves] at hview'
  exact ⟨u, _, hrun.trans hrun', hview', by simp [hprinted, hprinted']⟩

end Steps

/-- The constructor prints nothing and starts at the reset vector. -/
theorem view_reset (holds : HelloImage image message) (debug : Bool) :
    ∃ s events, reset.run (initial image debug) = ⟨.ok (), s, events⟩ ∧
      View image s 0x8000 0 0 ∧ printed events = [] := by
  have hlow : image.cell resetVectorLow = 0x00 := holds.vector 0 (by decide)
  have hhigh : image.cell resetVectorHigh = 0x80 := holds.vector 1 (by decide)
  have hreadLow : (readIndex resetVectorLow).run (initial image debug) =
      ⟨.ok 0x00, initial image debug, [.read resetVectorLow]⟩ := by
    rw [run_readIndex _ (holds.size.symm ▸ (by decide)), ← hlow]
    rfl
  have hreadHigh : (readIndex resetVectorHigh).run (initial image debug) =
      ⟨.ok 0x80, initial image debug, [.read resetVectorHigh]⟩ := by
    rw [run_readIndex _ (holds.size.symm ▸ (by decide)), ← hhigh]
    rfl
  have hsize : ¬maxMemory < (initial image debug).memory.size := by
    have heq : (initial image debug).memory.size = maxMemory := holds.size
    omega
  refine ⟨{ initial image debug with PC := 0x8000 },
    [.read resetVectorLow, .read resetVectorHigh], ?_,
    ⟨rfl, rfl, rfl, rfl, rfl, fun _ _ => rfl⟩, rfl⟩
  rw [reset, Routine.run_bind_of_ok (Routine.run_get _)]
  simp only [if_neg hsize]
  rw [Routine.run_bind_of_ok hreadLow, Routine.run_bind_of_ok hreadHigh]
  rfl

/-- From the constructor the program prints the message, reaches `STP` with the step
`5n + 4`, and leaves `n` in `X` and the memory as it was but for the device cell. -/
theorem print_loop_prints (isa : CPU6502ISA) (image : GPMemory) (message : List Byte)
    (debug : Bool) (holds : HelloImage image message) (hlen : message.length ≤ 255)
    (hbytes : ∀ b ∈ message, b ≠ 0) :
    ∃ t events,
      (do reset; execute isa (5 * message.length + 4)).run (initial image debug) =
        ⟨.ok true, t, events⟩ ∧
      (∃ s earlier later,
        (do reset; execute isa (5 * message.length + 3)).run (initial image debug) =
          ⟨.ok false, s, earlier⟩ ∧
        (step isa).run s = ⟨.ok .stop, t, later⟩) ∧
      printed events = message ∧ t.X = BitVec.ofNat 8 message.length ∧
      ∀ index, index ≠ 0xFFFB → t.memory.cell index = image.cell index := by
  obtain ⟨s₀, e₀, hreset, v₀, p₀⟩ := view_reset holds debug
  obtain ⟨s₁, e₁, h₁, v₁, p₁⟩ := view_ldx isa holds v₀
  obtain ⟨s₂, e₂, c, h₂, v₂, p₂⟩ :=
    view_loop isa holds hlen hbytes message.length (k := 0) v₁ (Nat.zero_add _)
  obtain ⟨s₃, e₃, h₃, v₃, p₃⟩ := view_finish isa holds hlen v₂
  obtain ⟨t, e₄, hstop, v₄, p₄⟩ := view_stp isa holds v₃
  have hruns : Continues isa (5 * message.length + 3) s₀ (e₁ ++ (e₂ ++ e₃)) s₃ := by
    have hall := h₁.trans (h₂.trans h₃)
    rwa [show 2 + 5 * message.length + 1 = 5 * message.length + 3 by omega] at hall
  have guard := s₃.memory.lt_size (v₃.memory.full holds) s₃.PC
  have hend := hruns.run_execute 1
  rw [run_execute_stop guard hstop 0, Nat.add_comm] at hend
  have hbefore : (do reset; execute isa (5 * message.length + 3)).run (initial image debug) =
      ⟨.ok false, s₃, e₀ ++ (e₁ ++ (e₂ ++ e₃))⟩ := by
    rw [Routine.run_bind_of_ok hreset, hruns.running]
    rfl
  have hrun : (do reset; execute isa (5 * message.length + 4)).run (initial image debug) =
      ⟨.ok true, t, e₀ ++ (e₁ ++ (e₂ ++ e₃) ++ (e₄ ++ [.announce .stpReached]))⟩ := by
    rw [Routine.run_bind_of_ok hreset, hend]
    rfl
  refine ⟨t, _, hrun, ⟨s₃, _, e₄, hbefore, hstop⟩, ?_, v₄.X, v₄.memory.cell⟩
  have hannounce : printed [.announce .stpReached] = [] := rfl
  simp [p₀, p₁, p₂, p₃, p₄, hannounce]

/-- The program with the message `Hi`. -/
def helloHi : GPMemory where
  size := maxMemory
  cell index :=
    if index = resetVectorLow then 0x00
    else if index = resetVectorHigh then 0x80
    else (helloCode ++ [0x48, 0x69, 0]).getD (index - 0x8000) 0
  printDeviceAddr := defaultOutputAddress

theorem print_loop_prints_helloHi :
    ∃ t events, (do reset; execute isa 14).run (initial helloHi false) = ⟨.ok true, t, events⟩ ∧
      printed events = [0x48, 0x69] := by
  have holds : HelloImage helloHi [0x48, 0x69] :=
    ⟨rfl, rfl, by decide, by decide, by decide⟩
  obtain ⟨t, events, hrun, -, hprinted, -⟩ :=
    print_loop_prints isa helloHi [0x48, 0x69] false holds (by decide) (by decide)
  exact ⟨t, events, hrun, hprinted⟩

end Sim6502
