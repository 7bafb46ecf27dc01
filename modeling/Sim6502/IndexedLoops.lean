import Sim6502.CountedLoops

/-!
# Loops over memory

A counted loop that stores through the counting register goes through a block of up to 256
cells. It can store the accumulator each time, or what it loads from another block, which may
overlap the first one as long as no cell is written before it is read.
-/
namespace Sim6502
open EventComputation CPU6502 TimedTriples WrappingStack

/-! ## The code of the loops -/

namespace Counter

/-- Absolute addressing through the register that counts. -/
def mode : Counter → AddressingMode
  | dex | inx => .absoluteIndexedX
  | dey | iny => .absoluteIndexedY

def storeOpcode : Counter → Byte
  | dex | inx => 0x9D
  | dey | iny => 0x99

def loadOpcode : Counter → Byte
  | dex | inx => 0xBD
  | dey | iny => 0xB9

/-- `loop: STA base,r`, the counter, `BNE loop`. -/
def fillCode (base : Address) (c : Counter) : List Byte :=
  [c.storeOpcode, base.low, base.high, c.opcode, 0xD0, 0xFA]

/-- `loop: LDA source,r`, `STA target,r`, the counter, `BNE loop`. -/
def copyCode (source target : Address) (c : Counter) : List Byte :=
  [c.loadOpcode, source.low, source.high, c.storeOpcode, target.low, target.high, c.opcode, 0xD0,
    0xF7]

/-- The values that a register goes through from a value on, zero only at the start. -/
def Visits (v b : Byte) : Counter → Prop
  | dex | dey => v = 0 ∨ b ≠ 0 ∧ b ≤ v
  | inx | iny => v ≤ b

instance (v b : Byte) : (c : Counter) → Decidable (c.Visits v b)
  | dex | dey => inferInstanceAs (Decidable (_ ∨ _))
  | inx | iny => inferInstanceAs (Decidable (_ ≤ _))

theorem visits_iff (c : Counter) (v b : Byte) :
    c.Visits v b ↔ ∃ k < c.rounds v, c.after v k = b := by
  have hv := v.isLt
  have hb := b.isLt
  constructor
  · intro h
    cases c with
    | dex | dey =>
      refine ⟨(v.toNat + 256 - b.toNat) % 256, ?_, ?_⟩
      · rcases h with rfl | ⟨hne, hle⟩
        · exact Nat.mod_lt _ (by decide)
        · have hvne : v ≠ 0 := by bv_omega
          simp only [rounds, if_neg hvne]
          bv_omega
      · apply BitVec.eq_of_toNat_eq
        simp only [after, BitVec.toNat_sub, BitVec.toNat_ofNat]
        omega
    | inx | iny =>
      have hle : v.toNat ≤ b.toNat := h
      refine ⟨b.toNat - v.toNat, ?_, ?_⟩
      · simp only [rounds]
        omega
      · apply BitVec.eq_of_toNat_eq
        simp only [after, BitVec.toNat_add, BitVec.toNat_ofNat]
        omega
  · rintro ⟨k, hk, rfl⟩
    cases c with
    | dex | dey =>
      by_cases hzero : v = 0
      · exact .inl hzero
      · simp only [rounds, if_neg hzero] at hk
        refine .inr ⟨fun h => ?_, ?_⟩
        · have hnat := congrArg BitVec.toNat h
          simp only [after, BitVec.toNat_sub, BitVec.toNat_ofNat, BitVec.reduceToNat] at hnat
          omega
        · simp only [after, BitVec.le_def, BitVec.toNat_sub, BitVec.toNat_ofNat]
          omega
    | inx | iny =>
      simp only [rounds] at hk
      simp only [Visits, after, BitVec.le_def, BitVec.toNat_add, BitVec.toNat_ofNat]
      omega

end Counter

/-- The cell of a block that a register selects. -/
def indexed (base : Address) (b : Byte) : Address := base + b.setWidth 16

theorem indexed_injective (base : Address) : Function.Injective (indexed base) := by
  intro a b h
  have hnat := congrArg BitVec.toNat h
  simp only [indexed, BitVec.toNat_add, BitVec.toNat_setWidth] at hnat
  bv_omega

/-! ## The steps of a round -/

section Steps
variable {isa : CPU6502ISA} {c : Counter} {s : CPU6502} {base : Address}

theorem effectiveAddress_mode (hword : operandWord s = base) :
    effectiveAddress 0 s c.mode = indexed base (c.read s) := by
  rw [← hword]
  cases c <;> rfl

variable (hs : maxMemory ≤ s.memory.size) (hword : operandWord s = base)
include hs hword

theorem moves_store (hop : opcodeAt s = c.storeOpcode) :
    Moves isa s { s with
      memory := s.memory.updated (indexed base (c.read s)) s.A, PC := s.PC + 3 } := by
  have hmem : (c.storeOpcode, (⟨.sta, c.mode, .sta⟩ : Instruction)) ∈ isaEntries := by
    cases c <;> decide +kernel
  have hne : c.storeOpcode ≠ 0xE8 := by cases c <;> decide
  have find : isa.find (opcodeAt s) = some ⟨.sta, c.mode, .sta⟩ := hop ▸ find_of_mem isa hmem hne
  have hmode : c.mode ≠ .absoluteIndirect := by cases c <;> simp [Counter.mode]
  have hbytes : bytesForAddressingMode c.mode = 3 := by cases c <;> rfl
  have run := Execute.run_sta s (effectiveAddress 0 s c.mode) hs
  have hstep := moves_of_ok hs find hmode run
  rwa [effectiveAddress_mode hword, Instruction.bytes, hbytes] at hstep

theorem moves_load (hop : opcodeAt s = c.loadOpcode) :
    Moves isa s { s with
      A := s.memory.byteAt (indexed base (c.read s))
      P := s.P.updateFlags (s.memory.byteAt (indexed base (c.read s))), PC := s.PC + 3 } := by
  have hmem : (c.loadOpcode, (⟨.lda, c.mode, .lda⟩ : Instruction)) ∈ isaEntries := by
    cases c <;> decide +kernel
  have hne : c.loadOpcode ≠ 0xE8 := by cases c <;> decide
  have find : isa.find (opcodeAt s) = some ⟨.lda, c.mode, .lda⟩ := hop ▸ find_of_mem isa hmem hne
  have hmode : c.mode ≠ .absoluteIndirect := by cases c <;> simp [Counter.mode]
  have hbytes : bytesForAddressingMode c.mode = 3 := by cases c <;> rfl
  have run := Execute.run_lda s (effectiveAddress 0 s c.mode) hs
  have hstep := moves_of_ok hs find hmode run
  rwa [effectiveAddress_mode hword, Instruction.bytes, hbytes] at hstep

end Steps

/-- The end of a loop in its code. -/
theorem closesLoop_of_code {c : Counter} {s : CPU6502} {p : Address} {d : Byte} (body : List Byte)
    (hs : maxMemory ≤ s.memory.size) (code : CodeAt s.memory p (body ++ [c.opcode, 0xD0, d]))
    (hPC : s.PC = p + BitVec.ofNat 16 body.length)
    (hd : BitVec.ofNat 16 body.length + 3 + d.signExtend 16 = 0) : ClosesLoop c p s := by
  obtain ⟨-, hcounter, hbranch, hdisplacement, -⟩ := holds_append.mp code
  rw [← hPC] at hcounter hbranch hdisplacement
  have hlast : s.PC + 1 + 1 = s.PC + 2 := by
    rw [BitVec.add_assoc]
    rfl
  rw [hlast] at hdisplacement
  have hbyte : s.memory.byteAt (s.PC + 2) = d := hdisplacement
  refine ⟨hs, hcounter, hbranch, ?_⟩
  rw [hbyte, hPC, BitVec.add_assoc p, BitVec.add_assoc p, hd]
  exact BitVec.add_zero p

/-- The operand word of an instruction in its code. -/
theorem operandWord_of_code {s : CPU6502} {opcode : Byte} {word : Address} {later : List Byte}
    (code : CodeAt s.memory s.PC (opcode :: word.low :: word.high :: later)) :
    opcodeAt s = opcode ∧ operandWord s = word := by
  have hlow : s.memory.byteAt (s.PC + 1) = word.low := code.getElem 1 (by simp)
  have hhigh : s.memory.byteAt (s.PC + 2) = word.high := code.getElem 2 (by simp)
  refine ⟨code.1, ?_⟩
  rw [operandWord, hlow, hhigh, Address.ofBytes_low_high]

/-! ## What a loop leaves -/

/-- A loop of loads and stores leaves the rest of the processor as it was. -/
structure LoopFrame (c : Counter) (s t : CPU6502) : Prop where
  other : c.other t = c.other s
  S : t.S = s.S
  size : t.memory.size = s.memory.size
  flags : ∀ bit ∉ [PsrBit.zero, .negative], (bit = .carry → c = .dex) →
    t.P.stored bit = s.P.stored bit

/-- A loop has written the first `k` cells of its block, and no others. -/
structure Written (c : Counter) (v : Byte) (base : Address) (value : ℕ → Byte) (s : CPU6502)
    (k : ℕ) (t : CPU6502) : Prop where
  frame : LoopFrame c s t
  cells : ∀ j < k, t.memory.byteAt (indexed base (c.after v j)) = value j
  kept : ∀ index, (∀ j < k, index ≠ (indexed base (c.after v j)).toNat) →
    t.memory.cell index = s.memory.cell index

section Written
variable {c : Counter} {v : Byte} {base : Address} {value : ℕ → Byte} {s t u : CPU6502} {k : ℕ}

theorem LoopFrame.refl : LoopFrame c s s := ⟨rfl, rfl, rfl, fun _ _ _ => rfl⟩

theorem LoopFrame.trans (h : LoopFrame c s t) (h' : LoopFrame c t u) : LoopFrame c s u where
  other := h'.other.trans h.other
  S := h'.S.trans h.S
  size := h'.size.trans h.size
  flags bit hbit hdex := (h'.flags bit hbit hdex).trans (h.flags bit hbit hdex)

theorem LoopFrame.stored (a : Address) (b : Byte) (p : Address) :
    LoopFrame c t { t with memory := t.memory.updated a b, PC := p } :=
  ⟨by cases c <;> rfl, rfl, rfl, fun _ _ _ => rfl⟩

theorem LoopFrame.loaded (b : Byte) (p : Address) :
    LoopFrame c t { t with A := b, P := t.P.updateFlags b, PC := p } := by
  refine ⟨by cases c <;> rfl, rfl, rfl, fun bit hbit _ => ?_⟩
  rw [List.mem_pair, not_or] at hbit
  exact PSR.stored_updateFlags_frame t.P hbit.1 hbit.2 b

theorem Counted.frame (h : Counted c s t) : LoopFrame c s t where
  other := h.other
  S := h.S
  size := congrArg GPMemory.size h.memory
  flags bit hbit hdex := by
    apply h.flags bit hbit
    intro hcarry
    obtain rfl := hdex hcarry
    rfl

theorem Written.zero : Written c v base value s 0 s :=
  ⟨.refl, fun _ hj => absurd hj (Nat.not_lt_zero _), fun _ _ => rfl⟩

/-- A step that writes no memory. -/
theorem Written.keep (h : Written c v base value s k t) (frame : LoopFrame c t u)
    (hmemory : u.memory = t.memory) : Written c v base value s k u where
  frame := h.frame.trans frame
  cells j hj := by
    rw [hmemory]
    exact h.cells j hj
  kept index hindex := by
    rw [hmemory]
    exact h.kept index hindex

/-- The store of a round writes the next cell. -/
theorem Written.store (h : Written c v base value s k t) (hk : k < c.rounds v)
    (frame : LoopFrame c t u)
    (hmemory : u.memory = t.memory.updated (indexed base (c.after v k)) (value k)) :
    Written c v base value s (k + 1) u where
  frame := h.frame.trans frame
  cells j hj := by
    rw [hmemory, GPMemory.byteAt_updated]
    rcases Nat.lt_succ_iff_lt_or_eq.mp hj with hlt | rfl
    · have hne : indexed base (c.after v j) ≠ indexed base (c.after v k) := fun heq =>
        hlt.ne (c.after_injOn v (hlt.trans hk) hk (indexed_injective base heq))
      rw [if_neg hne]
      exact h.cells j hlt
    · rw [if_pos rfl]
  kept index hindex := by
    rw [hmemory, GPMemory.cell_updated_of_ne _ (hindex k (Nat.lt_succ_self k))]
    exact h.kept index fun j hj => hindex j (Nat.lt_succ_of_lt hj)

/-- Code outside the block stays what it is. -/
theorem Written.code (h : Written c v base value s k t) {p : Address} {code : List Byte}
    (hcode : CodeAt s.memory p code)
    (apart : ∀ j < k, ¬Live BitVec.toNat p code.length (indexed base (c.after v j)).toNat) :
    CodeAt t.memory p code := by
  apply hcode.congr
  intro index hlive
  apply h.kept
  rintro j hj rfl
  exact apart j hj hlive

end Written

/-! ## Filling a block -/

section Fill
variable {isa : CPU6502ISA} {c : Counter} {s : CPU6502} {base : Address}
  (hs : maxMemory ≤ s.memory.size) (code : CodeAt s.memory s.PC (c.fillCode base))
  (apart : ∀ j < c.rounds (c.read s),
    ¬Live BitVec.toNat s.PC 6 (indexed base (c.after (c.read s) j)).toNat)
include hs code apart

theorem fill_body {k : ℕ} (hk : k < c.rounds (c.read s)) :
    Triple (Moves isa) 1
      (fun t => t.PC = s.PC ∧ c.read t = c.after (c.read s) k ∧
        Written c (c.read s) base (fun _ => s.A) s k t ∧ t.A = s.A)
      (fun t => t.PC = s.PC + 3 ∧ c.read t = c.after (c.read s) k ∧ ClosesLoop c s.PC t ∧
        Written c (c.read s) base (fun _ => s.A) s (k + 1) t ∧ t.A = s.A) := by
  apply Triple.step
  rintro t ⟨hPC, hread, hwritten, hA⟩
  have hfull : maxMemory ≤ t.memory.size := by
    rw [hwritten.frame.size]
    exact hs
  have hcode : CodeAt t.memory t.PC (c.fillCode base) := by
    rw [hPC]
    exact hwritten.code code fun j hj => apart j (hj.trans hk)
  obtain ⟨hop, hword⟩ := operandWord_of_code hcode
  have hstored := hwritten.store hk (.stored (indexed base (c.read t)) t.A (t.PC + 3))
    (by rw [hread, hA])
  refine ⟨_, moves_store hfull hword hop, by rw [hPC], ?_, ?_, hstored, hA⟩
  · rw [← hread]
    cases c <;> rfl
  · have hlater := hstored.code code fun j hj => apart j (Nat.lt_of_lt_of_le hj hk)
    have hback : (3 : Address) + 3 + (0xFA : Byte).signExtend 16 = 0 := by decide
    exact closesLoop_of_code [c.storeOpcode, base.low, base.high] hfull hlater
      (congrArg (· + 3) hPC) hback

end Fill

/-- `STA base,r`, a counter and `BNE` fill the cells that the register goes through, in three
steps each, and change nothing else but the register and the flags `N` and `Z`, and the
carry where the counter wraps. -/
theorem fill_loop (isa : CPU6502ISA) (c : Counter) (s : CPU6502) (base : Address)
    (hs : maxMemory ≤ s.memory.size) (code : CodeAt s.memory s.PC (c.fillCode base))
    (apart : ∀ b, c.Visits (c.read s) b → ¬Live BitVec.toNat s.PC 6 (indexed base b).toNat) :
    ∃ t events, Continues isa (3 * c.rounds (c.read s)) s events t ∧
      t.PC = s.PC + 6 ∧ c.read t = 0 ∧ t.A = s.A ∧ LoopFrame c s t ∧
      (∀ b, c.Visits (c.read s) b → t.memory.byteAt (indexed base b) = s.A) ∧
      ∀ index, (∀ b, c.Visits (c.read s) b → index ≠ (indexed base b).toNat) →
        t.memory.cell index = s.memory.cell index := by
  have hapart : ∀ j < c.rounds (c.read s),
      ¬Live BitVec.toNat s.PC 6 (indexed base (c.after (c.read s) j)).toNat := fun j hj =>
    apart _ ((c.visits_iff _ _).mpr ⟨j, hj, rfl⟩)
  obtain ⟨t, hrun, hPC, hread, hwritten, hA⟩ :=
    counted_rounds isa c s.PC (s.PC + 3) (c.read s) (fun _ => 1) _ _
      (fun k hk => fill_body hs code hapart hk)
      (fun k _ t u hJ hcounted =>
        ⟨hJ.1.keep hcounted.frame hcounted.memory, hcounted.A.trans hJ.2⟩)
      s ⟨rfl, rfl, .zero, rfl⟩
  have htime : ∑ k ∈ Finset.range (c.rounds (c.read s)), (1 + 2) = 3 * c.rounds (c.read s) := by
    rw [Finset.sum_const, Finset.card_range, nsmul_eq_mul, Nat.cast_id, Nat.mul_comm]
  rw [htime] at hrun
  obtain ⟨events, hcontinues⟩ := continues_of_reaches hrun
  refine ⟨t, events, hcontinues, ?_, hread, hA, hwritten.frame, fun b hb => ?_,
    fun index hindex => ?_⟩
  · rw [hPC, BitVec.add_assoc]
    rfl
  · obtain ⟨j, hj, rfl⟩ := (c.visits_iff _ _).mp hb
    exact hwritten.cells j hj
  · apply hwritten.kept
    intro j hj
    exact hindex _ ((c.visits_iff _ _).mpr ⟨j, hj, rfl⟩)

/-- A block that starts behind the code does not reach it. -/
theorem not_live_low {base : Address} {n : ℕ} (h : n ≤ base.toNat ∧ base.toNat ≤ 0xFF00)
    (b : Byte) : ¬Live BitVec.toNat (0 : Address) n (indexed base b).toNat := by
  rintro ⟨i, hi, heq⟩
  simp only [indexed, BitVec.toNat_add, BitVec.toNat_setWidth, BitVec.toNat_ofNat,
    BitVec.reduceToNat] at heq
  have hb := b.isLt
  omega

/-- `STA $1000,X` over three cells. -/
def fillsThree : CPU6502 :=
  { CPU6502.initial (.ofProgram [0x9D, 0x00, 0x10, 0xCA, 0xD0, 0xFA]) false with
    A := 0x7E, X := 3 }

theorem fill_loop_fillsThree :
    ∃ t events, Continues isa 9 fillsThree events t ∧ t.PC = 6 ∧
      t.memory.byteAt 0x1001 = 0x7E ∧ t.memory.byteAt 0x1003 = 0x7E ∧
      t.memory.byteAt 0x1000 = 0 := by
  have code : CodeAt fillsThree.memory fillsThree.PC (Counter.fillCode 0x1000 .dex) :=
    ⟨rfl, rfl, rfl, rfl, rfl, rfl, trivial⟩
  have apart (b : Byte) (_ : Counter.dex.Visits 3 b) :
      ¬Live BitVec.toNat fillsThree.PC 6 (indexed 0x1000 b).toNat := by
    have hPC : fillsThree.PC = 0 := rfl
    rw [hPC]
    exact not_live_low (by decide) b
  obtain ⟨t, events, hrun, hPC, -, -, -, hcells, hkept⟩ :=
    fill_loop isa .dex fillsThree 0x1000 le_rfl code apart
  have hzero : ∀ b, Counter.dex.Visits 3 b → 0x1000 ≠ (indexed 0x1000 b).toNat := by
    decide +kernel
  exact ⟨t, events, hrun, hPC, hcells 1 (by decide), hcells 3 (by decide), hkept 0x1000 hzero⟩

/-! ## Copying a block -/

section Copy
variable {isa : CPU6502ISA} {c : Counter} {s : CPU6502} {source target : Address}
  (hs : maxMemory ≤ s.memory.size) (code : CodeAt s.memory s.PC (c.copyCode source target))
  (apart : ∀ j < c.rounds (c.read s),
    ¬Live BitVec.toNat s.PC 9 (indexed target (c.after (c.read s) j)).toNat)
  (unread : ∀ j < c.rounds (c.read s), ∀ i < j,
    indexed source (c.after (c.read s) j) ≠ indexed target (c.after (c.read s) i))
include hs code apart unread

theorem copy_body {k : ℕ} (hk : k < c.rounds (c.read s)) :
    Triple (Moves isa) 2
      (fun t => t.PC = s.PC ∧ c.read t = c.after (c.read s) k ∧
        Written c (c.read s) target
          (fun j => s.memory.byteAt (indexed source (c.after (c.read s) j))) s k t)
      (fun t => t.PC = s.PC + 6 ∧ c.read t = c.after (c.read s) k ∧ ClosesLoop c s.PC t ∧
        Written c (c.read s) target
          (fun j => s.memory.byteAt (indexed source (c.after (c.read s) j))) s (k + 1) t ∧
        t.A = s.memory.byteAt (indexed source (c.after (c.read s) k))) := by
  rintro t ⟨hPC, hread, hwritten⟩
  have hfull : maxMemory ≤ t.memory.size := by
    rw [hwritten.frame.size]
    exact hs
  have hcode : CodeAt t.memory s.PC (c.copyCode source target) :=
    hwritten.code code fun j hj => apart j (hj.trans hk)
  have hload : CodeAt t.memory t.PC (c.copyCode source target) := by rwa [hPC]
  obtain ⟨hop, hword⟩ := operandWord_of_code hload
  -- no earlier round has written the cell
  have hbyte : t.memory.byteAt (indexed source (c.read t)) =
      s.memory.byteAt (indexed source (c.after (c.read s) k)) := by
    rw [hread]
    apply hwritten.kept
    intro j hj heq
    exact unread k hk j hj (BitVec.eq_of_toNat_eq heq)
  have hfirst := @moves_load isa c t source hfull hword hop
  rw [hbyte] at hfirst
  generalize hu : { t with
    A := s.memory.byteAt (indexed source (c.after (c.read s) k))
    P := t.P.updateFlags (s.memory.byteAt (indexed source (c.after (c.read s) k)))
    PC := t.PC + 3 : CPU6502 } = u at hfirst
  have hmemory : u.memory = t.memory := by rw [← hu]
  have hA : u.A = s.memory.byteAt (indexed source (c.after (c.read s) k)) := by rw [← hu]
  have hPC' : u.PC = s.PC + 3 := by rw [← hu, hPC]
  have hread' : c.read u = c.after (c.read s) k := by
    rw [← hread, ← hu]
    cases c <;> rfl
  have hloaded : Written c (c.read s) target
      (fun j => s.memory.byteAt (indexed source (c.after (c.read s) j))) s k u := by
    refine hwritten.keep ?_ hmemory
    rw [← hu]
    exact .loaded _ _
  have hstore : CodeAt u.memory u.PC (c.storeOpcode :: target.low :: target.high ::
      [c.opcode, 0xD0, 0xF7]) := by
    have hparts : CodeAt t.memory s.PC ([c.loadOpcode, source.low, source.high] ++
        [c.storeOpcode, target.low, target.high, c.opcode, 0xD0, 0xF7]) := hcode
    rw [hmemory, hPC']
    exact (holds_append.mp hparts).2
  obtain ⟨hop', hword'⟩ := operandWord_of_code hstore
  have hfull' : maxMemory ≤ u.memory.size := by rwa [hmemory]
  have hstored := hloaded.store hk (.stored (indexed target (c.read u)) u.A (u.PC + 3))
    (by rw [hread', hA])
  refine ⟨_, .head hfirst (.one (moves_store hfull' hword' hop')), ?_, ?_, ?_, hstored, hA⟩
  · change u.PC + 3 = _
    rw [hPC', BitVec.add_assoc]
    rfl
  · rw [← hread']
    cases c <;> rfl
  · have hlater := hstored.code code fun j hj => apart j (Nat.lt_of_lt_of_le hj hk)
    have hback : (6 : Address) + 3 + (0xF7 : Byte).signExtend 16 = 0 := by decide
    refine closesLoop_of_code [c.loadOpcode, source.low, source.high, c.storeOpcode, target.low,
      target.high] hfull' hlater ?_ hback
    change u.PC + 3 = _
    rw [hPC', BitVec.add_assoc]
    rfl

end Copy

/-- A load and a store through the same register copy one block to another, in four steps
for each cell. The blocks can overlap as long as no cell is written before it is read. -/
theorem copy_loop (isa : CPU6502ISA) (c : Counter) (s : CPU6502) (source target : Address)
    (hs : maxMemory ≤ s.memory.size) (code : CodeAt s.memory s.PC (c.copyCode source target))
    (apart : ∀ b, c.Visits (c.read s) b → ¬Live BitVec.toNat s.PC 9 (indexed target b).toNat)
    (unread : ∀ j < c.rounds (c.read s), ∀ i < j,
      indexed source (c.after (c.read s) j) ≠ indexed target (c.after (c.read s) i)) :
    ∃ t events, Continues isa (4 * c.rounds (c.read s)) s events t ∧
      t.PC = s.PC + 9 ∧ c.read t = 0 ∧ LoopFrame c s t ∧
      t.A = t.memory.byteAt (indexed target (c.after (c.read s) (c.rounds (c.read s) - 1))) ∧
      (∀ b, c.Visits (c.read s) b →
        t.memory.byteAt (indexed target b) = s.memory.byteAt (indexed source b)) ∧
      ∀ index, (∀ b, c.Visits (c.read s) b → index ≠ (indexed target b).toNat) →
        t.memory.cell index = s.memory.cell index := by
  have hapart : ∀ j < c.rounds (c.read s),
      ¬Live BitVec.toNat s.PC 9 (indexed target (c.after (c.read s) j)).toNat := fun j hj =>
    apart _ ((c.visits_iff _ _).mpr ⟨j, hj, rfl⟩)
  have hpos := c.rounds_pos (c.read s)
  obtain ⟨t, hrun, hPC, hread, hwritten, hA⟩ :=
    counted_rounds isa c s.PC (s.PC + 6) (c.read s) (fun _ => 2)
      (fun k t => Written c (c.read s) target
          (fun j => s.memory.byteAt (indexed source (c.after (c.read s) j))) s k t ∧
        ∀ j, j + 1 = k → t.A = s.memory.byteAt (indexed source (c.after (c.read s) j))) _
      (fun k hk => (copy_body hs code hapart unread hk).conseq
        (fun t h => ⟨h.1, h.2.1, h.2.2.1⟩) fun t h => h)
      (fun k _ t u hJ hcounted => by
        refine ⟨hJ.1.keep hcounted.frame hcounted.memory, fun j hj => ?_⟩
        obtain rfl : j = k := Nat.succ_inj.mp hj
        exact hcounted.A.trans hJ.2)
      s ⟨rfl, rfl, .zero, fun j hj => absurd hj (Nat.succ_ne_zero j)⟩
  have htime : ∑ k ∈ Finset.range (c.rounds (c.read s)), (2 + 2) = 4 * c.rounds (c.read s) := by
    rw [Finset.sum_const, Finset.card_range, nsmul_eq_mul, Nat.cast_id, Nat.mul_comm]
  rw [htime] at hrun
  obtain ⟨events, hcontinues⟩ := continues_of_reaches hrun
  refine ⟨t, events, hcontinues, ?_, hread, hwritten.frame, ?_, fun b hb => ?_,
    fun index hindex => ?_⟩
  · rw [hPC, BitVec.add_assoc]
    rfl
  · rw [hA (c.rounds (c.read s) - 1) (by omega), hwritten.cells _ (by omega)]
  · obtain ⟨j, hj, rfl⟩ := (c.visits_iff _ _).mp hb
    exact hwritten.cells j hj
  · apply hwritten.kept
    intro j hj
    exact hindex _ ((c.visits_iff _ _).mpr ⟨j, hj, rfl⟩)

/-- A block of three bytes is moved up by one cell. -/
def movesUp : CPU6502 :=
  { CPU6502.initial ((GPMemory.ofProgram [0xBD, 0x00, 0x10, 0x9D, 0x01, 0x10, 0xCA, 0xD0,
      0xF7]).updated 0x1002 0x5A) false with X := 3 }

theorem copy_loop_movesUp :
    ∃ t events, Continues isa 12 movesUp events t ∧ t.PC = 9 ∧
      t.memory.byteAt 0x1003 = 0x5A ∧ t.memory.byteAt 0x1002 = 0 := by
  have code : CodeAt movesUp.memory movesUp.PC (Counter.copyCode 0x1000 0x1001 .dex) :=
    ⟨rfl, rfl, rfl, rfl, rfl, rfl, rfl, rfl, rfl, trivial⟩
  have apart (b : Byte) (_ : Counter.dex.Visits 3 b) :
      ¬Live BitVec.toNat movesUp.PC 9 (indexed 0x1001 b).toNat := by
    have hPC : movesUp.PC = 0 := rfl
    rw [hPC]
    exact not_live_low (by decide) b
  obtain ⟨t, events, hrun, hPC, -, -, -, hcells, -⟩ :=
    copy_loop isa .dex movesUp 0x1000 0x1001 le_rfl code apart (by decide)
  exact ⟨t, events, hrun, hPC, hcells 2 (by decide), hcells 1 (by decide)⟩

end Sim6502
