import Sim6502.IndexedLoops

/-!
# Filling pages through a pointer

Two counted loops, one inside the other, fill whole pages. `INY` goes through a page behind
the pointer of the zero page, `INC` moves the pointer on to the next one, and `DEX` counts
the pages.
-/
namespace Sim6502
open EventComputation CPU6502 TimedTriples WrappingStack

/-- `loop: STA (z),Y`, `INY`, `BNE loop`, `INC z+1`, `DEX`, `BNE loop`. -/
def pageFillCode (z : Byte) : List Byte :=
  [0x91, z, 0xC8, 0xD0, 0xFB, 0xE6, z + 1, 0xCA, 0xD0, 0xF6]

/-- The pointer has moved on by `pages`, and `count` cells from its first target on are
filled. -/
structure PagesFilled (z : Byte) (base : Address) (s : CPU6502) (pages count : ℕ) (t : CPU6502) :
    Prop where
  A : t.A = s.A
  S : t.S = s.S
  size : t.memory.size = s.memory.size
  flags : ∀ bit ∉ [PsrBit.zero, .negative, .carry], t.P.stored bit = s.P.stored bit
  high : t.memory.byteAt (.ofByte z + 1) = s.memory.byteAt (.ofByte z + 1) + BitVec.ofNat 8 pages
  cells : ∀ i < count, t.memory.byteAt (base + BitVec.ofNat 16 i) = s.A
  kept : ∀ index, index ≠ (Address.ofByte z + 1).toNat →
    (∀ i < count, index ≠ (base + BitVec.ofNat 16 i).toNat) →
    t.memory.cell index = s.memory.cell index

/-- The cells to be filled are neither code nor pointer, and the pointer is not in the code. -/
structure PagesApart (z : Byte) (base start : Address) (count : ℕ) : Prop where
  code : ∀ i < count, ¬Live BitVec.toNat start 10 (base + BitVec.ofNat 16 i).toNat
  pointer : ∀ i < count, base + BitVec.ofNat 16 i ≠ .ofByte z ∧
    base + BitVec.ofNat 16 i ≠ .ofByte z + 1
  high : ¬Live BitVec.toNat start 10 (Address.ofByte z + 1).toNat

section Steps
variable {isa : CPU6502ISA} {z : Byte} {base : Address} {s t u : CPU6502} {pages count bound : ℕ}

/-- A step that only counts. -/
theorem PagesFilled.counted {c : Counter} (h : PagesFilled z base s pages count t)
    (hcounted : Counted c t u) : PagesFilled z base s pages count u where
  A := hcounted.A.trans h.A
  S := hcounted.S.trans h.S
  size := (congrArg GPMemory.size hcounted.memory).trans h.size
  flags bit hbit := by
    simp only [List.mem_cons, List.not_mem_nil, or_false, not_or] at hbit
    have hpair : bit ∉ [PsrBit.zero, .negative] := by
      rw [List.mem_pair, not_or]
      exact ⟨hbit.1, hbit.2.1⟩
    rw [hcounted.flags bit hpair fun hcarry => absurd hcarry hbit.2.2]
    apply h.flags
    simp [hbit]
  high := by
    rw [hcounted.memory]
    exact h.high
  cells i hi := by
    rw [hcounted.memory]
    exact h.cells i hi
  kept index hhigh hindex := by
    rw [hcounted.memory]
    exact h.kept index hhigh hindex

theorem PagesFilled.code (h : PagesFilled z base s pages count t) {start : Address}
    (apart : PagesApart z base start bound) (hcount : count ≤ bound)
    (hcode : CodeAt s.memory start (pageFillCode z)) : CodeAt t.memory start (pageFillCode z) := by
  apply hcode.congr
  intro index hlive
  apply h.kept
  · rintro rfl
    exact apart.high hlive
  · rintro i hi rfl
    exact apart.code i (Nat.lt_of_lt_of_le hi hcount) hlive

theorem ofBytes_add_page (low high : Byte) (k : ℕ) :
    Address.ofBytes low (high + BitVec.ofNat 8 k) =
      .ofBytes low high + BitVec.ofNat 16 (256 * k) := by
  apply BitVec.eq_of_toNat_eq
  rw [BitVec.toNat_add, Address.toNat_ofBytes, Address.toNat_ofBytes, BitVec.toNat_add,
    BitVec.toNat_ofNat, BitVec.toNat_ofNat]
  omega

/-- Where the pointer leads to. -/
theorem PagesFilled.pointer (h : PagesFilled z base s pages count t)
    (hbase : pointerAt s (.ofByte z) = base)
    (apart : PagesApart z base start bound) (hcount : count ≤ bound) :
    pointerAt t (.ofByte z) = base + BitVec.ofNat 16 (256 * pages) := by
  have hlow : t.memory.byteAt (.ofByte z) = s.memory.byteAt (.ofByte z) := by
    apply h.kept
    · intro heq
      have hz := z.isLt
      rw [BitVec.toNat_add, Address.toNat_ofByte] at heq
      simp only [BitVec.reduceToNat] at heq
      omega
    · intro i hi heq
      exact (apart.pointer i (Nat.lt_of_lt_of_le hi hcount)).1 (BitVec.eq_of_toNat_eq heq.symm)
  rw [pointerAt, hlow, h.high, ofBytes_add_page, ← hbase, pointerAt]

/-- The store of a round writes the next cell. -/
theorem PagesFilled.store (h : PagesFilled z base s pages count t)
    (apart : PagesApart z base start bound) (hcount : count < bound) (p : Address) :
    PagesFilled z base s pages (count + 1)
      { t with memory := t.memory.updated (base + BitVec.ofNat 16 count) t.A, PC := p } where
  A := h.A
  S := h.S
  size := h.size
  flags := h.flags
  high := by
    rw [GPMemory.byteAt_updated, if_neg (apart.pointer count hcount).2.symm]
    exact h.high
  cells i hi := by
    rw [GPMemory.byteAt_updated]
    split
    · exact h.A
    · next hne =>
      apply h.cells
      exact Nat.lt_of_le_of_ne (Nat.le_of_lt_succ hi) fun heq => hne (by rw [heq])
  kept index hhigh hindex := by
    change (t.memory.updated _ _).cell index = _
    rw [GPMemory.cell_updated_of_ne _ (hindex count (Nat.lt_succ_self count))]
    exact h.kept index hhigh fun i hi => hindex i (Nat.lt_succ_of_lt hi)

/-- The pointer is moved on to the next page. -/
theorem PagesFilled.turn (h : PagesFilled z base s pages count t)
    (apart : PagesApart z base start bound) (hcount : count ≤ bound) (p : Address) (b : Byte)
    (hb : b = t.memory.byteAt (.ofByte z + 1) + 1) :
    PagesFilled z base s (pages + 1) count
      { t with
        P := t.P.updateFlags b, memory := t.memory.updated (.ofByte z + 1) b, PC := p } where
  A := h.A
  S := h.S
  size := h.size
  flags bit hbit := by
    rw [← h.flags bit hbit]
    simp only [List.mem_cons, List.not_mem_nil, or_false, not_or] at hbit
    exact PSR.stored_updateFlags_frame t.P hbit.1 hbit.2.1 b
  high := by
    rw [GPMemory.byteAt_updated, if_pos rfl, hb, h.high, BitVec.ofNat_add, BitVec.add_assoc]
    rfl
  cells i hi := by
    rw [GPMemory.byteAt_updated, if_neg (apart.pointer i (Nat.lt_of_lt_of_le hi hcount)).2]
    exact h.cells i hi
  kept index hhigh hindex := by
    change (t.memory.updated _ _).cell index = _
    rw [GPMemory.cell_updated_of_ne _ hhigh]
    exact h.kept index hhigh hindex

end Steps

/-! ## The two loops -/

section Loops
variable {isa : CPU6502ISA} {z : Byte} {base : Address} {s : CPU6502} {bound : ℕ}
  (hs : maxMemory ≤ s.memory.size) (hbase : pointerAt s (.ofByte z) = base)
  (code : CodeAt s.memory s.PC (pageFillCode z)) (apart : PagesApart z base s.PC bound)
include hs hbase code apart

/-- A round of the inner loop. -/
theorem page_store {pages j : ℕ} (x : Byte) (hj : j < 256) (hbound : 256 * pages + j < bound) :
    Triple (Moves isa) 1
      (fun t => t.PC = s.PC ∧ Counter.iny.read t = Counter.iny.after 0 j ∧
        t.X = x ∧ PagesFilled z base s pages (256 * pages + j) t)
      (fun t => t.PC = s.PC + 2 ∧ Counter.iny.read t = Counter.iny.after 0 j ∧
        ClosesLoop .iny s.PC t ∧ t.X = x ∧ PagesFilled z base s pages (256 * pages + j + 1) t) := by
  apply Triple.step
  rintro t ⟨hPC, hread, hX, hfilled⟩
  have hfull : maxMemory ≤ t.memory.size := by
    rw [hfilled.size]
    exact hs
  have hcode : CodeAt t.memory t.PC (pageFillCode z) := by
    rw [hPC]
    exact hfilled.code apart hbound.le code
  have hop : opcodeAt t = 0x91 := hcode.1
  have hoperand : operandByte t = z := hcode.2.1
  have find : isa.find (opcodeAt t) = some ⟨.sta, .zeroPageIndirectIndexedY, .sta⟩ :=
    hop ▸ find_of_mem isa (by decide +kernel) (by decide)
  have hY : t.Y.setWidth 16 = BitVec.ofNat 16 j := by
    have hY' : t.Y = 0 + BitVec.ofNat 8 j := hread
    apply BitVec.eq_of_toNat_eq
    rw [hY', BitVec.toNat_setWidth, BitVec.toNat_add, BitVec.toNat_ofNat, BitVec.toNat_ofNat]
    simp only [BitVec.reduceToNat]
    omega
  have haddress : effectiveAddress 0 t .zeroPageIndirectIndexedY =
      base + BitVec.ofNat 16 (256 * pages + j) := by
    rw [effectiveAddress, hoperand, hfilled.pointer hbase apart hbound.le, hY, BitVec.add_assoc,
      ← BitVec.ofNat_add]
  have hstep := moves_of_ok hfull find (by simp)
    (Execute.run_sta t (effectiveAddress 0 t .zeroPageIndirectIndexedY) hfull)
  rw [haddress] at hstep
  have hstored := hfilled.store apart hbound (t.PC + 2)
  refine ⟨_, hstep, congrArg (· + 2) hPC, hread, ?_, hX, hstored⟩
  have hlater := hstored.code apart hbound code
  have hparts : CodeAt (t.memory.updated (base + BitVec.ofNat 16 (256 * pages + j)) t.A) s.PC
      ([0x91, z] ++ [0xC8, 0xD0, 0xFB]) :=
    (holds_append.mp (show CodeAt _ s.PC (([0x91, z] ++ [0xC8, 0xD0, 0xFB]) ++
      [0xE6, z + 1, 0xCA, 0xD0, 0xF6]) from hlater)).1
  have hback : (2 : Address) + 3 + (0xFB : Byte).signExtend 16 = 0 := by decide
  exact closesLoop_of_code [0x91, z] hfull hparts (congrArg (· + 2) hPC) hback

/-- The inner loop fills a page. -/
theorem page_loop {pages : ℕ} (x : Byte) (hbound : 256 * pages + 256 ≤ bound) :
    Triple (Moves isa) 768
      (fun t => t.PC = s.PC ∧ t.Y = 0 ∧ t.X = x ∧ PagesFilled z base s pages (256 * pages) t)
      (fun t => t.PC = s.PC + 5 ∧ t.Y = 0 ∧ t.X = x ∧
        PagesFilled z base s pages (256 * pages + 256) t) := by
  have hrounds : Counter.iny.rounds 0 = 256 := rfl
  have hloop := counted_rounds isa .iny s.PC (s.PC + 2) 0 (fun _ => 1)
    (fun j t => t.X = x ∧ PagesFilled z base s pages (256 * pages + j) t)
    (fun j t => t.X = x ∧ PagesFilled z base s pages (256 * pages + (j + 1)) t)
    (fun j hj => page_store hs hbase code apart x (by omega) (by omega))
    (fun j _ t u hJ hcounted => ⟨hcounted.other.trans hJ.1, hJ.2.counted hcounted⟩)
  rw [hrounds] at hloop
  have hPC : s.PC + 2 + 3 = s.PC + 5 := by
    rw [BitVec.add_assoc]
    rfl
  rw [hPC] at hloop
  have htime : ∑ _ ∈ Finset.range 256, (1 + 2) = 768 := by
    rw [Finset.sum_const, Finset.card_range]
    rfl
  exact hloop.time htime

/-- One page, and the pointer on to the next one. -/
theorem page_round {pages : ℕ} (x : Byte) (hz : z ≠ 0xFF) (hbound : 256 * pages + 256 ≤ bound) :
    Triple (Moves isa) 769
      (fun t => t.PC = s.PC ∧ t.X = x ∧ t.Y = 0 ∧ PagesFilled z base s pages (256 * pages) t)
      (fun t => t.PC = s.PC + 7 ∧ t.X = x ∧ ClosesLoop .dex s.PC t ∧ t.Y = 0 ∧
        PagesFilled z base s (pages + 1) (256 * (pages + 1)) t) := by
  have hturn : Triple (Moves isa) 1
      (fun t => t.PC = s.PC + 5 ∧ t.Y = 0 ∧ t.X = x ∧
        PagesFilled z base s pages (256 * pages + 256) t)
      (fun t => t.PC = s.PC + 7 ∧ t.X = x ∧ ClosesLoop .dex s.PC t ∧ t.Y = 0 ∧
        PagesFilled z base s (pages + 1) (256 * (pages + 1)) t) := by
    apply Triple.step
    rintro t ⟨hPC, hY, hX, hfilled⟩
    have hfull : maxMemory ≤ t.memory.size := by
      rw [hfilled.size]
      exact hs
    have hcode : CodeAt t.memory s.PC ([0x91, z, 0xC8, 0xD0, 0xFB] ++
        [0xE6, z + 1, 0xCA, 0xD0, 0xF6]) := hfilled.code apart hbound code
    obtain ⟨-, hop, hoperand, -⟩ := holds_append.mp hcode
    have hPC' : s.PC + BitVec.ofNat 16 [0x91, z, 0xC8, 0xD0, 0xFB].length = t.PC := hPC.symm
    rw [hPC'] at hop hoperand
    have find : isa.find (opcodeAt t) = some ⟨.inc, .zeroPage, .incMem⟩ := by
      have hopcode : opcodeAt t = 0xE6 := hop
      exact hopcode ▸ find_of_mem isa (by decide +kernel) (by decide)
    have haddress : effectiveAddress 0 t .zeroPage = .ofByte z + 1 := by
      have hoperand' : operandByte t = z + 1 := hoperand
      rw [effectiveAddress, hoperand']
      apply BitVec.eq_of_toNat_eq
      rw [BitVec.toNat_add, Address.toNat_ofByte, Address.toNat_ofByte]
      simp only [BitVec.reduceToNat]
      bv_omega
    have hstep := moves_of_ok hfull find (by simp)
      (Execute.run_incMem t (effectiveAddress 0 t .zeroPage) hfull)
    rw [haddress] at hstep
    have hturned := hfilled.turn apart hbound (t.PC + 2) _ rfl
    refine ⟨_, hstep, ?_, hX, ?_, hY, hturned⟩
    · change t.PC + 2 = _
      rw [hPC, BitVec.add_assoc]
      rfl
    · have hlater := hturned.code apart hbound code
      have hback : (7 : Address) + 3 + (0xF6 : Byte).signExtend 16 = 0 := by decide
      refine closesLoop_of_code [0x91, z, 0xC8, 0xD0, 0xFB, 0xE6, z + 1] hfull hlater ?_ hback
      change t.PC + 2 = _
      rw [hPC, BitVec.add_assoc]
      rfl
  exact ((page_loop hs hbase code apart x hbound).conseq
    (fun t h => ⟨h.1, h.2.2.1, h.2.1, h.2.2.2⟩) fun t h => h).seq hturn

end Loops

/-- The two loops fill as many whole pages as `X` counts from the target of the pointer on,
in 771 steps each, and leave the pointer behind the last one. -/
theorem page_fill (isa : CPU6502ISA) (s : CPU6502) (z : Byte) (hs : maxMemory ≤ s.memory.size)
    (hz : z ≠ 0xFF) (code : CodeAt s.memory s.PC (pageFillCode z)) (hY : s.Y = 0)
    (apart : PagesApart z (pointerAt s (.ofByte z)) s.PC (256 * Counter.dex.rounds s.X)) :
    ∃ t events, Continues isa (771 * Counter.dex.rounds s.X) s events t ∧
      t.PC = s.PC + 10 ∧ t.X = 0 ∧ t.Y = 0 ∧
      PagesFilled z (pointerAt s (.ofByte z)) s (Counter.dex.rounds s.X)
        (256 * Counter.dex.rounds s.X) t := by
  have hstart : PagesFilled z (pointerAt s (.ofByte z)) s 0 0 s :=
    ⟨rfl, rfl, rfl, fun _ _ => rfl, (BitVec.add_zero _).symm,
      fun _ hi => absurd hi (Nat.not_lt_zero _), fun _ _ _ => rfl⟩
  obtain ⟨t, hrun, hPC, hX, hYt, hfilled⟩ :=
    counted_rounds isa .dex s.PC (s.PC + 7) s.X (fun _ => 769)
      (fun k t => t.Y = 0 ∧
        PagesFilled z (pointerAt s (.ofByte z)) s k (256 * k) t)
      (fun k t => t.Y = 0 ∧
        PagesFilled z (pointerAt s (.ofByte z)) s (k + 1) (256 * (k + 1)) t)
      (fun k hk => page_round hs rfl code apart _ hz (by omega))
      (fun k _ t u hJ hcounted => ⟨hcounted.other.trans hJ.1, hJ.2.counted hcounted⟩)
      s ⟨rfl, rfl, hY, hstart⟩
  have htime : ∑ _ ∈ Finset.range (Counter.dex.rounds s.X), (769 + 2) =
      771 * Counter.dex.rounds s.X := by
    rw [Finset.sum_const, Finset.card_range, nsmul_eq_mul, Nat.cast_id, Nat.mul_comm]
  rw [htime] at hrun
  obtain ⟨events, hcontinues⟩ := continues_of_reaches hrun
  refine ⟨t, events, hcontinues, ?_, hX, hYt, hfilled⟩
  rw [hPC, BitVec.add_assoc]
  rfl

/-- Two pages from `$2000` on. -/
def fillsPages : CPU6502 :=
  { CPU6502.initial ((GPMemory.ofProgram (pageFillCode 0x10)).updated 0x11 0x20) false with
    A := 0x7E, X := 2 }

theorem page_fill_fillsPages :
    ∃ t events, Continues isa 1542 fillsPages events t ∧ t.PC = 10 ∧
      t.memory.byteAt 0x21FF = 0x7E ∧ t.memory.byteAt 0x11 = 0x22 ∧
      t.memory.byteAt 0x2200 = 0 := by
  have code : CodeAt fillsPages.memory fillsPages.PC (pageFillCode 0x10) :=
    ⟨rfl, rfl, rfl, rfl, rfl, rfl, rfl, rfl, rfl, rfl, trivial⟩
  have hpointer : pointerAt fillsPages (.ofByte 0x10) = 0x2000 := rfl
  have hcell {i : ℕ} (hi : i < 512) :
      ((0x2000 : Address) + BitVec.ofNat 16 i).toNat = 0x2000 + i := by
    rw [BitVec.toNat_add, BitVec.toNat_ofNat]
    simp only [BitVec.reduceToNat]
    omega
  have hcode {a : ℕ} (ha : 10 ≤ a) : ¬Live BitVec.toNat (0 : Address) 10 a := by
    rintro ⟨k, hk, rfl⟩
    rw [BitVec.toNat_add, BitVec.toNat_ofNat] at ha
    simp only [BitVec.reduceToNat] at ha
    omega
  have hne {i : ℕ} (hi : i < 512) {a : Address} (ha : a.toNat < 0x2000) :
      (0x2000 : Address) + BitVec.ofNat 16 i ≠ a := by
    rintro rfl
    rw [hcell hi] at ha
    omega
  have apart : PagesApart 0x10 0x2000 0 512 := by
    refine ⟨fun i hi => hcode ?_, fun i hi => ⟨hne hi (by decide), hne hi (by decide)⟩,
      hcode (by decide)⟩
    rw [hcell hi]
    omega
  obtain ⟨t, events, hrun, hPC, -, -, hfilled⟩ :=
    page_fill isa fillsPages 0x10 le_rfl (by decide) code rfl (hpointer ▸ apart)
  rw [hpointer] at hfilled
  refine ⟨t, events, hrun, hPC, hfilled.cells 511 (by decide), hfilled.high, ?_⟩
  apply hfilled.kept 0x2200
  · decide
  · intro i hi heq
    rw [hcell hi] at heq
    have hlt : i < 512 := hi
    omega

end Sim6502
