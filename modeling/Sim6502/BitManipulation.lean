import Sim6502.CellOperations

/-!
# Setting and clearing the bits of one cell

`RMBx` and `SMBx` write one bit, `TSB` and `TRB` those that are set in the
accumulator. In a sequence of them on one cell each bit ends as the last operation
left it that touched it.
-/
namespace Sim6502
open EventComputation CPU6502

inductive BitOperation where
  | rmb (bit : Fin 8)
  | smb (bit : Fin 8)
  | tsb
  | trb
  deriving DecidableEq

namespace BitOperation

/-- The opcodes of the operation. The table calls both `0x0C` and `0x1C` `TSB`. -/
def opcodes : BitOperation → List Byte
  | .rmb n => [0x07 + 0x10 * BitVec.ofNat 8 n]
  | .smb n => [0x87 + 0x10 * BitVec.ofNat 8 n]
  | .tsb => [0x04, 0x0C]
  | .trb => [0x14, 0x1C]

def body : BitOperation → InstructionBody
  | .rmb n => .rmbx n
  | .smb n => .smbx n
  | .tsb => .tsb
  | .trb => .trb

def result (op : BitOperation) (A : Byte) (P : PSR) (m : Byte) : Byte × PSR :=
  match op with
  | .rmb n => (m &&& ~~~bitByte n, P)
  | .smb n => (m ||| bitByte n, P)
  | .tsb => (m ||| A, P.setBit .zero (m &&& A == 0))
  | .trb => (m &&& ~~~A, P.setBit .zero (m &&& A == 0))

/-- What the operation makes of bit `i`, when it touches it. -/
def touches (A : Byte) (i : ℕ) : BitOperation → Option Bool
  | .rmb n => if i = n then some false else none
  | .smb n => if i = n then some true else none
  | .tsb => if A.getLsbD i then some true else none
  | .trb => if A.getLsbD i then some false else none

/-- The operations that set `Z`. -/
def tests : BitOperation → Bool
  | .tsb | .trb => true
  | _ => false

theorem execute_rmb : ∀ n : Fin 8, ∀ e ∈ isaEntries, e.1 ∈ opcodes (.rmb n) →
    e.2.execute = .rmbx n := by decide +kernel

theorem execute_smb : ∀ n : Fin 8, ∀ e ∈ isaEntries, e.1 ∈ opcodes (.smb n) →
    e.2.execute = .smbx n := by decide +kernel

end BitOperation

def bitFamily : CellFamily BitOperation where
  opcodes := BitOperation.opcodes
  body := BitOperation.body
  result := BitOperation.result
  execute op := by
    cases op with
    | rmb n => exact BitOperation.execute_rmb n
    | smb n => exact BitOperation.execute_smb n
    | tsb | trb => decide +kernel
  modified op A P m := by cases op <;> rfl

/-! ## One operation -/

section One
variable (op : BitOperation) (A : Byte) (P : PSR) (m : Byte)

theorem getLsbD_bitByte (n i : Fin 8) : (bitByte n).getLsbD i = decide (i = n) := by
  revert n i
  decide

/-- A bit is written or kept. -/
theorem getLsbD_result (i : Fin 8) :
    (op.result A P m).1.getLsbD i = (op.touches A i).getD (m.getLsbD i) := by
  have hlt := i.isLt
  cases op with
  | rmb n =>
    simp only [BitOperation.result, BitOperation.touches, BitVec.getLsbD_and, BitVec.getLsbD_not,
      getLsbD_bitByte, hlt]
    by_cases h : i = n <;> simp [h, Fin.val_inj]
  | smb n =>
    simp only [BitOperation.result, BitOperation.touches, BitVec.getLsbD_or, getLsbD_bitByte]
    by_cases h : i = n <;> simp [h, Fin.val_inj]
  | tsb =>
    simp only [BitOperation.result, BitOperation.touches, BitVec.getLsbD_or]
    cases A.getLsbD i <;> cases m.getLsbD i <;> rfl
  | trb =>
    simp only [BitOperation.result, BitOperation.touches, BitVec.getLsbD_and, BitVec.getLsbD_not,
      hlt]
    cases A.getLsbD i <;> cases m.getLsbD i <;> rfl

theorem zero_result_of_tests (h : op.tests) :
    (op.result A P m).2.getBit .zero = (A &&& m == 0) := by
  cases op <;> simp [BitOperation.tests] at h <;> simp [BitOperation.result, BitVec.and_comm]

theorem flags_result_of_not_tests (h : ¬op.tests) : (op.result A P m).2 = P := by
  cases op <;> simp [BitOperation.tests] at h <;> rfl

/-- No operation writes another flag than `Z`. -/
theorem stored_result {bit : PsrBit} (h : bit ≠ .zero) :
    (op.result A P m).2.stored bit = P.stored bit := by
  cases op <;> simp [BitOperation.result, Ne.symm h]

end One

/-! ## Sequences -/

/-- The operations, each on the one cell. -/
def onCell (cell : Address) (ops : List BitOperation) : List (BitOperation × Address) :=
  ops.map fun op => (op, cell)

section Sequence
variable {isa : CPU6502ISA} {cell : Address} {ops : List BitOperation} {s t : CPU6502}

/-- The first operation of a sequence. -/
theorem first_onCell {op : BitOperation}
    (h : Performs bitFamily isa (onCell cell (op :: ops)) s t) :
    ∃ u, Performs bitFamily isa (onCell cell ops) u t ∧ u.A = s.A ∧
      u.memory.byteAt cell = (op.result s.A s.P (s.memory.byteAt cell)).1 ∧
      u.P = (op.result s.A s.P (s.memory.byteAt cell)).2 := by
  obtain ⟨u, head, tail, hbyte, hP⟩ := h.of_cons
  have hframe : CellFrame [cell] s u := head.frame (by simp)
  exact ⟨u, tail, hframe.A, hbyte, hP⟩

/-- Each bit of the cell is as the last operation that touched it left it. -/
theorem getLsbD_onCell (h : Performs bitFamily isa (onCell cell ops) s t) (i : Fin 8) :
    (t.memory.byteAt cell).getLsbD i =
      (ops.filterMap (BitOperation.touches s.A i)).getLastD
        ((s.memory.byteAt cell).getLsbD i) := by
  induction ops generalizing s with
  | nil =>
    cases h
    rfl
  | cons op ops ih =>
    obtain ⟨u, tail, hA, hbyte, -⟩ := first_onCell h
    have hbit := getLsbD_result op s.A s.P (s.memory.byteAt cell) i
    rw [ih tail, hA, hbyte, hbit, List.filterMap_cons]
    cases op.touches s.A i with
    | none => rfl
    | some b => exact List.getLastD_cons.symm

theorem frame_onCell (h : Performs bitFamily isa (onCell cell ops) s t) : CellFrame [cell] s t := by
  apply h.frame
  intro op hop
  obtain ⟨o, -, rfl⟩ := List.mem_map.mp hop
  exact List.mem_singleton_self _

/-- Operations on single bits keep all flags. -/
theorem flags_onCell (h : Performs bitFamily isa (onCell cell ops) s t)
    (hops : ∀ op ∈ ops, ¬op.tests) : t.P = s.P := by
  induction ops generalizing s with
  | nil =>
    cases h
    rfl
  | cons op ops ih =>
    obtain ⟨u, tail, -, -, hP⟩ := first_onCell h
    rw [ih tail fun o ho => hops o (List.mem_cons_of_mem _ ho), hP]
    exact flags_result_of_not_tests op _ _ _ (hops op List.mem_cons_self)

/-- The last operation that tests leaves its `Z` to the end. -/
theorem zero_onCell {before after : List BitOperation} {op : BitOperation}
    (h : Performs bitFamily isa (onCell cell (before ++ op :: after)) s t) (htests : op.tests)
    (hafter : ∀ o ∈ after, ¬o.tests) :
    ∃ u, Performs bitFamily isa (onCell cell before) s u ∧
      t.P.getBit .zero = (s.A &&& u.memory.byteAt cell == 0) := by
  rw [onCell, List.map_append] at h
  obtain ⟨u, hbefore, hrest⟩ := h.of_append
  obtain ⟨v, tail, -, -, hP⟩ := first_onCell hrest
  refine ⟨u, hbefore, ?_⟩
  rw [flags_onCell tail hafter, hP, zero_result_of_tests op _ _ _ htests, (frame_onCell hbefore).A]

end Sequence

/-- A sequence of bit operations on one cell: over a full memory it comes to its end, every bit
is as its last writer left it, `Z` tells about the cell before the last test, and nothing else
changes. -/
theorem bit_operations (isa : CPU6502ISA) (cell : Address) (ops : List BitOperation)
    (s : CPU6502) :
    (maxMemory ≤ s.memory.size → Stands bitFamily isa (onCell cell ops) s →
      ∃ t, Performs bitFamily isa (onCell cell ops) s t) ∧
    ∀ t, Performs bitFamily isa (onCell cell ops) s t →
      (∀ i : Fin 8, (t.memory.byteAt cell).getLsbD i =
        (ops.filterMap (BitOperation.touches s.A i)).getLastD
          ((s.memory.byteAt cell).getLsbD i)) ∧
      ((∀ op ∈ ops, ¬op.tests) → t.P.getBit .zero = s.P.getBit .zero) ∧
      (∀ before op after, ops = before ++ op :: after → op.tests → (∀ o ∈ after, ¬o.tests) →
        ∃ u, Performs bitFamily isa (onCell cell before) s u ∧
          t.P.getBit .zero = (s.A &&& u.memory.byteAt cell == 0)) ∧
      CellFrame [cell] s t ∧ ∀ bit, bit ≠ .zero → t.P.stored bit = s.P.stored bit := by
  refine ⟨fun hs h => h.exists_performs hs, fun t h => ?_⟩
  refine ⟨getLsbD_onCell h, fun hops => ?_, ?_, frame_onCell h, fun bit hbit => ?_⟩
  · rw [flags_onCell h hops]
  · rintro before op after rfl htests hafter
    exact zero_onCell h htests hafter
  · exact h.stored fun op A P m => stored_result op A P m hbit

/-- `SMB7 $10`, `TRB $10` and `RMB0 $10` on `0x0F` with `0x82` in the accumulator. -/
def changesBits : CPU6502 :=
  { CPU6502.initial ((GPMemory.ofProgram [0xF7, 0x10, 0x14, 0x10, 0x07, 0x10]).updated 0x10 0x0F)
      false with A := 0x82 }

theorem stands_changesBits :
    Stands bitFamily isa (onCell 0x10 [.smb 7, .trb, .rmb 0]) changesBits := by
  refine ⟨⟨by decide, _, rfl, rfl⟩, fun t ht => ?_⟩
  obtain rfl := ht.state_eq
  refine ⟨⟨by decide, _, rfl, rfl⟩, fun u hu => ?_⟩
  obtain rfl := hu.state_eq
  exact ⟨⟨by decide, _, rfl, rfl⟩, fun _ _ => trivial⟩

theorem bit_operations_changesBits :
    ∃ t, Performs bitFamily isa (onCell 0x10 [.smb 7, .trb, .rmb 0]) changesBits t ∧
      (t.memory.byteAt 0x10).getLsbD 7 = false ∧ (t.memory.byteAt 0x10).getLsbD 2 = true := by
  obtain ⟨hends, hbits⟩ := bit_operations isa 0x10 [.smb 7, .trb, .rmb 0] changesBits
  obtain ⟨t, hrun⟩ := hends le_rfl stands_changesBits
  obtain ⟨hbit, -⟩ := hbits t hrun
  exact ⟨t, hrun, (hbit 7).trans (by decide), (hbit 2).trans (by decide)⟩

end Sim6502
