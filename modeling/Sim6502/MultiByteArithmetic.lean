import Sim6502.CarryChains
import Sim6502.InstructionEffects
import Sim6502.InstructionTable

/-!
# Additions and subtractions of several bytes

A chain loads, adds or subtracts, and stores byte after byte, with the carry in `P`
from one byte to the next. It computes the sum or the difference of the numbers in
its cells: the bytes form a carry chain in base 256, which for `SBC` is read
backwards with the borrow for the carry.
-/
namespace Sim6502
open EventComputation CPU6502 CarryChain

/-! ## One byte -/

section Byte
variable (a m : Byte)

/-- The two partial carries of `A + M + C` make up one carry. -/
theorem adcResult_digit (c : Bool) :
    (adcResult a m c).value.toNat + 256 * (adcResult a m c).carry.toNat =
      a.toNat + m.toNat + c.toNat := by
  have ha := a.isLt
  have hm := m.isLt
  have hc := c.toNat_le
  rw [adcResult, resultAddInt_value, resultAddInt_carry, byteAddByte_carry, byteAddByte_value,
    toNat_byteOfBool, BitVec.toNat_add, BitVec.toNat_add, toNat_byteOfBool]
  by_cases hfirst : 0xFF < a.toNat + m.toNat
  · simp only [hfirst, decide_true, Bool.or_true, Bool.toNat_true]
    omega
  · by_cases hsecond : 0xFF < (a.toNat + m.toNat) % 2 ^ 8 + c.toNat
    · simp only [hsecond, decide_true, Bool.true_or, Bool.toNat_true]
      omega
    · simp only [hfirst, hsecond, decide_false, Bool.or_self, Bool.toNat_false]
      omega

/-- With the borrow for the carry, the difference read backwards is a sum. -/
theorem sbcResult_digit (w : Bool) :
    (sbcResult a m w).toNat + m.toNat + w.toNat = a.toNat + 256 * (!sbcCarry a m w).toNat := by
  have ha := a.isLt
  have hm := m.isLt
  have hw := w.toNat_le
  rw [sbcResult, sbcCarry, toNat_byteOfBool]
  simp only [BitVec.toNat_setWidth, BitVec.toNat_sub, toNat_byteOfBool]
  by_cases h : m.toNat + w.toNat ≤ a.toNat
  · simp only [h, decide_true, Bool.not_true, Bool.toNat_false]
    omega
  · simp only [h, decide_false, Bool.not_false, Bool.toNat_true]
    omega

theorem adcOverflow_iff (r : Byte) :
    adcOverflow a m r = true ↔
      SignOverflow (256 ≤ 2 * a.toNat) (256 ≤ 2 * m.toNat) (256 ≤ 2 * r.toNat) := by
  rw [← isNegative_iff, ← isNegative_iff, ← isNegative_iff, adcOverflow, SignOverflow]
  cases isNegative a <;> cases isNegative m <;> cases isNegative r <;> simp

theorem sbcOverflow_iff (r : Byte) :
    sbcOverflow a m r = true ↔
      SignOverflow (256 ≤ 2 * r.toNat) (256 ≤ 2 * m.toNat) (256 ≤ 2 * a.toNat) := by
  have hsign : sbcOverflow a m r = isNegative ((a ^^^ r) &&& (a ^^^ m)) := rfl
  rw [← isNegative_iff, ← isNegative_iff, ← isNegative_iff, hsign, SignOverflow]
  simp only [isNegative_eq_msb, BitVec.msb_and, BitVec.msb_xor]
  cases a.msb <;> cases m.msb <;> cases r.msb <;> simp

end Byte

/-! ## The three handlers -/

/-- An entry of the table that bears a name. -/
structure Handler (name : Mnemonic) where
  entry : Byte × Instruction
  mem : entry ∈ isaEntries
  named : entry.2.name = name

def Handler.execute {name : Mnemonic} (handler : Handler name) : Execute :=
  handler.entry.2.execute.execute

theorem Handler.execute_lda (handler : Handler .lda) :
    handler.execute = Execute.lda ∨ handler.execute = Execute.ldaAbsolute := by
  have hall : ∀ e ∈ isaEntries, e.2.name = .lda →
      e.2.execute = .lda ∨ e.2.execute = .ldaAbsolute := by decide +kernel
  rcases hall _ handler.mem handler.named with h | h
  · exact .inl (congrArg InstructionBody.execute h)
  · exact .inr (congrArg InstructionBody.execute h)

theorem Handler.execute_sta (handler : Handler .sta) : handler.execute = Execute.sta := by
  have hall : ∀ e ∈ isaEntries, e.2.name = .sta → e.2.execute = .sta := by decide +kernel
  exact congrArg InstructionBody.execute (hall _ handler.mem handler.named)

theorem Handler.execute_adc (handler : Handler .adc) : handler.execute = Execute.adc := by
  have hall : ∀ e ∈ isaEntries, e.2.name = .adc → e.2.execute = .adc := by decide +kernel
  exact congrArg InstructionBody.execute (hall _ handler.mem handler.named)

theorem Handler.execute_sbc (handler : Handler .sbc) : handler.execute = Execute.sbc := by
  have hall : ∀ e ∈ isaEntries, e.2.name = .sbc → e.2.execute = .sbc := by decide +kernel
  exact congrArg InstructionBody.execute (hall _ handler.mem handler.named)

/-- The operation of a chain. -/
inductive ByteArithmetic where
  | add | subtract

namespace ByteArithmetic

def mnemonic : ByteArithmetic → Mnemonic
  | .add => .adc
  | .subtract => .sbc

/-- What passes from byte to byte: the carry, or the borrow, which is its complement. -/
def carry (p : PSR) : ByteArithmetic → Bool
  | .add => p.getBit .carry
  | .subtract => !p.getBit .carry

/-- The summand of the carry chain beside the operand. -/
def addend {α : Type} (left result : α) : ByteArithmetic → α
  | .add => left
  | .subtract => result

/-- The sum of the carry chain. -/
def total {α : Type} (left result : α) : ByteArithmetic → α
  | .add => result
  | .subtract => left

section Cons
variable (op : ByteArithmetic) {α : Type} (x y : α) (xs ys : List α)

theorem addend_cons : op.addend (x :: xs) (y :: ys) = op.addend x y :: op.addend xs ys := by
  cases op <;> rfl

theorem total_cons : op.total (x :: xs) (y :: ys) = op.total x y :: op.total xs ys := by
  cases op <;> rfl

theorem addend_nil : op.addend ([] : List α) [] = [] := by
  cases op <;> rfl

theorem total_nil : op.total ([] : List α) [] = [] := by
  cases op <;> rfl

variable {β m n : ℕ}

theorem addend_lt (hm : m < β) (hn : n < β) : op.addend m n < β := by
  cases op <;> assumption

theorem total_lt (hm : m < β) (hn : n < β) : op.total m n < β := by
  cases op <;> assumption

end Cons

end ByteArithmetic

/-- One byte of a chain: its handlers and the cells they are given. -/
structure ByteStep (op : ByteArithmetic) where
  load : Handler .lda
  operate : Handler op.mnemonic
  store : Handler .sta
  left : Address
  right : Address
  result : Address

namespace ByteStep
variable {op : ByteArithmetic} (b : ByteStep op)

def perform : Cpu Unit := do
  let _ ← b.load.execute b.left
  let _ ← b.operate.execute b.right
  let _ ← b.store.execute b.result

/-- The three cells are inside the memory. -/
def Inside (size : ℕ) : Prop :=
  b.left.toNat < size ∧ b.right.toNat < size ∧ b.result.toNat < size

/-- What a byte of the chain leaves, with the byte `r` it delivers. -/
structure Effect (s t : CPU6502) (r : Byte) : Prop where
  memory : t.memory = s.memory.updated b.result r
  digit : op.total (s.memory.byteAt b.left).toNat r.toNat + 256 * (op.carry t.P).toNat =
    op.addend (s.memory.byteAt b.left).toNat r.toNat + (s.memory.byteAt b.right).toNat +
      (op.carry s.P).toNat
  overflow : t.P.getBit .overflow = true ↔
    SignOverflow (256 ≤ 2 * op.addend (s.memory.byteAt b.left).toNat r.toNat)
      (256 ≤ 2 * (s.memory.byteAt b.right).toNat)
      (256 ≤ 2 * op.total (s.memory.byteAt b.left).toNat r.toNat)
  negative : t.P.getBit .negative = isNegative r

/-- A load leaves the carry alone, whichever of its two bodies the handler has. -/
theorem run_load (handler : Handler .lda) (a : Address) {cpu : CPU6502}
    (ha : a.toNat < cpu.memory.size) :
    ∃ P : PSR, (handler.execute a).run cpu =
        ⟨.ok .ok, { cpu with A := cpu.memory.byteAt a, P := P }, [.read a.toNat]⟩ ∧
      P.getBit .carry = cpu.P.getBit .carry := by
  rcases handler.execute_lda with h | h
  · rw [h]
    exact ⟨_, Execute.run_lda_of_lt cpu a ha, by simp [PSR.updateFlags]⟩
  · rw [h]
    exact ⟨cpu.P, Execute.run_ldaAbsolute_of_lt cpu a ha, rfl⟩

/-- The flags an arithmetic body writes, read back. -/
theorem arithmeticFlags (p : PSR) (carry overflow : Bool) (r : Byte) :
    (((p.setBit .carry carry).setBit .overflow overflow).updateFlags r).getBit .carry = carry ∧
      (((p.setBit .carry carry).setBit .overflow overflow).updateFlags r).getBit .overflow =
        overflow ∧
      (((p.setBit .carry carry).setBit .overflow overflow).updateFlags r).getBit .negative =
        isNegative r := by
  refine ⟨by simp [PSR.updateFlags], by simp [PSR.updateFlags], ?_⟩
  exact PSR.getBit_setBit_self _ (by simp) _

/-- The middle handler works on the accumulator and its operand. -/
theorem run_operate (handler : Handler op.mnemonic) (a : Address) (cpu : CPU6502)
    (ha : a.toNat < cpu.memory.size) :
    ∃ (P : PSR) (r : Byte), (handler.execute a).run cpu =
        ⟨.ok .ok, { cpu with A := r, P := P }, [.read a.toNat]⟩ ∧
      op.total cpu.A.toNat r.toNat + 256 * (op.carry P).toNat =
        op.addend cpu.A.toNat r.toNat + (cpu.memory.byteAt a).toNat + (op.carry cpu.P).toNat ∧
      (P.getBit .overflow = true ↔
        SignOverflow (256 ≤ 2 * op.addend cpu.A.toNat r.toNat)
          (256 ≤ 2 * (cpu.memory.byteAt a).toNat) (256 ≤ 2 * op.total cpu.A.toNat r.toNat)) ∧
      P.getBit .negative = isNegative r := by
  cases op with
  | add =>
    obtain ⟨hcarry, hoverflow, hnegative⟩ := arithmeticFlags cpu.P
      (adcResult cpu.A (cpu.memory.byteAt a) (cpu.P.getBit .carry)).carry
      (adcOverflow cpu.A (cpu.memory.byteAt a)
        (adcResult cpu.A (cpu.memory.byteAt a) (cpu.P.getBit .carry)).value)
      (adcResult cpu.A (cpu.memory.byteAt a) (cpu.P.getBit .carry)).value
    have hbody : (handler.execute a).run cpu = (Execute.adc a).run cpu :=
      congrArg (fun body => (body a).run cpu) (Handler.execute_adc handler)
    refine ⟨_, _, hbody.trans (Execute.run_adc_of_lt cpu a ha), ?_, ?_, hnegative⟩
    · rw [ByteArithmetic.carry, hcarry]
      exact adcResult_digit _ _ _
    · rw [hoverflow]
      exact adcOverflow_iff _ _ _
  | subtract =>
    obtain ⟨hcarry, hoverflow, hnegative⟩ := arithmeticFlags cpu.P
      (sbcCarry cpu.A (cpu.memory.byteAt a) (!cpu.P.getBit .carry))
      (sbcOverflow cpu.A (cpu.memory.byteAt a)
        (sbcResult cpu.A (cpu.memory.byteAt a) (!cpu.P.getBit .carry)))
      (sbcResult cpu.A (cpu.memory.byteAt a) (!cpu.P.getBit .carry))
    have hbody : (handler.execute a).run cpu = (Execute.sbc a).run cpu :=
      congrArg (fun body => (body a).run cpu) (Handler.execute_sbc handler)
    refine ⟨_, _, hbody.trans (Execute.run_sbc_of_lt cpu a ha), ?_, ?_, hnegative⟩
    · rw [ByteArithmetic.carry, hcarry]
      exact (sbcResult_digit _ _ _).symm
    · rw [hoverflow]
      exact sbcOverflow_iff _ _ _

theorem run_perform {cpu : CPU6502} (inside : b.Inside cpu.memory.size) :
    ∃ t events r, b.perform.run cpu = ⟨.ok (), t, events⟩ ∧ b.Effect cpu t r := by
  obtain ⟨hleft, hright, hresult⟩ := inside
  obtain ⟨P, hload, hcarry⟩ := run_load b.load b.left hleft
  obtain ⟨P', r, hoperate, hdigit, hoverflow, hnegative⟩ := run_operate b.operate b.right
    { cpu with A := cpu.memory.byteAt b.left, P := P } hright
  have hstore := Execute.run_sta_of_lt { cpu with A := r, P := P' } b.result hresult
  have hsame : op.carry P = op.carry cpu.P := by
    cases op <;> simp [ByteArithmetic.carry, hcarry]
  obtain ⟨events, hrun⟩ : ∃ events, b.perform.run cpu =
      ⟨.ok (), { cpu with A := r, P := P', memory := cpu.memory.updated b.result r }, events⟩ := by
    rw [perform, Routine.run_bind_of_ok hload, Routine.run_bind_of_ok hoperate,
      b.store.execute_sta, Routine.run_bind_of_ok hstore]
    exact ⟨_, rfl⟩
  refine ⟨_, events, r, hrun, rfl, ?_, hoverflow, hnegative⟩
  rw [← hsame]
  exact hdigit

end ByteStep

/-! ## The chain -/

section Chain
variable {op : ByteArithmetic}

def chain : List (ByteStep op) → Cpu Unit
  | [] => return
  | b :: bytes => do
    b.perform
    chain bytes

/-- The bytes in the left cells, lowest first. -/
def lefts (s : CPU6502) (bytes : List (ByteStep op)) : List ℕ :=
  bytes.map fun b => (s.memory.byteAt b.left).toNat

def rights (s : CPU6502) (bytes : List (ByteStep op)) : List ℕ :=
  bytes.map fun b => (s.memory.byteAt b.right).toNat

def results (s : CPU6502) (bytes : List (ByteStep op)) : List ℕ :=
  bytes.map fun b => (s.memory.byteAt b.result).toNat

/-- No result cell is another one or an input still to be read. -/
def Apart (bytes : List (ByteStep op)) : Prop :=
  bytes.Pairwise fun b later =>
    b.result ≠ later.left ∧ b.result ≠ later.right ∧ b.result ≠ later.result

theorem digits_map (bytes : List (ByteStep op)) (f : ByteStep op → Byte) :
    Digits 256 (bytes.map fun b => (f b).toNat) := by
  intro d hd
  obtain ⟨b, -, rfl⟩ := List.mem_map.mp hd
  exact (f b).isLt

/-- What a chain leaves: a carry chain through its cells, and the flags of its last
byte as those of the whole numbers. -/
structure ChainEffect (bytes : List (ByteStep op)) (s t : CPU6502) : Prop where
  idle : bytes = [] → t.P = s.P
  frame : ∀ a, a ∉ bytes.map (·.result) → t.memory.byteAt a = s.memory.byteAt a
  adds : Adds 256 (op.addend (lefts s bytes) (results t bytes)) (rights s bytes)
    (op.carry s.P).toNat (op.total (lefts s bytes) (results t bytes)) (op.carry t.P).toNat
  overflow : bytes ≠ [] → (t.P.getBit .overflow = true ↔
    SignOverflow (Negative 256 (op.addend (lefts s bytes) (results t bytes)))
      (Negative 256 (rights s bytes)) (Negative 256 (op.total (lefts s bytes) (results t bytes))))
  negative : bytes ≠ [] →
    (t.P.getBit .negative = true ↔ Negative 256 (results t bytes))

theorem ChainEffect.nil (s : CPU6502) : ChainEffect ([] : List (ByteStep op)) s s := by
  refine ⟨fun _ => rfl, fun a _ => rfl, ?_, fun h => absurd rfl h, fun h => absurd rfl h⟩
  cases op <;> exact .nil _

theorem ChainEffect.cons {b : ByteStep op} {bytes : List (ByteStep op)} {s t u : CPU6502} {r : Byte}
    (apart : Apart (b :: bytes)) (first : b.Effect s t r) (rest : ChainEffect bytes t u) :
    ChainEffect (b :: bytes) s u := by
  obtain ⟨hfirst, hlater⟩ := List.pairwise_cons.mp apart
  have hread {a : Address} (ha : b.result ≠ a) : t.memory.byteAt a = s.memory.byteAt a := by
    rw [first.memory, GPMemory.byteAt_updated, if_neg (Ne.symm ha)]
  have hlefts : lefts t bytes = lefts s bytes :=
    List.map_congr_left fun c hc => by rw [hread (hfirst c hc).1]
  have hrights : rights t bytes = rights s bytes :=
    List.map_congr_left fun c hc => by rw [hread (hfirst c hc).2.1]
  have hresult : u.memory.byteAt b.result = r := by
    have hout : b.result ∉ bytes.map (·.result) := by
      intro hin
      obtain ⟨c, hc, heq⟩ := List.mem_map.mp hin
      exact (hfirst c hc).2.2 heq.symm
    rw [rest.frame _ hout, first.memory, GPMemory.byteAt_updated, if_pos rfl]
  have hresults : results u (b :: bytes) = r.toNat :: results u bytes := by
    rw [results, List.map_cons, hresult]
    rfl
  have hadds := rest.adds
  have hoverflow := rest.overflow
  have hnegative := rest.negative
  have hparts : lefts s (b :: bytes) = (s.memory.byteAt b.left).toNat :: lefts s bytes ∧
      rights s (b :: bytes) = (s.memory.byteAt b.right).toNat :: rights s bytes := ⟨rfl, rfl⟩
  rw [hlefts, hrights] at hadds hoverflow
  refine ⟨nofun, ?_, ?_, fun _ => ?_, fun _ => ?_⟩
  · intro a ha
    rw [List.map_cons, List.mem_cons, not_or] at ha
    rw [rest.frame a ha.2, hread (Ne.symm ha.1)]
  · rw [hresults, hparts.1, hparts.2, op.addend_cons, op.total_cons]
    exact .cons first.digit hadds
  · rw [hresults, hparts.1, hparts.2, op.addend_cons, op.total_cons]
    rcases eq_or_ne bytes [] with rfl | hne
    · simp only [lefts, rights, results, List.map_nil, op.addend_nil, op.total_nil,
        negative_singleton]
      rw [rest.idle rfl, first.overflow]
    · have hdigit (c : Byte) : c.toNat < 256 := c.isLt
      rw [hoverflow hne, negative_cons (by omega) (op.addend_lt (hdigit _) (hdigit _)),
        negative_cons (by omega) (hdigit _),
        negative_cons (by omega) (op.total_lt (hdigit _) (hdigit _))]
      all_goals
        cases op <;>
          simpa [lefts, rights, results, ByteArithmetic.addend, ByteArithmetic.total] using hne
  · rw [hresults]
    rcases eq_or_ne bytes [] with rfl | hne
    · rw [rest.idle rfl, first.negative, isNegative_iff, results, List.map_nil,
        negative_singleton]
    · rw [hnegative hne, negative_cons (by omega) r.isLt]
      simpa [results] using hne

theorem run_chain (bytes : List (ByteStep op)) {cpu : CPU6502}
    (inside : ∀ b ∈ bytes, b.Inside cpu.memory.size) (apart : Apart bytes) :
    ∃ t events, (chain bytes).run cpu = ⟨.ok (), t, events⟩ ∧ ChainEffect bytes cpu t := by
  induction bytes generalizing cpu with
  | nil => exact ⟨cpu, [], rfl, .nil cpu⟩
  | cons b bytes ih =>
    obtain ⟨t, events, r, hrun, heffect⟩ := b.run_perform (inside b List.mem_cons_self)
    have hsize : t.memory.size = cpu.memory.size := by
      rw [heffect.memory, GPMemory.size_updated]
    obtain ⟨u, later, hrest, hchain⟩ := ih
      (fun c hc => by rw [hsize]; exact inside c (List.mem_cons_of_mem _ hc))
      (List.pairwise_cons.mp apart).2
    refine ⟨u, events ++ later, ?_, .cons apart heffect hchain⟩
    rw [chain, Routine.run_bind_of_ok hrun, hrest]
    rfl

end Chain

/-! ## Addition and subtraction -/

/-- The number in a list of bytes. -/
def number (bytes : List ℕ) : ℕ := Nat.ofDigits 256 bytes

theorem length_results {op : ByteArithmetic} (s : CPU6502) (bytes : List (ByteStep op)) :
    (results s bytes).length = bytes.length := List.length_map _

theorem toNat_pos_iff (b : Bool) : 0 < b.toNat ↔ b = true := by
  cases b <;> simp

/-- A carry tells that nothing was borrowed. -/
theorem carry_iff_of_borrow {carry : Bool} {left right : ℕ} :
    (carry = true ↔ right ≤ left) ↔ ((!carry) = true ↔ left < right) := by
  cases carry <;> simp

/-- A chain of additions computes the sum, with the flags of the whole: `C` tells that
the sum left the range, `V` that the signed sum did, and `N` is the top bit. -/
theorem multi_byte_addition (cpu : CPU6502) (bytes : List (ByteStep .add)) (hne : bytes ≠ [])
    (inside : ∀ b ∈ bytes, b.Inside cpu.memory.size) (apart : Apart bytes) :
    ∃ t events, (chain bytes).run cpu = ⟨.ok (), t, events⟩ ∧
      number (results t bytes) =
        (number (lefts cpu bytes) + number (rights cpu bytes) +
          (cpu.P.getBit .carry).toNat) % 256 ^ bytes.length ∧
      (t.P.getBit .carry = true ↔
        256 ^ bytes.length ≤ number (lefts cpu bytes) + number (rights cpu bytes) +
          (cpu.P.getBit .carry).toNat) ∧
      (t.P.getBit .overflow = true ↔
        ¬InSignedRange 256 bytes.length (signed 256 (lefts cpu bytes) +
          signed 256 (rights cpu bytes) + (cpu.P.getBit .carry).toNat)) ∧
      (t.P.getBit .negative = true ↔ Negative 256 (results t bytes)) := by
  obtain ⟨t, events, hrun, heffect⟩ := run_chain bytes inside apart
  have hadds : Adds 256 (lefts cpu bytes) (rights cpu bytes) (cpu.P.getBit .carry).toNat
      (results t bytes) (t.P.getBit .carry).toNat := heffect.adds
  have hdigits : Digits 256 (results t bytes) := digits_map bytes _
  have hlen := length_results t bytes
  have hnonempty : results t bytes ≠ [] := by simpa [results] using hne
  refine ⟨t, events, hrun, ?_, ?_, ?_, heffect.negative hne⟩
  · rw [number, hadds.result (by omega) hdigits, hlen]
    rfl
  · have hcarry := hadds.carry (by omega) hdigits
    rw [hlen] at hcarry
    exact (toNat_pos_iff _).symm.trans hcarry
  · have hoverflow := hadds.overflow (by omega) (by omega) hnonempty
      (Bool.toNat_le _) (digits_map bytes _) (digits_map bytes _) hdigits
    rw [hlen] at hoverflow
    exact (heffect.overflow hne).trans hoverflow

/-- Two bytes at `0x10`, two at `0x20` and room for the result at `0x30`. -/
def twoBytes (op : ByteArithmetic) (operate : Handler op.mnemonic) : List (ByteStep op) :=
  have load : Handler .lda := ⟨(0xA5, ⟨.lda, .zeroPage, .lda⟩), by decide +kernel, rfl⟩
  have store : Handler .sta := ⟨(0x85, ⟨.sta, .zeroPage, .sta⟩), by decide +kernel, rfl⟩
  [⟨load, operate, store, 0x10, 0x20, 0x30⟩, ⟨load, operate, store, 0x11, 0x21, 0x31⟩]

def adcZeroPage : Handler .adc := ⟨(0x65, ⟨.adc, .zeroPage, .adc⟩), by decide +kernel, rfl⟩

def sbcZeroPage : Handler .sbc := ⟨(0xE5, ⟨.sbc, .zeroPage, .sbc⟩), by decide +kernel, rfl⟩

/-- `0xF0FF` at `0x10` and `0x2001` at `0x20`. -/
def holdsTwoBytes : CPU6502 :=
  CPU6502.initial (.ofProgram (List.replicate 0x10 0 ++ [0xFF, 0xF0] ++ List.replicate 0xE 0 ++
    [0x01, 0x20])) false

theorem inside_twoBytes (op : ByteArithmetic) (operate : Handler op.mnemonic) :
    ∀ b ∈ twoBytes op operate, b.Inside maxMemory :=
  fun b _ => ⟨b.left.isLt, b.right.isLt, b.result.isLt⟩

theorem apart_twoBytes (op : ByteArithmetic) (operate : Handler op.mnemonic) :
    Apart (twoBytes op operate) := by
  simp [Apart, twoBytes]

theorem multi_byte_addition_twoBytes :
    ∃ t events, (chain (twoBytes .add adcZeroPage)).run holdsTwoBytes = ⟨.ok (), t, events⟩ ∧
      number (results t (twoBytes .add adcZeroPage)) = 0x1100 ∧ t.P.getBit .carry = true := by
  obtain ⟨t, events, hrun, hresult, hcarry, -⟩ := multi_byte_addition holdsTwoBytes
    (twoBytes .add adcZeroPage) (by simp [twoBytes]) (inside_twoBytes _ _) (apart_twoBytes _ _)
  exact ⟨t, events, hrun, hresult.trans (by decide), hcarry.mpr (by decide)⟩

/-- A chain of subtractions computes the difference, with the borrow in the complement
of `C`. Started with `C` set it undoes a chain of additions started with `C` clear. -/
theorem multi_byte_subtraction (cpu : CPU6502) (bytes : List (ByteStep .subtract))
    (hne : bytes ≠ []) (inside : ∀ b ∈ bytes, b.Inside cpu.memory.size) (apart : Apart bytes) :
    ∃ t events, (chain bytes).run cpu = ⟨.ok (), t, events⟩ ∧
      (number (results t bytes) : ℤ) =
        (number (lefts cpu bytes) - number (rights cpu bytes) -
          (!cpu.P.getBit .carry).toNat) % ((256 ^ bytes.length : ℕ) : ℤ) ∧
      (t.P.getBit .carry = true ↔
        number (rights cpu bytes) + (!cpu.P.getBit .carry).toNat ≤ number (lefts cpu bytes)) ∧
      (t.P.getBit .overflow = true ↔
        ¬InSignedRange 256 bytes.length (signed 256 (lefts cpu bytes) -
          signed 256 (rights cpu bytes) - (!cpu.P.getBit .carry).toNat)) ∧
      (t.P.getBit .negative = true ↔ Negative 256 (results t bytes)) ∧
      ∀ (cpu₀ t₀ : CPU6502) (events₀ : List Event) (sums : List (ByteStep .add)),
        sums.length = bytes.length → (∀ b ∈ sums, b.Inside cpu₀.memory.size) → Apart sums →
        cpu₀.P.getBit .carry = false → (chain sums).run cpu₀ = ⟨.ok (), t₀, events₀⟩ →
        cpu.P.getBit .carry = true → number (lefts cpu bytes) = number (results t₀ sums) →
        number (rights cpu bytes) = number (rights cpu₀ sums) →
          number (results t bytes) = number (lefts cpu₀ sums) := by
  obtain ⟨t, events, hrun, heffect⟩ := run_chain bytes inside apart
  have hadds : Adds 256 (results t bytes) (rights cpu bytes) (!cpu.P.getBit .carry).toNat
      (lefts cpu bytes) (!t.P.getBit .carry).toNat := heffect.adds
  have hdigits : Digits 256 (results t bytes) := digits_map bytes _
  have hlen := length_results t bytes
  have hlenL : (lefts cpu bytes).length = bytes.length := List.length_map _
  have hnonempty : lefts cpu bytes ≠ [] := by simpa [lefts] using hne
  refine ⟨t, events, hrun, ?_, ?_, ?_, heffect.negative hne, ?_⟩
  · have hdiff := hadds.difference (by omega) hdigits
    rw [hlen] at hdiff
    exact hdiff
  · have hborrow := (toNat_pos_iff _).symm.trans (hadds.borrow (by omega) hdigits)
    exact carry_iff_of_borrow.mpr hborrow
  · have hoverflow := hadds.overflow_difference (by omega) (by omega) hnonempty
      (Bool.toNat_le _) hdigits (digits_map bytes _) (digits_map bytes _)
    rw [hlenL] at hoverflow
    exact (heffect.overflow hne).trans hoverflow
  · intro cpu₀ t₀ events₀ sums hlen₀ inside₀ apart₀ hclear hrun₀ hset hleft hright
    obtain ⟨t₁, events₁, hrun₁, heffect₀⟩ := run_chain sums inside₀ apart₀
    obtain ⟨-, rfl, -⟩ := Outcome.mk.inj (hrun₀.symm.trans hrun₁)
    have hadds₀ : Adds 256 (lefts cpu₀ sums) (rights cpu₀ sums) (cpu₀.P.getBit .carry).toNat
        (results t₀ sums) (t₀.P.getBit .carry).toNat := heffect₀.adds
    -- an addition read backwards is a subtraction, so both chains subtract the same
    have hback := hadds₀.difference (by omega) (digits_map sums _)
    have hdiff := hadds.difference (by omega) hdigits
    have hlen₁ : (lefts cpu₀ sums).length = bytes.length := (List.length_map _).trans hlen₀
    rw [hlen₁, ← number, ← number, ← number, hclear, ← hleft, ← hright] at hback
    rw [hlen, ← number, ← number, ← number, hset] at hdiff
    exact Int.ofNat_inj.mp (hdiff.trans hback.symm)

/-- The sum taken back: `0x1100` at `0x10`. -/
def holdsSum : CPU6502 :=
  { CPU6502.initial (.ofProgram (List.replicate 0x10 0 ++ [0x00, 0x11] ++ List.replicate 0xE 0 ++
    [0x01, 0x20])) false with P := PSR.initial.setBit .carry true }

theorem multi_byte_subtraction_twoBytes :
    ∃ t events, (chain (twoBytes .subtract sbcZeroPage)).run holdsSum = ⟨.ok (), t, events⟩ ∧
      number (results t (twoBytes .subtract sbcZeroPage)) = 0xF0FF ∧
      t.P.getBit .carry = false := by
  obtain ⟨t, events, hrun, -, hcarry, -, -, hundo⟩ := multi_byte_subtraction holdsSum
    (twoBytes .subtract sbcZeroPage) (by simp [twoBytes]) (inside_twoBytes _ _)
    (apart_twoBytes _ _)
  have hback := hundo holdsTwoBytes _ _ (twoBytes .add adcZeroPage) rfl (inside_twoBytes _ _)
    (apart_twoBytes _ _) (by decide) rfl (by decide) (by decide) (by decide)
  have hnot : ¬t.P.getBit .carry = true := fun h => absurd (hcarry.mp h) (by decide)
  exact ⟨t, events, hrun, hback.trans (by decide), by simpa using hnot⟩

end Sim6502
