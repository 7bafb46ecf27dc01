import Sim6502.MultiByteArithmetic
import Sim6502.PromptDialogues
import Sim6502.RepeatedEntries
import Sim6502.SavedRegisters

/-!
# The program `subtract.s`

The program is a list of test cases. Each one loads a byte, sets or clears the carry,
subtracts another byte and stops at a breakpoint, where the registers are to be looked at.
With any list of cases, the dumps that are printed at the breakpoints show what the
comments of the program expect: the difference and the flags.
-/
namespace Sim6502
open EventComputation CPU6502 WrappingStack Debugger CarryChain

/-! ## The program -/

structure SubtractionTest where
  minuend : Byte
  carry : Bool
  subtrahend : Byte

namespace SubtractionTest

/-- `LDA #minuend`, `SEC` or `CLC`, `SBC #subtrahend`, `DBGBREAK`. -/
def code (test : SubtractionTest) : List Byte :=
  [0xA9, test.minuend, if test.carry then 0x38 else 0x18, 0xE9, test.subtrahend, 0x02]

/-- A clear carry takes away one more. -/
def borrow (test : SubtractionTest) : ℤ := if test.carry then 0 else 1

def unsignedDifference (test : SubtractionTest) : ℤ :=
  test.minuend.toNat - test.subtrahend.toNat - test.borrow

def signedDifference (test : SubtractionTest) : ℤ :=
  test.minuend.toInt - test.subtrahend.toInt - test.borrow

end SubtractionTest

/-- The test cases, and `STP` behind them. -/
def subtractCode (tests : List SubtractionTest) : List Byte :=
  tests.flatMap SubtractionTest.code ++ [0xDB]

/-- What a comment of the program expects of the registers at its breakpoint. -/
structure SubtractionTest.Expects (test : SubtractionTest) (cpu : CPU6502) (pc : Address)
    (shown : ShownRegisters) : Prop where
  difference : (shown.unsignedA : ℤ) = test.unsignedDifference % 256
  hexA : shown.hexA = shown.unsignedA
  X : shown.X = cpu.X.toNat
  Y : shown.Y = cpu.Y.toNat
  S : shown.S = cpu.S.toNat
  PC : shown.PC = pc.toNat
  carry : shown.P.testBit 0 ↔ 0 ≤ test.unsignedDifference
  zero : shown.P.testBit 1 ↔ shown.unsignedA = 0
  overflow : shown.P.testBit 6 ↔ shown.signedA ≠ test.signedDifference
  negative : shown.P.testBit 7 ↔ shown.signedA < 0
  others : ∀ i ∈ [2, 3, 4, 5], shown.P.testBit i = cpu.P.get.toNat.testBit i

/-! ## A test case -/

/-- Only the accumulator, the program counter and four flags change from test to test. -/
structure SameButResult (s t : CPU6502) : Prop where
  X : t.X = s.X
  Y : t.Y = s.Y
  S : t.S = s.S
  memory : t.memory = s.memory
  debug : t.debug = s.debug
  flags : ∀ bit ∈ [PsrBit.interruptDisable, .decimalMode, .breakCommand, .unused],
    t.P.stored bit = s.P.stored bit

section Case
variable {test : SubtractionTest} {s : CPU6502}

theorem SameButResult.refl : SameButResult s s := ⟨rfl, rfl, rfl, rfl, rfl, fun _ _ => rfl⟩

theorem SameButResult.trans {t u : CPU6502} (h : SameButResult s t) (h' : SameButResult t u) :
    SameButResult s u where
  X := h'.X.trans h.X
  Y := h'.Y.trans h.Y
  S := h'.S.trans h.S
  memory := h'.memory.trans h.memory
  debug := h'.debug.trans h.debug
  flags bit hbit := (h'.flags bit hbit).trans (h.flags bit hbit)

/-- The flags behind the subtraction. -/
def SubtractionTest.flags (test : SubtractionTest) (p : PSR) : PSR :=
  ((((p.updateFlags test.minuend).setBit .carry test.carry).setBit .carry
    (sbcCarry test.minuend test.subtrahend !test.carry)).setBit .overflow
    (sbcOverflow test.minuend test.subtrahend
      (sbcResult test.minuend test.subtrahend !test.carry))).updateFlags
    (sbcResult test.minuend test.subtrahend !test.carry)

/-- The state at the breakpoint. -/
def SubtractionTest.after (test : SubtractionTest) (s : CPU6502) : CPU6502 :=
  { s with
    A := sbcResult test.minuend test.subtrahend !test.carry
    P := test.flags s.P
    PC := s.PC + 6 }

theorem sameButResult_after : SameButResult s (test.after s) := by
  refine ⟨rfl, rfl, rfl, rfl, rfl, fun bit hbit => ?_⟩
  simp only [List.mem_cons, List.not_mem_nil, or_false] at hbit
  rcases hbit with rfl | rfl | rfl | rfl <;>
    simp [SubtractionTest.after, SubtractionTest.flags, PSR.updateFlags]

theorem stored_flags (test : SubtractionTest) (p : PSR) :
    (test.flags p).stored .carry = sbcCarry test.minuend test.subtrahend (!test.carry) ∧
      (test.flags p).stored .zero =
        isZero (sbcResult test.minuend test.subtrahend !test.carry) ∧
      (test.flags p).stored .overflow = sbcOverflow test.minuend test.subtrahend
        (sbcResult test.minuend test.subtrahend !test.carry) ∧
      (test.flags p).stored .negative =
        isNegative (sbcResult test.minuend test.subtrahend !test.carry) := by
  rw [SubtractionTest.flags, ← PSR.zeroNegative_eq, PSR.zeroNegative]
  refine ⟨?_, ?_, ?_, ?_⟩ <;> simp [PSR.stored_setBit_self]

/-- The signed reading of the result is off exactly when the subtraction overflows. -/
theorem overflow_iff_toInt (a m r : Byte) (w o : ℕ) (hw : w ≤ 1) (ho : o ≤ 1)
    (h : r.toNat + m.toNat + w = a.toNat + 256 * o) :
    SignOverflow (256 ≤ 2 * r.toNat) (256 ≤ 2 * m.toNat) (256 ≤ 2 * a.toNat) ↔
      r.toInt ≠ a.toInt - m.toInt - w := by
  have ha := a.isLt
  have hm := m.isLt
  have hr := r.isLt
  rw [SignOverflow, BitVec.toInt_eq_toNat_cond, BitVec.toInt_eq_toNat_cond,
    BitVec.toInt_eq_toNat_cond]
  split <;> split <;> split <;> omega

theorem expects_after : test.Expects s (s.PC + 6) (shownRegisters (test.after s)) := by
  have hdigit := sbcResult_digit test.minuend test.subtrahend !test.carry
  have hoverflow := sbcOverflow_iff test.minuend test.subtrahend
    (sbcResult test.minuend test.subtrahend !test.carry)
  have hborrow : test.borrow = ((!test.carry).toNat : ℤ) := by
    rw [SubtractionTest.borrow]
    cases test.carry <;> rfl
  have hstored (bit : PsrBit) : (shownRegisters (test.after s)).P.testBit bit.index =
      (test.flags s.P).stored bit := BitVec.testBit_toNat _
  obtain ⟨hC, hZ, hV, hN⟩ := stored_flags test s.P
  rw [← hstored] at hC hZ hV hN
  have hA : (shownRegisters (test.after s)).unsignedA =
      (sbcResult test.minuend test.subtrahend !test.carry).toNat := rfl
  have hsigned : (shownRegisters (test.after s)).signedA =
      (sbcResult test.minuend test.subtrahend !test.carry).toInt := rfl
  generalize sbcResult test.minuend test.subtrahend (!test.carry) = r at *
  have hr := r.isLt
  have hm := test.subtrahend.isLt
  have ha := test.minuend.isLt
  have hw := (!test.carry).toNat_le
  refine ⟨?_, rfl, rfl, rfl, rfl, rfl, ?_, ?_, ?_, ?_, ?_⟩
  · rw [hA, SubtractionTest.unsignedDifference, hborrow]
    omega
  · change (shownRegisters (test.after s)).P.testBit PsrBit.carry.index = true ↔ _
    rw [hC, sbcCarry, toNat_byteOfBool, SubtractionTest.unsignedDifference, hborrow,
      decide_eq_true_iff]
    omega
  · change (shownRegisters (test.after s)).P.testBit PsrBit.zero.index = true ↔ _
    rw [hZ, hA, isZero, beq_iff_eq, ← BitVec.toNat_inj]
    rfl
  · change (shownRegisters (test.after s)).P.testBit PsrBit.overflow.index = true ↔ _
    rw [hV, hoverflow, hsigned, SubtractionTest.signedDifference, hborrow]
    exact overflow_iff_toInt _ _ r _ _ hw (Bool.toNat_le _) hdigit
  · change (shownRegisters (test.after s)).P.testBit PsrBit.negative.index = true ↔ _
    rw [hN, isNegative_iff, hsigned, BitVec.toInt_eq_toNat_cond]
    split <;> omega
  · have hothers (bit : PsrBit)
        (hbit : bit ∈ [PsrBit.interruptDisable, .decimalMode, .breakCommand, .unused]) :
        (shownRegisters (test.after s)).P.testBit bit.index = s.P.get.toNat.testBit bit.index := by
      rw [hstored, BitVec.testBit_toNat]
      exact sameButResult_after.flags bit hbit
    intro i hi
    simp only [List.mem_cons, List.not_mem_nil, or_false] at hi
    rcases hi with rfl | rfl | rfl | rfl
    · exact hothers .interruptDisable (by simp)
    · exact hothers .decimalMode (by simp)
    · exact hothers .breakCommand (by simp)
    · exact hothers .unused (by simp)

end Case

section Steps
variable {isa : CPU6502ISA} {s : CPU6502} (hs : maxMemory ≤ s.memory.size)
include hs

theorem step_loadImmediate {b : Byte} (hop : opcodeAt s = 0xA9)
    (hoperand : s.memory.byteAt (s.PC + 1) = b) :
    ∃ events, (step isa).run s =
      ⟨.ok .ok, { s with A := b, P := s.P.updateFlags b, PC := s.PC + 2 }, events⟩ := by
  have find : isa.find (opcodeAt s) = some ⟨.lda, .immediate, .lda⟩ :=
    hop ▸ find_of_mem isa (by decide +kernel) (by decide)
  obtain ⟨events, hstep⟩ := run_step_of_ok hs find (by simp) (Execute.run_lda s (s.PC + 1) hs)
  rw [hoperand] at hstep
  exact ⟨events, hstep⟩

theorem step_writeCarry {carry : Bool} (hop : opcodeAt s = if carry then 0x38 else 0x18) :
    ∃ events, (step isa).run s =
      ⟨.ok .ok, { s with P := s.P.setBit .carry carry, PC := s.PC + 1 }, events⟩ := by
  cases carry with
  | true =>
    have find : isa.find (opcodeAt s) = some ⟨.sec, .implied, .sec⟩ :=
      hop ▸ find_of_mem isa (by decide +kernel) (by decide)
    exact run_step_of_ok hs find (by simp) (Execute.run_writeFlag s 0 .carry true)
  | false =>
    have find : isa.find (opcodeAt s) = some ⟨.clc, .implied, .clc⟩ :=
      hop ▸ find_of_mem isa (by decide +kernel) (by decide)
    exact run_step_of_ok hs find (by simp) (Execute.run_writeFlag s 0 .carry false)

theorem step_subtractImmediate {b : Byte} (hop : opcodeAt s = 0xE9)
    (hoperand : s.memory.byteAt (s.PC + 1) = b) :
    ∃ events, (step isa).run s = ⟨.ok .ok, { s with
      A := sbcResult s.A b (!s.P.getBit .carry)
      P := ((s.P.setBit .carry (sbcCarry s.A b (!s.P.getBit .carry))).setBit .overflow
        (sbcOverflow s.A b (sbcResult s.A b (!s.P.getBit .carry)))).updateFlags
        (sbcResult s.A b (!s.P.getBit .carry))
      PC := s.PC + 2 }, events⟩ := by
  have find : isa.find (opcodeAt s) = some ⟨.sbc, .immediate, .sbc⟩ :=
    hop ▸ find_of_mem isa (by decide +kernel) (by decide)
  obtain ⟨events, hstep⟩ := run_step_of_ok hs find (by simp) (Execute.run_sbc s (s.PC + 1) hs)
  rw [hoperand] at hstep
  exact ⟨events, hstep⟩

/-- The three instructions of a test case, and the breakpoint. -/
theorem steps_of_test {test : SubtractionTest} {later : List Byte} (hdebug : s.debug = true)
    (code : CodeAt s.memory s.PC (test.code ++ later)) :
    ∃ t u v w₁ w₂ w₃ w₄, (step isa).run s = ⟨.ok .ok, t, w₁⟩ ∧
      (step isa).run t = ⟨.ok .ok, u, w₂⟩ ∧ (step isa).run u = ⟨.ok .ok, v, w₃⟩ ∧
      (step isa).run v = ⟨.ok .goToDebugger, test.after s, w₄⟩ ∧
      maxMemory ≤ t.memory.size ∧ maxMemory ≤ u.memory.size ∧ maxMemory ≤ v.memory.size := by
  have hbyte (i : ℕ) (hi : i < 6) : s.memory.byteAt (s.PC + BitVec.ofNat 16 i) = test.code[i] :=
    (holds_append.mp code).1.getElem i hi
  have hPC (i j : ℕ) : s.PC + BitVec.ofNat 16 i + BitVec.ofNat 16 j =
      s.PC + BitVec.ofNat 16 (i + j) := by
    rw [BitVec.add_assoc, BitVec.ofNat_add]
  obtain ⟨w₁, hfirst⟩ := @step_loadImmediate isa s hs _ code.1 (hbyte 1 (by decide))
  obtain ⟨w₂, hsecond⟩ := @step_writeCarry isa
    { s with A := test.minuend, P := s.P.updateFlags test.minuend, PC := s.PC + 2 } hs test.carry
    (hbyte 2 (by decide))
  have hcarry : ((s.P.updateFlags test.minuend).setBit .carry test.carry).getBit .carry =
      test.carry := PSR.getBit_setBit_self _ (by simp) _
  have hthree : s.PC + 2 + 1 = s.PC + 3 := hPC 2 1
  have hfive : s.PC + 3 + 2 = s.PC + 5 := hPC 3 2
  have hsix : s.PC + 5 + 1 = s.PC + 6 := hPC 5 1
  have hoperand : s.memory.byteAt (s.PC + 3 + 1) = test.subtrahend := by
    rw [show s.PC + 3 + 1 = s.PC + 4 from hPC 3 1]
    exact hbyte 4 (by decide)
  simp only [hthree] at hsecond
  obtain ⟨w₃, hthird⟩ := @step_subtractImmediate isa
    { s with
      A := test.minuend
      P := (s.P.updateFlags test.minuend).setBit .carry test.carry
      PC := s.PC + 3 } hs test.subtrahend (hbyte 3 (by decide)) hoperand
  simp only [hcarry, hfive] at hthird
  obtain ⟨w₄, hfourth⟩ := @exists_run_step_dbg isa { test.after s with PC := s.PC + 5 } hs
    (hbyte 5 (by decide))
  have hbreak : (if (test.after s).debug then InstructionErr.goToDebugger else .ok) =
      .goToDebugger := if_pos hdebug
  simp only [hbreak, hsix] at hfourth
  exact ⟨_, _, _, w₁, w₂, w₃, w₄, hfirst, hsecond, hthird, hfourth, hs, hs, hs⟩

end Steps


/-! ## The run of the program -/

section Run
variable {isa : CPU6502ISA} {s t : CPU6502} {input : StandardInput} {session : Session}
  {events later : List Event}

/-- A step writes no text. -/
theorem writtenText_step {r : Except Fault InstructionErr}
    (h : (step isa).run s = ⟨r, t, events⟩) : writtenText events = [] := by
  have hemits := emits_step isa s
  rw [h] at hemits
  exact writtenText_of_fromProcessor hemits

variable (hs : maxMemory ≤ s.memory.size)
include hs

theorem run_debugger_ok (h : (step isa).run s = ⟨.ok .ok, t, events⟩) (n : ℕ) :
    (Debugger.run isa (n + 1)).run ⟨s, input⟩ =
      ((Debugger.run isa n).run ⟨t, input⟩).after events := by
  have hguard := s.memory.lt_size hs s.PC
  have hstep := Debugger.run_onCpu ⟨s, input⟩ h
  rw [Debugger.run, Routine.run_bind_of_ok (Routine.run_get _), if_pos hguard,
    Routine.run_bind_of_ok hstep, if_neg (by decide), if_neg (by decide)]
  rfl

theorem run_debugger_break (h : (step isa).run s = ⟨.ok .goToDebugger, t, events⟩) {n : ℕ}
    (hprompt : (goToDebugger isa n []).run ⟨t, input⟩ = ⟨.ok (.returned false), session, later⟩) :
    (Debugger.run isa (n + 1)).run ⟨s, input⟩ =
      ((Debugger.run isa n).run session).after
        (events ++ .announce .breakpointReached :: later) := by
  have hguard := s.memory.lt_size hs s.PC
  have hstep := Debugger.run_onCpu ⟨s, input⟩ h
  have hannounce : (onCpu (announce .breakpointReached)).run ⟨t, input⟩ =
      ⟨.ok (), ⟨t, input⟩, [.announce .breakpointReached]⟩ := rfl
  rw [Debugger.run, Routine.run_bind_of_ok (Routine.run_get _), if_pos hguard,
    Routine.run_bind_of_ok hstep, if_pos rfl, Routine.run_bind_of_ok hannounce,
    Routine.run_bind_of_ok hprompt]
  simp [Routine.after_after]

theorem run_debugger_stop (h : (step isa).run s = ⟨.ok .stop, t, events⟩) (n : ℕ) :
    (Debugger.run isa (n + 1)).run ⟨s, input⟩ =
      ⟨.ok .returned, ⟨t, input⟩, events ++ [.announce .stpReached]⟩ := by
  have hguard := s.memory.lt_size hs s.PC
  have hstep := Debugger.run_onCpu ⟨s, input⟩ h
  rw [Debugger.run, Routine.run_bind_of_ok (Routine.run_get _), if_pos hguard,
    Routine.run_bind_of_ok hstep, if_neg (by decide), if_pos rfl]
  rfl

end Run

/-- A look at the registers, and on. -/
def lookAndGoOn : List (List Char) := ["d".toList, "c".toList]

theorem run_lookAndGoOn (isa : CPU6502ISA) (cpu : CPU6502) (rest : List (List Char)) (n : ℕ) :
    (goToDebugger isa (n + 2) []).run ⟨cpu, typed (lookAndGoOn ++ rest)⟩ =
      ⟨.ok (.returned false), ⟨cpu, typed rest⟩,
        [.announce (.text prompt), .announce (.text (dumpText cpu)),
          .announce (.text prompt)]⟩ := by
  have hdump : '\n' ∉ "d".toList := by decide
  have hcontinue : '\n' ∉ "c".toList := by decide
  obtain ⟨hnext, hafter⟩ := nextLine_typed hdump cpu ("c".toList :: rest) []
  obtain ⟨hnext', hafter'⟩ := nextLine_typed hcontinue cpu rest "d".toList
  have parsed : Command.parse "d".toList = some ⟨.dump, []⟩ := rfl
  have hobey : (obey isa (nextLine ⟨cpu, typed (lookAndGoOn ++ rest)⟩ [])).run
        (afterLine ⟨cpu, typed (lookAndGoOn ++ rest)⟩ []) =
      ⟨.ok (.prompt "d".toList, []), ⟨cpu, typed ("c".toList :: rest)⟩,
        [.announce (.text (dumpText cpu))]⟩ := by
    change (obey isa (nextLine ⟨cpu, typed ("d".toList :: "c".toList :: rest)⟩ [])).run
      (afterLine ⟨cpu, typed ("d".toList :: "c".toList :: rest)⟩ []) = _
    rw [hnext, hafter, run_obey_of_parse parsed]
    rfl
  have hleaves : Leaves (nextLine ⟨cpu, typed ("c".toList :: rest)⟩ "d".toList) := by
    rw [hnext']
    exact .inl rfl
  have hlast := run_leaving_turn isa hleaves n
  rw [hnext', hafter'] at hlast
  rw [run_goToDebugger_succ hobey, afterTurn, hlast]
  rfl

/-! ## The reports of the tests -/

/-- A dump that shows what a test case expects. -/
def Confirms (cpu : CPU6502) (start : Address) (test : SubtractionTest × ℕ) (dump : List Char) :
    Prop :=
  ∃ shown, readRegisters dump = some shown ∧
    test.1.Expects cpu (start + BitVec.ofNat 16 (6 * (test.2 + 1))) shown

theorem SubtractionTest.Expects.of_same {test : SubtractionTest} {cpu s : CPU6502} {pc : Address}
    {shown : ShownRegisters} (h : test.Expects s pc shown) (same : SameButResult cpu s) :
    test.Expects cpu pc shown where
  difference := h.difference
  hexA := h.hexA
  X := h.X.trans (congrArg _ same.X)
  Y := h.Y.trans (congrArg _ same.Y)
  S := h.S.trans (congrArg _ same.S)
  PC := h.PC
  carry := h.carry
  zero := h.zero
  overflow := h.overflow
  negative := h.negative
  others i hi := by
    have hflag (bit : PsrBit)
        (hbit : bit ∈ [PsrBit.interruptDisable, .decimalMode, .breakCommand, .unused]) :
        s.P.get.toNat.testBit bit.index = cpu.P.get.toNat.testBit bit.index := by
      rw [BitVec.testBit_toNat, BitVec.testBit_toNat]
      exact same.flags bit hbit
    rw [h.others i hi]
    simp only [List.mem_cons, List.not_mem_nil, or_false] at hi
    rcases hi with rfl | rfl | rfl | rfl
    · exact hflag .interruptDisable (by simp)
    · exact hflag .decimalMode (by simp)
    · exact hflag .breakCommand (by simp)
    · exact hflag .unused (by simp)

theorem run_tests (isa : CPU6502ISA) (cpu s : CPU6502) (start : Address)
    (tests : List SubtractionTest) (k n : ℕ) (same : SameButResult cpu s)
    (hs : maxMemory ≤ s.memory.size) (hdebug : s.debug = true)
    (hPC : s.PC = start + BitVec.ofNat 16 (6 * k))
    (code : CodeAt s.memory s.PC (subtractCode tests)) :
    ∃ t events dumps, (Debugger.run isa (4 * tests.length + 2 + n)).run
        ⟨s, typed (tests.flatMap fun _ => lookAndGoOn)⟩ = ⟨.ok .returned, ⟨t, typed []⟩, events⟩ ∧
      t.PC = start + BitVec.ofNat 16 (6 * (k + tests.length) + 1) ∧ SameButResult cpu t ∧
      writtenText events = dumps.flatMap (fun dump => prompt ++ dump ++ prompt) ∧
      List.Forall₂ (Confirms cpu start) (tests.zipIdx k) dumps := by
  induction tests generalizing s k with
  | nil =>
    have hop : opcodeAt s = 0xDB := code.1
    have find : isa.find (opcodeAt s) = some ⟨.stp, .implied, .stp⟩ :=
      hop ▸ find_of_mem isa (by decide +kernel) (by decide)
    have hstep := run_step_of_find hs find (pointerInside_of_ne s (by simp))
      (Execute.run_stp s (effectiveAddress 0 s .implied))
    have hrun := @run_debugger_stop isa s _ (typed []) _ hs hstep (n + 1)
    rw [show 4 * ([] : List SubtractionTest).length + 2 + n = n + 1 + 1 by simp; omega]
    refine ⟨_, _, [], hrun, ?_, same.trans ⟨rfl, rfl, rfl, rfl, rfl, fun _ _ => rfl⟩, ?_, .nil⟩
    · change s.PC + 1 = _
      rw [hPC, List.length_nil, Nat.add_zero, BitVec.ofNat_add, BitVec.add_assoc]
      rfl
    · rw [writtenText_append, writtenText_step hstep]
      rfl
  | cons test tests ih =>
    have hcode : CodeAt s.memory s.PC (test.code ++ subtractCode tests) := by
      rwa [subtractCode, List.flatMap_cons, List.append_assoc, ← subtractCode] at code
    obtain ⟨t₁, t₂, t₃, w₁, w₂, w₃, w₄, h₁, h₂, h₃, h₄, full₁, full₂, full₃⟩ :=
      @steps_of_test isa s hs test _ hdebug hcode
    have same' : SameButResult cpu (test.after s) := same.trans sameButResult_after
    have hPC' : (test.after s).PC = start + BitVec.ofNat 16 (6 * (k + 1)) := by
      change s.PC + 6 = _
      rw [hPC, Nat.mul_succ, BitVec.ofNat_add, BitVec.add_assoc]
      rfl
    have hcode' : CodeAt (test.after s).memory (test.after s).PC (subtractCode tests) :=
      (holds_append.mp hcode).2
    obtain ⟨t, later, dumps, hrun, hend, hsame, htext, hconfirms⟩ :=
      ih (test.after s) (k + 1) same' hs hdebug hPC' hcode'
    have hprompt := run_lookAndGoOn isa (test.after s) (tests.flatMap fun _ => lookAndGoOn)
      (4 * tests.length + n)
    have hbreak := run_debugger_break full₃ h₄ hprompt
    have hfuel : 4 * tests.length + n + 2 = 4 * tests.length + 2 + n := by omega
    have hfuel' : 4 * (test :: tests).length + 2 + n =
        4 * tests.length + 2 + n + 1 + 1 + 1 + 1 := by
      rw [List.length_cons]
      omega
    rw [hfuel, hrun] at hbreak
    have hlook : writtenText [.announce .breakpointReached, .announce (.text prompt),
        .announce (.text (dumpText (test.after s))), .announce (.text prompt)] =
        prompt ++ dumpText (test.after s) ++ prompt := by
      simp [writtenText]
    rw [hfuel', List.flatMap_cons, run_debugger_ok hs h₁, run_debugger_ok full₁ h₂,
      run_debugger_ok full₂ h₃, hbreak]
    simp only [Outcome.after_mk]
    refine ⟨t, _, dumpText (test.after s) :: dumps, rfl, ?_, hsame, ?_, .cons ?_ hconfirms⟩
    · rw [hend, List.length_cons, Nat.add_assoc, Nat.add_comm 1]
    · simp only [writtenText_append, writtenText_step h₁, writtenText_step h₂,
        writtenText_step h₃, writtenText_step h₄, hlook, List.nil_append, List.flatMap_cons, htext]
    · refine ⟨_, readRegisters_dumpText _, ?_⟩
      rw [← hPC']
      exact expects_after.of_same same

/-- With any list of test cases, the program in debug mode prints a dump at each breakpoint
that confirms the test case, when the user looks at the registers there and goes on. The run
ends behind the `STP`. -/
theorem subtraction_tests_confirmed (isa : CPU6502ISA) (cpu : CPU6502)
    (tests : List SubtractionTest) (n : ℕ) (hs : maxMemory ≤ cpu.memory.size)
    (hdebug : cpu.debug = true) (code : CodeAt cpu.memory cpu.PC (subtractCode tests))
    (hn : 4 * tests.length + 2 ≤ n) :
    ∃ t events dumps, (Debugger.run isa n).run
        ⟨cpu, typed (tests.flatMap fun _ => ["d".toList, "c".toList])⟩ =
          ⟨.ok .returned, ⟨t, typed []⟩, events⟩ ∧
      t.PC = cpu.PC + BitVec.ofNat 16 (6 * tests.length + 1) ∧ SameButResult cpu t ∧
      writtenText events = dumps.flatMap (fun dump => prompt ++ dump ++ prompt) ∧
      List.Forall₂ (Confirms cpu cpu.PC) tests.zipIdx dumps := by
  obtain ⟨m, rfl⟩ := Nat.exists_eq_add_of_le hn
  obtain ⟨t, events, dumps, hrun, hend, hsame, htext, hconfirms⟩ :=
    run_tests isa cpu cpu cpu.PC tests 0 m .refl hs hdebug (BitVec.add_zero _).symm code
  rw [Nat.zero_add] at hend
  exact ⟨t, events, dumps, hrun, hend, hsame, htext, hconfirms⟩

/-- The test cases of the file. -/
def subtractTests : List SubtractionTest :=
  [⟨0x05, true, 0x03⟩, ⟨0x05, true, 0x05⟩, ⟨0x05, true, 0x06⟩, ⟨0x05, false, 0x03⟩,
    ⟨0x7F, true, 0xFF⟩, ⟨0x80, true, 0x01⟩, ⟨0xFE, true, 0x7E⟩, ⟨0x00, true, 0x01⟩,
    ⟨0xFF, true, 0xFF⟩, ⟨0xFF, false, 0xFF⟩]

theorem subtraction_tests_confirmed_subtractTests :
    ∃ t events dumps, (Debugger.run isa 42).run
        ⟨.initial (.ofProgram (subtractCode subtractTests)) true,
          typed (subtractTests.flatMap fun _ => ["d".toList, "c".toList])⟩ =
          ⟨.ok .returned, ⟨t, typed []⟩, events⟩ ∧
      t.PC = 61 ∧
      writtenText events = dumps.flatMap (fun dump => prompt ++ dump ++ prompt) ∧
      List.Forall₂ (Confirms (.initial (.ofProgram (subtractCode subtractTests)) true) 0)
        subtractTests.zipIdx dumps := by
  obtain ⟨t, events, dumps, hrun, hend, -, htext, hconfirms⟩ :=
    subtraction_tests_confirmed isa (.initial (.ofProgram (subtractCode subtractTests)) true)
      subtractTests 42 le_rfl rfl (by decide +kernel) (by decide)
  exact ⟨t, events, dumps, hrun, hend, htext, hconfirms⟩

end Sim6502
