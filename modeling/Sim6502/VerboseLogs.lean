import Sim6502.MemoryFrame
import Sim6502.RecurringStates
import Sim6502.RegisterDumps

/-!
# The log of verbose runs

In verbose mode every step says which instruction it is about to execute. A stream keeps
the base that was set last: the opcode is printed before `std::hex` and the program counter
after it, so the first opcode of a run is in the base the stream had, and all others are
hexadecimal. The log is read back with that in mind.
-/
namespace Sim6502
open EventComputation CPU6502 SeparatedTokens PrintedRows Debugger

/-! ## What the stream shows -/

/-- The name of the table entry. -/
def Mnemonic.text : Mnemonic → List Char
  | .adc => "ADC".toList
  | .and => "AND".toList
  | .asl => "ASL".toList
  | .bbr n => "BBR".toList ++ decimal n
  | .bbs n => "BBS".toList ++ decimal n
  | .bcc => "BCC".toList
  | .bcs => "BCS".toList
  | .beq => "BEQ".toList
  | .bit => "BIT".toList
  | .bmi => "BMI".toList
  | .bne => "BNE".toList
  | .bpl => "BPL".toList
  | .bra => "BRA".toList
  | .brk => "BRK".toList
  | .bvc => "BVC".toList
  | .bvs => "BVS".toList
  | .clc => "CLC".toList
  | .cld => "CLD".toList
  | .cli => "CLI".toList
  | .clv => "CLV".toList
  | .cmp => "CMP".toList
  | .cpx => "CPX".toList
  | .cpy => "CPY".toList
  | .dbg => "DBG".toList
  | .dec => "DEC".toList
  | .dex => "DEX".toList
  | .dey => "DEY".toList
  | .eor => "EOR".toList
  | .inc => "INC".toList
  | .inx => "INX".toList
  | .iny => "INY".toList
  | .jmp => "JMP".toList
  | .jsr => "JSR".toList
  | .lda => "LDA".toList
  | .ldx => "LDX".toList
  | .ldy => "LDY".toList
  | .lsr => "LSR".toList
  | .nop => "NOP".toList
  | .ora => "ORA".toList
  | .pha => "PHA".toList
  | .php => "PHP".toList
  | .phx => "PHX".toList
  | .phy => "PHY".toList
  | .pla => "PLA".toList
  | .plp => "PLP".toList
  | .plx => "PLX".toList
  | .ply => "PLY".toList
  | .rmb n => "RMB".toList ++ decimal n
  | .rol => "ROL".toList
  | .ror => "ROR".toList
  | .rti => "RTI".toList
  | .rts => "RTS".toList
  | .sbc => "SBC".toList
  | .sec => "SEC".toList
  | .sed => "SED".toList
  | .smb n => "SMB".toList ++ decimal n
  | .sta => "STA".toList
  | .stp => "STP".toList
  | .stx => "STX".toList
  | .sty => "STY".toList
  | .stz => "STZ".toList
  | .tax => "TAX".toList
  | .tay => "TAY".toList
  | .trb => "TRB".toList
  | .tsb => "TSB".toList
  | .tsx => "TSX".toList
  | .txa => "TXA".toList
  | .txs => "TXS".toList
  | .tya => "TYA".toList

/-- The base `std::cout` prints integers in. -/
inductive StreamBase where
  | dec | hex
  deriving DecidableEq

def StreamBase.numeral : StreamBase → ℕ → List Char
  | .dec => decimal
  | .hex => Debugger.hex

/-- What a step says in verbose mode. -/
def instructionText (base : StreamBase) (name : Mnemonic) (opcode : Byte) (pc : Address) :
    List Char :=
  "INSTRUCTION: ".toList ++ name.text ++ " (".toList ++ base.numeral opcode.toNat ++
    ")\n".toList ++ "  PC: ".toList ++ hex pc.toNat ++ "\n".toList

def unknownOpcodeText (opcode : Byte) : List Char :=
  "Unknown opcode: ".toList ++ hex opcode.toNat ++ "\n".toList ++ "Exiting...\n".toList

/-- `STP_MSG` on a line of its own. -/
def stpText : List Char := "\n== ENCOUNTERED STP, terminating... ==\n".toList

/-- The characters of a message. -/
def Message.shown (base : StreamBase) : Message → List Char
  | .memoryOverLimit =>
      "Warning: Memory size is over the addressable limit of the CPU.\n".toList
  | .resetVectorNotSet => "Warning: Reset vector appears not to be set.\n".toList
  | .unknownOpcode opcode => unknownOpcodeText opcode
  | .instruction name opcode pc => instructionText base name opcode pc
  | .stpReached => stpText
  | .breakpointReached => "\n== BREAKPOINT REACHED ==\n".toList
  | .text chars => chars

/-- `std::hex` stays set. The texts of the debugger, which set the base themselves, come from
no step of the processor. -/
def Message.leaves (base : StreamBase) : Message → StreamBase
  | .unknownOpcode _ | .instruction _ _ _ => .hex
  | _ => base

/-- What `std::cout` shows of the events of the processor. -/
def coutText : StreamBase → List Event → List Char
  | _, [] => []
  | base, .announce message :: events =>
      message.shown base ++ coutText (message.leaves base) events
  | base, .print value :: events => Char.ofNat value.toNat :: coutText base events
  | base, _ :: events => coutText base events

/-! ## Reading a log -/

inductive LogEntry where
  | instruction (name : List Char) (opcode pc : ℕ)
  | unknownOpcode (opcode : ℕ)
  | stpReached
  deriving DecidableEq

def StreamBase.readNumeral : StreamBase → List Char → Option ℕ
  | .dec => readDecimal
  | .hex => readHex

/-- The words that end a run. -/
def stpWords : List (List Char) :=
  ["==".toList, "ENCOUNTERED".toList, "STP".toList, "terminating...".toList, "==".toList]

/-- An instruction and the end of a run are five words, an unknown opcode is four. -/
def readWords : StreamBase → List (List Char) → Option (List LogEntry)
  | _, [] => some []
  | base, a :: b :: c :: d :: e :: words =>
    if a = "INSTRUCTION:".toList ∧ d = "PC:".toList then do
      let opcode ← base.readNumeral c
      let pc ← readHex e
      let later ← readWords .hex words
      return .instruction b opcode pc :: later
    else if a = "Unknown".toList ∧ b = "opcode:".toList ∧ d = "Exiting...".toList then do
      let opcode ← readHex c
      let later ← readWords .hex (e :: words)
      return .unknownOpcode opcode :: later
    else if [a, b, c, d, e] = stpWords then do
      let later ← readWords base words
      return .stpReached :: later
    else none
  | _, [a, b, c, d] =>
    if a = "Unknown".toList ∧ b = "opcode:".toList ∧ d = "Exiting...".toList then do
      let opcode ← readHex c
      return [.unknownOpcode opcode]
    else none
  | _, _ => none

/-- The words of a log are set apart by blanks, line ends, brackets and commas. -/
def readLog (base : StreamBase) (text : List Char) : Option (List LogEntry) :=
  readWords base (tokens isDumpGap text)

/-- What the log has about an event. -/
def Event.logEntry : Event → Option LogEntry
  | .announce (.instruction name opcode pc) =>
      some (.instruction name.text opcode.toNat pc.toNat)
  | .announce (.unknownOpcode opcode) => some (.unknownOpcode opcode.toNat)
  | .announce .stpReached => some .stpReached
  | _ => none

/-! ## Messages are read back -/

theorem readNumeral_numeral (base : StreamBase) (n : ℕ) :
    base.readNumeral (base.numeral n) = some n := by
  cases base with
  | dec => exact readDecimal_decimal n
  | hex => exact readHex_hex n

theorem all_append_decimal {first : List Char} (h : first.all (fun c => !isDumpGap c) = true)
    (n : ℕ) : (first ++ decimal n).all (fun c => !isDumpGap c) = true := by
  rw [List.all_append, h, Bool.true_and, List.all_eq_true]
  intro c hc
  simpa using (decimalToken n).solid c hc

theorem text_ne_nil (name : Mnemonic) : name.text ≠ [] := by
  cases name with
  | bbr n | bbs n | rmb n | smb n => exact List.cons_ne_nil _ _
  | _ => exact List.cons_ne_nil _ _

theorem all_text (name : Mnemonic) : name.text.all (fun c => !isDumpGap c) = true := by
  cases name with
  | bbr n | bbs n | rmb n | smb n => exact all_append_decimal (by decide) n
  | _ => decide

def numeralToken : StreamBase → ℕ → Token isDumpGap
  | .dec => decimalToken
  | .hex => hexToken

theorem chars_numeralToken (base : StreamBase) (n : ℕ) :
    (numeralToken base n).chars = base.numeral n := by
  cases base <;> rfl

/-- The words of a message, and the gap behind it. -/
theorem tokens_message (first : Token isDumpGap) (parts : List (Gap isDumpGap × Token isDumpGap))
    (rest : List Char) :
    tokens isDumpGap (first.chars ++ spaced parts ++ ("\n".toList ++ rest)) =
      first.chars :: (parts.map fun part => part.2.chars) ++ tokens isDumpGap rest := by
  have hend := tokens_append_cons (first.chars ++ spaced parts) rest (p := isDumpGap) (c := '\n')
    (by decide)
  rw [tokens_append_spaced, first.tokens_chars] at hend
  exact hend

theorem tokens_instructionText (base : StreamBase) (name : Mnemonic) (opcode : Byte) (pc : Address)
    (rest : List Char) :
    tokens isDumpGap (instructionText base name opcode pc ++ rest) =
      ["INSTRUCTION:".toList, name.text, base.numeral opcode.toNat, "PC:".toList, hex pc.toNat] ++
        tokens isDumpGap rest := by
  have hfirst : "INSTRUCTION: ".toList = "INSTRUCTION:".toList ++ " ".toList := rfl
  have hlabel : "  PC: ".toList = "  ".toList ++ ("PC:".toList ++ " ".toList) := rfl
  have hwords := tokens_message (wordOf "INSTRUCTION:".toList (by decide))
    [(gapOf " ".toList (by decide), wordOf name.text ⟨text_ne_nil name, all_text name⟩),
      (gapOf " (".toList (by decide), numeralToken base opcode.toNat),
      (gapOf (")\n".toList ++ "  ".toList) (by decide), wordOf "PC:".toList (by decide)),
      (gapOf " ".toList (by decide), hexToken pc.toNat)] rest
  simp only [List.map_cons, List.map_nil, chars_numeralToken, spaced_cons, spaced_nil, gapOf,
    wordOf, hexToken, List.append_assoc, List.append_nil] at hwords
  unfold instructionText
  rw [hfirst, hlabel]
  simp only [List.append_assoc]
  exact hwords

theorem tokens_unknownOpcodeText (opcode : Byte) (rest : List Char) :
    tokens isDumpGap (unknownOpcodeText opcode ++ rest) =
      ["Unknown".toList, "opcode:".toList, hex opcode.toNat, "Exiting...".toList] ++
        tokens isDumpGap rest := by
  have hfirst : "Unknown opcode: ".toList =
      "Unknown".toList ++ (" ".toList ++ ("opcode:".toList ++ " ".toList)) := rfl
  have hlast : "Exiting...\n".toList = "Exiting...".toList ++ "\n".toList := rfl
  have hwords := tokens_message (wordOf "Unknown".toList (by decide))
    [(gapOf " ".toList (by decide), wordOf "opcode:".toList (by decide)),
      (gapOf " ".toList (by decide), hexToken opcode.toNat),
      (gapOf "\n".toList (by decide), wordOf "Exiting...".toList (by decide))] rest
  simp only [List.map_cons, List.map_nil, spaced_cons, spaced_nil, gapOf, wordOf, hexToken,
    List.append_assoc, List.append_nil] at hwords
  unfold unknownOpcodeText
  rw [hfirst, hlast]
  simp only [List.append_assoc]
  exact hwords

theorem tokens_stpText (rest : List Char) :
    tokens isDumpGap (stpText ++ rest) =
      stpWords ++ tokens isDumpGap rest := by
  have htext : stpText =
      "\n".toList ++ ("==".toList ++ (" ".toList ++ ("ENCOUNTERED".toList ++ (" ".toList ++
        ("STP".toList ++ (", ".toList ++ ("terminating...".toList ++ (" ".toList ++
          ("==".toList ++ "\n".toList))))))))) := rfl
  have hstart : ∀ c ∈ "\n".toList, isDumpGap c = true := List.all_eq_true.mp rfl
  have hwords := tokens_message (wordOf "==".toList (by decide))
    [(gapOf " ".toList (by decide), wordOf "ENCOUNTERED".toList (by decide)),
      (gapOf " ".toList (by decide), wordOf "STP".toList (by decide)),
      (gapOf ", ".toList (by decide), wordOf "terminating...".toList (by decide)),
      (gapOf " ".toList (by decide), wordOf "==".toList (by decide))] rest
  simp only [List.map_cons, List.map_nil, spaced_cons, spaced_nil, gapOf, wordOf,
    List.append_assoc, List.append_nil] at hwords
  rw [htext]
  simp only [List.append_assoc]
  exact (tokens_separators_append hstart _).trans hwords

/-! ## The words of a log -/

section Words
variable (base : StreamBase) (words : List (List Char))

theorem readWords_instruction (name : Mnemonic) (opcode pc : ℕ) :
    readWords base ("INSTRUCTION:".toList :: name.text :: base.numeral opcode :: "PC:".toList ::
        hex pc :: words) =
      (readWords .hex words).map (LogEntry.instruction name.text opcode pc :: ·) := by
  rw [readWords, if_pos ⟨rfl, rfl⟩, readNumeral_numeral, readHex_hex]
  cases readWords .hex words <;> rfl

theorem readWords_unknownOpcode (opcode : ℕ) :
    readWords base ("Unknown".toList :: "opcode:".toList :: hex opcode :: "Exiting...".toList ::
        words) =
      (readWords .hex words).map (LogEntry.unknownOpcode opcode :: ·) := by
  have hother (d : List Char) : ¬("Unknown".toList = "INSTRUCTION:".toList ∧ d = "PC:".toList) :=
    fun h => absurd h.1 (by decide)
  cases words with
  | nil =>
    have hlast : readWords base
        ["Unknown".toList, "opcode:".toList, hex opcode, "Exiting...".toList] =
          some [.unknownOpcode opcode] := by
      rw [readWords, if_pos ⟨rfl, rfl, rfl⟩, readHex_hex]
      rfl
    exact hlast
  | cons e words =>
    rw [readWords, if_neg (hother _), if_pos ⟨rfl, rfl, rfl⟩, readHex_hex]
    cases readWords .hex (e :: words) <;> rfl

theorem readWords_stpReached :
    readWords base (stpWords ++ words) =
      (readWords base words).map (LogEntry.stpReached :: ·) := by
  change readWords base ("==".toList :: "ENCOUNTERED".toList :: "STP".toList ::
    "terminating...".toList :: "==".toList :: words) = _
  have hlast : ["==".toList, "ENCOUNTERED".toList, "STP".toList, "terminating...".toList,
      "==".toList] = stpWords := rfl
  rw [readWords, if_neg (by decide), if_neg (by decide), if_pos hlast]
  cases readWords base words <;> rfl

end Words

/-- An event that the log shows, or that does not show at all. -/
def Known (e : Event) : Prop := ∀ message, e = .announce message → e.logEntry.isSome

/-- A log is read back entry by entry. -/
theorem readLog_coutText {events : List Event} (known : ∀ e ∈ events, Known e)
    (quiet : printed events = []) (base : StreamBase) :
    readLog base (coutText base events) = some (events.filterMap Event.logEntry) := by
  induction events generalizing base with
  | nil => rfl
  | cons e events ih =>
    have hrest (hquiet : printed events = []) (after : StreamBase) :
        readWords after (tokens isDumpGap (coutText after events)) =
          some (events.filterMap Event.logEntry) :=
      ih (fun later hlater => known later (List.mem_cons_of_mem _ hlater)) hquiet after
    cases e with
    | read index => exact hrest quiet base
    | write index value => exact hrest quiet base
    | stackCell cell => exact hrest quiet base
    | print value => cases quiet
    | announce message =>
      have hsome := known _ List.mem_cons_self message rfl
      cases message with
      | instruction name opcode pc =>
        change readWords base
          (tokens isDumpGap (instructionText base name opcode pc ++ coutText .hex events)) = _
        rw [tokens_instructionText]
        exact (readWords_instruction base _ name _ _).trans (congrArg _ (hrest quiet .hex))
      | unknownOpcode opcode =>
        change readWords base
          (tokens isDumpGap (unknownOpcodeText opcode ++ coutText .hex events)) = _
        rw [tokens_unknownOpcodeText]
        exact (readWords_unknownOpcode base _ _).trans (congrArg _ (hrest quiet .hex))
      | stpReached =>
        change readWords base (tokens isDumpGap (stpText ++ coutText base events)) = _
        rw [tokens_stpText, readWords_stpReached, hrest quiet]
        rfl
      | memoryOverLimit => cases hsome
      | resetVectorNotSet => cases hsome
      | breakpointReached => cases hsome
      | text chars => cases hsome

/-! ## The log of a run -/

/-- What the log has about the step from a state. -/
def stepEntry (isa : CPU6502ISA) (cpu : CPU6502) : LogEntry :=
  match isa.find (opcodeAt cpu) with
  | some instruction =>
      .instruction instruction.name.text (opcodeAt cpu).toNat cpu.PC.toNat
  | none => .unknownOpcode (opcodeAt cpu).toNat

/-- The log of the loop of `execute`, told from the states it comes to. -/
def executeLog (isa : CPU6502ISA) : ℕ → CPU6502 → List LogEntry
  | 0, _ => []
  | n + 1, cpu =>
    if cpu.PC.toNat < cpu.memory.size then
      stepEntry isa cpu ::
        match ((step isa).run cpu).result with
        | .error _ => []
        | .ok .stop => [.stpReached]
        | .ok _ => executeLog isa n ((step isa).run cpu).state
    else []

/-- The operations of the processor are not in the log. -/
def notLogged : ClosedProperty :=
  emitsAccesses (p := fun e => e.logEntry = none) (fun _ => rfl) (fun _ _ => rfl) (fun _ => rfl)
    fun _ => rfl

def knownOnly : ClosedProperty :=
  emitsAccesses (p := Known) (fun _ => nofun) (fun _ _ => nofun) (fun _ => nofun) fun _ => nofun

theorem filterMap_executeInstruction (unset : Address) (instruction : Instruction)
    (cpu : CPU6502) :
    ((executeInstruction unset instruction).run cpu).events.filterMap Event.logEntry = [] :=
  List.filterMap_eq_nil_iff.mpr
    (notLogged.executeInstruction (.bind .get fun _ => .pure _) unset instruction cpu)

theorem emits_step_known (isa : CPU6502ISA) : Routine.Emits Known (step isa) :=
  knownOnly.step (.bind .get fun _ => .pure _) (.bind .get fun _ => .pure _)
    (fun _ => emits_announce fun _ _ => rfl) (fun _ _ _ => emits_announce fun _ _ => rfl) isa

section Run
variable {isa : CPU6502ISA} {s : CPU6502}

/-- A step in verbose mode leaves one entry. -/
theorem filterMap_step (isa : CPU6502ISA) (verbose : s.verbose = true)
    (guard : s.PC.toNat < s.memory.size) :
    ((step isa).run s).events.filterMap Event.logEntry = [stepEntry isa s] := by
  cases find : isa.find (opcodeAt s) with
  | none =>
    rw [step, run_lookup_unknown guard find, stepEntry, find]
    rfl
  | some instruction =>
    rw [step, run_lookup guard find, Outcome.events_after, List.filterMap_append,
      filterMap_executeInstruction, stepEntry, find, lookupEvents, if_pos verbose]
    rfl

theorem verbose_step (isa : CPU6502ISA) (verbose : s.verbose = true) :
    ((step isa).run s).state.verbose = true :=
  (sameBeyond_step isa s).verbose.trans verbose

/-- The loop leaves one entry for each state it comes to, and one for its end. -/
theorem filterMap_execute (isa : CPU6502ISA) (n : ℕ) (verbose : s.verbose = true) :
    ((execute isa n).run s).events.filterMap Event.logEntry = executeLog isa n s := by
  induction n generalizing s with
  | zero => rfl
  | succ n ih =>
    have hstep := filterMap_step isa verbose
    have hverbose := verbose_step isa verbose
    rw [executeLog]
    generalize ho : (execute isa (n + 1)).run s = o
    cases iteration_cases_of_run ho with
    | ended guard => rw [if_neg guard]; rfl
    | failed guard head =>
      have hentry := hstep guard
      rw [head] at hentry
      rw [if_pos guard, head]
      exact hentry
    | stopped guard head =>
      have hentry := hstep guard
      rw [head] at hentry
      rw [if_pos guard, head, List.filterMap_append, hentry]
      rfl
    | @next err t events guard head going =>
      have hentry := hstep guard
      rw [head] at hentry hverbose
      rw [if_pos guard, head, Outcome.events_after, List.filterMap_append, hentry, ih hverbose]
      cases err with
      | stop => exact absurd rfl going
      | _ => rfl

theorem known_execute (isa : CPU6502ISA) (n : ℕ) :
    ∀ e ∈ ((execute isa n).run s).events, Known e := by
  induction n generalizing s with
  | zero => exact List.forall_mem_nil _
  | succ n ih =>
    have hstep := emits_step_known isa s
    generalize ho : (execute isa (n + 1)).run s = o
    cases iteration_cases_of_run ho with
    | ended guard => exact List.forall_mem_nil _
    | failed guard head =>
      rw [head] at hstep
      exact hstep
    | stopped guard head =>
      rw [head] at hstep
      intro e he
      rcases List.mem_append.mp he with he | he
      · exact hstep e he
      · obtain rfl := List.mem_singleton.mp he
        exact fun _ _ => rfl
    | next guard head going =>
      rw [head] at hstep
      intro e he
      rcases List.mem_append.mp he with he | he
      · exact hstep e he
      · exact ih e he

end Run

/-- In verbose mode the output of a run that prints nothing is read back as the run: the name,
the opcode and the address of each instruction it comes to, each opcode that is unknown, and
the `STP` that ends it. Only the opcode of the first step is in the base of the stream. -/
theorem verbose_log_shows_run (isa : CPU6502ISA) (base : StreamBase) (n : ℕ) (s : CPU6502)
    (verbose : s.verbose = true) (quiet : printed ((execute isa n).run s).events = []) :
    readLog base (coutText base ((execute isa n).run s).events) = some (executeLog isa n s) := by
  rw [readLog_coutText (known_execute isa n) quiet, filterMap_execute isa n verbose]

/-- `LDA #$FF`, `STP`. -/
def logsLoad : CPU6502 :=
  { CPU6502.initial (.ofProgram [0xA9, 0xFF, 0xDB]) false with verbose := true }

theorem verbose_log_shows_run_logsLoad :
    readLog .dec (coutText .dec ((execute isa 2).run logsLoad).events) =
      some [.instruction "LDA".toList 0xA9 0, .instruction "STP".toList 0xDB 2, .stpReached] :=
  verbose_log_shows_run isa .dec 2 logsLoad rfl rfl

end Sim6502
