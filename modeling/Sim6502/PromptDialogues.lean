import Sim6502.CommandParsing
import Sim6502.OperationClosure
import Sim6502.PromptInput
import Sim6502.RegisterDumps

/-!
# Dialogues at the prompt

What a user can ask for, and what there is to answer, are said without the texts. A line
asks for something; a machine that knows the processor answers. The prompt answers every
line in turn, and the text of each turn is read back as the answer.
-/
namespace Sim6502
open EventComputation CPU6502 SeparatedTokens PrintedRows
namespace Debugger

/-! ## Numbers that are typed -/

theorem readDigits_of_readNumeral {n m : ℕ} {chars : List Char}
    (h : readNumeral 16 hexDigit n chars = some m) : readDigits n chars = m := by
  induction chars generalizing n with
  | nil => exact Option.some.inj h
  | cons c chars ih =>
    rw [readNumeral_cons] at h
    obtain ⟨k, hk, hrest⟩ := Option.bind_eq_some_iff.mp h
    obtain ⟨d, hd, rfl⟩ := Option.map_eq_some_iff.mp hk
    rw [readDigits, hd]
    exact ih hrest

theorem skipHexPrefix_of_digits {chars : List Char} (h : ∀ c ∈ chars, (hexDigit c).isSome) :
    skipHexPrefix chars = chars := by
  unfold skipHexPrefix
  split
  · exact absurd (h 'x' (by simp)) (by decide)
  · exact absurd (h 'X' (by simp)) (by decide)
  · rfl

/-- A number that is typed as it is printed, with any zeros in front. -/
theorem hexToNumber_of_readHex {chars : List Char} {n : ℕ} (h : readHex chars = some n)
    (hn : n ≤ maxSize) : hexToNumber chars = n := by
  have hdigits := isSome_of_readNumeral h
  have hhead {c : Char} (hc : hexDigit c = none) : chars.head? ≠ some c := by
    intro heq
    have hsome := hdigits c (List.mem_of_mem_head? heq)
    rw [hc] at hsome
    cases hsome
  have hminus : chars.head? ≠ some '-' := hhead rfl
  have hplus : chars.head? ≠ some '+' := hhead rfl
  simp only [hexToNumber, hminus, hplus, or_self, if_false, skipHexPrefix_of_digits hdigits,
    readDigits_of_readNumeral h, if_neg (Nat.not_lt.mpr hn)]

/-! ## Requests and answers -/

/-- What a line can ask for: something that is told whatever the state, the registers, some
bytes, or a step. -/
inductive Request where
  | told (chars : List Char)
  | registers
  | bytes (start count : ℕ)
  | step
  deriving DecidableEq

inductive Answer where
  | told (chars : List Char)
  | registers (shown : ShownRegisters)
  | bytes (lines : List DumpLine)
  | stepped (broken : Bool)

/-- Every line asks for something, but for those that leave the prompt. -/
def Request.ofLine (line : List Char) : Option Request :=
  match line with
  | [] => some (.told [])
  | _ => match Command.parse line with
    | none => some (.told (invalidCommandMsg ++ "\n".toList))
    | some ⟨.dump, _⟩ => some .registers
    | some ⟨.get, []⟩ => some (.told "Missing address.\n".toList)
    | some ⟨.get, [address]⟩ => some (.bytes (hexToNumber address) 1)
    | some ⟨.get, [start, count]⟩ => some (.bytes (hexToNumber start) (hexToNumber count))
    | some ⟨.get, _⟩ => some (.told "Too many arguments.\n".toList)
    | some ⟨.step, _⟩ => some .step
    | some ⟨.help, _⟩ => some (.told (helpMsg ++ "\n".toList))
    | some ⟨.continue, _⟩ | some ⟨.exit, _⟩ => none

/-- The answer and the processor after it: bytes outside the memory have no answer, and a
step that fails or meets the end of the program has none that leaves the prompt open. -/
def Request.answer (isa : CPU6502ISA) (cpu : CPU6502) : Request → Option (Answer × CPU6502)
  | .told chars => some (.told chars, cpu)
  | .registers => some (.registers (shownRegisters cpu), cpu)
  | .bytes start count =>
    if count = 0 ∨ start + count ≤ cpu.memory.size then
      some (.bytes (dumpLines start (requested cpu start count)), cpu)
    else none
  | .step => match (Sim6502.step isa).run cpu with
    | ⟨.error _, _, _⟩ => none
    | ⟨.ok err, t, _⟩ =>
      if err = .stop then none else some (.stepped (err == .goToDebugger), t)

/-- The answers to requests one after the other. -/
def answers (isa : CPU6502ISA) : List Request → CPU6502 → Option (List Answer × CPU6502)
  | [], cpu => some ([], cpu)
  | request :: rest, cpu => do
    let (answer, next) ← request.answer isa cpu
    let (later, last) ← answers isa rest next
    return (answer :: later, last)

/-- What a user reads of an answer in the output of a turn. -/
def Answer.ReadFrom (events : List Event) : Answer → Prop
  | .told chars => writtenText events = chars
  | .registers shown => readRegisters (writtenText events) = some shown
  | .bytes lines => readDump (writtenText events) = some lines
  | .stepped broken => writtenText events = [] ∧
      (.announce .breakpointReached ∈ events ↔ broken = true)

/-! ## The turns of an output -/

def isPrompt (e : Event) : Bool := e = .announce (.text prompt)

/-- The output behind each prompt. -/
def turnsOf (events : List Event) : List (List Event) := (events.splitOnP isPrompt).tail

theorem splitOnP_turns {events : List Event} (h : ∀ e ∈ events, isPrompt e = false)
    (turns : List (List Event)) (hturns : ∀ turn ∈ turns, ∀ e ∈ turn, isPrompt e = false) :
    (events ++ turns.flatMap fun turn => .announce (.text prompt) :: turn).splitOnP isPrompt =
      events :: turns := by
  induction turns generalizing events with
  | nil => rw [List.flatMap_nil, List.append_nil, List.splitOnP_eq_singleton h]
  | cons turn turns ih =>
    have hrest := ih (hturns turn List.mem_cons_self)
      fun later hlater => hturns later (List.mem_cons_of_mem _ hlater)
    rw [List.flatMap_cons, List.cons_append,
      List.splitOnP_append_cons events _ (show isPrompt (.announce (.text prompt)) = true by
        decide), hrest, List.splitOnP_eq_singleton h]
    rfl

theorem turnsOf_flatMap (turns : List (List Event))
    (hturns : ∀ turn ∈ turns, ∀ e ∈ turn, isPrompt e = false) :
    turnsOf (turns.flatMap fun turn => .announce (.text prompt) :: turn) = turns := by
  have hnone : ∀ e ∈ ([] : List Event), isPrompt e = false := List.forall_mem_nil _
  have hsplit := splitOnP_turns hnone turns hturns
  rw [List.nil_append] at hsplit
  rw [turnsOf, hsplit, List.tail_cons]

/-! ## What the processor says is none of it -/

/-- No text, and no breakpoint either. -/
def FromProcessor (e : Event) : Prop :=
  (∀ chars, e ≠ .announce (.text chars)) ∧ e ≠ .announce .breakpointReached

/-- The operations of the processor only tell of accesses. -/
def fromProcessor : ClosedProperty :=
  emitsAccesses (p := FromProcessor) (fun _ => ⟨nofun, nofun⟩) (fun _ _ => ⟨nofun, nofun⟩)
    (fun _ => ⟨nofun, nofun⟩) fun _ => ⟨nofun, nofun⟩

theorem emits_step (isa : CPU6502ISA) : Routine.Emits FromProcessor (Sim6502.step isa) :=
  fromProcessor.step (.bind .get fun _ => .pure _) (.bind .get fun _ => .pure _)
    (fun _ => emits_announce ⟨nofun, nofun⟩) (fun _ _ _ => emits_announce ⟨nofun, nofun⟩) isa

theorem writtenText_of_fromProcessor {events : List Event} (h : ∀ e ∈ events, FromProcessor e) :
    writtenText events = [] := by
  refine List.flatMap_eq_nil_iff.mpr fun e he => ?_
  split
  · exact absurd rfl ((h _ he).1 _)
  · rfl

/-! ## No answer looks like a prompt -/

theorem emits_say {chars : List Char} (h : chars ≠ prompt) :
    Routine.Emits (fun e => isPrompt e = false) (say chars) :=
  emits_announce (by simpa [isPrompt] using h)

theorem bytePrefix_ne_prompt (start i : ℕ) : bytePrefix start i ≠ prompt := by
  intro heq
  have hhead := congrArg List.head? heq
  rw [bytePrefix] at hhead
  split at hhead
  · cases hhead
  · split at hhead <;> cases hhead

theorem padded_ne_prompt (width n : ℕ) : padded width (hex n) ≠ prompt := by
  intro heq
  have hmem : '>' ∈ padded width (hex n) := by
    rw [heq]
    exact List.mem_cons_self
  exact ne_of_mem_padded (by decide) '>' hmem rfl

theorem emits_printMemoryFrom (start remaining i : ℕ) :
    Routine.Emits (fun e => isPrompt e = false) (printMemoryFrom start remaining i) := by
  induction remaining generalizing i with
  | zero => exact .pure _
  | succ remaining ih =>
    rw [printMemoryFrom_succ]
    refine .bind (emits_say (bytePrefix_ne_prompt start i)) fun _ => .bind ?_ fun byte => ?_
    · intro cpu e he
      obtain rfl := List.mem_singleton.mp he
      rfl
    · exact .bind (emits_say (padded_ne_prompt 2 _)) fun _ => ih (i + 1)

theorem emits_printMemory (start count : ℕ) :
    Routine.Emits (fun e => isPrompt e = false) (printMemory start count) :=
  .bind (emits_printMemoryFrom start count 0) fun _ => emits_say (by decide)

theorem dumpText_ne_prompt (cpu : CPU6502) : dumpText cpu ≠ prompt := by
  intro heq
  rw [dumpText_eq] at heq
  cases congrArg List.head? heq

theorem head_toList_append {s : String} {c : Char} (h : s.toList.head? = some c) (t : String) :
    (s ++ t).toList.head? = some c := by
  rw [String.toList_append, List.head?_append, h]
  rfl

theorem helpMsg_ne_prompt : helpMsg ++ "\n".toList ≠ prompt := by
  intro heq
  have hhead : helpMsg.head? = some 'A' := by
    unfold helpMsg
    iterate 6 apply head_toList_append
    rfl
  have htext := congrArg List.head? heq
  rw [List.head?_append, hhead] at htext
  cases htext

theorem isPrompt_stepMessages (err : InstructionErr) :
    ∀ e ∈ stepMessages err, isPrompt e = false := by
  cases err <;> decide

theorem isPrompt_of_fromProcessor {e : Event} (h : FromProcessor e) : isPrompt e = false :=
  decide_eq_false (h.1 prompt)

/-! ## A line is answered -/

section Answer
variable {isa : CPU6502ISA} {session : Session} {line : List Char} {answer : Answer}
  {t : CPU6502}

/-- The turn of a line stays at the prompt with an answer in its output. -/
def Answers (isa : CPU6502ISA) (session : Session) (line : List Char) (answer : Answer)
    (t : CPU6502) : Prop :=
  ∃ states events, (obey isa line).run session =
      ⟨.ok (.prompt line, states), { session with cpu := t }, events⟩ ∧
    answer.ReadFrom events ∧ ∀ e ∈ events, isPrompt e = false

theorem answers_text {chars : List Char} (h : chars ≠ prompt)
    (run : (obey isa line).run session =
      ⟨.ok (.prompt line, []), session, [.announce (.text chars)]⟩) :
    Answers isa session line (.told chars) session.cpu := by
  refine ⟨_, _, run, by simp [Answer.ReadFrom, writtenText], fun e he => ?_⟩
  obtain rfl := List.mem_singleton.mp he
  simpa [isPrompt] using h

/-- What the prompt does with a command. -/
theorem run_obey_of_parse {cmd : Command} (parsed : Command.parse line = some cmd) :
    (obey isa line).run session = (match cmd.name with
      | .dump => do
        let session ← Routine.get
        onCpu (say (dumpText session.cpu))
        return (.prompt line, [])
      | .get => do
        onCpu (get cmd.args)
        return (.prompt line, [])
      | .step => stepTurn isa (.prompt line) (.prompt line)
      | .continue => return (.loop, [])
      | .help => do
        onCpu (say (helpMsg ++ "\n".toList))
        return (.prompt line, [])
      | .exit => return (.exited, []) : Debugging (Location × List CPU6502)).run session := by
  have hline : line.isEmpty = false := by
    cases line with
    | nil => cases parsed
    | cons c rest => rfl
  rw [obey, hline, parsed]
  rfl

theorem answers_bytes {start count : ℕ} {args : List (List Char)}
    (parsed : Command.parse line = some ⟨.get, args⟩) (hget : get args = printMemory start count)
    (hinside : count = 0 ∨ start + count ≤ session.cpu.memory.size) :
    Answers isa session line (.bytes (dumpLines start (requested session.cpu start count)))
      session.cpu := by
  have hcells : ∀ j < count, start + j < session.cpu.memory.size := by
    intro j hj
    omega
  obtain ⟨events, hrun, htext⟩ := run_printMemory hcells
  have hprint : (obey isa line).run session = ⟨.ok (.prompt line, []), session, events⟩ := by
    rw [run_obey_of_parse parsed]
    dsimp only
    rw [hget, Routine.run_bind_of_ok (run_onCpu session hrun)]
    simp
  refine ⟨_, _, hprint, ?_, fun e he => ?_⟩
  · rw [Answer.ReadFrom, htext]
    exact readDump_memoryText rfl _
  · have hemits := emits_printMemory start count session.cpu
    rw [hrun] at hemits
    exact hemits e he

theorem answers_registers {args : List (List Char)}
    (parsed : Command.parse line = some ⟨.dump, args⟩) :
    Answers isa session line (.registers (shownRegisters session.cpu)) session.cpu := by
  have hrun : (obey isa line).run session =
      ⟨.ok (.prompt line, []), session, [.announce (.text (dumpText session.cpu))]⟩ := by
    rw [run_obey_of_parse parsed]
    rfl
  refine ⟨_, _, hrun, ?_, fun e he => ?_⟩
  · have htext : writtenText [.announce (.text (dumpText session.cpu))] = dumpText session.cpu :=
      List.append_nil _
    rw [Answer.ReadFrom, htext, readRegisters_dumpText]
  · obtain rfl := List.mem_singleton.mp he
    simpa [isPrompt] using dumpText_ne_prompt session.cpu

theorem answers_stepped {args : List (List Char)} {err : InstructionErr} {events : List Event}
    (parsed : Command.parse line = some ⟨.step, args⟩) (going : err ≠ .stop)
    (head : (Sim6502.step isa).run session.cpu = ⟨.ok err, t, events⟩) :
    Answers isa session line (.stepped (err == .goToDebugger)) t := by
  have hrun : (obey isa line).run session =
      ⟨.ok (.prompt line, [t]), { session with cpu := t }, events ++ stepMessages err⟩ := by
    rw [run_obey_of_parse parsed]
    dsimp only
    rw [run_stepTurn head, (Location.afterStep_eq going _ _).elim id id]
  have hemits := emits_step isa session.cpu
  rw [head] at hemits
  have hsilent := writtenText_of_fromProcessor hemits
  have hbreak : .announce .breakpointReached ∉ events := fun he => (hemits _ he).2 rfl
  refine ⟨_, _, hrun, ⟨?_, ?_⟩, fun e he => ?_⟩
  · rw [writtenText_append, hsilent]
    cases err <;> rfl
  · rw [List.mem_append, or_iff_right hbreak]
    cases err <;> simp [stepMessages]
  · rcases List.mem_append.mp he with he | he
    · exact isPrompt_of_fromProcessor (hemits e he)
    · exact isPrompt_stepMessages err e he

theorem answers_of_answer_bytes {start count : ℕ} {args : List (List Char)}
    (parsed : Command.parse line = some ⟨.get, args⟩) (hget : get args = printMemory start count)
    (h : (Request.bytes start count).answer isa session.cpu = some (answer, t)) :
    Answers isa session line answer t := by
  rw [Request.answer] at h
  split at h
  next hinside =>
    obtain ⟨rfl, rfl⟩ := Prod.mk.inj (Option.some.inj h)
    exact answers_bytes parsed hget hinside
  next => cases h

theorem answers_of_answer_step {args : List (List Char)}
    (parsed : Command.parse line = some ⟨.step, args⟩)
    (h : Request.step.answer isa session.cpu = some (answer, t)) :
    Answers isa session line answer t := by
  rcases head : (Sim6502.step isa).run session.cpu with ⟨e | err, u, events⟩
  · rw [Request.answer, head] at h
    cases h
  · rw [Request.answer, head] at h
    by_cases hstop : err = .stop
    · rw [hstop] at h
      cases h
    · simp only [if_neg hstop] at h
      obtain ⟨rfl, rfl⟩ := Prod.mk.inj (Option.some.inj h)
      exact answers_stepped parsed hstop head

/-- Whatever a line asks for is answered. -/
theorem answers_request {request : Request} (hline : Request.ofLine line = some request)
    (hanswer : request.answer isa session.cpu = some (answer, t)) :
    Answers isa session line answer t := by
  unfold Request.ofLine at hline
  cases line with
  | nil =>
    obtain rfl := Option.some.inj hline
    obtain ⟨rfl, rfl⟩ := Prod.mk.inj (Option.some.inj hanswer)
    exact ⟨[], [], rfl, rfl, by simp⟩
  | cons c rest =>
    have hsaid {chars : List Char} (htold : some (Request.told chars) = some request)
        (hne : chars ≠ prompt) (run : (obey isa (c :: rest)).run session =
          ⟨.ok (.prompt (c :: rest), []), session, [.announce (.text chars)]⟩) :
        Answers isa session (c :: rest) answer t := by
      obtain rfl := Option.some.inj htold
      obtain ⟨rfl, rfl⟩ := Prod.mk.inj (Option.some.inj hanswer)
      exact answers_text hne run
    rcases parsed : Command.parse (c :: rest) with _ | ⟨name, args⟩
    · rw [parsed] at hline
      refine hsaid hline (by decide) ?_
      rw [obey, parsed]
      rfl
    · rw [parsed] at hline
      cases name with
      | dump =>
        obtain rfl := Option.some.inj hline
        obtain ⟨rfl, rfl⟩ := Prod.mk.inj (Option.some.inj hanswer)
        exact answers_registers parsed
      | get =>
        rcases args with _ | ⟨start, _ | ⟨count, _ | ⟨extra, more⟩⟩⟩
        · refine hsaid hline (by decide) ?_
          rw [run_obey_of_parse parsed]
          rfl
        · obtain rfl := Option.some.inj hline
          exact answers_of_answer_bytes parsed rfl hanswer
        · obtain rfl := Option.some.inj hline
          exact answers_of_answer_bytes parsed rfl hanswer
        · refine hsaid hline (by decide) ?_
          rw [run_obey_of_parse parsed]
          rfl
      | step =>
        obtain rfl := Option.some.inj hline
        exact answers_of_answer_step parsed hanswer
      | help =>
        refine hsaid hline helpMsg_ne_prompt ?_
        rw [run_obey_of_parse parsed]
        rfl
      | «continue» => cases hline
      | exit => cases hline

end Answer

/-! ## A whole dialogue -/

/-- What the call of `go_to_debugger` delivers after a line that leaves the prompt. -/
def leftStatus (line : List Char) : PromptStatus :=
  if lineName line = some .exit then .exited else .returned false

theorem run_leaving_turn (isa : CPU6502ISA) {session : Session} {command : List Char}
    (h : Leaves (nextLine session command)) (n : ℕ) :
    (goToDebugger isa (n + 1) command).run session =
      ⟨.ok (leftStatus (nextLine session command)), afterLine session command,
        [.announce (.text prompt)]⟩ := by
  have hparse {name : Command.Name} (hname : lineName (nextLine session command) = some name) :
      ∃ args, Command.parse (nextLine session command) = some ⟨name, args⟩ := by
    obtain ⟨cmd, hcmd, rfl⟩ := Option.map_eq_some_iff.mp hname
    exact ⟨cmd.args, hcmd⟩
  rcases h with hname | hname
  · obtain ⟨args, parsed⟩ := hparse hname
    have hobey : (obey isa (nextLine session command)).run (afterLine session command) =
        ⟨.ok (.loop, []), afterLine session command, []⟩ := by
      rw [run_obey_of_parse parsed]
      rfl
    rw [run_goToDebugger_succ hobey, leftStatus, hname]
    rfl
  · obtain ⟨args, parsed⟩ := hparse hname
    have hobey : (obey isa (nextLine session command)).run (afterLine session command) =
        ⟨.ok (.exited, []), afterLine session command, []⟩ := by
      rw [run_obey_of_parse parsed]
      rfl
    rw [run_goToDebugger_succ hobey, leftStatus, hname]
    rfl

section Dialogue
variable {isa : CPU6502ISA} {lines : List (List Char)} {requests : List Request}
  {final : List Char} {rest : List (List Char)}

theorem nextLine_typed {line : List Char} (h : '\n' ∉ line) (cpu : CPU6502)
    (later : List (List Char)) (command : List Char) :
    nextLine ⟨cpu, typed (line :: later)⟩ command = line ∧
      afterLine ⟨cpu, typed (line :: later)⟩ command = ⟨cpu, typed later⟩ := by
  rw [nextLine, afterLine, getline_typed h]
  exact ⟨rfl, rfl⟩

theorem run_dialogue (hasks : List.Forall₂ (fun line request => Request.ofLine line = some request)
      lines requests) (hfinal : Leaves final) (hend : '\n' ∉ final) {cpu t : CPU6502}
    {told : List Answer} (hlines : ∀ line ∈ lines, '\n' ∉ line)
    (htold : answers isa requests cpu = some (told, t)) (command : List Char) (n : ℕ) :
    ∃ turns, (goToDebugger isa (n + 1 + lines.length) command).run
        ⟨cpu, typed (lines ++ final :: rest)⟩ =
      ⟨.ok (leftStatus final), ⟨t, typed rest⟩,
        (turns ++ [[]]).flatMap fun turn => .announce (.text prompt) :: turn⟩ ∧
      List.Forall₂ (fun answer turn => answer.ReadFrom turn) told turns ∧
      ∀ turn ∈ turns, ∀ e ∈ turn, isPrompt e = false := by
  induction hasks generalizing cpu told command with
  | nil =>
    obtain ⟨rfl, rfl⟩ := Prod.mk.inj (Option.some.inj htold)
    obtain ⟨hnext, hafter⟩ := nextLine_typed hend cpu rest command
    have hleaves : Leaves (nextLine ⟨cpu, typed (final :: rest)⟩ command) := by rwa [hnext]
    have hrun := run_leaving_turn isa hleaves n
    rw [hnext, hafter] at hrun
    exact ⟨[], hrun, .nil, by simp⟩
  | @cons line request lines requests hline hasks ih =>
    obtain ⟨⟨answer, u⟩, hanswer, hrest⟩ := Option.bind_eq_some_iff.mp htold
    obtain ⟨⟨later, last⟩, hlater, hresult⟩ := Option.bind_eq_some_iff.mp hrest
    obtain ⟨rfl, rfl⟩ := Prod.mk.inj (Option.some.inj hresult)
    obtain ⟨hnext, hafter⟩ := nextLine_typed (hlines line List.mem_cons_self) cpu
      (lines ++ final :: rest) command
    have hturn : Answers isa ⟨cpu, typed (lines ++ final :: rest)⟩ line answer u :=
      answers_request hline hanswer
    obtain ⟨states, events, hobey, hread, hsilent⟩ := hturn
    obtain ⟨turns, hturns, hreads, hsilents⟩ := ih
      (fun line hline => hlines line (List.mem_cons_of_mem _ hline)) hlater line
    refine ⟨events :: turns, ?_, .cons hread hreads, fun turn hturn => ?_⟩
    · have hobey' :
          (obey isa (nextLine ⟨cpu, typed (line :: (lines ++ final :: rest))⟩ command)).run
            (afterLine ⟨cpu, typed (line :: (lines ++ final :: rest))⟩ command) =
            ⟨.ok (.prompt line, states), ⟨u, typed (lines ++ final :: rest)⟩, events⟩ := by
        rw [hnext, hafter]
        exact hobey
      have hturn : (goToDebugger isa (n + 1 + lines.length + 1) command).run
          ⟨cpu, typed (line :: (lines ++ final :: rest))⟩ =
            ((goToDebugger isa (n + 1 + lines.length) line).run
              ⟨u, typed (lines ++ final :: rest)⟩).after (.announce (.text prompt) :: events) :=
        run_goToDebugger_succ hobey'
      rw [List.length_cons, ← Nat.add_assoc, List.cons_append, hturn, hturns]
      rfl
    · rcases List.mem_cons.mp hturn with rfl | hturn
      · exact hsilent
      · exact hsilents turn hturn

end Dialogue

/-- A range that is typed in any spacing, with any number of zeros in front. -/
theorem ofLine_get {lead trail : List Char} (hlead : ∀ c ∈ lead, isSpace c = true)
    (htrail : ∀ c ∈ trail, isSpace c = true) (gap gap' : Gap isSpace) {a b : Token isSpace}
    {start count : ℕ} (ha : readHex a.chars = some start) (hb : readHex b.chars = some count)
    (hstart : start ≤ maxSize) (hcount : count ≤ maxSize) :
    Request.ofLine (lead ++ (Command.nameToString .get ++ spaced [(gap, a), (gap', b)]) ++ trail) =
      some (.bytes start count) := by
  have parsed := parse_of_words (words_line .get [(gap, a), (gap', b)] hlead htrail)
  rw [Command.parseName_of_mem (Command.nameToString_mem .get), Option.map_some] at parsed
  generalize lead ++ (Command.nameToString .get ++ spaced [(gap, a), (gap', b)]) ++ trail = line
    at parsed
  cases line with
  | nil => cases parsed
  | cons c rest =>
    unfold Request.ofLine
    simp only [parsed, List.map_cons, List.map_nil, hexToNumber_of_readHex ha hstart,
      hexToNumber_of_readHex hb hcount]

/-- Every dialogue of a user with the prompt goes as the requests of its lines are
answered: each line has its turn in the output, from which its answer is read back, and the
line that leaves finds the processor where the steps have brought it. A range can be typed
with the numerals that a dump shows. -/
theorem dialogue_is_answered (isa : CPU6502ISA) :
    (∀ lead trail : List Char, (∀ c ∈ lead, isSpace c = true) → (∀ c ∈ trail, isSpace c = true) →
      ∀ (gap gap' : Gap isSpace) (a b : Token isSpace) (start count : ℕ),
        readHex a.chars = some start → readHex b.chars = some count →
        start ≤ maxSize → count ≤ maxSize →
        Request.ofLine
            (lead ++ (Command.nameToString .get ++ spaced [(gap, a), (gap', b)]) ++ trail) =
          some (.bytes start count)) ∧
    ∀ (cpu t : CPU6502) (lines : List (List Char)) (requests : List Request)
      (told : List Answer) (final : List Char) (rest : List (List Char)) (n : ℕ),
      List.Forall₂ (fun line request => Request.ofLine line = some request) lines requests →
      (∀ line ∈ lines, '\n' ∉ line) → Leaves final → '\n' ∉ final →
      answers isa requests cpu = some (told, t) → lines.length < n →
      ∃ events turns, (goToDebugger isa n []).run ⟨cpu, typed (lines ++ final :: rest)⟩ =
          ⟨.ok (leftStatus final), ⟨t, typed rest⟩, events⟩ ∧
        turnsOf events = turns ++ [[]] ∧
        List.Forall₂ (fun answer turn => answer.ReadFrom turn) told turns := by
  constructor
  · intro lead trail hlead htrail gap gap' a b start count ha hb hstart hcount
    exact ofLine_get hlead htrail gap gap' ha hb hstart hcount
  · intro cpu t lines requests told final rest n hasks hlines hfinal hend htold hn
    obtain ⟨m, rfl⟩ : ∃ m, n = m + 1 + lines.length := ⟨n - lines.length - 1, by omega⟩
    obtain ⟨turns, hrun, hreads, hsilent⟩ := run_dialogue hasks hfinal hend hlines htold [] m
    refine ⟨_, turns, hrun, turnsOf_flatMap _ fun turn hturn => ?_, hreads⟩
    rcases List.mem_append.mp hturn with hturn | hturn
    · exact hsilent turn hturn
    · obtain rfl := List.mem_singleton.mp hturn
      simp

/-- A step over a `NOP`, a look at its byte and at the registers, and on. -/
theorem dialogue_is_answered_nop :
    ∃ events turns, (goToDebugger Sim6502.isa 4 []).run
        ⟨.initial (.ofProgram [0xEA]) false,
          typed ["s".toList, "g 0 1".toList, "d".toList, "c".toList]⟩ =
        ⟨.ok (.returned false), ⟨{ CPU6502.initial (.ofProgram [0xEA]) false with PC := 1 },
          typed []⟩, events⟩ ∧
      turnsOf events = turns ++ [[]] ∧
      List.Forall₂ (fun (answer : Answer) turn => answer.ReadFrom turn)
        [.stepped false, .bytes [⟨0, [0xEA]⟩],
          .registers ⟨0, 0, 0, 0, 0, 0xFF, 1, 0b00100100⟩] turns := by
  have hlook : Request.ofLine "g 0 1".toList = some (.bytes 0 1) := by decide
  refine (dialogue_is_answered Sim6502.isa).2 _ _ ["s".toList, "g 0 1".toList, "d".toList]
    [.step, .bytes 0 1, .registers] _ "c".toList [] 4
    (.cons rfl (.cons hlook (.cons rfl .nil))) (by decide) (.inl rfl) (by decide) ?_ (by decide)
  rfl

end Debugger

end Sim6502
