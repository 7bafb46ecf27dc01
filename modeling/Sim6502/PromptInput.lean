import Sim6502.DebuggerTransparency

/-!
# The prompt and the end of its input

`go_to_debugger` never looks at the stream. Once the input is exhausted it goes on with
the line that `std::getline` leaves: an empty one after a final line end, the last line
again and again otherwise. So the prompt ends with a line that ends it, or not at all.
-/
namespace Sim6502
open EventComputation CPU6502

/-! ## The lines of an input -/

/-- What `getline` delivers from a string on: the lines, and then no other than the last. -/
def StandardInput.line (input : StandardInput) (command : List Char) (n : ℕ) : List Char :=
  if input.good then
    (input.rest.splitOn '\n').getD n ((input.rest.splitOn '\n').getLastD [])
  else command

section Lines
variable (input : StandardInput) (command : List Char)

theorem StandardInput.line_exhausted (h : input.good = false) (n : ℕ) :
    input.line command n = command := by
  rw [line, if_neg (by simp [h])]

theorem StandardInput.line_zero : input.line command 0 = (input.getline command).1 := by
  obtain ⟨rest, _ | _⟩ := input
  · rfl
  · by_cases hmem : '\n' ∈ rest
    · obtain ⟨first, later, rfl, hfirst⟩ := List.eq_append_cons_of_mem hmem
      rw [getline_append command hfirst, line, if_pos rfl,
        List.splitOn_append_cons_self_of_not_mem hfirst]
      rfl
    · rw [getline_last command hmem, line, if_pos rfl, List.splitOn_eq_singleton hmem]
      rfl

theorem StandardInput.line_succ (n : ℕ) :
    input.line command (n + 1) = (input.getline command).2.line (input.getline command).1 n := by
  obtain ⟨rest, _ | _⟩ := input
  · rfl
  · by_cases hmem : '\n' ∈ rest
    · obtain ⟨first, later, rfl, hfirst⟩ := List.eq_append_cons_of_mem hmem
      obtain ⟨next, others, hlater⟩ := List.exists_cons_of_ne_nil (List.splitOn_ne_nil '\n' later)
      rw [getline_append command hfirst, line, if_pos rfl, line, if_pos rfl,
        List.splitOn_append_cons_self_of_not_mem hfirst, hlater]
      rfl
    · rw [getline_last command hmem, line_exhausted ⟨[], false⟩ rest rfl, line, if_pos rfl,
        List.splitOn_eq_singleton hmem]
      rfl

/-- After the last line end come empty lines only. -/
theorem StandardInput.line_ended (h : (input.rest.splitOn '\n').getLastD [] = []) {n : ℕ}
    (hn : (input.rest.splitOn '\n').length ≤ n + 1) : input.line [] n = [] := by
  rw [line, h]
  generalize input.rest.splitOn '\n' = lines at h hn
  split
  · rcases Nat.lt_or_ge n lines.length with hlt | hge
    · obtain rfl : n = lines.length - 1 := by omega
      rw [List.getLastD_eq_getLast?, List.getLast?_eq_getElem?] at h
      rwa [List.getD_eq_getElem?_getD]
    · rw [List.getD_eq_getElem?_getD, List.getElem?_eq_none hge]
      rfl
  · rfl

end Lines

namespace Debugger

/-! ## What a line does -/

/-- The command a line gives. -/
def lineName (line : List Char) : Option Command.Name := (Command.parse line).map Command.name

/-- The commands that leave the loop whatever the processor does. -/
def Leaves (line : List Char) : Prop :=
  lineName line = some .continue ∨ lineName line = some .exit

/-- A line that does not look outside the memory. -/
def LineInside (size : ℕ) (line : List Char) : Prop :=
  ∀ cmd, Command.parse line = some cmd → cmd.name = .get → GetInside size cmd.args

/-- Everything that a line can do, with what makes it do so. -/
inductive LineCase (isa : CPU6502ISA) (session : Session) (line : List Char) :
    Outcome Session Fault Event (Location × List CPU6502) → Prop where
  | stays {events : List Event} (going : ¬Leaves line) (name : lineName line ≠ some .step)
      (inside : LineInside session.cpu.memory.size line) :
      LineCase isa session line ⟨.ok (.prompt line, []), session, events⟩
  | leaves {next : Location} (leaves : Leaves line) (next_eq : next = .loop ∨ next = .exited) :
      LineCase isa session line ⟨.ok (next, []), session, []⟩
  | outside {e : Fault} {events : List Event} (name : lineName line = some .get)
      (outside : ¬LineInside session.cpu.memory.size line) :
      LineCase isa session line ⟨.error e, session, events⟩
  | steps {err : InstructionErr} {t : CPU6502} {events : List Event}
      (name : lineName line = some .step)
      (head : (step isa).run session.cpu = ⟨.ok err, t, events⟩) :
      LineCase isa session line
        ⟨.ok (.afterStep (.prompt line) (.prompt line) err, [t]), { session with cpu := t },
          events ++ stepMessages err⟩
  | failed {e : Fault} {t : CPU6502} {events : List Event} (name : lineName line = some .step)
      (head : (step isa).run session.cpu = ⟨.error e, t, events⟩) :
      LineCase isa session line ⟨.error e, { session with cpu := t }, events⟩

section LineCases
variable {isa : CPU6502ISA} {session : Session} {line : List Char}

theorem lineInside_of_name {size : ℕ} (h : lineName line ≠ some .get) :
    LineInside size line := by
  intro cmd parsed name
  rw [lineName, parsed, Option.map_some, name] at h
  exact absurd rfl h

theorem lineInside_iff {size : ℕ} {cmd : Command} (parsed : Command.parse line = some cmd)
    (name : cmd.name = .get) : LineInside size line ↔ GetInside size cmd.args := by
  constructor
  · intro h
    exact h cmd parsed name
  · intro h found hfound _
    obtain rfl : cmd = found := Option.some.inj (parsed.symm.trans hfound)
    exact h

/-- A look at the memory ends as it should or where it is outside. -/
theorem run_get_cases (cpu : CPU6502) (args : List (List Char)) :
    (GetInside cpu.memory.size args ∧
      ∃ events, (get args).run cpu = ⟨.ok (), cpu, events⟩) ∨
    (¬GetInside cpu.memory.size args ∧
      ∃ e events, (get args).run cpu = ⟨.error e, cpu, events⟩) := by
  by_cases hin : GetInside cpu.memory.size args
  · exact .inl ⟨hin, exists_run_get hin⟩
  · obtain ⟨index, -, -, hresult⟩ := (accessesFit_get args cpu).undefined hin
    rcases hrun : (get args).run cpu with ⟨r, t, events⟩
    obtain rfl : cpu = t := by simpa [hrun] using preserves_get args cpu
    obtain rfl : r = .error (.undefined index) := by simpa [hrun] using hresult
    exact .inr ⟨hin, _, events, rfl⟩

/-- A line whose command is none of the four that matter here. -/
theorem LineCase.idle {events : List Event}
    (h : ∀ name ∈ lineName line, name = .dump ∨ name = .help) :
    LineCase isa session line ⟨.ok (.prompt line, []), session, events⟩ := by
  have hother (name : Command.Name) (hdump : name ≠ .dump) (hhelp : name ≠ .help) :
      lineName line ≠ some name := by
    intro hname
    rcases h name hname with heq | heq
    · exact hdump heq
    · exact hhelp heq
  refine .stays ?_ (hother _ (by simp) (by simp)) ?_
  · rintro (hcontinue | hexit)
    · exact hother _ (by simp) (by simp) hcontinue
    · exact hother _ (by simp) (by simp) hexit
  · exact lineInside_of_name (hother _ (by simp) (by simp))

theorem lineCase_obey (isa : CPU6502ISA) (session : Session) (line : List Char) :
    LineCase isa session line ((obey isa line).run session) := by
  rw [obey]
  by_cases hempty : line.isEmpty
  · rw [if_pos hempty]
    obtain rfl : line = [] := List.isEmpty_iff.mp hempty
    exact .idle fun name hname => by cases hname
  · rw [if_neg hempty]
    cases parsed : Command.parse line with
    | none => exact .idle (by simp [lineName, parsed])
    | some cmd =>
      have hname : lineName line = some cmd.name := by rw [lineName, parsed]; rfl
      dsimp only
      cases name : cmd.name with
      | dump => exact .idle (by simp [hname, name])
      | get =>
        rw [name] at hname
        have hinside : LineInside session.cpu.memory.size line ↔ _ := lineInside_iff parsed name
        dsimp only
        rcases run_get_cases session.cpu cmd.args with
          ⟨hin, events, hrun⟩ | ⟨hout, e, events, hrun⟩
        · rw [Routine.run_bind_of_ok (run_onCpu session hrun)]
          exact .stays (by simp [Leaves, hname]) (by simp [hname]) (hinside.mpr hin)
        · rw [Routine.run_bind_of_error (run_onCpu session hrun)]
          exact .outside hname fun h => hout (hinside.mp h)
      | step =>
        rw [name] at hname
        rcases head : (step isa).run session.cpu with ⟨e | err, t, events⟩
        · dsimp only
          rw [run_stepTurn_error head]
          exact .failed hname head
        · dsimp only
          rw [run_stepTurn head]
          exact .steps hname head
      | «continue» => exact .leaves (.inl (hname.trans (by rw [name]))) (.inl rfl)
      | help => exact .idle (by simp [hname, name])
      | exit => exact .leaves (.inr (hname.trans (by rw [name]))) (.inr rfl)

end LineCases

/-- The same for an outcome that has a name. -/
theorem lineCase_of_run {isa : CPU6502ISA} {session : Session} {line : List Char}
    {o : Outcome Session Fault Event (Location × List CPU6502)}
    (run : (obey isa line).run session = o) : LineCase isa session line o :=
  run ▸ lineCase_obey isa session line

/-! ## The prompt -/

/-- `go_to_debugger` returns or exits the program. -/
def PromptEnds (isa : CPU6502ISA) (command : List Char) (session : Session) : Prop :=
  ∃ n status t events,
    (goToDebugger isa n command).run session = ⟨.ok status, t, events⟩ ∧ status ≠ .prompting

/-- The steps that the first `n` lines ask for. -/
def stepLines (lines : ℕ → List Char) (n : ℕ) : ℕ :=
  (List.range n).countP fun k => lineName (lines k) = some .step

/-- Line `n` ends the prompt: it leaves, or it steps the processor into its end. None of
the lines before it looks outside the memory, and their steps come to their ends. -/
structure EndsAt (isa : CPU6502ISA) (cpu : CPU6502) (lines : ℕ → List Char) (n : ℕ) : Prop where
  inside : ∀ k < n, LineInside cpu.memory.size (lines k)
  ends : ∃ events s, Routine.Iterates (step isa) (stepLines lines n) cpu events s ∧
    (Leaves (lines n) ∨ lineName (lines n) = some .step ∧
      ∃ t later, (step isa).run s = ⟨.ok .stop, t, later⟩)

theorem stepLines_succ (lines : ℕ → List Char) (n : ℕ) :
    stepLines lines (n + 1) = stepLines (fun k => lines (k + 1)) n +
      if lineName (lines 0) = some .step then 1 else 0 := by
  rw [stepLines, List.range_succ_eq_map, List.countP_cons, List.countP_map, stepLines]
  simp only [decide_eq_true_eq]
  rfl

section EndsAt
variable {isa : CPU6502ISA} {cpu : CPU6502} {lines : ℕ → List Char} {n : ℕ}

theorem endsAt_zero_iff :
    EndsAt isa cpu lines 0 ↔ Leaves (lines 0) ∨ lineName (lines 0) = some .step ∧
      ∃ t events, (step isa).run cpu = ⟨.ok .stop, t, events⟩ := by
  constructor
  · rintro ⟨-, events, s, hrun, hends⟩
    cases hrun
    exact hends
  · intro hends
    exact ⟨fun k hk => absurd hk k.not_lt_zero, [], cpu, .refl cpu, hends⟩

/-- A first line that takes no step is followed by the others. -/
theorem endsAt_succ_iff (name : lineName (lines 0) ≠ some .step) :
    EndsAt isa cpu lines (n + 1) ↔
      LineInside cpu.memory.size (lines 0) ∧ EndsAt isa cpu (fun k => lines (k + 1)) n := by
  have hsteps : stepLines lines (n + 1) = stepLines (fun k => lines (k + 1)) n := by
    rw [stepLines_succ, if_neg name, Nat.add_zero]
  constructor
  · intro h
    refine ⟨h.inside 0 n.succ_pos, fun k hk => h.inside (k + 1) (Nat.succ_lt_succ hk), ?_⟩
    rw [← hsteps]
    exact h.ends
  · rintro ⟨hfirst, hrest⟩
    refine ⟨fun k hk => ?_, ?_⟩
    · cases k with
      | zero => exact hfirst
      | succ k => exact hrest.inside k (Nat.lt_of_succ_lt_succ hk)
    · rw [hsteps]
      exact hrest.ends

/-- The size of the memory stays, however small it is. -/
theorem size_of_step {err : InstructionErr} {t : CPU6502} {events : List Event}
    (head : (step isa).run cpu = ⟨.ok err, t, events⟩) : t.memory.size = cpu.memory.size := by
  have hsize := (accessesFit_step isa cpu).size
  rwa [head] at hsize

/-- A first line that steps is followed by the others from the next state. -/
theorem endsAt_succ_iff_of_step (name : lineName (lines 0) = some .step) {err : InstructionErr}
    {t : CPU6502} {events : List Event} (head : (step isa).run cpu = ⟨.ok err, t, events⟩) :
    EndsAt isa cpu lines (n + 1) ↔ EndsAt isa t (fun k => lines (k + 1)) n := by
  have hsteps : stepLines lines (n + 1) = stepLines (fun k => lines (k + 1)) n + 1 := by
    rw [stepLines_succ, if_pos name]
  have hsize := size_of_step head
  constructor
  · rintro ⟨hinside, later, s, hrun, hends⟩
    rw [hsteps] at hrun
    cases hrun with
    | step head' tail =>
      obtain ⟨-, rfl, -⟩ := Outcome.mk.inj (head.symm.trans head')
      refine ⟨fun k hk => ?_, _, s, tail, hends⟩
      rw [hsize]
      exact hinside (k + 1) (Nat.succ_lt_succ hk)
  · rintro ⟨hinside, later, s, hrun, hends⟩
    refine ⟨fun k hk => ?_, events ++ later, s, ?_, hends⟩
    · cases k with
      | zero => exact lineInside_of_name (by simp [name])
      | succ k =>
        rw [← hsize]
        exact hinside k (Nat.lt_of_succ_lt_succ hk)
    · rw [hsteps]
      exact .step head hrun

/-- A step with no meaning is followed by nothing. -/
theorem not_endsAt_of_failed (name : lineName (lines 0) = some .step) {e : Fault} {t : CPU6502}
    {events : List Event} (head : (step isa).run cpu = ⟨.error e, t, events⟩) :
    ¬EndsAt isa cpu lines n := by
  intro h
  cases n with
  | zero =>
    rcases endsAt_zero_iff.mp h with hleaves | ⟨-, u, later, hstop⟩
    · simp [Leaves, name] at hleaves
    · rw [head] at hstop
      cases hstop
  | succ n =>
    obtain ⟨later, s, hrun, -⟩ := h.ends
    rw [stepLines_succ, if_pos name] at hrun
    cases hrun with
    | step head' tail =>
      rw [head] at head'
      cases head'

/-- Empty lines end nothing. -/
theorem EndsAt.lt_of_empty (h : EndsAt isa cpu lines n) {m : ℕ}
    (hempty : ∀ k, m ≤ k → lines k = []) : n < m := by
  by_contra hle
  have hname : lineName (lines n) = none := by
    rw [hempty n (Nat.not_lt.mp hle)]
    rfl
  obtain ⟨events, s, -, hends⟩ := h.ends
  simp [Leaves, hname] at hends

end EndsAt

/-! ## One turn of the prompt -/

/-- The line that comes next, and the session in which it is obeyed. -/
def nextLine (session : Session) (command : List Char) : List Char :=
  (session.input.getline command).1

def afterLine (session : Session) (command : List Char) : Session :=
  { session with input := (session.input.getline command).2 }

section Prompt
variable {isa : CPU6502ISA} {session t : Session} {command : List Char} {next : Location}
  {states : List CPU6502} {events : List Event} {status : PromptStatus} {n : ℕ}

theorem line_zero (session : Session) (command : List Char) :
    session.input.line command 0 = nextLine session command :=
  session.input.line_zero command

theorem line_afterLine (session : Session) (command : List Char) :
    (fun k => session.input.line command (k + 1)) =
      (afterLine session command).input.line (nextLine session command) := by
  funext k
  exact session.input.line_succ command k

theorem run_goToDebugger_succ
    (h : (obey isa (nextLine session command)).run (afterLine session command) =
      ⟨.ok (next, states), t, events⟩) :
    (goToDebugger isa (n + 1) command).run session =
      ((afterTurn isa n next).run t).after (.announce (.text prompt) :: events) := by
  have hturn : (turn isa (.prompt command)).run session =
      ⟨.ok (next, states), t, .announce (.text prompt) :: events⟩ := by
    rw [run_turn_prompt, ← nextLine, ← afterLine, h]
    rfl
  rw [goToDebugger_succ, Routine.run_bind_of_ok hturn]

/-- A turn of a call that comes to its end. -/
theorem of_run_goToDebugger_succ
    (h : (goToDebugger isa (n + 1) command).run session = ⟨.ok status, t, events⟩) :
    ∃ next states u earlier later,
      (obey isa (nextLine session command)).run (afterLine session command) =
        ⟨.ok (next, states), u, earlier⟩ ∧
      (afterTurn isa n next).run u = ⟨.ok status, t, later⟩ := by
  rw [goToDebugger_succ] at h
  obtain ⟨⟨next, states⟩, u, earlier, later, hturn, hrest, -⟩ := Routine.of_run_bind_ok h
  rw [run_turn_prompt, ← nextLine, ← afterLine] at hturn
  obtain ⟨rest, hobey, -⟩ := Outcome.of_after_eq hturn
  exact ⟨next, states, u, rest, later, hobey, hrest⟩

/-- A turn that stays at the prompt puts off the end. -/
theorem promptEnds_of_stays {line : List Char}
    (h : (obey isa (nextLine session command)).run (afterLine session command) =
      ⟨.ok (.prompt line, states), t, events⟩) (rest : PromptEnds isa line t) :
    PromptEnds isa command session := by
  obtain ⟨n, status, u, later, hrun, hended⟩ := rest
  have hturn : (goToDebugger isa (n + 1) command).run session =
      ⟨.ok status, u, .announce (.text prompt) :: events ++ later⟩ := by
    rw [run_goToDebugger_succ h, afterTurn, hrun]
    rfl
  exact ⟨n + 1, status, u, _, hturn, hended⟩

theorem promptEnds_of_leaves
    (h : (obey isa (nextLine session command)).run (afterLine session command) =
      ⟨.ok (next, states), t, events⟩)
    (hnext : next = .loop ∨ next = .returned ∨ next = .exited) :
    PromptEnds isa command session := by
  have hrun : (goToDebugger isa 1 command).run session =
      ((afterTurn isa 0 next).run t).after (.announce (.text prompt) :: events) :=
    run_goToDebugger_succ h
  rcases hnext with rfl | rfl | rfl
  · exact ⟨1, .returned false, _, _, hrun, by simp⟩
  · exact ⟨1, .returned true, _, _, hrun, by simp⟩
  · exact ⟨1, .exited, _, _, hrun, by simp⟩

end Prompt

/-! ## When the prompt ends -/

section PromptEnds
variable {isa : CPU6502ISA}

/-- A prompt that ends has met a line that ends it. -/
theorem exists_endsAt {session t : Session} {command : List Char} {n : ℕ}
    {status : PromptStatus} {events : List Event}
    (h : (goToDebugger isa n command).run session = ⟨.ok status, t, events⟩)
    (ended : status ≠ .prompting) :
    ∃ k, EndsAt isa session.cpu (session.input.line command) k := by
  induction n generalizing session command events with
  | zero =>
    obtain ⟨⟨rfl⟩, -, -⟩ := Outcome.mk.inj h
    exact absurd rfl ended
  | succ n ih =>
    obtain ⟨next, states, u, earlier, later, hobey, hrest⟩ := of_run_goToDebugger_succ h
    have hfirst : session.input.line command 0 = nextLine session command := line_zero _ _
    cases lineCase_of_run hobey with
    | stays going name inside =>
      obtain ⟨k, hk⟩ := ih hrest
      refine ⟨k + 1, (endsAt_succ_iff (by rwa [hfirst])).mpr ⟨by rwa [hfirst], ?_⟩⟩
      rwa [line_afterLine]
    | leaves hleaves next_eq => exact ⟨0, endsAt_zero_iff.mpr (.inl (by rwa [hfirst]))⟩
    | @steps err v first name head =>
      by_cases hstop : err = .stop
      · refine ⟨0, endsAt_zero_iff.mpr (.inr ⟨by rwa [hfirst], v, first, ?_⟩)⟩
        rwa [hstop] at head
      · rw [(Location.afterStep_eq hstop _ _).elim id id] at hrest
        obtain ⟨k, hk⟩ := ih hrest
        refine ⟨k + 1, (endsAt_succ_iff_of_step (by rwa [hfirst]) head).mpr ?_⟩
        rwa [line_afterLine]

/-- The prompt reaches a line that ends it, unless an earlier one has ended it. -/
theorem promptEnds_of_endsAt {session : Session} {command : List Char} {n : ℕ}
    (h : EndsAt isa session.cpu (session.input.line command) n) :
    PromptEnds isa command session := by
  induction n using Nat.strongRecOn generalizing session command with
  | ind n ih =>
    have hfirst : session.input.line command 0 = nextLine session command := line_zero _ _
    generalize hobey : (obey isa (nextLine session command)).run (afterLine session command) = o
    cases lineCase_of_run hobey with
    | stays going name inside =>
      cases n with
      | zero =>
        rcases endsAt_zero_iff.mp h with hleaves | ⟨hname, -⟩
        · rw [hfirst] at hleaves
          exact absurd hleaves going
        · rw [hfirst] at hname
          exact absurd hname name
      | succ n =>
        have hrest := ((endsAt_succ_iff (by rwa [hfirst])).mp h).2
        rw [line_afterLine] at hrest
        exact promptEnds_of_stays hobey (ih n n.lt_succ_self hrest)
    | leaves hleaves next_eq =>
      exact promptEnds_of_leaves hobey (next_eq.imp_right .inr)
    | outside name houtside =>
      cases n with
      | zero => simpa [Leaves, hfirst, name] using endsAt_zero_iff.mp h
      | succ n =>
        have hinside := h.inside 0 n.succ_pos
        rw [hfirst] at hinside
        exact absurd hinside houtside
    | @steps err v first name head =>
      by_cases hstop : err = .stop
      · subst hstop
        exact promptEnds_of_leaves hobey (.inr (.inl rfl))
      · rw [(Location.afterStep_eq hstop _ _).elim id id] at hobey
        cases n with
        | zero =>
          rcases endsAt_zero_iff.mp h with hleaves | ⟨-, t, events, hend⟩
          · simp [Leaves, hfirst, name] at hleaves
          · obtain ⟨⟨rfl⟩, -, -⟩ := Outcome.mk.inj (head.symm.trans hend)
            exact absurd rfl hstop
        | succ n =>
          have hrest := (endsAt_succ_iff_of_step (by rwa [hfirst]) head).mp h
          rw [line_afterLine] at hrest
          exact promptEnds_of_stays hobey (ih n n.lt_succ_self hrest)
    | failed name head => exact absurd h (not_endsAt_of_failed (by rwa [hfirst]) head)

/-- The prompt ends exactly when one of the lines delivered to it ends it. -/
theorem prompt_ends_iff (isa : CPU6502ISA) (cpu : CPU6502) (input : StandardInput) :
    PromptEnds isa [] ⟨cpu, input⟩ ↔ ∃ n, EndsAt isa cpu (input.line []) n := by
  constructor
  · rintro ⟨n, status, t, events, hrun, hended⟩
    exact exists_endsAt hrun hended
  · rintro ⟨n, h⟩
    exact promptEnds_of_endsAt h

/-- The command that leaves the prompt, without a line end after it. -/
theorem prompt_ends_continue :
    PromptEnds Sim6502.isa [] ⟨.initial (.ofProgram []) false, ⟨"c".toList, true⟩⟩ := by
  refine (prompt_ends_iff _ _ _).mpr ⟨0, endsAt_zero_iff.mpr (.inl (.inl ?_))⟩
  rw [StandardInput.line_zero, StandardInput.getline_last [] (by decide)]
  rfl

/-- An input that is at its end from the start. -/
theorem empty_input_never_ends :
    ¬PromptEnds Sim6502.isa [] ⟨.initial (.ofProgram []) false, ⟨[], true⟩⟩ := by
  rintro ⟨n, status, t, events, hrun, hended⟩
  obtain ⟨k, hends⟩ := exists_endsAt hrun hended
  have hlines (k : ℕ) (_ : 0 ≤ k) : (StandardInput.mk [] true).line [] k = [] :=
    StandardInput.line_ended _ rfl k.succ_pos
  exact k.not_lt_zero (hends.lt_of_empty hlines)

end PromptEnds

end Debugger

end Sim6502
