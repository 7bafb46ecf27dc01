import Sim6502.DebuggerCommands
import Sim6502.SeparatedTokens

/-!
# Commands are read back

`Command::parse` finds the words of a line and looks the first one up. What it accepts
is said here by the list of spellings of each command, and what it rejects by the first
word alone.
-/
namespace Sim6502
open SeparatedTokens

namespace Command

/-- The spellings of the help text, and `exit` with its two short forms. -/
def spellings : Name → List (List Char)
  | .dump => ["dump".toList, "d".toList]
  | .get => ["get".toList, "g".toList]
  | .exit => ["exit".toList, "e".toList, "q".toList]
  | .step => ["step".toList, "s".toList]
  | .continue => ["continue".toList, "c".toList]
  | .help => ["help".toList, "h".toList]

theorem parseName_of_mem {word : List Char} {name : Name} (h : word ∈ spellings name) :
    parseName word = some name := by
  have hall : ∀ word ∈ spellings name, parseName word = some name := by
    cases name <;> decide
  exact hall word h

theorem mem_of_parseName {word : List Char} {name : Name} (h : parseName word = some name) :
    word ∈ spellings name := by
  unfold parseName at h
  split_ifs at h with hdump hget hexit hstep hcontinue hhelp
  all_goals
    obtain rfl := Option.some.inj h
    simp only [spellings, List.mem_cons, List.not_mem_nil, or_false]
    assumption

theorem parseName_eq_some_iff {word : List Char} {name : Name} :
    parseName word = some name ↔ word ∈ spellings name :=
  ⟨mem_of_parseName, parseName_of_mem⟩

theorem parseName_eq_none_iff {word : List Char} :
    parseName word = none ↔ ∀ name, word ∉ spellings name := by
  rw [Option.eq_none_iff_forall_ne_some]
  exact forall_congr' fun name => not_congr parseName_eq_some_iff

/-- The two tables agree. -/
theorem nameToString_mem (name : Name) : nameToString name ∈ spellings name := by
  cases name <;> exact List.mem_cons_self

/-- The name of a command as a word of a line. -/
def nameToken (name : Name) : Token isSpace where
  chars := nameToString name
  ne_nil := by cases name <;> decide
  solid := by
    have hall : (nameToString name).all (fun c => !isSpace c) = true := by
      cases name <;> decide
    simpa using hall

end Command

/-- The words of the debugger are the tokens between white space. -/
theorem words_eq_tokens (text : List Char) : words text = tokens isSpace text := rfl

open Command

theorem parse_of_words {text word : List Char} {args : List (List Char)}
    (h : words text = word :: args) :
    Command.parse text = (parseName word).map fun name => ⟨name, args⟩ := by
  rw [Command.parse, h]

/-- A line of white space is no command. -/
theorem parse_of_spaces {text : List Char} (h : ∀ c ∈ text, isSpace c = true) :
    Command.parse text = none := by
  rw [Command.parse, words_eq_tokens, tokens_separators h]

/-- The first word decides. -/
theorem parse_eq_none_iff_of_firstToken {text word : List Char}
    (h : FirstToken isSpace text word) :
    Command.parse text = none ↔ ∀ name, word ∉ spellings name := by
  obtain ⟨args, htokens⟩ := h.tokens_eq
  rw [parse_of_words htokens, Option.map_eq_none_iff]
  exact parseName_eq_none_iff

theorem words_line (name : Command.Name) (args : List (Gap isSpace × Token isSpace))
    {lead trail : List Char} (hlead : ∀ c ∈ lead, isSpace c = true)
    (htrail : ∀ c ∈ trail, isSpace c = true) :
    words (lead ++ (nameToString name ++ spaced args) ++ trail) =
      nameToString name :: args.map fun part => part.2.chars := by
  rw [words_eq_tokens, tokens_append_separators htrail, tokens_separators_append hlead,
    tokens_append_spaced]
  have hname : tokens isSpace (nameToString name) = [nameToString name] :=
    (nameToken name).tokens_chars
  rw [hname]
  rfl

/-- A name and its arguments, spaced in any way, are read back, and a line is rejected
exactly when it has no word or its first word spells no command. -/
theorem commands_read_back :
    (∀ name (args : List (Gap isSpace × Token isSpace)) (lead trail : List Char),
      (∀ c ∈ lead, isSpace c = true) → (∀ c ∈ trail, isSpace c = true) →
        Command.parse (lead ++ (nameToString name ++ spaced args) ++ trail) =
          some ⟨name, args.map fun part => part.2.chars⟩) ∧
    ∀ text, Command.parse text = none ↔
      (∀ c ∈ text, isSpace c = true) ∨
        ∃ word, FirstToken isSpace text word ∧ ∀ name, word ∉ spellings name := by
  constructor
  · intro name args lead trail hlead htrail
    rw [parse_of_words (words_line name args hlead htrail),
      parseName_of_mem (nameToString_mem name)]
    rfl
  · intro text
    constructor
    · intro h
      by_cases hspaces : ∀ c ∈ text, isSpace c = true
      · exact .inl hspaces
      · obtain ⟨word, hfirst⟩ := exists_firstToken hspaces
        exact .inr ⟨word, hfirst, (parse_eq_none_iff_of_firstToken hfirst).mp h⟩
    · rintro (hspaces | ⟨word, hfirst, hword⟩)
      · exact parse_of_spaces hspaces
      · exact (parse_eq_none_iff_of_firstToken hfirst).mpr hword

/-- A line that is read, and one whose first word only begins with a spelling. -/
theorem commands_read_back_get :
    Command.parse " get  fffb".toList = some ⟨.get, ["fffb".toList]⟩ ∧
      Command.parse "gets".toList = none := by
  obtain ⟨hread, hreject⟩ := commands_read_back
  constructor
  · exact hread .get [(⟨"  ".toList, by decide, by simp [isSpace]⟩,
      ⟨"fffb".toList, by decide, by simp [isSpace]⟩)] [' '] [] (by simp [isSpace]) (by simp)
  · refine (hreject _).mpr (.inr ⟨"gets".toList, ⟨[], [], ?_, ?_, ?_, ?_, ?_⟩, ?_⟩)
    · rfl
    · simp
    · decide
    · simp [isSpace]
    · simp
    · intro name
      cases name <;> decide

end Sim6502
