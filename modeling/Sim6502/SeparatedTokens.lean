import Mathlib.Data.List.TakeWhile

/-!
# Tokens and separators

Some characters of a text separate. Its tokens are the longest stretches of the others,
in order. To cut the text at a separator is to cut the list of its tokens, and from this
come the tokens of texts that are laid out with gaps of any width.
-/
namespace SeparatedTokens

variable {α : Type} {p : α → Bool}

/-- A stretch that one reading delivers. -/
structure Token (p : α → Bool) where
  chars : List α
  ne_nil : chars ≠ []
  solid : ∀ c ∈ chars, p c = false

/-- What keeps two tokens apart. -/
structure Gap (p : α → Bool) where
  chars : List α
  ne_nil : chars ≠ []
  separates : ∀ c ∈ chars, p c = true

def tokens (p : α → Bool) (text : List α) : List (List α) :=
  (text.splitOnP p).filter fun token => !token.isEmpty

@[simp] theorem tokens_nil : tokens p [] = [] := by
  simp [tokens]

theorem tokens_append_cons (before after : List α) {c : α} (hc : p c = true) :
    tokens p (before ++ c :: after) = tokens p before ++ tokens p after := by
  rw [tokens, List.splitOnP_append_cons before after hc, List.filter_append]
  rfl

theorem Token.tokens_chars (token : Token p) : tokens p token.chars = [token.chars] := by
  rw [tokens, List.splitOnP_eq_singleton token.solid]
  simp [token.ne_nil]

/-! ## Separators around a text -/

section Separators
variable {separators : List α} (h : ∀ c ∈ separators, p c = true)
include h

theorem tokens_separators_append (text : List α) :
    tokens p (separators ++ text) = tokens p text := by
  induction separators with
  | nil => rfl
  | cons c rest ih =>
    have hsplit := tokens_append_cons [] (rest ++ text) (h c List.mem_cons_self)
    rw [tokens_nil, List.nil_append, List.nil_append] at hsplit
    rw [List.cons_append, hsplit]
    exact ih fun d hd => h d (List.mem_cons_of_mem c hd)

theorem tokens_separators : tokens p separators = [] := by
  have hall := tokens_separators_append h []
  rwa [List.append_nil, tokens_nil] at hall

theorem tokens_append_separators (text : List α) :
    tokens p (text ++ separators) = tokens p text := by
  cases separators with
  | nil => rw [List.append_nil]
  | cons c rest =>
    have hrest : tokens p rest = [] :=
      tokens_separators fun d hd => h d (List.mem_cons_of_mem c hd)
    rw [tokens_append_cons text rest (h c List.mem_cons_self), hrest, List.append_nil]

end Separators

/-- A text falls into two in front of a separator. -/
theorem tokens_append_of_head {after : List α} (h : ∀ c ∈ after.head?, p c = true)
    (before : List α) : tokens p (before ++ after) = tokens p before ++ tokens p after := by
  cases after with
  | nil => rw [List.append_nil, tokens_nil, List.append_nil]
  | cons c rest =>
    have hafter := tokens_append_cons [] rest (h c rfl)
    rw [tokens_nil, List.nil_append, List.nil_append] at hafter
    rw [tokens_append_cons before rest (h c rfl), hafter]

/-! ## Tokens set apart -/

theorem tokens_append_gap (before after : List α) (gap : Gap p) :
    tokens p (before ++ (gap.chars ++ after)) = tokens p before ++ tokens p after := by
  have hhead : ∀ c ∈ (gap.chars ++ after).head?, p c = true := by
    obtain ⟨d, rest, hchars⟩ := List.exists_cons_of_ne_nil gap.ne_nil
    intro c hc
    obtain rfl : d = c := by simpa [hchars] using hc
    exact gap.separates d (by simp [hchars])
  rw [tokens_append_of_head hhead, tokens_separators_append gap.separates]

/-- Tokens with a gap before each of them. -/
def spaced (parts : List (Gap p × Token p)) : List α :=
  parts.flatMap fun part => part.1.chars ++ part.2.chars

@[simp] theorem spaced_nil : spaced ([] : List (Gap p × Token p)) = [] := rfl

theorem spaced_cons (gap : Gap p) (token : Token p) (parts : List (Gap p × Token p)) :
    spaced ((gap, token) :: parts) = gap.chars ++ (token.chars ++ spaced parts) := by
  simp [spaced]

/-- Tokens that are set apart are read back. -/
theorem tokens_append_spaced (before : List α) (parts : List (Gap p × Token p)) :
    tokens p (before ++ spaced parts) =
      tokens p before ++ parts.map fun part => part.2.chars := by
  induction parts generalizing before with
  | nil => simp [spaced]
  | cons part parts ih =>
    obtain ⟨gap, token⟩ := part
    calc tokens p (before ++ spaced ((gap, token) :: parts))
        = tokens p (before ++ (gap.chars ++ (token.chars ++ spaced parts))) := by
          rw [spaced_cons]
      _ = tokens p before ++ tokens p (token.chars ++ spaced parts) :=
          tokens_append_gap before _ gap
      _ = tokens p before ++ token.chars :: parts.map fun part => part.2.chars := by
          rw [ih, token.tokens_chars]
          rfl

/-! ## The first token -/

/-- A text up to the end of its first token. -/
def FirstToken (p : α → Bool) (text token : List α) : Prop :=
  ∃ lead rest, text = lead ++ (token ++ rest) ∧ (∀ c ∈ lead, p c = true) ∧ token ≠ [] ∧
    (∀ c ∈ token, p c = false) ∧ ∀ c ∈ rest.head?, p c = true

theorem FirstToken.tokens_eq {text token : List α} (h : FirstToken p text token) :
    ∃ later, tokens p text = token :: later := by
  obtain ⟨lead, rest, rfl, hlead, hne, hsolid, hrest⟩ := h
  have htoken : tokens p token = [token] := Token.tokens_chars ⟨token, hne, hsolid⟩
  refine ⟨tokens p rest, ?_⟩
  rw [tokens_separators_append hlead, tokens_append_of_head hrest, htoken]
  rfl

/-- The longest stretch at the front whose characters satisfy `q`. -/
theorem exists_stretch (q : α → Bool) (text : List α) :
    ∃ stretch rest, text = stretch ++ rest ∧ (∀ c ∈ stretch, q c = true) ∧
      ∀ c ∈ rest.head?, q c = false := by
  refine ⟨text.takeWhile q, text.dropWhile q, List.takeWhile_append_dropWhile.symm, ?_, ?_⟩
  · intro c hc
    exact List.mem_takeWhile_imp hc
  · intro c hc
    have hhead := List.head?_dropWhile_not q text
    rw [Option.mem_def.mp hc] at hhead
    simpa using hhead

theorem exists_firstToken {text : List α} (h : ¬∀ c ∈ text, p c = true) :
    ∃ token, FirstToken p text token := by
  obtain ⟨lead, text', rfl, hlead, hstart⟩ := exists_stretch p text
  obtain ⟨token, rest, rfl, hsolid, hrest⟩ := exists_stretch (fun c => !p c) text'
  refine ⟨token, lead, rest, rfl, hlead, ?_, by simpa using hsolid, by simpa using hrest⟩
  rintro rfl
  -- then the rest starts with a character that both separates and does not
  cases rest with
  | nil => exact h (by simpa using hlead)
  | cons c rest =>
    have hc : p c = false := hstart c rfl
    have hc' : p c = true := by simpa using hrest c rfl
    rw [hc] at hc'
    cases hc'

end SeparatedTokens
