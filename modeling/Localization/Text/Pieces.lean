/-
**Cutting a text at separators.**

* `cut`, `cutLast` — the parts before and after the first or last separator.
* `pieces` — the parts between all separators; there is always one more part than separators.
* `lines` — the lines of a text, without their line ends.
* `dropToken?` — what follows a token that stands at the head of a text.
-/

namespace Localization.Text

/-- The parts before and after the first character that satisfies `separates`. -/
def cut (separates : Char → Bool) : List Char → Option (List Char × List Char)
  | [] => none
  | c :: rest =>
    if separates c then some ([], rest)
    else (cut separates rest).map fun (before, after) => (c :: before, after)

/-- The parts before and after the last character that satisfies `separates`. -/
def cutLast (separates : Char → Bool) (text : List Char) : Option (List Char × List Char) :=
  (cut separates text.reverse).map fun (after, before) => (before.reverse, after.reverse)

/-- The parts of a text between the characters that satisfy `separates`. -/
def pieces (separates : Char → Bool) : List Char → List (List Char)
  | [] => [[]]
  | c :: rest =>
    if separates c then [] :: pieces separates rest
    else
      match pieces separates rest with
      | [] => [[c]]
      | first :: others => (c :: first) :: others

/-- A line without the carriage return at its end. -/
def dropReturn (line : List Char) : List Char :=
  if line.getLast? = some '\r' then line.dropLast else line

/-- The lines of a text: every newline ends one, together with a carriage return before it, and
text after the last newline is a line of its own. -/
def lines (text : List Char) : List (List Char) :=
  let parts := pieces (· = '\n') text
  parts.dropLast.map dropReturn ++ parts.getLast?.toList.filter (!·.isEmpty)

/-- What follows `token` in a text that starts with it. -/
def dropToken? (token text : List Char) : Option (List Char) :=
  token.isPrefixOf? text

theorem pieces_ne_nil (separates : Char → Bool) (text : List Char) :
    pieces separates text ≠ [] := by
  cases text with
  | nil => simp [pieces]
  | cons c rest =>
    unfold pieces
    split
    · simp
    · split <;> simp

/-- The parts of a cut and the separator between them make up the text. -/
theorem cut_eq_some {separates : Char → Bool} {text before after : List Char}
    (found : cut separates text = some (before, after)) :
    ∃ c, separates c = true ∧ (∀ d ∈ before, separates d = false) ∧
      text = before ++ c :: after := by
  induction text generalizing before with
  | nil => simp [cut] at found
  | cons c rest ih =>
    unfold cut at found
    split at found
    · rename_i separator
      cases found
      exact ⟨c, separator, by simp, rfl⟩
    · rename_i plain
      obtain ⟨⟨front, back⟩, inner, same⟩ := Option.map_eq_some_iff.mp found
      cases same
      obtain ⟨d, separator, clean, rfl⟩ := ih inner
      refine ⟨d, separator, ?_, rfl⟩
      intro e member
      rcases List.mem_cons.mp member with rfl | member
      · simpa using plain
      · exact clean e member

/-- A text without separators cannot be cut. -/
theorem cut_eq_none {separates : Char → Bool} {text : List Char} :
    cut separates text = none ↔ ∀ c ∈ text, separates c = false := by
  induction text with
  | nil => simp [cut]
  | cons c rest ih =>
    unfold cut
    by_cases separator : separates c <;> simp [separator, ih]

/-- A token is dropped character by character. -/
theorem dropToken?_cons (c d : Char) (others after : List Char) :
    dropToken? (c :: others) (d :: after) = if c == d then dropToken? others after else none := rfl

/-- A token is dropped exactly from the texts that start with it. -/
theorem dropToken?_eq_some {token text rest : List Char} :
    dropToken? token text = some rest ↔ text = token ++ rest := by
  induction token generalizing text with
  | nil =>
    have whole : dropToken? [] text = some text := rfl
    rw [whole, Option.some.injEq, List.nil_append]
  | cons c others ih =>
    cases text with
    | nil =>
      have short : dropToken? (c :: others) [] = none := rfl
      simp [short]
    | cons d after =>
      rw [dropToken?_cons]
      by_cases same : c = d
      · subst same
        simp [ih]
      · have other : d ≠ c := fun equal => same equal.symm
        simp [same, other]

end Localization.Text
