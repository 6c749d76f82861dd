import Localization.Nugget.Basic
import Localization.Text.Pieces

/-
**The scanner for nugget markup.**

A nugget is an opening token, an id, parameters that each follow a delimiter, at most one comment
after its token, and a closing token; every capture ends as early as it can. Tokens are compared
literally. At one place the delimiter goes before the comment token and that before the closing
token, and within a comment the closing token alone counts.

* `Markup.next?` — the next mark in a text, with what stands before and after it.
* `Markup.body?` — the captures of a nugget whose opening token has been read.
* `Markup.found`, `Markup.tail` — the nuggets of a text, each with the plain text before it, and the
  plain text after the last one.
* `Markup.parse` — the nuggets of a text with the bytes that they take in it.
-/

namespace Localization

open Text

/-- What ends a capture. -/
inductive Mark where
  | delimiter
  | comment
  | closing
  deriving DecidableEq, Repr

namespace Markup

/-- The token of a mark. -/
def token (markup : Markup) : Mark → List Char
  | .delimiter => markup.delimiter
  | .comment => markup.comment
  | .closing => markup.closing

theorem token_ne_nil (markup : Markup) (mark : Mark) : markup.token mark ≠ [] := by
  cases mark
  · exact markup.delimiter_ne_nil
  · exact markup.comment_ne_nil
  · exact markup.closing_ne_nil

/-- The first of the given marks whose token stands at the head of the text, and what follows. -/
def markAt? (markup : Markup) (marks : List Mark) (text : List Char) :
    Option (Mark × List Char) :=
  marks.findSome? fun mark => (dropToken? (markup.token mark) text).map (mark, ·)

/-- The earliest of the given marks in a text: what stands before it, the mark, what follows. -/
def next? (markup : Markup) (marks : List Mark) : List Char → Option (List Char × Mark × List Char)
  | [] => none
  | c :: rest =>
    match markup.markAt? marks (c :: rest) with
    | some (mark, after) => some ([], mark, after)
    | none => (markup.next? marks rest).map fun (before, mark, after) => (c :: before, mark, after)

/-- The earliest occurrence of a token in a text: what stands before it and what follows. -/
def split? (token : List Char) : List Char → Option (List Char × List Char)
  | [] => none
  | c :: rest =>
    match dropToken? token (c :: rest) with
    | some after => some ([], after)
    | none => (split? token rest).map fun (before, after) => (c :: before, after)

/-- The marks that end an id or a parameter, in the order in which they are tried. -/
def captureMarks : List Mark := [.delimiter, .comment, .closing]

theorem markAt?_eq_some {markup : Markup} {marks : List Mark} {text after : List Char} {mark : Mark}
    (found : markup.markAt? marks text = some (mark, after)) :
    mark ∈ marks ∧ text = markup.token mark ++ after := by
  obtain ⟨candidate, member, here⟩ := List.exists_of_findSome?_eq_some found
  obtain ⟨rest, dropped, same⟩ := Option.map_eq_some_iff.mp here
  cases same
  exact ⟨member, dropToken?_eq_some.mp dropped⟩

/-- **The parts around a mark make up the text.** -/
theorem next?_source {markup : Markup} {marks : List Mark} {text before after : List Char}
    {mark : Mark} (found : markup.next? marks text = some (before, mark, after)) :
    mark ∈ marks ∧ text = before ++ markup.token mark ++ after := by
  induction text generalizing before with
  | nil => simp [next?] at found
  | cons c rest ih =>
    unfold next? at found
    split at found
    · rename_i _ _ here
      cases found
      simpa using markAt?_eq_some here
    · obtain ⟨⟨front, inner, back⟩, later, same⟩ := Option.map_eq_some_iff.mp found
      cases same
      obtain ⟨member, source⟩ := ih later
      exact ⟨member, by simp [source]⟩

theorem next?_shorter {markup : Markup} {marks : List Mark} {text before after : List Char}
    {mark : Mark} (found : markup.next? marks text = some (before, mark, after)) :
    after.length < text.length := by
  have source := (next?_source found).2
  have solid := List.length_pos_iff.mpr (markup.token_ne_nil mark)
  simp only [source, List.length_append]
  omega

theorem split?_source {token text before after : List Char}
    (found : split? token text = some (before, after)) : text = before ++ token ++ after := by
  induction text generalizing before with
  | nil => simp [split?] at found
  | cons c rest ih =>
    unfold split? at found
    split at found
    · rename_i _ here
      cases found
      simpa using dropToken?_eq_some.mp here
    · obtain ⟨⟨front, back⟩, later, same⟩ := Option.map_eq_some_iff.mp found
      cases same
      simp [ih later]

/-- The rest of a nugget's captures, from a mark on: parameters, comment, and what follows the
closing token. Nothing, where no closing token ends the nugget. -/
def captures? (markup : Markup) (mark : Mark) (text : List Char) :
    Option (List (List Char) × Option (List Char) × List Char) :=
  match mark with
  | .closing => some ([], none, text)
  | .comment =>
    (split? markup.closing text).map fun (comment, after) => ([], some comment, after)
  | .delimiter =>
    match found : markup.next? captureMarks text with
    | none => none
    | some (item, next, after) =>
      have : after.length < text.length := next?_shorter found
      (markup.captures? next after).map fun (items, comment, rest) => (item :: items, comment, rest)
termination_by text.length

/-- The captures of a nugget, read from behind its opening token, and what follows its closing
token. -/
def body? (markup : Markup) (text : List Char) : Option (Capture × List Char) := do
  let (id, mark, after) ← markup.next? captureMarks text
  let (items, comment, rest) ← markup.captures? mark after
  some (⟨id, items, comment⟩, rest)

/-- The first nugget of a text: the plain text before it, its captures, and what follows. There is
none if the first opening token is not closed. -/
def first? (markup : Markup) (text : List Char) : Option (List Char × Capture × List Char) := do
  let (before, inside) ← split? markup.opening text
  let (capture, rest) ← markup.body? inside
  some (before, capture, rest)

/-- The written form of the captures from a mark on. -/
theorem captures?_source {markup : Markup} {mark : Mark} {text rest : List Char}
    {items : List (List Char)} {comment : Option (List Char)}
    (found : markup.captures? mark text = some (items, comment, rest)) :
    markup.token mark ++ text =
      Capture.itemsSource markup items ++ Capture.commentSource markup comment ++
        markup.closing ++ rest := by
  fun_induction markup.captures? mark text generalizing items comment rest with
  | case1 text =>
    cases found
    simp [Capture.itemsSource, Capture.commentSource, token]
  | case2 text =>
    obtain ⟨⟨words, after⟩, closed, same⟩ := Option.map_eq_some_iff.mp found
    cases same
    simp [Capture.itemsSource, Capture.commentSource, token, split?_source closed]
  | case3 text missing => cases found
  | case4 text item next after step _ ih =>
    obtain ⟨⟨others, words, back⟩, later, same⟩ := Option.map_eq_some_iff.mp found
    cases same
    have inner := ih later
    rw [(next?_source step).2, List.append_assoc item, inner]
    simp [Capture.itemsSource, token]

/-- **A nugget is found as it is written.** -/
theorem first?_source {markup : Markup} {text before rest : List Char} {capture : Capture}
    (found : markup.first? text = some (before, capture, rest)) :
    text = before ++ capture.source markup ++ rest := by
  simp only [first?, body?, Option.bind_eq_bind, Option.bind_eq_some_iff, Option.some.injEq,
    Prod.mk.injEq] at found
  obtain ⟨⟨front, inside⟩, opened, ⟨inner, back⟩, ⟨⟨id, mark, after⟩, step,
    ⟨items, comment, remaining⟩, closed, rfl, rfl⟩, rfl, rfl, rfl⟩ := found
  have written := captures?_source closed
  have stepped : inside = id ++ markup.token mark ++ after := (next?_source step).2
  dsimp only at written ⊢
  rw [split?_source opened, stepped, List.append_assoc id, written]
  simp [Capture.source]

theorem first?_shorter {markup : Markup} {text before rest : List Char} {capture : Capture}
    (found : markup.first? text = some (before, capture, rest)) : rest.length < text.length := by
  have source := first?_source found
  have solid := List.length_pos_iff.mpr markup.opening_ne_nil
  simp only [source, Capture.source, List.length_append]
  omega

/-- The nuggets of a text, each with the plain text before it. -/
def found (markup : Markup) (text : List Char) : List (List Char × Capture) :=
  match step : markup.first? text with
  | none => []
  | some (before, capture, rest) =>
    have : rest.length < text.length := first?_shorter step
    (before, capture) :: markup.found rest
termination_by text.length

/-- The plain text after the last nugget. -/
def tail (markup : Markup) (text : List Char) : List Char :=
  match step : markup.first? text with
  | none => text
  | some (_, _, rest) =>
    have : rest.length < text.length := first?_shorter step
    markup.tail rest
termination_by text.length

end Markup

/-- A nugget with the bytes that it takes in its text. -/
structure Occurrence where
  nugget : Nugget
  span : Span
  deriving DecidableEq, Repr

namespace Markup

/-- The captures of a text with their spans, where the text starts at byte `offset`. -/
def spans (markup : Markup) (offset : Nat) :
    List (List Char × Capture) → List (Capture × Span)
  | [] => []
  | (before, capture) :: rest =>
    let start := offset + byteLength before
    let stop := start + byteLength (capture.source markup)
    (capture, ⟨start, stop⟩) :: markup.spans stop rest

/-- The nuggets of a text in order, each with its span, or what is wrong with it in a source
file. -/
def parse (markup : Markup) (purpose : Purpose) (text : String) :
    List (Except NuggetError Occurrence) :=
  (markup.spans 0 (markup.found text.toList)).map fun (capture, span) =>
    match purpose, capture.problem? span with
    | .source, some error => .error error
    | _, _ => .ok ⟨capture.nugget, span⟩

end Markup

end Localization
