import Localization.Proofs.Catalog.Items

/-
**Quoted strings, by their grammar.**

Between its quotes a string is a sequence of symbols: a character other than a quote and a backslash, or a
backslash with one of five letters. The last quote is taken off before any escape is read, so a string may
end in an escaped quote, but not in a backslash that escapes nothing.

* `Quoted.Symbol` — a character as it stands between quotes, and what it means.
* `Quoted.decode_eq_ok_iff`, `Quoted.inner?_eq_some_iff` — what is decoded, and what stands in quotes.
* `Catalog.Broken`, `Catalog.segments_eq_iff` — a text is broken after each of its newlines.
* `Quoted.unquote_exact` — the strings that are read, and that what is written is among them.
-/

namespace Localization

namespace Quoted

/-! ### Symbols -/

/-- What stands behind a backslash, by what it means. -/
inductive Escape where
  | backslash
  | quote
  | newline
  | tab
  | carriageReturn
  deriving DecidableEq, Repr

/-- The character behind the backslash. -/
def Escape.letter : Escape → Char
  | backslash => '\\'
  | quote => '"'
  | newline => 'n'
  | tab => 't'
  | carriageReturn => 'r'

/-- The character that an escape means. -/
def Escape.meaning : Escape → Char
  | backslash => '\\'
  | quote => '"'
  | newline => '\n'
  | tab => '\t'
  | carriageReturn => '\r'

/-- A character as it stands between quotes: as itself, or by an escape. -/
inductive Symbol where
  | plain (c : Char) (noQuote : c ≠ '"') (noBackslash : c ≠ '\\')
  | escaped (escape : Escape)

/-- The characters of a symbol. -/
def Symbol.written : Symbol → List Char
  | plain c _ _ => [c]
  | escaped escape => ['\\', escape.letter]

/-- The character that a symbol means. -/
def Symbol.meaning : Symbol → Char
  | plain c _ _ => c
  | escaped escape => escape.meaning

variable {text inner decoded : List Char}

theorem escape?_letter (escape : Escape) : escape? escape.letter = some escape.meaning := by
  cases escape <;> rfl

theorem exists_of_escape? {c meaning : Char} (known : escape? c = some meaning) :
    ∃ escape : Escape, escape.letter = c ∧ escape.meaning = meaning := by
  unfold escape? at known
  split at known
  · exact ⟨.backslash, rfl, Option.some.inj known⟩
  · exact ⟨.quote, rfl, Option.some.inj known⟩
  · exact ⟨.newline, rfl, Option.some.inj known⟩
  · exact ⟨.tab, rfl, Option.some.inj known⟩
  · exact ⟨.carriageReturn, rfl, Option.some.inj known⟩
  · cases known

theorem decode_written (symbol : Symbol) (rest : List Char) :
    decode (symbol.written ++ rest) = (decode rest).map (symbol.meaning :: ·) := by
  cases symbol with
  | plain c noQuote noBackslash =>
    rw [Symbol.written, List.singleton_append, decode]
    · rfl
    · exact noQuote
    · exact fun same _ => noBackslash same
    · exact fun _ _ same _ => noBackslash same
  | escaped escape =>
    rw [Symbol.written, List.cons_append, List.singleton_append, decode, escape?_letter]
    · rfl

theorem decode_flatMap_written (symbols : List Symbol) :
    decode (symbols.flatMap Symbol.written) = .ok (symbols.map Symbol.meaning) := by
  induction symbols with
  | nil => rfl
  | cons symbol others ih =>
    rw [List.flatMap_cons, decode_written, ih]
    rfl

theorem exists_of_decode (read : decode text = .ok decoded) :
    ∃ symbols : List Symbol, text = symbols.flatMap Symbol.written ∧
      decoded = symbols.map Symbol.meaning := by
  fun_induction decode text generalizing decoded with
  | case1 =>
    cases read
    exact ⟨[], rfl, rfl⟩
  | case2 => cases read
  | case3 => cases read
  | case4 c rest meaning known ih =>
    obtain ⟨others, later, rfl⟩ := map_eq_ok_iff.mp read
    obtain ⟨symbols, rfl, rfl⟩ := ih later
    obtain ⟨escape, rfl, rfl⟩ := exists_of_escape? known
    exact ⟨.escaped escape :: symbols, rfl, rfl⟩
  | case5 => cases read
  | case6 c rest noQuote single noEscape ih =>
    obtain ⟨others, later, rfl⟩ := map_eq_ok_iff.mp read
    obtain ⟨symbols, rfl, rfl⟩ := ih later
    have noBackslash : c ≠ '\\' := by
      rintro rfl
      cases same : symbols.flatMap Symbol.written with
      | nil => exact single rfl same
      | cons d more => exact noEscape d more rfl same
    exact ⟨.plain c noQuote noBackslash :: symbols, rfl, rfl⟩

/-- **What is decoded is a sequence of symbols**, and it is decoded to what they mean. -/
theorem decode_eq_ok_iff :
    decode text = .ok decoded ↔ ∃ symbols : List Symbol,
      text = symbols.flatMap Symbol.written ∧ decoded = symbols.map Symbol.meaning := by
  refine ⟨exists_of_decode, ?_⟩
  rintro ⟨symbols, rfl, rfl⟩
  exact decode_flatMap_written symbols

/-! ### Quotes -/

/-- What stands in quotes: a quote alone does not stand for both. -/
theorem inner?_eq_some_iff : inner? text = some inner ↔ text = '"' :: (inner ++ ['"']) := by
  constructor
  · intro found
    unfold inner? at found
    split at found
    · obtain ⟨closed, same⟩ := Option.ite_none_right_eq_some.mp found
      obtain ⟨front, rfl⟩ := List.getLast?_eq_some_iff.mp closed
      rw [List.dropLast_concat] at same
      rw [Option.some.inj same]
    · cases found
  · rintro rfl
    simp [inner?]

/-- **A string that is read stands in quotes, symbol by symbol.** -/
theorem unquote_eq_ok_iff :
    unquote text = .ok decoded ↔ ∃ symbols : List Symbol,
      text = '"' :: (symbols.flatMap Symbol.written ++ ['"']) ∧
        decoded = symbols.map Symbol.meaning := by
  constructor
  · intro read
    unfold unquote at read
    split at read
    · cases read
    · rename_i inner found
      obtain ⟨symbols, rfl, rfl⟩ := decode_eq_ok_iff.mp (mapError_eq_ok_iff.mp read)
      exact ⟨symbols, inner?_eq_some_iff.mp found, rfl⟩
  · rintro ⟨symbols, rfl, rfl⟩
    rw [unquote, inner?_eq_some_iff.mpr rfl]
    exact mapError_eq_ok_iff.mpr (decode_flatMap_written symbols)

end Quoted

/-! ### Parts after newlines -/

namespace Catalog

/-- A text broken after each newline: the newline ends a part, and what stands behind the last one is a
part of its own unless it is empty. -/
inductive Broken : List Char → List (List Char) → Prop
  | done : Broken [] []
  | last {part : List Char} (solid : part ≠ []) (clean : '\n' ∉ part) : Broken part [part]
  | part {front back : List Char} {parts : List (List Char)} (clean : '\n' ∉ front)
      (later : Broken back parts) : Broken (front ++ '\n' :: back) ((front ++ ['\n']) :: parts)

theorem segments_of_clean {part : List Char} (solid : part ≠ []) (clean : '\n' ∉ part) :
    segments part = [part] := by
  induction part with
  | nil => exact absurd rfl solid
  | cons c rest ih =>
    obtain ⟨other, later⟩ := List.ne_and_not_mem_of_not_mem_cons clean
    rw [segments, if_neg (Ne.symm other)]
    cases rest with
    | nil => rfl
    | cons d more => rw [ih (List.cons_ne_nil d more) later]

theorem Broken.segments {text : List Char} {parts : List (List Char)} (broken : Broken text parts) :
    segments text = parts := by
  induction broken with
  | done => rfl
  | last solid clean => exact segments_of_clean solid clean
  | part clean later ih => rw [segments_append clean, ih]

theorem broken_segments (text : List Char) : Broken text (segments text) := by
  by_cases broken : '\n' ∈ text
  · obtain ⟨front, back, rfl, clean⟩ := List.eq_append_cons_of_mem broken
    rw [segments_append clean]
    exact .part clean (broken_segments back)
  · by_cases empty : text = []
    · subst empty
      exact .done
    · rw [segments_of_clean empty broken]
      exact .last empty broken
termination_by text.length

/-- **The parts of a text are those that it is broken into after each newline.** -/
theorem segments_eq_iff {text : List Char} {parts : List (List Char)} :
    segments text = parts ↔ Broken text parts :=
  ⟨fun same => same ▸ broken_segments text, Broken.segments⟩

/-- The lines of a keyword quote texts that make up its string. -/
theorem exists_stringLines (mark : List Char) (keyword : Keyword) (text : String) :
    ∃ first others, stringLines mark keyword text =
        (mark ++ keyword.chars ++ ' ' :: Quoted.quote first) :: others.map (mark ++ Quoted.quote ·) ∧
      (first :: others).flatten = text.toList := by
  unfold stringLines
  split
  · exact ⟨[], segments text.toList, rfl, flatten_segments text.toList⟩
  · exact ⟨text.toList, [], rfl, List.append_nil text.toList⟩

end Catalog

namespace Quoted

/-- Strings read one after the other, as one text. -/
def unquoteAll (strings : List (List Char)) : Except Fault (List Char) :=
  (strings.mapM unquote).map List.flatten

/-- Texts in quotes are read as the text that they make up. -/
theorem unquoteAll_map_quote (parts : List (List Char)) :
    unquoteAll (parts.map quote) = .ok parts.flatten := by
  have reads : unquote ∘ quote = fun part => pure part := funext unquote_quote
  rw [unquoteAll, List.mapM_map, reads, List.mapM_pure, List.map_id']
  rfl

/-- **A string is read exactly if it is a sequence of symbols in quotes**, and as what these mean; so every
text is read from its quoted form. The parts of a text after each newline make it up again when each is
quoted and read, and so do the strings on the lines of a keyword; no newline and no carriage return stands
in quotes. -/
theorem unquote_exact (text decoded : List Char) :
    (unquote text = .ok decoded ↔ ∃ symbols : List Symbol,
      text = '"' :: (symbols.flatMap Symbol.written ++ ['"']) ∧
        decoded = symbols.map Symbol.meaning) ∧
    unquote (quote text) = .ok text ∧
    (∀ parts, Catalog.segments text = parts ↔ Catalog.Broken text parts) ∧
    unquoteAll ((Catalog.segments text).map quote) = .ok text ∧
    (∀ part ∈ Catalog.segments text, '\n' ∉ quote part ∧ '\r' ∉ quote part) ∧
    ∀ mark keyword, ∃ first others, Catalog.stringLines mark keyword (String.ofList text) =
        (mark ++ keyword.chars ++ ' ' :: quote first) :: others.map (mark ++ quote ·) ∧
      unquoteAll ((first :: others).map quote) = .ok text := by
  refine ⟨unquote_eq_ok_iff, unquote_quote text, fun _ => Catalog.segments_eq_iff, ?_,
    fun part _ => ?_, fun mark keyword => ?_⟩
  · rw [unquoteAll_map_quote, Catalog.flatten_segments]
  · exact ⟨Catalog.not_mem_quote (.inl rfl) part, Catalog.not_mem_quote (.inr rfl) part⟩
  · obtain ⟨first, others, lines, joined⟩ :=
      Catalog.exists_stringLines mark keyword (String.ofList text)
    rw [String.toList_ofList] at joined
    exact ⟨first, others, lines, by rw [unquoteAll_map_quote, joined]⟩

/-- An escaped quote at the end, a backslash that escapes nothing, and a quote alone. -/
example : unquote ['"', '\\', '"', '"'] = .ok ['"'] ∧ unquote ['"', '\\', '"'] = .error .openEscape ∧
    unquote ['"'] = .error (.malformed "\"") := by
  decide +kernel

end Quoted

end Localization
