import Localization.Catalog.Writer
import Localization.Proofs.Catalog.References

/-
**What the written lines of a catalog file say.**

Every line that the writer puts into a file is read as what it was written for.

* `Line.ofChars_number` — a line behind a number sign is a comment.
* `Line.ofChars_translator`, `ofChars_extracted`, `ofChars_flags`, `ofChars_references` — the kinds
  of comments.
* `splitFlags_names` — flags, between commas.
* `Keyword.ofChars?_chars` — keywords, with indexes within 64 bits.
* `Line.ofChars_keyword`, `ofChars_more` — strings behind keywords, and strings alone.
-/

namespace Localization.Catalog

open Text

/-! ### Lines behind a number sign -/

namespace Line

theorem ofChars_nil : Line.ofChars [] = .ok .blank := rfl

/-- A carriage return at the end of a line does not count. -/
theorem ofChars_dropReturn (line : List Char) : Line.ofChars (dropReturn line) = Line.ofChars line := by
  rw [Line.ofChars, Line.ofChars, trimEnd_dropReturn]

theorem not_isBlank_number : isBlank '#' = false := by decide

/-- A line behind a number sign is a comment, unless the mark of obsolete entries stands there. -/
theorem ofChars_number {rest : List Char} (plain : rest.head? ≠ some '~') :
    Line.ofChars ('#' :: rest) = .ok (.comment (Comment.ofChars ('#' :: trimEnd rest))) := by
  have unmarked : dropToken? obsoleteMark ('#' :: trimEnd rest) = none := by
    rw [Option.eq_none_iff_forall_ne_some]
    intro back found
    have starts : trimEnd rest = '~' :: back := by
      simpa [obsoleteMark] using dropToken?_eq_some.mp found
    cases rest with
    | nil => cases starts
    | cons c others =>
      rw [trimEnd_cons] at starts
      split at starts
      · split at starts
        · cases starts
        · exact plain (by simp [(List.cons.inj starts).1])
      · exact plain (by simp [(List.cons.inj starts).1])
  rw [Line.ofChars, trimEnd_cons_of_solid rest not_isBlank_number]
  simp only [List.isEmpty_cons, Bool.false_eq_true, if_false, unmarked]
  rfl

/-- A translator's comment is what stands behind the number sign and a space. -/
theorem ofChars_translator (text : List Char) :
    Line.ofChars ('#' :: ' ' :: text) = .ok (.comment (.translator (trimEnd text))) := by
  rw [ofChars_number (by simp), trimEnd_cons]
  split
  · rename_i gone
    rw [gone]
    rfl
  · rfl

/-- A comment from the sources is what stands behind its mark and a space. -/
theorem ofChars_extracted (text : List Char) :
    Line.ofChars ('#' :: '.' :: ' ' :: text) = .ok (.comment (.extracted (trimEnd text))) := by
  rw [ofChars_number (by simp), trimEnd_cons_of_solid _ (by decide), trimEnd_cons]
  split
  · rename_i gone
    rw [gone]
    rfl
  · rfl

/-- A references line names the places that its tokens name. -/
theorem ofChars_references {text : List Char} (trimmed : trimEnd text = text) (solid : text ≠ []) :
    Line.ofChars ('#' :: ':' :: ' ' :: text) =
      .ok (.comment (.references ((splitReferences text).filterMap Reference.ofChars?))) := by
  have space : isBlank ' ' = true := by decide
  have blank : splitReferences (' ' :: text) = splitReferences text := by
    rw [splitReferences_cons, if_pos space]
  have kept : trimEnd (' ' :: text) = ' ' :: text := by rw [trimEnd_cons, trimmed, if_neg solid]
  have read : Comment.ofChars ('#' :: ':' :: ' ' :: text) =
      .references ((splitReferences (' ' :: text)).filterMap Reference.ofChars?) := rfl
  rw [ofChars_number (by simp), trimEnd_cons_of_solid _ (by decide), kept, read, blank]

/-- A flags line has the flags that stand between its commas. -/
theorem ofChars_flags (text : List Char) :
    Line.ofChars ('#' :: ',' :: text) =
      .ok (.comment (.flags ((splitFlags (trimEnd text)).contains fuzzyFlag)
        ((splitFlags (trimEnd text)).filter (· ≠ fuzzyFlag)))) := by
  rw [ofChars_number (by simp), trimEnd_cons_of_solid _ (by decide)]
  rfl

/-- The line of a translator's comment. -/
theorem ofChars_commentLine (comment : String) :
    Line.ofChars (commentLine ['#'] comment) =
      .ok (.comment (.translator (trimEnd comment.toList))) := by
  unfold commentLine
  split
  · rename_i empty
    subst empty
    rfl
  · exact ofChars_translator comment.toList

/-- The line of a comment from the sources. -/
theorem ofChars_extractedLine (comment : String) :
    Line.ofChars (commentLine ['#', '.'] comment) =
      .ok (.comment (.extracted (trimEnd comment.toList))) := by
  unfold commentLine
  split
  · rename_i empty
    subst empty
    rfl
  · exact ofChars_extracted comment.toList

end Line

/-! ### Flags -/

/-- A flag that can stand between commas. -/
structure IsFlag (flag : String) : Prop where
  solid : flag ≠ ""
  trimmed : trim flag.toList = flag.toList
  comma : ',' ∉ flag.toList
  newline : '\n' ∉ flag.toList

theorem isFlag_fuzzyFlag : IsFlag fuzzyFlag where
  solid := by decide
  trimmed := by decide
  comma := by decide
  newline := by decide

theorem toList_intercalate_cons (name : String) (rest : List String) :
    (", ".intercalate (name :: rest)).toList =
      name.toList ++ rest.flatMap fun other => ',' :: ' ' :: other.toList := by
  rw [String.toList_intercalate]
  induction rest generalizing name with
  | nil => simp
  | cons other others ih =>
    have later := ih other
    rw [List.map_cons, List.map_cons, List.intercalate_cons_cons, List.flatMap_cons]
    rw [List.map_cons] at later
    rw [later]
    simp

/-- A text with flags behind it, each behind a comma and a space, is cut at these commas. -/
theorem pieces_flags {text : List Char} (clean : ',' ∉ text) {names : List String}
    (flags : ∀ name ∈ names, IsFlag name) :
    pieces (· = ',') (text ++ names.flatMap fun other => ',' :: ' ' :: other.toList) =
      text :: names.map fun other => ' ' :: other.toList := by
  induction names generalizing text with
  | nil =>
    rw [List.flatMap_nil, List.append_nil, List.map_nil]
    refine pieces_of_clean fun c member => decide_eq_false ?_
    rintro rfl
    exact clean member
  | cons name rest ih =>
    have flag := flags name List.mem_cons_self
    have cleaner : ',' ∉ ' ' :: name.toList := by simp [flag.comma]
    have first : pieces (· = ',') text = [text] := by
      refine pieces_of_clean fun c member => decide_eq_false ?_
      rintro rfl
      exact clean member
    rw [List.flatMap_cons, List.cons_append, pieces_append text (by decide), first,
      ih cleaner fun other member => flags other (List.mem_cons_of_mem name member)]
    rfl

/-- The text behind the comma that starts a flags line. -/
theorem trimEnd_flags {names : List String} (flags : ∀ name ∈ names, IsFlag name) {text : List Char}
    (ends : trimEnd text = text) :
    trimEnd (text ++ names.flatMap fun other => ',' :: ' ' :: other.toList) =
      text ++ names.flatMap fun other => ',' :: ' ' :: other.toList := by
  induction names generalizing text with
  | nil => rw [List.flatMap_nil, List.append_nil, ends]
  | cons name rest ih =>
    have flag := flags name List.mem_cons_self
    have kept := trimEnd_of_trim flag.trimmed
    have solid : trimEnd name.toList ≠ [] := by
      rw [kept]
      exact fun empty => flag.solid (String.toList_eq_nil_iff.mp empty)
    have longer : trimEnd (text ++ ',' :: ' ' :: name.toList) = text ++ ',' :: ' ' :: name.toList := by
      have front : text ++ ',' :: ' ' :: name.toList = (text ++ [',', ' ']) ++ name.toList := by simp
      rw [front, trimEnd_append solid, kept]
    rw [List.flatMap_cons, ← List.append_assoc]
    exact ih (fun other member => flags other (List.mem_cons_of_mem name member)) longer

/-- **Flags are read back from their line.** -/
theorem splitFlags_names {name : String} {rest : List String}
    (flags : ∀ flag ∈ name :: rest, IsFlag flag) :
    splitFlags (trimEnd (' ' :: (", ".intercalate (name :: rest)).toList)) = name :: rest := by
  have flag := flags name List.mem_cons_self
  have others : ∀ other ∈ rest, IsFlag other := fun other member =>
    flags other (List.mem_cons_of_mem name member)
  have kept := trimEnd_of_trim flag.trimmed
  have solid : name.toList ≠ [] := fun empty => flag.solid (String.toList_eq_nil_iff.mp empty)
  have ends : trimEnd (' ' :: name.toList) = ' ' :: name.toList := by
    rw [trimEnd_cons, kept, if_neg solid]
  have clean : ',' ∉ ' ' :: name.toList := by simp [flag.comma]
  have parts : pieces (· = ',') (' ' :: name.toList ++ rest.flatMap fun other =>
      ',' :: ' ' :: other.toList) = (name :: rest).map fun other => ' ' :: other.toList :=
    pieces_flags clean others
  have trimmed : ((name :: rest).map fun other => ' ' :: other.toList).map trim =
      (name :: rest).map String.toList := by
    rw [List.map_map]
    refine List.map_congr_left fun other member => ?_
    rw [Function.comp_apply, trim_space, (flags other member).trimmed]
  have named : ((name :: rest).map String.toList).filter (!·.isEmpty) =
      (name :: rest).map String.toList := by
    refine List.filter_eq_self.mpr fun text member => ?_
    obtain ⟨other, inside, rfl⟩ := List.mem_map.mp member
    simpa using (flags other inside).solid
  have texts : ((name :: rest).map String.toList).map String.ofList = name :: rest := by
    rw [List.map_map]
    exact List.map_id'' (fun _ => String.ofList_toList) (name :: rest)
  rw [toList_intercalate_cons, ← List.cons_append, trimEnd_flags others ends, splitFlags, parts,
    trimmed, named, texts]

/-! ### Keywords -/

/-- The index of the keyword of a plural form is within 64 bits. -/
def Keyword.Fits : Keyword → Prop
  | form index => index ≤ Decimal.wordMax
  | _ => True

/-- The characters of the keyword of a plural form. -/
theorem Keyword.chars_form (index : Nat) :
    (Keyword.form index).chars = "msgstr[".toList ++ (Decimal.digits index ++ [']']) :=
  List.append_assoc _ _ _

theorem Keyword.formIndex?_append {word : List Char} {index : Nat}
    (read : Decimal.unsignedWord? word = some index) :
    formIndex? ("msgstr[".toList ++ (word ++ [']'])) = some index := by
  have dropped : dropToken? "msgstr[".toList ("msgstr[".toList ++ (word ++ [']'])) =
      some (word ++ [']']) := dropToken?_eq_some.mpr rfl
  unfold formIndex?
  rw [dropped, Option.bind_eq_bind, Option.bind_some, List.getLast?_concat, if_pos rfl,
    List.dropLast_concat, read]

/-- The keyword of a plural form is none of the others. -/
theorem Keyword.append_ne_chars (rest : List Char) (keyword : Keyword)
    (short : keyword.chars[6]? ≠ some '[') : "msgstr[".toList ++ rest ≠ keyword.chars := by
  intro same
  refine short ?_
  rw [← same]
  rfl

/-- **A keyword is read back from its written form.** -/
theorem Keyword.ofChars?_chars {keyword : Keyword} (fits : keyword.Fits) :
    Keyword.ofChars? keyword.chars = some keyword := by
  cases keyword with
  | context => rfl
  | id => rfl
  | pluralId => rfl
  | localized => rfl
  | form index =>
    have read := formIndex?_append (Decimal.unsignedWord?_digits fits)
    have notContext := append_ne_chars (Decimal.digits index ++ [']']) .context (by decide)
    have notId := append_ne_chars (Decimal.digits index ++ [']']) .id (by decide)
    have notPlural := append_ne_chars (Decimal.digits index ++ [']']) .pluralId (by decide)
    have notLocalized := append_ne_chars (Decimal.digits index ++ [']']) .localized (by decide)
    rw [chars_form]
    unfold Keyword.ofChars?
    rw [if_neg notContext, if_neg notId, if_neg notPlural, if_neg notLocalized, read]
    rfl

/-- The characters of keywords are neither blanks nor newlines. -/
theorem Keyword.not_isBlank {keyword : Keyword} {c : Char} (member : c ∈ keyword.chars) :
    isBlank c = false := by
  have within {word : List Char} (clean : word.any isBlank = false) (inside : c ∈ word) :
      isBlank c = false := by
    simpa using List.any_eq_false.mp clean c inside
  cases keyword with
  | form index =>
    rw [chars_form, List.mem_append, List.mem_append] at member
    rcases member with word | digit | bracket
    · exact within (by rfl) word
    · exact Decimal.not_isBlank_of_isDigit (Decimal.isDigit_of_mem_digits digit)
    · rw [List.mem_singleton.mp bracket]
      decide
  | context => exact within (by rfl) member
  | id => exact within (by rfl) member
  | pluralId => exact within (by rfl) member
  | localized => exact within (by rfl) member

/-! ### Strings -/

theorem trimEnd_quote (front text : List Char) :
    trimEnd (front ++ Quoted.quote text) = front ++ Quoted.quote text := by
  have ends : front ++ Quoted.quote text = (front ++ '"' :: Quoted.encode text) ++ ['"'] := by
    simp [Quoted.quote]
  rw [ends, trimEnd_concat _ (by decide)]

theorem trim_quote (text : List Char) : trim (Quoted.quote text) = Quoted.quote text := by
  refine trim_of_edges ?_ ?_
  · intro c first
    cases first
    decide
  · intro c last
    have ends : (Quoted.quote text).getLast? = some '"' := by
      rw [Quoted.quote, ← List.cons_append, List.getLast?_concat]
    rw [ends] at last
    cases last
    decide

theorem unquoted_quote (text : List Char) :
    unquoted (Quoted.quote text) = .ok (String.ofList text) := by
  rw [unquoted, Quoted.unquote_quote]

/-- Newlines and carriage returns are encoded by other characters. -/
theorem not_mem_encodeChar {mark : Char} (lineEnd : mark = '\n' ∨ mark = '\r') (c : Char) :
    mark ∉ Quoted.encodeChar c := by
  intro inside
  unfold Quoted.encodeChar at inside
  split at inside
  case h_1 | h_2 | h_3 | h_4 | h_5 =>
    rcases lineEnd with rfl | rfl <;> revert inside <;> decide
  case h_6 newline _ carriageReturn =>
    cases List.mem_singleton.mp inside
    exact lineEnd.elim newline carriageReturn

/-- A text in quotes has neither newlines nor carriage returns. -/
theorem not_mem_quote {mark : Char} (lineEnd : mark = '\n' ∨ mark = '\r') (text : List Char) :
    mark ∉ Quoted.quote text := by
  have other : mark ≠ '"' := by rcases lineEnd with rfl | rfl <;> decide
  have clean : mark ∉ Quoted.encode text := fun member =>
    have ⟨c, _, inside⟩ := List.mem_flatMap.mp member
    not_mem_encodeChar lineEnd c inside
  simp [Quoted.quote, other, clean]

theorem newline_not_mem_quote (text : List Char) : '\n' ∉ Quoted.quote text :=
  not_mem_quote (.inl rfl) text

/-- The keywords of an item stand behind the mark of obsolete entries if the item is obsolete. -/
theorem Line.ofChars_markOf (item : Item) {c : Char} {rest : List Char} (solid : isBlank c = false)
    (plain : c ≠ '#') (trimmed : trimEnd (c :: rest) = c :: rest) :
    Line.ofChars (markOf item ++ c :: rest) = Line.ofContent item.obsolete (c :: rest) := by
  unfold markOf
  cases item.obsolete with
  | false =>
    have unmarked : dropToken? obsoleteMark (c :: rest) = none := by
      rw [Option.eq_none_iff_forall_ne_some]
      intro back found
      have starts := dropToken?_eq_some.mp found
      exact plain (List.cons.inj starts).1
    rw [if_neg (by decide), List.nil_append, Line.ofChars, trimmed]
    simp only [List.isEmpty_cons, Bool.false_eq_true, if_false, unmarked]
  | true =>
    have marked : dropToken? obsoleteMark (obsoleteMark ++ ' ' :: c :: rest) =
        some (' ' :: c :: rest) := dropToken?_eq_some.mpr rfl
    have ends : trimEnd (obsoleteMark ++ ' ' :: c :: rest) = obsoleteMark ++ ' ' :: c :: rest := by
      rw [← List.singleton_append, ← List.append_assoc, trimEnd_append, trimmed]
      rw [trimmed]
      exact List.cons_ne_nil c rest
    have started : trimStart (' ' :: c :: rest) = c :: rest := by
      have blank : isBlank ' ' = true := by decide
      simp [trimStart, blank, solid]
    rw [if_pos rfl, List.append_assoc, List.singleton_append, Line.ofChars, ends]
    simp only [marked, started]
    rfl

/-- **The line of a keyword and its string.** -/
theorem Line.ofChars_keyword (item : Item) {keyword : Keyword} (fits : keyword.Fits)
    (text : List Char) :
    Line.ofChars (markOf item ++ keyword.chars ++ ' ' :: Quoted.quote text) =
      .ok (.keyword item.obsolete keyword (String.ofList text)) := by
  have clean : ∀ c ∈ keyword.chars, isBlank c = false := fun c => Keyword.not_isBlank
  have cutHere := cut_append clean (by decide : isBlank ' ' = true) (Quoted.quote text)
  have trimmed : trimEnd (keyword.chars ++ ' ' :: Quoted.quote text) =
      keyword.chars ++ ' ' :: Quoted.quote text := by
    rw [← List.singleton_append, ← List.append_assoc]
    exact trimEnd_quote _ _
  obtain ⟨rest, starts⟩ : ∃ rest, keyword.chars = 'm' :: rest := by
    cases keyword <;> exact ⟨_, rfl⟩
  have content : Line.ofContent item.obsolete (keyword.chars ++ ' ' :: Quoted.quote text) =
      .ok (.keyword item.obsolete keyword (String.ofList text)) := by
    have head : (keyword.chars ++ ' ' :: Quoted.quote text).head? = some 'm' := by
      rw [starts]
      rfl
    simp [Line.ofContent, head, cutHere, trim_quote, unquoted_quote, Keyword.ofChars?_chars fits]
  rw [List.append_assoc, ← content]
  rw [starts] at trimmed ⊢
  exact Line.ofChars_markOf item (by decide) (by decide) trimmed

/-- **The line of a string alone.** -/
theorem Line.ofChars_more (item : Item) (text : List Char) :
    Line.ofChars (markOf item ++ Quoted.quote text) = .ok (.more (String.ofList text)) := by
  have trimmed := trimEnd_quote [] text
  have content : Line.ofContent item.obsolete (Quoted.quote text) =
      .ok (.more (String.ofList text)) := by
    have head : (Quoted.quote text).head? = some '"' := rfl
    simp [Line.ofContent, head, unquoted_quote, Except.map]
  rw [← content]
  exact Line.ofChars_markOf item (by decide) (by decide) trimmed

end Localization.Catalog
