import Localization.Proofs.Catalog.Entries
import Localization.Proofs.Catalog.Lines

/-
**The written lines of an item, read again.**

* `Entry.reads_stringLines` — the lines of a keyword and its string, however many there are.
* `Entry.Fresh.reads_keywords` — the keywords of an item, read into an entry that has none.
* `LegibleItem` — what an item must keep clear of to be written on lines of its own.
* `rereadItem`, `LegibleItem.reads` — what is read of the lines of such an item.
-/

namespace Localization

open Text

namespace Catalog

/-! ### Strings -/

theorem flatten_segments (text : List Char) : (segments text).flatten = text := by
  induction text with
  | nil => rfl
  | cons c rest ih =>
    rw [segments]
    split
    · rename_i newline
      rw [List.flatten_cons, ih, newline]
      rfl
    · cases parts : segments rest with
      | nil =>
        rw [parts] at ih
        rw [← ih]
        rfl
      | cons first others =>
        rw [parts, List.flatten_cons] at ih
        rw [List.flatten_cons, List.cons_append, ih]

/-- The first part of a text ends behind its first newline. -/
theorem segments_append {front : List Char} (clean : '\n' ∉ front) (back : List Char) :
    segments (front ++ '\n' :: back) = (front ++ ['\n']) :: segments back := by
  induction front with
  | nil => rw [List.nil_append, segments, if_pos rfl, List.nil_append]
  | cons c rest ih =>
    obtain ⟨other, later⟩ := List.ne_and_not_mem_of_not_mem_cons clean
    rw [List.cons_append, segments, if_neg (Ne.symm other), ih later]
    rfl

/-- The parts of a text that is written line by line are its lines. -/
theorem segments_flatMap {lines : List (List Char)} (clean : ∀ line ∈ lines, '\n' ∉ line) :
    segments (lines.flatMap (· ++ ['\n'])) = lines.map (· ++ ['\n']) := by
  induction lines with
  | nil => rfl
  | cons line rest ih =>
    obtain ⟨here, later⟩ := List.forall_mem_cons.mp clean
    rw [List.flatMap_cons, List.append_assoc, List.singleton_append, segments_append here, ih later,
      List.map_cons]

namespace Entry

/-- More text goes to the last form if no other form has its index. -/
theorem extendForm_append {index : Nat} {forms : List (Nat × String)}
    (lacks : ∀ form ∈ forms, form.1 ≠ index) (old text : String) :
    extendForm index text (forms ++ [(index, old)]) = forms ++ [(index, old ++ text)] := by
  induction forms with
  | nil => simp [extendForm]
  | cons form rest ih =>
    have other : form.1 ≠ index := lacks form List.mem_cons_self
    rw [List.cons_append, extendForm, if_neg other,
      ih fun later member => lacks later (List.mem_cons_of_mem form member)]
    rfl

/-- The entry has no form of the index that the keyword names. -/
def Lacks (entry : Entry) : Keyword → Prop
  | .form index => ∀ form ∈ entry.forms, form.1 ≠ index
  | _ => True

theorem extendString_setString {entry : Entry} {keyword : Keyword} (lacks : entry.Lacks keyword)
    (old text : String) :
    (entry.setString keyword old).extendString keyword text =
      entry.setString keyword (old ++ text) := by
  cases keyword with
  | form index =>
    have extended := extendForm_append lacks old text
    simp only [setString, extendString, extended]
  | _ => rfl

theorem current_setString (entry : Entry) (keyword : Keyword) (text : String) :
    (entry.setString keyword text).current = some keyword := by
  cases keyword <;> rfl

theorem current_extendString (entry : Entry) (keyword : Keyword) (text : String) :
    (entry.extendString keyword text).current = entry.current := by
  cases keyword <;> rfl

/-- Strings alone on their lines go on with the string of a keyword. -/
theorem reads_more (item : Item) (keyword : Keyword) (parts : List (List Char)) (entry : Entry)
    (lacks : entry.Lacks keyword) (old : String) :
    (entry.setString keyword old).Reads (parts.map (markOf item ++ Quoted.quote ·)) []
      (entry.setString keyword (old ++ String.ofList parts.flatten)) := by
  induction parts generalizing old with
  | nil =>
    rw [List.flatten_nil, String.ofList_nil, String.append_empty]
    exact Reads.nil _
  | cons part rest ih =>
    have taken : (entry.setString keyword old).read (.more (String.ofList part)) =
        .ok ([], entry.setString keyword (old ++ String.ofList part)) := by
      rw [read, current_setString]
      exact congrArg (fun next => Except.ok ([], next)) (extendString_setString lacks old _)
    rw [List.flatten_cons, String.ofList_append, ← String.append_assoc]
    exact (Reads.single (Line.ofChars_more item part) taken).append_open (ih _)

/-- **The lines of a keyword and its string set the string of the keyword**, if the keyword does
not start another entry. -/
theorem reads_stringLines (item : Item) (keyword : Keyword) (fits : keyword.Fits) (entry : Entry)
    (stays : (Reader.startsEntry keyword && entry.id.isSome) = false)
    (lacks : entry.Lacks keyword) (text : String) :
    entry.Reads (stringLines (markOf item) keyword text) []
      ((entry.marked item.obsolete).setString keyword text) := by
  have line (part : List Char) :
      entry.Reads [markOf item ++ keyword.chars ++ ' ' :: Quoted.quote part] []
        ((entry.marked item.obsolete).setString keyword (String.ofList part)) := by
    refine Reads.single (Line.ofChars_keyword item fits part) ?_
    rw [read, stays]
    rfl
  have unnumbered : (entry.marked item.obsolete).Lacks keyword := by
    cases keyword <;> exact lacks
  unfold stringLines
  split
  · have more := reads_more item keyword (segments text.toList) _ unnumbered (String.ofList [])
    rw [flatten_segments, String.ofList_nil, String.empty_append, String.ofList_toList] at more
    exact (line []).append_open more
  · have one := line text.toList
    rw [String.ofList_toList] at one
    exact one

/-! ### Keywords -/

/-- No keyword of the entry has been read. -/
structure Fresh (entry : Entry) : Prop where
  obsolete : entry.obsolete = false
  id : entry.id = none
  pluralId : entry.pluralId = none
  localized : entry.localized = none
  forms : entry.forms = []
  current : entry.current = none

/-- Forms with their indexes, from an index on. -/
def indexed (index : Nat) : List String → List (Nat × String)
  | [] => []
  | form :: rest => (index, form) :: indexed (index + 1) rest

theorem le_of_mem_indexed {index : Nat} {forms : List String} {form : Nat × String}
    (member : form ∈ indexed index forms) : index ≤ form.1 := by
  induction forms generalizing index with
  | nil => cases member
  | cons text rest ih =>
    rcases List.mem_cons.mp member with rfl | later
    · exact Nat.le_refl index
    · exact Nat.le_of_succ_le (ih later)

theorem map_indexed (index : Nat) (forms : List String) :
    (indexed index forms).map (·.2) = forms := by
  induction forms generalizing index with
  | nil => rfl
  | cons text rest ih => rw [indexed, List.map_cons, ih]

/-- Forms that come in the order of their indexes stay in their order. -/
theorem sortedForms_indexed {entry : Entry} {index : Nat} {forms : List String}
    (same : entry.forms = indexed index forms) : entry.sortedForms = forms := by
  have sorted : (indexed index forms).Pairwise fun first second =>
      decide (first.1 ≤ second.1) = true := by
    clear same
    induction forms generalizing index with
    | nil => exact List.Pairwise.nil
    | cons text rest ih =>
      refine List.Pairwise.cons ?_ ih
      intro form member
      exact decide_eq_true (Nat.le_of_succ_le (le_of_mem_indexed member))
  rw [sortedForms, same, List.mergeSort_of_pairwise sorted, map_indexed]

/-- The lines of plural forms add them with their indexes. -/
theorem reads_formLines (item : Item) (forms : List String) (index : Nat)
    (fits : index + forms.length ≤ Decimal.wordMax + 1) (entry : Entry)
    (obsolete : entry.obsolete = item.obsolete) (lower : ∀ form ∈ entry.forms, form.1 < index) :
    ∃ current, entry.Reads (formLines (markOf item) index forms) []
      { entry with forms := entry.forms ++ indexed index forms, current := current } := by
  induction forms generalizing index entry with
  | nil =>
    refine ⟨entry.current, ?_⟩
    rw [indexed, List.append_nil]
    exact Reads.nil entry
  | cons form rest ih =>
    rw [List.length_cons] at fits
    have here : (Keyword.form index).Fits := by
      show index ≤ Decimal.wordMax
      omega
    have first := reads_stringLines item (.form index) here entry rfl
      (fun other member => Nat.ne_of_lt (lower other member)) form
    have marked : entry.marked item.obsolete = entry := by
      rw [marked, ← obsolete, Bool.or_self]
    rw [marked] at first
    obtain ⟨current, later⟩ := ih (index + 1) (by omega)
      (entry.setString (.form index) form) obsolete (by
        intro other member
        rcases List.mem_append.mp member with before | last
        · exact Nat.lt_succ_of_lt (lower other before)
        · rw [List.mem_singleton.mp last]
          exact Nat.lt_succ_self index)
    refine ⟨current, ?_⟩
    have together := first.append_open later
    simp only [setString, List.append_assoc, List.singleton_append] at together
    exact together

end Entry

/-- The text that is written behind the keyword of localized texts. -/
def writtenText? (item : Item) : Option String :=
  if item.plural.isNone then some (item.localized.getD "") else none

/-- The forms that are written. -/
def writtenForms (item : Item) : List String :=
  if item.plural.isNone then [] else if item.forms.isEmpty then [""] else item.forms

/-- Without a plural of the id, the localized text is written. -/
theorem filter_writtenText? {item : Item} (single : item.plural = none)
    (solid : item.localized ≠ some "") : (writtenText? item).filter (· ≠ "") = item.localized := by
  rw [writtenText?, single, Option.isNone_none, if_pos rfl]
  cases localized : item.localized with
  | none => rfl
  | some text =>
    have full : text ≠ "" := by
      rintro rfl
      exact solid localized
    simp [full]

theorem writtenText?_of_isSome {item : Item} (counted : item.plural.isSome) :
    writtenText? item = none := by
  obtain ⟨plural, same⟩ := Option.isSome_iff_exists.mp counted
  rw [writtenText?, same]
  rfl

theorem writtenForms_of_single {item : Item} (single : item.plural = none) :
    writtenForms item = [] := by
  rw [writtenForms, single]
  rfl

/-- With a plural of the id, the forms are written, if there are any. -/
theorem writtenForms_of_isSome {item : Item} (counted : item.plural.isSome)
    (solid : item.forms ≠ []) : writtenForms item = item.forms := by
  obtain ⟨plural, same⟩ := Option.isSome_iff_exists.mp counted
  have full : item.forms.isEmpty = false := List.isEmpty_eq_false_iff.mpr solid
  rw [writtenForms, same, full]
  rfl

/-- The entry with the strings that are written for an item. -/
def Entry.keyed (entry : Entry) (item : Item) (current : Option Keyword) : Entry :=
  { entry with
    obsolete := item.obsolete
    id := some item.id
    pluralId := item.plural
    localized := writtenText? item
    forms := Entry.indexed 0 (writtenForms item)
    current := current }

/-- **The keywords of an item are read into an entry that has none.** -/
theorem Entry.Fresh.reads_keywords (item : Item)
    (short : item.forms.length ≤ Decimal.wordMax + 1) {entry : Entry} (fresh : entry.Fresh) :
    ∃ current, entry.Reads (stringLines (markOf item) .id item.id ++ localizedLines item) []
      (entry.keyed item current) := by
  have unnamed : (Reader.startsEntry .id && entry.id.isSome) = false := by
    rw [fresh.id]
    rfl
  have marked : (entry.marked item.obsolete) = { entry with obsolete := item.obsolete } := by
    rw [Entry.marked, fresh.obsolete, Bool.false_or]
  have named := Entry.reads_stringLines item .id trivial entry unnamed trivial item.id
  rw [marked] at named
  unfold localizedLines Entry.keyed writtenText? writtenForms
  cases plural : item.plural with
  | none =>
    have translated := Entry.reads_stringLines item .localized trivial
      (({ entry with obsolete := item.obsolete } : Entry).setString .id item.id) rfl trivial
      (item.localized.getD "")
    refine ⟨some .localized, ?_⟩
    have together := named.append_open translated
    simp only [Entry.setString, Entry.marked, Bool.or_self, fresh.pluralId, fresh.forms] at together
    exact together
  | some text =>
    have counted := Entry.reads_stringLines item .pluralId trivial
      (({ entry with obsolete := item.obsolete } : Entry).setString .id item.id) rfl trivial text
    have long : 0 + (if item.forms.isEmpty then [""] else item.forms).length ≤
        Decimal.wordMax + 1 := by
      split
      · decide
      · omega
    obtain ⟨current, forms⟩ := Entry.reads_formLines item
      (if item.forms.isEmpty then [""] else item.forms) 0 long
      ((((({ entry with obsolete := item.obsolete } : Entry).setString .id item.id).marked
        item.obsolete).setString .pluralId text)) (Bool.or_self _) (by
        intro form member
        rw [show _ = entry.forms from rfl, fresh.forms] at member
        cases member)
    refine ⟨current, ?_⟩
    have together := named.append_open (counted.append_open forms)
    simp only [Entry.setString, Entry.marked, Bool.or_self, fresh.localized, fresh.forms] at together
    exact together

/-! ### Comments -/

/-- A comment as it is read back, without the blanks at its end. -/
def rereadComment (comment : String) : String :=
  String.ofList (trimEnd comment.toList)

/-- The references that are read for a written one. -/
def rereadPlaces (place : Reference) : List Reference :=
  (splitReferences (referenceChars place)).filterMap Reference.ofChars?

/-- A recoverable reference is read for itself. -/
theorem rereadPlaces_of_recoverable {place : Reference} (solid : place.path ≠ "")
    (recoverable : Recoverable place) (fits : place.line ≤ Decimal.wordMax) :
    rereadPlaces place = [place] := by
  rw [rereadPlaces, splitReferences_referenceChars solid recoverable,
    List.filterMap_cons_some (Reference.ofChars?_chars solid fits)]
  rfl

/-- The references that are read for written ones. -/
def rereadReferences (places : List Reference) : SortedSet Reference :=
  (places.flatMap rereadPlaces).foldl (fun set place => set.insert place ()) .empty

namespace Entry

variable {entry : Entry}

theorem hasKeywords_addComment (entry : Entry) (comment : Comment) :
    (entry.addComment comment).hasKeywords = entry.hasKeywords := by
  cases comment <;> rfl

/-- Comment lines before the keywords of an entry add to it. -/
theorem reads_comments {α : Type} {line : α → List Char} {comment : α → Comment} (all : List α)
    (said : ∀ one ∈ all, Line.ofChars (line one) = .ok (.comment (comment one)))
    (silent : entry.hasKeywords = false) :
    entry.Reads (all.map line) [] (all.foldl (fun entry one => entry.addComment (comment one)) entry) := by
  induction all generalizing entry with
  | nil => exact Reads.nil entry
  | cons one rest ih =>
    have first : entry.Reads [line one] [] (entry.addComment (comment one)) := by
      refine Reads.single (said one List.mem_cons_self) ?_
      rw [read, silent]
      rfl
    exact first.append_open (ih (fun other member => said other (List.mem_cons_of_mem one member))
      ((hasKeywords_addComment entry _).trans silent))

theorem reads_translators (comments : List String) (silent : entry.hasKeywords = false) :
    entry.Reads (comments.map (commentLine ['#'])) []
      { entry with comments := entry.comments ++ comments.map rereadComment } := by
  have added (entry : Entry) : comments.foldl (fun entry comment =>
      entry.addComment (.translator (trimEnd comment.toList))) entry =
        { entry with comments := entry.comments ++ comments.map rereadComment } := by
    induction comments generalizing entry with
    | nil => rw [List.foldl_nil, List.map_nil, List.append_nil]
    | cons comment rest ih =>
      rw [List.foldl_cons, ih, addComment, List.map_cons, List.append_assoc]
      rfl
  have read := reads_comments comments (fun one _ => Line.ofChars_commentLine one) silent
  rw [added] at read
  exact read

theorem reads_extracted (comments : List String) (silent : entry.hasKeywords = false) :
    entry.Reads (comments.map (commentLine ['#', '.'])) []
      { entry with extracted := entry.extracted ++ comments.map rereadComment } := by
  have added (entry : Entry) : comments.foldl (fun entry comment =>
      entry.addComment (.extracted (trimEnd comment.toList))) entry =
        { entry with extracted := entry.extracted ++ comments.map rereadComment } := by
    induction comments generalizing entry with
    | nil => rw [List.foldl_nil, List.map_nil, List.append_nil]
    | cons comment rest ih =>
      rw [List.foldl_cons, ih, addComment, List.map_cons, List.append_assoc]
      rfl
  have read := reads_comments comments (fun one _ => Line.ofChars_extractedLine one) silent
  rw [added] at read
  exact read

theorem reads_references (places : List Reference) (silent : entry.hasKeywords = false) :
    entry.Reads (places.map fun place => ['#', ':', ' '] ++ referenceChars place) []
      { entry with
        references := (places.flatMap rereadPlaces).foldl (fun set place => set.insert place ())
          entry.references } := by
  have added (entry : Entry) : places.foldl (fun entry place =>
      entry.addComment (.references (rereadPlaces place))) entry =
        { entry with
          references := (places.flatMap rereadPlaces).foldl (fun set place => set.insert place ())
            entry.references } := by
    induction places generalizing entry with
    | nil => rfl
    | cons place rest ih =>
      rw [List.foldl_cons, ih, addComment, List.flatMap_cons, List.foldl_append]
  have said : ∀ place ∈ places, Line.ofChars (['#', ':', ' '] ++ referenceChars place) =
      .ok (.comment (.references (rereadPlaces place))) := by
    intro place _
    exact Line.ofChars_references (trimEnd_referenceChars place) (referenceChars_ne_nil place)
  have read := reads_comments places said silent
  rw [added] at read
  exact read

theorem reads_flags {item : Item} (flags : ∀ flag ∈ item.flags, IsFlag flag)
    (sure : fuzzyFlag ∉ item.flags) (silent : entry.hasKeywords = false) :
    entry.Reads (flagLines item) []
      { entry with fuzzy := entry.fuzzy || item.fuzzy, flags := entry.flags ++ item.flags } := by
  have all : ∀ flag ∈ flagNames item, IsFlag flag := by
    intro flag member
    unfold flagNames at member
    rcases List.mem_append.mp member with unsure | other
    · split at unsure
      · rw [List.mem_singleton.mp unsure]
        exact isFlag_fuzzyFlag
      · cases unsure
    · exact flags flag other
  have unsure : (flagNames item).contains fuzzyFlag = item.fuzzy := by
    unfold flagNames
    cases item.fuzzy <;> simp [sure]
  have others : (flagNames item).filter (· ≠ fuzzyFlag) = item.flags := by
    have kept : item.flags.filter (· ≠ fuzzyFlag) = item.flags := by
      refine List.filter_eq_self.mpr fun flag member => decide_eq_true ?_
      rintro rfl
      exact sure member
    unfold flagNames
    rw [List.filter_append, kept]
    cases item.fuzzy <;> simp
  unfold flagLines
  cases names : flagNames item with
  | nil =>
    rw [names] at unsure others
    rw [← unsure, ← others]
    simp only [List.contains_nil, Bool.or_false, List.filter_nil, List.append_nil]
    exact Reads.nil entry
  | cons name rest =>
    rw [names] at all unsure others
    have said := Line.ofChars_flags (' ' :: (", ".intercalate (name :: rest)).toList)
    rw [splitFlags_names all, unsure, others] at said
    refine Reads.single said ?_
    rw [read, silent]
    rfl

end Entry

/-! ### Items -/

/-- The entry with the comments that are read of an item. -/
def Entry.commented (item : Item) : Entry where
  comments := item.comments.map rereadComment
  extracted := item.extracted.map rereadComment
  references := rereadReferences item.references.keys
  flags := item.flags
  fuzzy := item.fuzzy

theorem Entry.fresh_commented (item : Item) : (Entry.commented item).Fresh := by
  constructor <;> rfl

theorem newline_not_mem_keyword (keyword : Keyword) : '\n' ∉ keyword.chars := fun member =>
  absurd (Keyword.not_isBlank member) (by decide)

theorem newline_not_mem_markOf (item : Item) : '\n' ∉ markOf item := by
  unfold markOf
  split <;> decide

/-- The lines of strings are lines by themselves. -/
theorem newline_not_mem_stringLines (item : Item) (keyword : Keyword) (text : String) :
    ∀ line ∈ stringLines (markOf item) keyword text, '\n' ∉ line := by
  have mark := newline_not_mem_markOf item
  have word := newline_not_mem_keyword keyword
  have first (part : List Char) :
      '\n' ∉ markOf item ++ keyword.chars ++ ' ' :: Quoted.quote part := by
    have quoted := newline_not_mem_quote part
    simp [mark, word, quoted]
  intro line member
  unfold stringLines at member
  split at member
  · rcases List.mem_cons.mp member with rfl | later
    · exact first []
    · obtain ⟨part, -, rfl⟩ := List.mem_map.mp later
      rw [List.mem_append]
      rintro (marked | quoted)
      · exact mark marked
      · exact newline_not_mem_quote part quoted
  · rw [List.mem_singleton.mp member]
    exact first text.toList

theorem newline_not_mem_formLines (item : Item) (index : Nat) (forms : List String) :
    ∀ line ∈ formLines (markOf item) index forms, '\n' ∉ line := by
  induction forms generalizing index with
  | nil =>
    intro line member
    cases member
  | cons form rest ih =>
    intro line member
    rcases List.mem_append.mp member with first | later
    · exact newline_not_mem_stringLines item _ form line first
    · exact ih (index + 1) line later

theorem newline_not_mem_keywordLines (item : Item) :
    ∀ line ∈ stringLines (markOf item) .id item.id ++ localizedLines item, '\n' ∉ line := by
  intro line member
  rcases List.mem_append.mp member with named | translated
  · exact newline_not_mem_stringLines item .id item.id line named
  · unfold localizedLines at translated
    split at translated
    · exact newline_not_mem_stringLines item .localized _ line translated
    · rcases List.mem_append.mp translated with counted | forms
      · exact newline_not_mem_stringLines item .pluralId _ line counted
      · exact newline_not_mem_formLines item 0 _ line forms

theorem newline_not_mem_commentLine {mark : List Char} (clear : '\n' ∉ mark) {comment : String}
    (clean : '\n' ∉ comment.toList) : '\n' ∉ commentLine mark comment := by
  unfold commentLine
  split
  · exact clear
  · simp [clear, clean]

theorem newline_not_mem_flagLines {item : Item} (flags : ∀ flag ∈ item.flags, IsFlag flag) :
    ∀ line ∈ flagLines item, '\n' ∉ line := by
  have names : ∀ name ∈ flagNames item, '\n' ∉ name.toList := by
    intro name member
    unfold flagNames at member
    rcases List.mem_append.mp member with unsure | other
    · split at unsure
      · rw [List.mem_singleton.mp unsure]
        exact isFlag_fuzzyFlag.newline
      · cases unsure
    · exact (flags name other).newline
  intro line member
  unfold flagLines at member
  cases same : flagNames item with
  | nil =>
    rw [same] at member
    cases member
  | cons name rest =>
    rw [same] at member names
    rw [List.mem_singleton.mp member, toList_intercalate_cons]
    simp only [List.cons_append, List.nil_append, List.mem_cons, List.mem_append, List.mem_flatMap]
    rintro (number | comma | space | first | ⟨other, inside, comma | space | later⟩)
    · revert number
      decide
    · revert comma
      decide
    · revert space
      decide
    · exact names name List.mem_cons_self first
    · revert comma
      decide
    · revert space
      decide
    · exact names other (List.mem_cons_of_mem name inside) later

/-- What is written of an item stands on lines of its own, and it can be read again. -/
structure LegibleItem (item : Item) : Prop where
  id : item.id ≠ ""
  comments : ∀ comment ∈ item.comments, '\n' ∉ comment.toList
  extracted : ∀ comment ∈ item.extracted, '\n' ∉ comment.toList
  places : ∀ place ∈ item.references.keys, '\n' ∉ place.path.toList
  flags : ∀ flag ∈ item.flags, IsFlag flag
  sure : fuzzyFlag ∉ item.flags
  forms : item.forms.length ≤ Decimal.wordMax + 1

theorem flatMap_cutLines {lines : List (List Char)} (clean : ∀ line ∈ lines, '\n' ∉ line) :
    lines.flatMap cutLines = lines := by
  induction lines with
  | nil => rfl
  | cons line rest ih =>
    rw [List.flatMap_cons, cutLines_of_clean (clean line List.mem_cons_self),
      ih fun other member => clean other (List.mem_cons_of_mem line member)]
    rfl

theorem LegibleItem.newline_not_mem {item : Item} (legible : LegibleItem item) :
    ∀ line ∈ itemLines item, '\n' ∉ line := by
  intro line member
  unfold itemLines commentLines at member
  simp only [List.append_assoc, List.mem_append, List.mem_map] at member
  rcases member with ⟨comment, inside, rfl⟩ | ⟨comment, inside, rfl⟩ | ⟨place, inside, rfl⟩ | flag |
    keyword
  · exact newline_not_mem_commentLine (by decide) (legible.comments comment inside)
  · exact newline_not_mem_commentLine (by decide) (legible.extracted comment inside)
  · have clean := newline_not_mem_referenceChars (legible.places place inside)
    simp [clean]
  · exact newline_not_mem_flagLines legible.flags line flag
  · exact newline_not_mem_keywordLines item line (List.mem_append.mpr keyword)

/-- **The lines of an item are read as one entry.** -/
theorem LegibleItem.reads {item : Item} (legible : LegibleItem item) :
    ∃ current, Entry.start.Reads ((itemLines item).flatMap cutLines) []
      ((Entry.commented item).keyed item current) := by
  obtain ⟨current, keywords⟩ := (Entry.fresh_commented item).reads_keywords item legible.forms
  have silent : Entry.start.hasKeywords = false := rfl
  have comments : Entry.start.Reads (commentLines item) [] (Entry.commented item) := by
    have all := (((Entry.reads_translators item.comments silent).append_open
      (Entry.reads_extracted item.extracted rfl)).append_open
      (Entry.reads_references item.references.keys rfl)).append_open
      (Entry.reads_flags legible.flags legible.sure rfl)
    exact all
  refine ⟨current, ?_⟩
  rw [flatMap_cutLines legible.newline_not_mem]
  have together := comments.append_open keywords
  rw [← List.append_assoc] at together
  exact together

/-- The forms that an entry has of an item are in the order of the item. -/
theorem Entry.sortedForms_keyed (entry : Entry) (item : Item) (current : Option Keyword) :
    (entry.keyed item current).sortedForms = writtenForms item :=
  sortedForms_indexed rfl

/-- An item as it is read back. Blanks at the end of comments are lost, and so are texts that do not
belong with the plural form of the id or with its absence. -/
def rereadItem (item : Item) : Item :=
  { item with
    references := rereadReferences item.references.keys
    localized := (writtenText? item).filter (· ≠ "")
    forms := writtenForms item
    extracted := item.extracted.map rereadComment
    comments := item.comments.map rereadComment }

theorem Entry.item?_keyed {item : Item} (named : item.id ≠ "") (current : Option Keyword) :
    ((Entry.commented item).keyed item current).item? = some (rereadItem item) := by
  have id : ((Entry.commented item).keyed item current).id = some item.id := rfl
  have kept : (some item.id).filter (· ≠ "") = some item.id := by simp [named]
  rw [Entry.item?, id, kept, Option.map_some, Entry.item, Entry.sortedForms_keyed]
  rfl

end Catalog

end Localization
