import Localization.Proofs.Catalog.Rereading

/-
**Files that are read and saved again.**

What a file of any kind is read as can be written and read again, since all that is read stands on
lines of the file. What the text of an item has no place for is lost.

* `Comment.Clean`, `Entry.Clean` — what comments can be read, and the entries that hold them.
* `legible_of_parse` — what is read of any file is legible.
* `resave_keeps_iff` — when reading a file and saving it keeps all that translators wrote.
-/

namespace Localization

open Text

namespace Catalog

/-! ### Comments on lines -/

/-- A comment whose parts fit on a line. -/
def Comment.Clean : Comment → Prop
  | .extracted text => '\n' ∉ text
  | .references places => ∀ place ∈ places, '\n' ∉ place.path.toList
  | .flags _ others => ∀ flag ∈ others, IsFlag flag ∧ flag ≠ fuzzyFlag
  | .translator text => '\n' ∉ text
  | .dropped => True

theorem isFlag_of_mem_splitFlags {text : List Char} (clean : '\n' ∉ text) {flag : String}
    (member : flag ∈ splitFlags text) : IsFlag flag := by
  unfold splitFlags at member
  obtain ⟨trimmed, inside, rfl⟩ := List.mem_map.mp member
  obtain ⟨found, solid⟩ := List.mem_filter.mp inside
  obtain ⟨piece, cut, rfl⟩ := List.mem_map.mp found
  have within {c : Char} (here : c ∈ (String.ofList (trim piece)).toList) : c ≠ ',' ∧ c ∈ text := by
    rw [String.toList_ofList] at here
    have part := mem_of_mem_pieces cut (mem_of_mem_trim here)
    exact ⟨by simpa using part.1, part.2⟩
  refine ⟨?_, ?_, fun comma => (within comma).1 rfl, fun newline => clean (within newline).2⟩
  · intro empty
    have gone : trim piece = [] := by
      rw [← String.toList_ofList (l := trim piece), empty]
      rfl
    simp [gone] at solid
  · rw [String.toList_ofList, trim_trim]

/-- What a comment line says fits on a line. -/
theorem Comment.clean_ofChars {text : List Char} (clean : '\n' ∉ text) :
    (Comment.ofChars text).Clean := by
  unfold Comment.ofChars
  split
  · exact fun member => clean (by simp [member])
  · exact fun member => clean (by simp [member])
  · intro place member newline
    obtain ⟨token, inside, read⟩ := List.mem_filterMap.mp member
    have there := mem_of_mem_splitReferences inside (Reference.mem_of_ofChars? read newline)
    exact clean (by simp [there])
  · rename_i rest
    intro flag member
    obtain ⟨inside, other⟩ := List.mem_filter.mp member
    exact ⟨isFlag_of_mem_splitFlags (fun newline => clean (by simp [newline])) inside,
      by simpa using other⟩
  · exact List.not_mem_nil
  · exact fun member => clean (by simp [member])
  · trivial

/-- Only what stands outside the mark of obsolete entries says a comment. -/
theorem Line.ofContent_eq_comment {obsolete : Bool} {content : List Char} {comment : Comment}
    (said : Line.ofContent obsolete content = .ok (.comment comment)) :
    obsolete = false ∧ comment = Comment.ofChars content := by
  unfold Line.ofContent at said
  split at said
  · cases obsolete with
    | false =>
      cases said
      exact ⟨rfl, rfl⟩
    | true => cases said
  · split at said
    · cases text : unquoted content <;> rw [text] at said <;> cases said
    · split at said
      · cases said
      · split at said
        · cases said
        · split at said <;> cases said

theorem Line.clean_ofChars {line : List Char} (clean : '\n' ∉ line) {comment : Comment}
    (said : Line.ofChars line = .ok (.comment comment)) : comment.Clean := by
  have kept : '\n' ∉ trimEnd line := fun newline => clean (mem_of_mem_trimEnd newline)
  unfold Line.ofChars at said
  dsimp only at said
  split at said
  · cases said
  · split at said
    · cases (Line.ofContent_eq_comment said).1
    · rw [(Line.ofContent_eq_comment said).2]
      exact Comment.clean_ofChars kept

/-! ### Entries of lines -/

namespace Entry

/-- The comments of an entry fit on lines, and its forms are no more than `count`. -/
structure Clean (count : Nat) (entry : Entry) : Prop where
  comments : ∀ comment ∈ entry.comments, '\n' ∉ comment.toList
  extracted : ∀ comment ∈ entry.extracted, '\n' ∉ comment.toList
  places : ∀ place ∈ entry.references.keys, '\n' ∉ place.path.toList
  flags : ∀ flag ∈ entry.flags, IsFlag flag ∧ flag ≠ fuzzyFlag
  forms : entry.forms.length ≤ count

namespace Clean

variable {entry : Entry} {count : Nat}

theorem start (count : Nat) : Entry.start.Clean count where
  comments := List.forall_mem_nil _
  extracted := List.forall_mem_nil _
  places := List.forall_mem_nil _
  flags := List.forall_mem_nil _
  forms := Nat.zero_le count

theorem mono {more : Nat} (clean : entry.Clean count) (le : count ≤ more) : entry.Clean more :=
  { clean with forms := Nat.le_trans clean.forms le }

theorem addComment (clean : entry.Clean count) {comment : Comment} (good : comment.Clean) :
    (entry.addComment comment).Clean count := by
  cases comment with
  | extracted text =>
    refine { clean with extracted := fun other member => ?_ }
    rcases List.mem_append.mp member with before | last
    · exact clean.extracted other before
    · rw [List.mem_singleton.mp last, String.toList_ofList]
      exact good
  | references places =>
    refine { clean with places := fun place member => ?_ }
    rcases SortedSet.mem_keys_foldl_insert.mp member with new | before
    · exact good place new
    · exact clean.places place before
  | flags fuzzy others =>
    refine { clean with flags := fun flag member => ?_ }
    rcases List.mem_append.mp member with before | new
    · exact clean.flags flag before
    · exact good flag new
  | translator text =>
    refine { clean with comments := fun other member => ?_ }
    rcases List.mem_append.mp member with before | last
    · exact clean.comments other before
    · rw [List.mem_singleton.mp last, String.toList_ofList]
      exact good
  | dropped => exact clean

theorem setString (clean : entry.Clean count) (keyword : Keyword) (text : String) :
    (entry.setString keyword text).Clean (count + 1) := by
  have more := clean.mono (Nat.le_succ count)
  cases keyword with
  | form index =>
    refine { more with forms := ?_ }
    have longer : (entry.setString (.form index) text).forms.length = entry.forms.length + 1 :=
      List.length_append
    rw [longer]
    exact Nat.succ_le_succ clean.forms
  | _ => exact { more with }

theorem length_extendForm (index : Nat) (text : String) (forms : List (Nat × String)) :
    (extendForm index text forms).length = forms.length := by
  induction forms with
  | nil => rfl
  | cons form rest ih =>
    rw [extendForm]
    split
    · rfl
    · rw [List.length_cons, List.length_cons, ih]

theorem extendString (clean : entry.Clean count) (keyword : Keyword) (text : String) :
    (entry.extendString keyword text).Clean count := by
  cases keyword with
  | form index =>
    refine { clean with forms := ?_ }
    have same : (entry.extendString (.form index) text).forms.length = entry.forms.length :=
      length_extendForm index text entry.forms
    rw [same]
    exact clean.forms
  | _ => exact { clean with }

theorem closing (clean : entry.Clean count) (condition : Bool) :
    (∀ closed ∈ (entry.closing condition).1, closed.Clean count) ∧
      (entry.closing condition).2.Clean count := by
  cases condition with
  | false => exact ⟨List.forall_mem_nil _, clean⟩
  | true => exact ⟨List.forall_mem_singleton.mpr clean, start count⟩

/-- **What one more line makes of a clean entry is clean**, with at most one more form. -/
theorem read (clean : entry.Clean count) {words : Line}
    (good : ∀ comment, words = .comment comment → comment.Clean) {closed : List Entry}
    {next : Entry} (taken : entry.read words = .ok (closed, next)) :
    (∀ other ∈ closed, other.Clean count) ∧ next.Clean (count + 1) := by
  cases words with
  | blank =>
    cases taken
    exact ⟨List.forall_mem_singleton.mpr clean, start _⟩
  | skipped =>
    cases taken
    exact ⟨List.forall_mem_nil _, clean.mono (Nat.le_succ count)⟩
  | comment comment =>
    have parts := clean.closing entry.hasKeywords
    cases taken
    exact ⟨parts.1, (parts.2.addComment (good comment rfl)).mono (Nat.le_succ count)⟩
  | more text =>
    cases current : entry.current with
    | none =>
      rw [Entry.read, current] at taken
      cases taken
    | some keyword =>
      rw [Entry.read, current] at taken
      cases taken
      exact ⟨List.forall_mem_nil _, (clean.extendString keyword text).mono (Nat.le_succ count)⟩
  | keyword obsolete keyword text =>
    have parts := clean.closing (Reader.startsEntry keyword && entry.id.isSome)
    cases taken
    have marked : ((entry.closing (Reader.startsEntry keyword && entry.id.isSome)).2.marked
        obsolete).Clean count := { parts.2 with }
    exact ⟨parts.1, marked.setString keyword text⟩

/-- **All entries of clean lines are clean**, with no more forms than there are lines. -/
theorem reads {lines : List (List Char)} (good : ∀ line ∈ lines, '\n' ∉ line)
    (clean : entry.Clean count) {closed : List Entry} {last : Entry}
    (all : entry.Reads lines closed last) :
    ∀ other ∈ closed ++ [last], other.Clean (count + lines.length) := by
  induction lines generalizing entry count closed with
  | nil =>
    obtain ⟨rfl, rfl⟩ := all.unique (Reads.nil entry)
    exact List.forall_mem_singleton.mpr clean
  | cons line rest ih =>
    rw [← List.singleton_append] at all
    obtain ⟨first, next, others, here, later, rfl⟩ := all.of_append
    obtain ⟨words, said, taken⟩ := here.of_single
    have step := clean.read (fun comment same =>
      Line.clean_ofChars (good line List.mem_cons_self) (same ▸ said)) taken
    have below := ih (fun other member => good other (List.mem_cons_of_mem line member)) step.2 later
    have count : count + (line :: rest).length = count + 1 + rest.length := by
      rw [List.length_cons]
      omega
    intro other member
    rw [List.append_assoc] at member
    rcases List.mem_append.mp member with before | after
    · exact (step.1 other before).mono (Nat.le_add_right _ _)
    · rw [count]
      exact below other after

/-- The item of a clean entry is legible. -/
theorem legible (clean : entry.Clean count) (fits : count ≤ Decimal.wordMax + 1) {id : String}
    (solid : id ≠ "") : LegibleItem (entry.item id) where
  id := solid
  comments := clean.comments
  extracted := clean.extracted
  places := clean.places
  flags flag member := (clean.flags flag member).1
  sure member := (clean.flags fuzzyFlag member).2 rfl
  forms := by
    have sorted : (entry.item id).forms.length = entry.forms.length := by
      rw [Entry.item, sortedForms, List.length_map, List.length_mergeSort]
    rw [sorted]
    exact Nat.le_trans clean.forms fits

end Clean

end Entry

/-! ### Files -/

theorem pieces_length (separates : Char → Bool) (text : List Char) :
    (pieces separates text).length ≤ text.length + 1 := by
  induction text with
  | nil => exact Nat.le_refl 1
  | cons c rest ih =>
    rw [pieces, List.length_cons]
    split
    · exact Nat.succ_le_succ ih
    · split
      · exact Nat.le_add_left 1 _
      · rename_i parts
        rw [parts] at ih
        exact Nat.le_succ_of_le ih

/-- A text has no more lines than characters, and one. -/
theorem lines_length (text : List Char) : (Text.lines text).length ≤ text.length + 1 := by
  have parts := pieces_length (· = '\n') text
  have solid := List.length_pos_iff.mpr (pieces_ne_nil (· = '\n') text)
  have last : ((pieces (· = '\n') text).getLast?.toList.filter (!·.isEmpty)).length ≤ 1 := by
    refine Nat.le_trans (List.length_filter_le _ _) ?_
    cases (pieces (· = '\n') text).getLast? <;> simp
  rw [Text.lines, List.length_append, List.length_map, List.length_dropLast]
  omega

/-- The entries whose items a file is read as. -/
theorem entries_of_parse {text : String} {catalog : Catalog} (parsed : parse text = .ok catalog) :
    ∃ entries : List Entry, catalog = ofEntries entries ∧
      ∀ entry ∈ entries, entry.Clean (text.toList.length + 1) := by
  obtain ⟨closed, last, all, same⟩ := reads_of_parseLines parsed
  refine ⟨closed ++ [last], same, fun entry member => ?_⟩
  have clean := (Entry.Clean.start 0).reads (fun line => newline_not_mem_lines) all entry member
  rw [Nat.zero_add] at clean
  exact clean.mono (lines_length text.toList)

/-- An item of a file is that of an entry, under the id of the entry. -/
theorem entry_of_get? {entries : List Entry} {id : String} {item : Item}
    (found : (ofEntries entries).items.get? id = some item) :
    ∃ entry ∈ entries, id ≠ "" ∧ item = entry.item id := by
  rw [get?_ofEntries] at found
  obtain ⟨member, named⟩ := id_of_counting found
  obtain ⟨entry, inside, made⟩ := List.mem_filterMap.mp member
  obtain ⟨own, -, solid, rfl⟩ := Entry.item?_eq_some.mp made
  have same : own = id := named
  subst same
  exact ⟨entry, inside, solid, rfl⟩

/-- **What is read of any file is legible**, so it can be written and read again. -/
theorem legible_of_parse {text : String} {catalog : Catalog} (parsed : parse text = .ok catalog)
    (fits : text.toList.length ≤ Decimal.wordMax) : catalog.Legible := by
  obtain ⟨entries, rfl, clean⟩ := entries_of_parse parsed
  refine ⟨fun id item found => ?_, fun comment member => ?_, fun item member => ?_⟩
  · obtain ⟨entry, -, -, rfl⟩ := entry_of_get? found
    rfl
  · unfold ofEntries at member
    cases first : entries.find? (·.isHeader) with
    | none =>
      rw [first] at member
      cases member
    | some entry =>
      rw [first] at member
      exact (clean entry (List.mem_of_find?_eq_some first)).comments comment member
  · obtain ⟨id, found⟩ := SortedMap.mem_values.mp member
    obtain ⟨entry, inside, solid, rfl⟩ := entry_of_get? found
    exact (clean entry inside).legible (Nat.succ_le_succ fits) solid

/-- A text that is read as the localized one is not empty. -/
theorem localized_of_parse {text : String} {catalog : Catalog} (parsed : parse text = .ok catalog)
    {id : String} {item : Item} (found : catalog.items.get? id = some item) :
    item.localized ≠ some "" := by
  obtain ⟨entries, rfl, -⟩ := entries_of_parse parsed
  obtain ⟨entry, -, -, rfl⟩ := entry_of_get? found
  intro empty
  have kept := (Option.filter_eq_some_iff.mp empty).2
  simp at kept

/-! ### Saving again -/

/-- Every id keeps its localized text and its plural forms that are not empty, in their places. -/
def KeepsTexts (items saved : Items) : Prop :=
  ∀ id item, items.get? id = some item → ∃ kept, saved.get? id = some kept ∧
    (∀ text, item.localized = some text → kept.localized = some text) ∧
    ∀ (index : Nat) form, item.forms[index]? = some form → form ≠ "" →
      kept.forms[index]? = some form

/-- No item has a localized text next to a plural of its id, or a form that is not empty without
one. -/
def Unmixed (items : Items) : Prop :=
  ∀ id item, items.get? id = some item →
    (item.plural.isSome → item.localized = none) ∧
    (item.plural = none → ∀ form ∈ item.forms, form = "")

/-- An item keeps its texts over being written and read if it does not mix the two kinds. -/
theorem keeps_rereadItem_iff {item : Item} (solid : item.localized ≠ some "") :
    ((∀ text, item.localized = some text → (rereadItem item).localized = some text) ∧
      ∀ (index : Nat) form, item.forms[index]? = some form → form ≠ "" →
        (rereadItem item).forms[index]? = some form) ↔
    (item.plural.isSome → item.localized = none) ∧
      (item.plural = none → ∀ form ∈ item.forms, form = "") := by
  have localized : (rereadItem item).localized = (writtenText? item).filter (· ≠ "") := rfl
  have forms : (rereadItem item).forms = writtenForms item := rfl
  by_cases single : item.plural = none
  · rw [localized, forms, filter_writtenText? single solid, writtenForms_of_single single]
    constructor
    · rintro ⟨-, lost⟩
      refine ⟨fun counted => ?_, fun _ form member => ?_⟩
      · rw [single] at counted
        cases counted
      · obtain ⟨index, there⟩ := List.getElem?_of_mem member
        refine Decidable.byContradiction fun full => ?_
        cases lost index form there full
    · rintro ⟨-, empty⟩
      refine ⟨fun text same => same, fun index form there full => ?_⟩
      exact absurd (empty single form (List.mem_of_getElem? there)) full
  · have counted := Option.isSome_iff_ne_none.mpr single
    rw [localized, forms, writtenText?_of_isSome counted]
    constructor
    · rintro ⟨lost, -⟩
      refine ⟨fun _ => ?_, fun none => absurd none single⟩
      refine Option.eq_none_iff_forall_ne_some.mpr fun text same => ?_
      cases lost text same
    · rintro ⟨unset, -⟩
      refine ⟨fun text same => ?_, fun index form there _ => ?_⟩
      · rw [unset counted] at same
        cases same
      · rw [writtenForms_of_isSome counted (List.ne_nil_of_mem (List.mem_of_getElem? there))]
        exact there

/-- **Reading a file and saving it can always be repeated, and it keeps all translations exactly if
no item mixes a localized text with plural forms.** -/
theorem resave_keeps_iff {text : String} {file : Catalog} (parsed : parse text = .ok file)
    (fits : text.toList.length ≤ Decimal.wordMax) :
    ∃ again, parse (render file) = .ok again ∧
      (KeepsTexts file.items again.items ↔ Unmixed file.items) := by
  refine ⟨file.reread, (legible_of_parse parsed fits).parse_render, ?_⟩
  have saved (id : String) :
      file.reread.items.get? id = (file.items.get? id).map rereadItem := by
    rw [reread, SortedMap.get?_mapValues]
  constructor
  · intro keeps id item found
    obtain ⟨kept, there, texts⟩ := keeps id item found
    rw [saved, found] at there
    cases there
    exact (keeps_rereadItem_iff (localized_of_parse parsed found)).mp texts
  · intro unmixed id item found
    refine ⟨rereadItem item, ?_, ?_⟩
    · rw [saved, found]
      rfl
    · exact (keeps_rereadItem_iff (localized_of_parse parsed found)).mpr (unmixed id item found)

/-- A file with the plural forms of a message, and with a localized text. -/
def plainText : String := "msgid \"cat\"\nmsgid_plural \"cats\"\nmsgstr[0] \"chat\"\n\nmsgid \"a\"\nmsgstr \"un\"\n"

/-- What the file is read as. -/
def plainFile : Catalog where
  header := .empty
  items := .ofList [
    ("cat", { Item.ofId "cat" with plural := some "cats", forms := ["chat"] }),
    ("a", { Item.ofId "a" with localized := some "un" })]

theorem resave_keeps_plainText :
    parse plainText = .ok plainFile ∧ plainText.toList.length ≤ Decimal.wordMax ∧
      ∃ again, parse (render plainFile) = .ok again ∧
        (KeepsTexts plainFile.items again.items ↔ Unmixed plainFile.items) := by
  have parsed : parse plainText = .ok plainFile := by decide +kernel
  have fits : plainText.toList.length ≤ Decimal.wordMax := by decide +kernel
  exact ⟨parsed, fits, resave_keeps_iff parsed fits⟩

/-- A file with a localized text next to the plural of its id. -/
def mixedText : String := "msgid \"cat\"\nmsgid_plural \"cats\"\nmsgstr \"chat\"\n"

/-- What the file is read as. -/
def mixedFile : Catalog where
  header := .empty
  items := .ofList [("cat", { Item.ofId "cat" with plural := some "cats", localized := some "chat" })]

/-- The localized text next to a plural is lost when the file is saved. -/
theorem resave_loses_mixedText :
    ∃ again, parse mixedText = .ok mixedFile ∧ parse (render mixedFile) = .ok again ∧
      ¬KeepsTexts mixedFile.items again.items := by
  have parsed : parse mixedText = .ok mixedFile := by decide +kernel
  have saved : parse (render mixedFile) = .ok mixedFile.reread := by decide +kernel
  have had : (mixedFile.items.get? "cat").map (·.localized) = some (some "chat") := by
    decide +kernel
  have lost : (mixedFile.reread.items.get? "cat").map (·.localized) = some none := by
    decide +kernel
  refine ⟨mixedFile.reread, parsed, saved, fun keeps => ?_⟩
  obtain ⟨item, found, text⟩ := Option.map_eq_some_iff.mp had
  obtain ⟨kept, there, texts, -⟩ := keeps "cat" item found
  rw [there, Option.map_some, texts "chat" text] at lost
  cases lost

end Catalog

end Localization
