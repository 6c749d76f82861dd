import Localization.Proofs.Catalog.RoundTrip

/-
**Blank lines between entries are optional.**

A blank line closes the entry above it. So does the line that opens the next entry, a comment or a keyword
that starts one, where the entry above has its id. Every entry that is written has one, and every item
starts with such a line.

* `Unspaced` — lines of which some blank ones have been left out.
* `Entry.read_opening` — the line that opens an entry closes the one above it.
* `exists_itemLines`, `solid_itemLines` — the lines of an item open an entry, and none of them is blank.
* `Entry.reads_unspaced` — items are read one by one, with or without blank lines in front of them.
* `parse_of_unspaced` — a written file is read the same, whichever of its blank lines are left out.
-/

namespace Localization

open Text

namespace Catalog

/-! ### Leaving out blank lines -/

/-- Lines, and what is left of them when some of the blank ones are left out. -/
inductive Unspaced : List (List Char) → List (List Char) → Prop
  | nil : Unspaced [] []
  | keep (line : List Char) {lines kept : List (List Char)} :
      Unspaced lines kept → Unspaced (line :: lines) (line :: kept)
  | drop {line : List Char} {lines kept : List (List Char)} :
      trimEnd line = [] → Unspaced lines kept → Unspaced (line :: lines) kept

namespace Unspaced

variable {lines kept : List (List Char)}

theorem sublist (unspaced : Unspaced lines kept) : kept.Sublist lines := by
  induction unspaced with
  | nil => exact .slnil
  | keep line _ ih => exact .cons_cons line ih
  | drop _ _ ih => exact .cons _ ih

/-- Where no line is blank, none is left out. -/
theorem eq_of_solid (unspaced : Unspaced lines kept) (solid : ∀ line ∈ lines, trimEnd line ≠ []) :
    kept = lines := by
  induction unspaced with
  | nil => rfl
  | keep line _ ih => rw [ih (List.forall_mem_cons.mp solid).2]
  | drop blank => exact absurd blank (List.forall_mem_cons.mp solid).1

theorem of_append {first second : List (List Char)} (unspaced : Unspaced (first ++ second) kept) :
    ∃ above below, kept = above ++ below ∧ Unspaced first above ∧ Unspaced second below := by
  induction first generalizing kept with
  | nil => exact ⟨[], kept, rfl, .nil, unspaced⟩
  | cons line rest ih =>
    cases unspaced with
    | keep _ later =>
      obtain ⟨above, below, rfl, here, there⟩ := ih later
      exact ⟨line :: above, below, rfl, .keep line here, there⟩
    | drop blank later =>
      obtain ⟨above, below, rfl, here, there⟩ := ih later
      exact ⟨above, below, rfl, .drop blank here, there⟩

/-- A newline at the end of a line makes no difference to whether it is blank. -/
theorem of_map (unspaced : Unspaced (lines.map (· ++ ['\n'])) kept) :
    ∃ plain, kept = plain.map (· ++ ['\n']) ∧ Unspaced lines plain := by
  induction lines generalizing kept with
  | nil =>
    cases unspaced
    exact ⟨[], rfl, .nil⟩
  | cons line rest ih =>
    cases unspaced with
    | keep _ later =>
      obtain ⟨plain, rfl, unspaced⟩ := ih later
      exact ⟨line :: plain, rfl, .keep line unspaced⟩
    | drop blank later =>
      obtain ⟨plain, rfl, unspaced⟩ := ih later
      have same : trimEnd (line ++ ['\n']) = trimEnd line := by simp [trimEnd, isBlank]
      exact ⟨plain, rfl, .drop (same ▸ blank) unspaced⟩

/-- All blank lines may be left out at once. -/
theorem filter (lines : List (List Char)) : Unspaced lines (lines.filter (trimEnd · ≠ [])) := by
  induction lines with
  | nil => exact .nil
  | cons line rest ih =>
    by_cases blank : trimEnd line = []
    · rw [List.filter_cons_of_neg (by simp [blank])]
      exact .drop blank ih
    · rw [List.filter_cons_of_pos (by simp [blank])]
      exact .keep line ih

end Unspaced

/-! ### Lines that open an entry -/

/-- The line belongs to the next entry, if the current one has its id. -/
def Line.isOpening : Line → Bool
  | .comment _ => true
  | .keyword _ kind _ => Reader.startsEntry kind
  | _ => false

namespace Entry

variable {entry last : Entry} {closed : List Entry} {line : List Char} {lines : List (List Char)}

/-- **The line that opens an entry closes the one above it**, and is read as at the start of a file. -/
theorem read_opening (named : entry.id.isSome) {words : Line} (opening : words.isOpening = true) :
    entry.read words =
      (Entry.start.read words).map fun (closed, next) => (entry :: closed, next) := by
  cases words with
  | comment comment =>
    have keyed : entry.hasKeywords = true := by simp [hasKeywords, named]
    rw [read, read, keyed]
    rfl
  | keyword obsolete keyword text =>
    have starts : Reader.startsEntry keyword = true := opening
    have unnamed : Entry.start.id.isSome = false := rfl
    rw [read, read, starts, named, unnamed]
    rfl
  | blank => cases opening
  | skipped => cases opening
  | more text => cases opening

/-- Lines that open an entry are read behind another one as at the start of a file. -/
theorem Reads.behind (read : Entry.start.Reads (line :: lines) closed last) (named : entry.id.isSome)
    {words : Line} (said : Line.ofChars line = .ok words) (opening : words.isOpening = true) :
    entry.Reads (line :: lines) (entry :: closed) last := by
  rw [← List.singleton_append] at read ⊢
  obtain ⟨first, next, others, here, later, rfl⟩ := read.of_append
  obtain ⟨again, saying, taken⟩ := here.of_single
  obtain rfl := Except.ok.inj (said.symm.trans saying)
  have taken : entry.read words = .ok (entry :: first, next) := by
    rw [read_opening named opening, taken]
    rfl
  exact (Reads.single said taken).append later

end Entry

/-! ### What is written of an item -/

/-- The comments of an item stand behind number signs, and not behind the mark of obsolete entries. -/
theorem exists_of_mem_commentLines {item : Item} {line : List Char} (member : line ∈ commentLines item) :
    ∃ rest, line = '#' :: rest ∧ rest.head? ≠ some '~' := by
  unfold commentLines flagLines commentLine at member
  simp only [List.append_assoc, List.mem_append, List.mem_map] at member
  rcases member with ⟨comment, -, rfl⟩ | ⟨comment, -, rfl⟩ | ⟨place, -, rfl⟩ | flags
  · split
    · exact ⟨[], rfl, nofun⟩
    · exact ⟨' ' :: comment.toList, rfl, by simp⟩
  · split
    · exact ⟨['.'], rfl, by simp⟩
    · exact ⟨'.' :: ' ' :: comment.toList, rfl, by simp⟩
  · exact ⟨':' :: ' ' :: referenceChars place, rfl, by simp⟩
  · split at flags
    · cases flags
    · rw [List.mem_singleton.mp flags]
      exact ⟨_, rfl, by simp⟩

/-- The lines of an item open an entry. -/
theorem exists_itemLines (item : Item) :
    ∃ line rest words, itemLines item = line :: rest ∧ Line.ofChars line = .ok words ∧
      words.isOpening = true := by
  unfold itemLines
  cases comments : commentLines item with
  | nil =>
    have fits : Keyword.Fits .id := trivial
    unfold stringLines
    split
    · exact ⟨_, _, _, rfl, Line.ofChars_keyword item fits [], rfl⟩
    · exact ⟨_, _, _, rfl, Line.ofChars_keyword item fits item.id.toList, rfl⟩
  | cons line rest =>
    obtain ⟨text, rfl, plain⟩ := exists_of_mem_commentLines (comments ▸ List.mem_cons_self)
    exact ⟨_, _, _, rfl, Line.ofChars_number plain, rfl⟩

theorem trimEnd_ne_nil {c : Char} (solid : isBlank c = false) {line : List Char} (member : c ∈ line) :
    trimEnd line ≠ [] := by
  obtain ⟨front, back, rfl⟩ := List.append_of_mem member
  have kept : trimEnd (c :: back) ≠ [] := by simp [trimEnd_cons_of_solid back solid]
  rw [trimEnd_append kept]
  simp [kept]

/-- A line with a string in quotes is not blank. -/
theorem solid_quote (front text : List Char) : trimEnd (front ++ Quoted.quote text) ≠ [] := by
  rw [trimEnd_quote]
  simp [Quoted.quote]

theorem solid_stringLines (mark : List Char) (keyword : Keyword) (text : String) :
    ∀ line ∈ stringLines mark keyword text, trimEnd line ≠ [] := by
  have first (part : List Char) : trimEnd (mark ++ keyword.chars ++ ' ' :: Quoted.quote part) ≠ [] := by
    rw [← List.singleton_append, ← List.append_assoc]
    exact solid_quote _ part
  intro line member
  unfold stringLines at member
  split at member
  · rcases List.mem_cons.mp member with rfl | later
    · exact first []
    · obtain ⟨part, -, rfl⟩ := List.mem_map.mp later
      exact solid_quote mark part
  · rw [List.mem_singleton.mp member]
    exact first text.toList

theorem solid_formLines (mark : List Char) (index : Nat) (forms : List String) :
    ∀ line ∈ formLines mark index forms, trimEnd line ≠ [] := by
  induction forms generalizing index with
  | nil =>
    intro line member
    cases member
  | cons form rest ih =>
    intro line member
    rcases List.mem_append.mp member with first | later
    · exact solid_stringLines mark _ form line first
    · exact ih (index + 1) line later

/-- No line of an item is blank. -/
theorem solid_itemLines (item : Item) : ∀ line ∈ itemLines item, trimEnd line ≠ [] := by
  intro line member
  unfold itemLines at member
  rcases List.mem_append.mp member with above | localized
  · rcases List.mem_append.mp above with comment | named
    · obtain ⟨rest, rfl, -⟩ := exists_of_mem_commentLines comment
      exact trimEnd_ne_nil (by decide) List.mem_cons_self
    · exact solid_stringLines _ _ _ line named
  · unfold localizedLines at localized
    split at localized
    · exact solid_stringLines _ _ _ line localized
    · rcases List.mem_append.mp localized with counted | forms
      · exact solid_stringLines _ _ _ line counted
      · exact solid_formLines _ _ _ line forms

/-- No line of a header is blank. -/
theorem solid_headerLines (header : Header) : ∀ line ∈ headerLines header, trimEnd line ≠ [] := by
  intro line member
  unfold headerLines at member
  simp only [List.mem_append, List.mem_map, List.mem_cons, List.not_mem_nil, or_false] at member
  rcases member with (⟨comment, -, rfl⟩ | rfl | rfl) | ⟨field, -, rfl⟩
  · unfold commentLine
    split <;> exact trimEnd_ne_nil (c := '#') (by decide) List.mem_cons_self
  · decide
  · decide
  · exact solid_quote [] _

/-! ### Files -/

/-- **Items are read one by one behind an entry that has its id**, whichever of the blank lines in front of
them are left out. -/
theorem Entry.reads_unspaced {items : List Item} (legible : ∀ item ∈ items, LegibleItem item)
    {entry : Entry} (named : entry.id.isSome) {kept : List (List Char)}
    (unspaced : Unspaced (items.flatMap fun item => [] :: itemLines item) kept) :
    ∃ closed last rest, entry.Reads kept closed last ∧ closed ++ [last] = entry :: rest ∧
      rest.filterMap (·.item?) = items.map rereadItem := by
  induction items generalizing entry kept with
  | nil =>
    cases unspaced
    exact ⟨[], entry, [], .nil entry, rfl, rfl⟩
  | cons item others ih =>
    obtain ⟨one, more⟩ := List.forall_mem_cons.mp legible
    rw [List.flatMap_cons] at unspaced
    obtain ⟨above, below, rfl, first, later⟩ := unspaced.of_append
    obtain ⟨current, lines⟩ := one.reads
    rw [flatMap_cutLines one.newline_not_mem] at lines
    have here : entry.Reads above [entry] ((Entry.commented item).keyed item current) := by
      cases first with
      | keep _ same =>
        rw [same.eq_of_solid (solid_itemLines item)]
        have closing : entry.Reads [[]] [entry] .start := .single Line.ofChars_nil rfl
        exact closing.append lines
      | drop _ same =>
        rw [same.eq_of_solid (solid_itemLines item)]
        obtain ⟨line, rest, words, split, said, opening⟩ := exists_itemLines item
        rw [split] at lines ⊢
        exact lines.behind named said opening
    have again : ((Entry.commented item).keyed item current).id.isSome := rfl
    obtain ⟨closed, last, rest, behind, whole, found⟩ := ih more again later
    refine ⟨[entry] ++ closed, last, (Entry.commented item).keyed item current :: rest,
      here.append behind, ?_, ?_⟩
    · rw [List.append_assoc, whole]
      rfl
    · rw [List.filterMap_cons_some (Entry.item?_keyed one.id current), found, List.map_cons]

/-- A legible catalog is read back from its text without some blank lines as from the whole text. -/
theorem Legible.parse_unspaced {catalog : Catalog} (legible : catalog.Legible)
    {kept : List (List Char)} (unspaced : Unspaced (segments (render catalog).toList) kept) :
    parse (String.ofList kept.flatten) = .ok catalog.reread := by
  have written : ∀ item ∈ writtenItems catalog.items, LegibleItem item :=
    fun item member => legible.items item (mem_writtenItems.mp member)
  have headed := newline_not_mem_headerLines legible.comments
  have clean : ∀ line ∈ catalog.lines, '\n' ∉ line := by
    intro line member
    rcases List.mem_append.mp member with header | items
    · exact headed line header
    · obtain ⟨item, inside, here⟩ := List.mem_flatMap.mp items
      rcases List.mem_cons.mp here with rfl | own
      · exact List.not_mem_nil
      · exact (written item inside).newline_not_mem line own
  rw [render, String.toList_ofList, renderChars, segments_flatMap clean] at unspaced
  obtain ⟨plain, rfl, between⟩ := unspaced.of_map
  rw [← List.flatMap_def, parse_written,
    flatMap_cutLines fun line member => clean line (between.sublist.mem member)]
  obtain ⟨above, below, rfl, header, items⟩ := between.of_append
  have named : (headerEntry catalog.header).id.isSome := rfl
  obtain ⟨closed, last, rest, behind, whole, found⟩ := Entry.reads_unspaced written named items
  have front := reads_headerLines legible.comments
  rw [flatMap_cutLines headed] at front
  rw [header.eq_of_solid (solid_headerLines catalog.header), (front.append_open behind).parseLines_eq, whole,
    ofEntries_headerEntry, found, foldl_writtenItems legible.keyed]
  rfl

/-- A catalog in the shape of its text is legible, and reading it back changes nothing. -/
theorem Canonical.legible_reread {catalog : Catalog} (canonical : catalog.Canonical)
    (fits : catalog.FitsWords) : catalog.Legible ∧ catalog.reread = catalog := by
  constructor
  · exact
      { keyed := canonical.keyed
        comments := fun comment member => (canonical.comments comment member).newline
        items := fun item member => (canonical.items item member).legible (fits item member).1 }
  · have items : (catalog.items.mapValues fun _ item => rereadItem item) = catalog.items := by
      refine SortedMap.mapValues_eq_self fun id item found => ?_
      have member : item ∈ catalog.items.values := SortedMap.mem_values.mpr ⟨id, found⟩
      exact (canonical.items item member).reread (fits item member).2
    rw [Catalog.reread, items, rereadHeader_of_canonical canonical.comments canonical.fields]

/-- **The blank lines of a written file are optional.** A catalog in the shape of its text is read back as
it was, with its header, its live and its obsolete items, whichever blank lines of its text are left out. -/
theorem parse_of_unspaced (catalog : Catalog) (canonical : catalog.Canonical)
    (fits : catalog.FitsWords) {kept : List (List Char)}
    (unspaced : Unspaced (segments (render catalog).toList) kept) :
    parse (String.ofList kept.flatten) = .ok catalog := by
  obtain ⟨legible, same⟩ := canonical.legible_reread fits
  rw [legible.parse_unspaced unspaced, same]

/-- Neither the plural forms nor the obsolete item of the sample need a blank line in front of them. -/
theorem parse_of_unspaced_sample :
    let kept := (segments (render sample).toList).filter (trimEnd · ≠ [])
    sample.Canonical ∧ sample.FitsWords ∧ Unspaced (segments (render sample).toList) kept ∧
      parse (String.ofList kept.flatten) = .ok sample := by
  intro kept
  have canonical : sample.Canonical := by decide
  have fits : sample.FitsWords := by
    unfold FitsWords
    decide
  have unspaced : Unspaced (segments (render sample).toList) kept := .filter _
  exact ⟨canonical, fits, unspaced, parse_of_unspaced sample canonical fits unspaced⟩

end Catalog

end Localization
