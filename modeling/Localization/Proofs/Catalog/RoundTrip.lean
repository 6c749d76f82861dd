import Localization.Proofs.Catalog.Rereading

/-
**Catalogs that survive a round trip through their text.**

* `Canonical` — catalogs whose parts are in the shape that their text has.
* `FitsWords` — line numbers and indexes of forms within 64 bits.
* `parse_render_of_canonical` — such a catalog is read back from its text as it was.
-/

namespace Localization

open Text

namespace Catalog

/-- A comment that fills one line and has no blank at its end. -/
structure IsComment (comment : String) : Prop where
  newline : '\n' ∉ comment.toList
  trimmed : trimEnd comment.toList = comment.toList

/-- A field whose name is told from its value by the first colon of a line. -/
structure IsField (field : String × String) : Prop where
  solid : field.1 ≠ ""
  trimmedName : trim field.1.toList = field.1.toList
  colon : ':' ∉ field.1.toList
  newlineName : '\n' ∉ field.1.toList
  trimmedValue : trim field.2.toList = field.2.toList
  newlineValue : '\n' ∉ field.2.toList

/-- A path that can stand on a references line, isolated if it holds blanks. -/
structure IsPath (path : String) : Prop where
  solid : path ≠ ""
  newline : '\n' ∉ path.toList
  unopened : isolateStart ∉ path.toList
  unclosed : isolateEnd ∉ path.toList

/-- An item in the shape that its text has: with one localized text that is not empty, or with
plural forms. -/
structure CanonicalItem (item : Item) : Prop where
  id : item.id ≠ ""
  localized : item.localized ≠ some ""
  single : item.plural = none → item.forms = []
  counted : item.plural ≠ none → item.localized = none ∧ item.forms ≠ []
  comments : ∀ comment ∈ item.comments, IsComment comment
  extracted : ∀ comment ∈ item.extracted, IsComment comment
  flags : ∀ flag ∈ item.flags, IsFlag flag ∧ flag ≠ fuzzyFlag
  places : ∀ place ∈ item.references.keys, IsPath place.path

/-- A catalog whose items, comments and fields are in the shape that their text has. -/
structure Canonical (catalog : Catalog) : Prop where
  keyed : catalog.items.Keyed
  items : ∀ item ∈ catalog.items.values, CanonicalItem item
  comments : ∀ comment ∈ catalog.header.comments, IsComment comment
  fields : ∀ field ∈ catalog.header.fields, IsField field

/-- Line numbers and indexes of forms are unsigned numbers of 64 bits. -/
def FitsWords (catalog : Catalog) : Prop :=
  ∀ item ∈ catalog.items.values, item.forms.length ≤ Decimal.wordMax ∧
    ∀ place ∈ item.references.keys, place.line ≤ Decimal.wordMax

/-! ### Deciding -/

instance (comment : String) : Decidable (IsComment comment) :=
  decidable_of_iff ('\n' ∉ comment.toList ∧ trimEnd comment.toList = comment.toList)
    ⟨fun ⟨newline, trimmed⟩ => ⟨newline, trimmed⟩, fun good => ⟨good.newline, good.trimmed⟩⟩

instance (field : String × String) : Decidable (IsField field) :=
  decidable_of_iff (field.1 ≠ "" ∧ trim field.1.toList = field.1.toList ∧ ':' ∉ field.1.toList ∧
      '\n' ∉ field.1.toList ∧ trim field.2.toList = field.2.toList ∧ '\n' ∉ field.2.toList)
    ⟨fun ⟨solid, trimmed, colon, name, value, newline⟩ =>
        ⟨solid, trimmed, colon, name, value, newline⟩,
      fun good => ⟨good.solid, good.trimmedName, good.colon, good.newlineName, good.trimmedValue,
        good.newlineValue⟩⟩

instance (path : String) : Decidable (IsPath path) :=
  decidable_of_iff (path ≠ "" ∧ '\n' ∉ path.toList ∧ isolateStart ∉ path.toList ∧
      isolateEnd ∉ path.toList)
    ⟨fun ⟨solid, newline, unopened, unclosed⟩ => ⟨solid, newline, unopened, unclosed⟩,
      fun good => ⟨good.solid, good.newline, good.unopened, good.unclosed⟩⟩

instance (flag : String) : Decidable (IsFlag flag) :=
  decidable_of_iff (flag ≠ "" ∧ trim flag.toList = flag.toList ∧ ',' ∉ flag.toList ∧
      '\n' ∉ flag.toList)
    ⟨fun ⟨solid, trimmed, comma, newline⟩ => ⟨solid, trimmed, comma, newline⟩,
      fun good => ⟨good.solid, good.trimmed, good.comma, good.newline⟩⟩

instance (item : Item) : Decidable (CanonicalItem item) :=
  decidable_of_iff (item.id ≠ "" ∧ item.localized ≠ some "" ∧
      (item.plural = none → item.forms = []) ∧
      (item.plural ≠ none → item.localized = none ∧ item.forms ≠ []) ∧
      (∀ comment ∈ item.comments, IsComment comment) ∧
      (∀ comment ∈ item.extracted, IsComment comment) ∧
      (∀ flag ∈ item.flags, IsFlag flag ∧ flag ≠ fuzzyFlag) ∧
      ∀ place ∈ item.references.keys, IsPath place.path)
    ⟨fun ⟨id, localized, single, counted, comments, extracted, flags, places⟩ =>
        ⟨id, localized, single, counted, comments, extracted, flags, places⟩,
      fun good => ⟨good.id, good.localized, good.single, good.counted, good.comments,
        good.extracted, good.flags, good.places⟩⟩

instance (catalog : Catalog) : Decidable catalog.Canonical :=
  decidable_of_iff ((∀ entry ∈ catalog.items.entries, entry.2.id = entry.1) ∧
      (∀ item ∈ catalog.items.values, CanonicalItem item) ∧
      (∀ comment ∈ catalog.header.comments, IsComment comment) ∧
      ∀ field ∈ catalog.header.fields, IsField field)
    ⟨fun ⟨keyed, items, comments, fields⟩ =>
        ⟨fun id item found => keyed (id, item) (SortedMap.get?_eq_some.mp found), items, comments,
          fields⟩,
      fun good => ⟨fun entry member => good.keyed entry.1 entry.2 (SortedMap.get?_eq_some.mpr member),
        good.items, good.comments, good.fields⟩⟩

/-! ### What a round trip keeps -/

theorem IsComment.reread {comment : String} (good : IsComment comment) :
    rereadComment comment = comment := by
  rw [rereadComment, good.trimmed, String.ofList_toList]

theorem map_rereadComment {comments : List String} (good : ∀ comment ∈ comments, IsComment comment) :
    comments.map rereadComment = comments := by
  calc comments.map rereadComment = comments.map id :=
        List.map_congr_left fun comment member => (good comment member).reread
    _ = comments := List.map_id comments

theorem IsField.newline {field : String × String} (good : IsField field) :
    '\n' ∉ fieldChars field := by
  simp [fieldChars, good.newlineName, good.newlineValue]

/-- The name of a field is cut off at the colon. -/
theorem cut_colon {name : List Char} (colon : ':' ∉ name) (value : List Char) :
    cut (· = ':') (name ++ ':' :: value) = some (name, value) := by
  have clean : ∀ c ∈ name, decide (c = ':') = false := by
    intro c member
    rw [decide_eq_false_iff_not]
    rintro rfl
    exact colon member
  exact cut_append clean (by decide) value

/-- A field is read back from its line. -/
theorem IsField.read {field : String × String} (good : IsField field) :
    Header.field? (fieldChars field) = some field := by
  have parts : cut (· = ':') (fieldChars field) = some (field.1.toList, ' ' :: field.2.toList) :=
    cut_colon good.colon _
  have named : field.1.toList.isEmpty = false := by simpa using good.solid
  unfold Header.field?
  rw [parts, Option.bind_eq_bind, Option.bind_some]
  simp only [good.trimmedName, named, Bool.false_eq_true, if_false, trim_space, good.trimmedValue,
    String.ofList_toList]

theorem filterMap_fieldChars {fields : List (String × String)}
    (good : ∀ field ∈ fields, IsField field) :
    (fields.map fieldChars).filterMap Header.field? = fields := by
  induction fields with
  | nil => rfl
  | cons field rest ih =>
    rw [List.map_cons, List.filterMap_cons_some (good field List.mem_cons_self).read,
      ih fun other member => good other (List.mem_cons_of_mem field member)]

theorem rereadHeader_of_canonical {header : Header}
    (comments : ∀ comment ∈ header.comments, IsComment comment)
    (fields : ∀ field ∈ header.fields, IsField field) : rereadHeader header = header := by
  have lines : (header.fields.flatMap fun field => cutLines (fieldChars field)) =
      header.fields.map fieldChars := by
    rw [← List.flatMap_map]
    refine flatMap_cutLines fun line member => ?_
    obtain ⟨field, inside, rfl⟩ := List.mem_map.mp member
    exact (fields field inside).newline
  rw [rereadHeader, map_rereadComment comments, lines, filterMap_fieldChars fields]

theorem rereadPlaces_of_canonical {place : Reference} (good : IsPath place.path)
    (fits : place.line ≤ Decimal.wordMax) : rereadPlaces place = [place] :=
  rereadPlaces_of_recoverable good.solid (recoverable_of_unmarked good.unopened good.unclosed) fits

theorem flatMap_rereadPlaces {places : List Reference} (good : ∀ place ∈ places, IsPath place.path)
    (fits : ∀ place ∈ places, place.line ≤ Decimal.wordMax) :
    places.flatMap rereadPlaces = places := by
  calc places.flatMap rereadPlaces = places.flatMap fun place => [place] := by
        rw [List.flatMap_def, List.flatMap_def]
        exact congrArg List.flatten (List.map_congr_left fun place member =>
          rereadPlaces_of_canonical (good place member) (fits place member))
    _ = places := List.flatMap_singleton' places

theorem rereadReferences_of_canonical {references : SortedSet Reference}
    (good : ∀ place ∈ references.keys, IsPath place.path)
    (fits : ∀ place ∈ references.keys, place.line ≤ Decimal.wordMax) :
    rereadReferences references.keys = references := by
  rw [rereadReferences, flatMap_rereadPlaces good fits]
  exact SortedSet.ofList_keys references

namespace CanonicalItem

variable {item : Item}

theorem legible (canonical : CanonicalItem item)
    (fits : item.forms.length ≤ Decimal.wordMax) : LegibleItem item where
  id := canonical.id
  comments comment member := (canonical.comments comment member).newline
  extracted comment member := (canonical.extracted comment member).newline
  places place member := (canonical.places place member).newline
  flags flag member := (canonical.flags flag member).1
  sure member := (canonical.flags fuzzyFlag member).2 rfl
  forms := Nat.le_succ_of_le fits

theorem writtenForms (canonical : CanonicalItem item) : Catalog.writtenForms item = item.forms := by
  by_cases single : item.plural = none
  · rw [writtenForms_of_single single, canonical.single single]
  · exact writtenForms_of_isSome (Option.isSome_iff_ne_none.mpr single) (canonical.counted single).2

theorem writtenText? (canonical : CanonicalItem item) :
    (Catalog.writtenText? item).filter (· ≠ "") = item.localized := by
  by_cases single : item.plural = none
  · exact filter_writtenText? single canonical.localized
  · rw [writtenText?_of_isSome (Option.isSome_iff_ne_none.mpr single), (canonical.counted single).1]
    rfl

/-- An item in the shape of its text is read back. -/
theorem reread (canonical : CanonicalItem item)
    (fits : ∀ place ∈ item.references.keys, place.line ≤ Decimal.wordMax) :
    rereadItem item = item := by
  unfold rereadItem
  rw [rereadReferences_of_canonical canonical.places fits, canonical.writtenText?,
    canonical.writtenForms, map_rereadComment canonical.extracted,
    map_rereadComment canonical.comments]

end CanonicalItem

/-- **A catalog in the shape of its text is read back from its text as it was**, with live and
obsolete items, and whatever its ids and localized texts hold. -/
theorem parse_render_of_canonical (catalog : Catalog) (canonical : catalog.Canonical)
    (fits : catalog.FitsWords) : parse (render catalog) = .ok catalog := by
  have legible : catalog.Legible :=
    { keyed := canonical.keyed
      comments := fun comment member => (canonical.comments comment member).newline
      items := fun item member => (canonical.items item member).legible (fits item member).1 }
  have items : (catalog.items.mapValues fun _ item => rereadItem item) = catalog.items := by
    refine SortedMap.mapValues_eq_self fun id item found => ?_
    have member : item ∈ catalog.items.values := SortedMap.mem_values.mpr ⟨id, found⟩
    exact (canonical.items item member).reread (fits item member).2
  have same : catalog.reread = catalog := by
    rw [Catalog.reread, items, rereadHeader_of_canonical canonical.comments canonical.fields]
  rw [legible.parse_render, same]

/-- A catalog with a header, plural forms over several lines, a path with blanks and an obsolete
item. -/
def sample : Catalog where
  header := ⟨["Messages of the shop"], [("Language", "fr")]⟩
  items := .ofList [
    ("%0 cat", { Item.ofId "%0 cat" with
      plural := some "%0 cats"
      references := .ofList [⟨"my page.html", 3⟩, ⟨"a.html", 12⟩]
      forms := ["%0 chat", "%0 chats\nou plus"]
      extracted := ["counts\tcats"]
      flags := ["c-format"]
      fuzzy := true }),
    ("say \"hi\"\n", { Item.ofId "say \"hi\"\n" with
      localized := some "dis \\ \"salut\"\n"
      comments := ["", "  checked"]
      obsolete := true })]

theorem parse_render_sample :
    sample.Canonical ∧ sample.FitsWords ∧ parse (render sample) = .ok sample := by
  have canonical : sample.Canonical := by decide
  have fits : sample.FitsWords := by
    unfold FitsWords
    decide
  exact ⟨canonical, fits, parse_render_of_canonical sample canonical fits⟩

end Catalog

end Localization
