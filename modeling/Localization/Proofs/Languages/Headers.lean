import Localization.Proofs.Culture
import Localization.Proofs.Languages.Resaved
import Mathlib.Logic.Relation

/-
**Headers that outlast every save.**

A save reads the header from the file, puts the standard fields on top of it and writes it again. For a
culture whose name is the value of a field this gives the same header every time, whatever items are
written behind it.

* `rereadHeader_standard`, `standard_standard` — the standard header of a culture, read and written again.
* `Header.get?_standard` — the fields that are no standard ones keep their values.
* `Saves` — what saves the catalog of a culture; `Saves.bears`, `bears_of_saves`.
* `header_of_saves` — the header behind any number of saves.
-/

namespace Localization

open FileTree Text

/-! ### Standard headers -/

/-- **A known culture can stand in a header.** -/
theorem Catalog.isField_language {culture : String} (known : Culture.isKnown culture = true) :
    IsField (Header.languageField, culture) where
  solid := by
    show Header.languageField ≠ ""
    decide
  trimmedName := by
    show trim Header.languageField.toList = Header.languageField.toList
    decide
  colon := colon_not_mem_languageField
  newlineName := by
    show '\n' ∉ Header.languageField.toList
    decide
  trimmedValue := trim_of_edges
    (fun _ first => Culture.not_isBlank_of_isKnown known (List.mem_of_mem_head? first))
    (fun _ last => Culture.not_isBlank_of_isKnown known (List.mem_of_mem_getLast? last))
  newlineValue inside := by
    have solid := Culture.not_isBlank_of_isKnown known inside
    revert solid
    decide

namespace Header

variable {header : Header} {culture name : String}

theorem fields_standard (culture : String) (header : Header) :
    (standard (some culture) header).fields =
      fixedFields ++ [(languageField, culture)] ++ header.fields.filter Catalog.isKept := rfl

/-- The fields that saving sets are those of the standard names. -/
theorem isStandard_of_mem {field : String × String}
    (member : field ∈ fixedFields ++ [(languageField, culture)]) : isStandard field.1 = true := by
  have fixed : ∀ field ∈ fixedFields, isStandard field.1 = true := by decide
  rcases List.mem_append.mp member with inside | last
  · exact fixed field inside
  · rw [List.mem_singleton.mp last]
    show isStandard languageField = true
    decide

/-- **A standard header on top of a standard one is the same.** -/
theorem standard_standard (culture : String) (header : Header) :
    standard (some culture) (standard (some culture) header) = standard (some culture) header := by
  have none : (fixedFields ++ [(languageField, culture)]).filter Catalog.isKept = [] :=
    List.filter_eq_nil_iff.mpr fun field member => by simp [isStandard_of_mem member]
  have kept : (standard (some culture) header).fields.filter Catalog.isKept =
      header.fields.filter Catalog.isKept := by
    rw [fields_standard, List.filter_append, none, List.nil_append, List.filter_filter]
    simp only [Bool.and_self]
  have fields : (standard (some culture) (standard (some culture) header)).fields =
      (standard (some culture) header).fields := by
    rw [fields_standard culture (standard (some culture) header), kept, fields_standard]
  exact congrArg (Header.mk header.comments) fields

/-- Names that agree with a name are standard ones if this is. -/
theorem isStandard_congr {other : String} (same : sameName other name = true) :
    isStandard other = isStandard name := by
  have equal : other.toList.map Char.toLower = name.toList.map Char.toLower := by simpa [sameName] using same
  unfold isStandard sameName
  rw [equal]

/-- **What is not set by saving keeps its value.** -/
theorem get?_standard (header : Header) (culture : String) (own : isStandard name = false) :
    (standard (some culture) header).get? name = header.get? name := by
  have set : ∀ field ∈ fixedFields ++ [(languageField, culture)], ¬ sameName field.1 name = true := by
    intro field member same
    rw [← isStandard_congr same, isStandard_of_mem member] at own
    cases own
  unfold get?
  rw [fields_standard, List.find?_append, List.find?_eq_none.mpr set, Option.none_or, List.find?_filter]
  congr 2
  funext field
  by_cases same : sameName field.1 name = true
  · simp [same, isStandard_congr same, own]
  · simp [Bool.not_eq_true _ ▸ same]

end Header

namespace Catalog

variable {header : Header} {culture : String}

/-- **The standard header of a known culture is read back as it is written.** -/
theorem rereadHeader_standard (tidy : TidyHeader header) (known : Culture.isKnown culture = true) :
    rereadHeader (Header.standard (some culture) header) = Header.standard (some culture) header := by
  refine rereadHeader_of_canonical tidy.comments fun field member => ?_
  rw [Header.fields_standard, List.append_assoc] at member
  rcases List.mem_append.mp member with fixed | later
  · exact isField_of_mem_fixedFields field fixed
  · rcases List.mem_cons.mp later with rfl | kept
    · exact isField_language known
    · exact tidy.fields field (List.mem_filter.mp kept).1

end Catalog

namespace Locale

variable {locale : Locale} {tree left : FileTree} {culture text : String} {catalog last : Catalog}

/-! ### Saves in turn -/

/-- What saves the catalog of a culture, and succeeds: a save, a merge of the culture, or a merge of all
cultures in which no other one that is reported has the same file. -/
inductive Saves (locale : Locale) (culture : String) (tree left : FileTree) : Prop where
  | save {items : Items} {changed : Bool}
      (saved : locale.saveLanguage tree culture items = (.ok changed, left))
  | merge {template : Items} {summary : LanguageSummary}
      (merged : locale.mergeLanguage template tree culture = (.ok summary, left))
  | mergeAll {configured : List String} {template : Items} {report : MergeReport}
      (merged : locale.mergeAll configured template tree = (report, left))
      (reported : ∃ summary ∈ report.languages, summary.culture = culture)
      (alone : locale.Alone left report culture)

/-- A path leads to a file with items behind the standard header on top of a header. -/
def Bears (tree : FileTree) (path : Path) (culture : String) (header : Header) : Prop :=
  ∃ items, tree.readText path = .ok (Catalog.render ⟨Header.standard (some culture) header, items⟩)

/-- **A save keeps the header of the catalog that it finds.** -/
theorem Saves.bears (saves : locale.Saves culture tree left) (rooted : tree.Rooted)
    (read : tree.readText (locale.languagePath culture) = .ok text) :
    left.Rooted ∧ ∃ catalog, Catalog.parse text = .ok catalog ∧
      Bears left (locale.languagePath culture) culture catalog.header := by
  have parsed {now : FileTree} {catalog : Catalog}
      (same : now.readText (locale.languagePath culture) = .ok text)
      (loaded : Catalog.loadOrEmpty now (locale.languagePath culture) = .ok catalog) :
      Catalog.parse text = .ok catalog := by
    rcases Catalog.loadOrEmpty_eq_ok.mp loaded with ⟨missing, -⟩ | ⟨other, held, parsed⟩
    · cases same.symm.trans missing
    · cases same.symm.trans held
      exact parsed
  cases saves with
  | save saved =>
    rw [saveLanguage, Catalog.save_eq_rewrite] at saved
    obtain ⟨catalog, changed, loaded, saved, -⟩ := Catalog.rewrite_eq_ok saved
    obtain ⟨place, stamp, -, grows, found, -, -⟩ := Catalog.saveText_eq_ok rooted saved
    exact ⟨grows.rooted rooted, catalog, parsed read loaded, _, readText_of_resolve found⟩
  | merge merged =>
    obtain ⟨catalog, place, turn⟩ := turn_of_mergeLanguage rooted merged
    obtain ⟨stamp, found⟩ := turn.found
    exact ⟨turn.grows.rooted rooted, catalog, parsed read turn.loaded, _, readText_of_resolve found⟩
  | mergeAll merged reported alone =>
    obtain ⟨summary, member, rfl⟩ := reported
    obtain ⟨cultures, listed, turns⟩ := turns_of_mergeAll merged member
    obtain ⟨-, -, nodup, -⟩ := mem_cultures listed
    obtain ⟨rfl, rfl⟩ := Prod.ext_iff.mp turns
    obtain ⟨leftRooted, grows, -⟩ := (carries_rooted _ _).mergeEach rooted cultures
    obtain ⟨now, middle, catalog, place, turn, ⟨spots, early, first⟩, others, late, second⟩ :=
      turn_of_reported rooted nodup member ((alone_of_grows grows _).mp alone)
    -- The turns before that of the culture leave its file as it is, and so do those behind it.
    obtain ⟨spot, stamp, found⟩ := readText_eq_ok.mp read
    obtain rfl := (aims_of_resolve found).unique (early.aims.mp turn.aims)
    have same := readText_of_elsewhere early found first
    obtain ⟨later, there⟩ := turn.found
    exact ⟨leftRooted, catalog, parsed same turn.loaded, _, readText_of_elsewhere late there second⟩

/-- **Saves in turn keep the header of the first catalog.** -/
theorem bears_of_saves (rooted : tree.Rooted) (known : Culture.isKnown culture = true)
    (held : Catalog.load? tree (locale.languagePath culture) = .ok (some catalog))
    (saves : Relation.TransGen (locale.Saves culture) tree left) :
    left.Rooted ∧ Bears left (locale.languagePath culture) culture catalog.header := by
  obtain ⟨text, read, parsed⟩ := Catalog.load?_eq_some.mp held
  have tidy := Catalog.tidyHeader_of_parse parsed
  induction saves with
  | single first =>
    obtain ⟨leftRooted, other, again, bears⟩ := first.bears rooted read
    cases parsed.symm.trans again
    exact ⟨leftRooted, bears⟩
  | tail _ next ih =>
    obtain ⟨middleRooted, items, written⟩ := ih
    obtain ⟨leftRooted, other, again, bears⟩ := next.bears middleRooted written
    have header : other.header = Header.standard (some culture) catalog.header := by
      rw [Catalog.header_of_parse_render (tidy.newline_standard (some culture)) again,
        Catalog.rereadHeader_standard tidy known]
    rw [Bears, header, Header.standard_standard] at bears
    exact ⟨leftRooted, bears⟩

/-- **The header behind any number of saves of a known culture**, with any items, where the file can be
read before and behind them. The comments are those that were there, and the fields are the standard ones
and then all others that were there, in their order. -/
theorem header_of_saves (rooted : tree.Rooted) (known : Culture.isKnown culture = true)
    (held : Catalog.load? tree (locale.languagePath culture) = .ok (some catalog))
    (saves : Relation.TransGen (locale.Saves culture) tree left)
    (again : Catalog.load? left (locale.languagePath culture) = .ok (some last)) :
    last.header.comments = catalog.header.comments ∧
      last.header.fields = Header.fixedFields ++ (Header.languageField, culture) ::
        catalog.header.fields.filter (fun field => !Header.isStandard field.1) ∧
      ∀ name, Header.isStandard name = false → last.header.get? name = catalog.header.get? name := by
  obtain ⟨-, items, written⟩ := bears_of_saves rooted known held saves
  obtain ⟨text, read, parsed⟩ := Catalog.load?_eq_some.mp again
  cases written.symm.trans read
  obtain ⟨first, -, early⟩ := Catalog.load?_eq_some.mp held
  have tidy := Catalog.tidyHeader_of_parse early
  have header : last.header = Header.standard (some culture) catalog.header := by
    rw [Catalog.header_of_parse_render (tidy.newline_standard (some culture)) parsed,
      Catalog.rereadHeader_standard tidy known]
  rw [header]
  refine ⟨rfl, ?_, fun name own => Header.get?_standard catalog.header culture own⟩
  rw [Header.fields_standard, List.append_assoc, List.singleton_append]

/-- A catalog with a comment, a field that is there twice, and another spelling of a standard field. -/
def notedText : String :=
  "# Checked by hand\nmsgid \"\"\nmsgstr \"\"\n\"X-Note: one\\n\"\n\"language: xx\\n\"\n\"x-note: two\\n\"\n\n" ++
    "msgid \"cat\"\nmsgstr \"chat\"\n"

/-- What the catalog is read as. -/
def notedCatalog : Catalog where
  header := ⟨["Checked by hand"], [("X-Note", "one"), ("language", "xx"), ("x-note", "two")]⟩
  items := SortedMap.empty.insert "cat" { Item.ofId "cat" with localized := some "chat" }

theorem header_of_saves_notedText :
    let saved := sample.saveLanguage (sampleTree "fr" notedText 0) "fr" notedCatalog.items
    saved.1 = .ok true ∧ ∃ again last, sample.saveLanguage saved.2 "fr" again = (.ok false, saved.2) ∧
      Catalog.load? saved.2 (sample.languagePath "fr") = .ok (some last) ∧
      last.header.comments = ["Checked by hand"] ∧
      last.header.fields = Header.fixedFields ++
        [("Language", "fr"), ("X-Note", "one"), ("x-note", "two")] ∧
      last.header.get? "X-NOTE" = some "one" := by
  intro saved
  have known : Culture.isKnown "fr" = true := by decide +kernel
  have rooted : (sampleTree "fr" notedText 0).Rooted := by decide +kernel
  have parsed : Catalog.parse notedText = .ok notedCatalog := by decide +kernel
  have held : Catalog.load? (sampleTree "fr" notedText 0) (sample.languagePath "fr") =
      .ok (some notedCatalog) :=
    Catalog.load?_eq_some.mpr ⟨notedText, by decide +kernel, parsed⟩
  have legible := Catalog.legible_of_parse parsed (by decide +kernel)
  have first : saved.1 = .ok true := by decide +kernel
  have stores := stores_of_saveLanguage rooted (Prod.ext first rfl : saved = (.ok true, saved.2))
  obtain ⟨again, -, second⟩ :=
    stores.resaves.of_lasting (by decide) legible.keyed legible.items (by decide +kernel)
  obtain ⟨header, tidy, read⟩ := stores
  have whole : (⟨.standard (some "fr") header, notedCatalog.items⟩ : Catalog).Legible :=
    ⟨legible.keyed, tidy.newline, legible.items⟩
  have left := Catalog.load?_eq_some.mpr ⟨_, read, whole.parse_render⟩
  obtain ⟨comments, fields, values⟩ := header_of_saves rooted known held
    (.tail (.single (.save (Prod.ext first rfl))) (.save second)) left
  exact ⟨first, again, _, second, left, comments, fields.trans (by decide),
    (values "X-NOTE" (by decide)).trans (by decide)⟩

end Locale

end Localization
