import Localization.Proofs.Catalog.Lasting
import Localization.Proofs.Languages.Independent
import Localization.Proofs.Languages.Repeated

/-
**Saving what was loaded.**

The file of a culture that was saved or merged is loaded and saved again. This writes nothing if the
file is read with the lines that it has: the name of the culture must bring in no fields, and the
items must be lasting.

* `Stores` — a path leads to a file that was saved for a culture with items.
* `stores_of_saveLanguage`, `stores_of_mergeAll` — files that are saved or merged.
* `render_resaved_iff` — when the text that is saved again is the same.
* `Resaves` — what saving does to a file that stores items; `resaves_written` — for every written file.
-/

namespace Localization

open FileTree

namespace Catalog

/-! ### Texts that are saved again -/

theorem fieldLine_ne_nil (field : String × String) : fieldLine field ≠ [] := by
  simp [fieldLine, Quoted.quote]

/-- The lines of fields are told apart from those of items, which start with a blank one. -/
theorem fieldLines_inj {first second : List (String × String)} {items others : Items}
    (same : first.map fieldLine ++ body items = second.map fieldLine ++ body others) :
    first.map fieldLine = second.map fieldLine ∧ body items = body others := by
  have fields (fields : List (String × String)) (items : Items) :
      (fields.map fieldLine ++ body items).takeWhile (· ≠ []) = fields.map fieldLine := by
    have all : ∀ line ∈ fields.map fieldLine, decide (line ≠ []) = true := by
      intro line member
      obtain ⟨field, -, rfl⟩ := List.mem_map.mp member
      exact decide_eq_true (fieldLine_ne_nil field)
    rw [List.takeWhile_append_of_pos all, body]
    cases writtenItems items <;> simp
  have alike : first.map fieldLine = second.map fieldLine := by
    rw [← fields first items, same, fields]
  rw [alike] at same
  exact ⟨alike, List.append_cancel_left same⟩

/-- **The text of a culture's items is the same after it was read exactly if the name of the culture
brings in no fields and the lines of the items are the same.** -/
theorem render_resaved_iff {header : Header} (tidy : TidyHeader header) (culture : String)
    (items again : Items) :
    render ⟨Header.standard (some culture) (rereadHeader (Header.standard (some culture) header)), again⟩ =
        render ⟨Header.standard (some culture) header, items⟩ ↔
      strayFields culture = [] ∧ body again = body items := by
  constructor
  · intro same
    have lines := List.append_cancel_left
      (standardLines_of_render_eq (tidy.reread (some culture)) tidy same)
    rw [filter_rereadHeader tidy, Option.toList_some, List.flatMap_singleton] at lines
    obtain ⟨fields, bodies⟩ := fieldLines_inj lines
    have count := congrArg List.length fields
    rw [List.length_map, List.length_map, List.length_append] at count
    exact ⟨List.length_eq_zero_iff.mp (by omega), bodies⟩
  · rintro ⟨clean, bodies⟩
    have header : Header.standard (some culture) (rereadHeader (Header.standard (some culture) header)) =
        Header.standard (some culture) header := by
      rw [standard_reread tidy, Option.toList_some, List.flatMap_singleton, clean]
      rfl
    exact render_congr header bodies

/-- A save leaves everything as it is exactly if the file has the text already. -/
theorem saveText_eq_unchanged {tree : FileTree} {path : Path} {text : String} :
    saveText tree path text = (.ok false, tree) ↔ tree.readText path = .ok text := by
  have replaced : saveText.replace tree path text ≠ (.ok false, tree) := by
    unfold saveText.replace
    cases tree.store path (.text text) with
    | mk outcome left =>
      cases outcome with
      | error failure => exact nofun
      | ok done => exact nofun
  unfold saveText
  cases tree.readText path with
  | error error => cases error <;> simp [replaced]
  | ok current =>
    by_cases same : current = text
    · simp [same]
    · simp [same, replaced]

end Catalog

namespace Locale

variable {locale : Locale} {tree left : FileTree} {culture : String} {items again : Items}

/-! ### Files that were saved or merged -/

/-- A path leads to a file that was saved for a culture with items. -/
def Stores (tree : FileTree) (path : Path) (culture : String) (items : Items) : Prop :=
  ∃ header, Catalog.TidyHeader header ∧
    tree.readText path = .ok (Catalog.render ⟨Header.standard (some culture) header, items⟩)

/-- **A save leaves the file of its culture with the items.** -/
theorem stores_of_saveLanguage (rooted : tree.Rooted) {changed : Bool}
    (saved : locale.saveLanguage tree culture items = (.ok changed, left)) :
    Stores left (locale.languagePath culture) culture items := by
  rw [saveLanguage, Catalog.save_eq_rewrite] at saved
  obtain ⟨catalog, changed, loaded, saved, -⟩ := Catalog.rewrite_eq_ok saved
  obtain ⟨place, stamp, -, -, found, -, -⟩ := Catalog.saveText_eq_ok rooted saved
  exact ⟨catalog.header, Catalog.tidyHeader_of_loadOrEmpty loaded, readText_of_resolve found⟩

/-- A culture that is the only one reported has its file alone. -/
theorem alone_of_single {report : MergeReport} {summary : LanguageSummary}
    (single : report.languages = [summary]) : locale.Alone tree report summary.culture := by
  intro other member differs
  rw [single] at member
  exact absurd (congrArg LanguageSummary.culture (List.mem_singleton.mp member)) differs

/-- **The turn of a reported culture**, where no other culture that is reported has the same file: the
turns before and after it change other files only. -/
theorem turn_of_reported (rooted : tree.Rooted) {template : Items} {cultures : List String}
    (nodup : cultures.Nodup) {summary : LanguageSummary}
    (member : summary ∈ (locale.mergeEach template tree cultures).1.languages)
    (alone : locale.Alone tree (locale.mergeEach template tree cultures).1 summary.culture) :
    ∃ now middle catalog place, Turn locale template summary.culture now middle summary catalog place ∧
      (∃ spots, Grows spots tree now ∧ ¬ spots place) ∧
      ∃ spots, Grows spots middle (locale.mergeEach template tree cultures).2 ∧ ¬ spots place := by
  obtain ⟨before, rest, middle, rfl, merged, ends⟩ := mergeEach_split member
  obtain ⟨-, restNodup, distinct⟩ := List.nodup_append.mp nodup
  have notBefore : summary.culture ∉ before := fun inside =>
    distinct summary.culture inside summary.culture List.mem_cons_self rfl
  have notLater : summary.culture ∉ rest := (List.nodup_cons.mp restNodup).1
  obtain ⟨nowRooted, early, -⟩ := (carries_rooted locale template).mergeEach rooted before
  obtain ⟨catalog, place, turn⟩ := turn_of_mergeLanguage nowRooted merged
  obtain ⟨-, late, -⟩ := (carries_rooted locale template).mergeEach (turn.grows.rooted nowRooted) rest
  have report : (locale.mergeEach template tree (before ++ summary.culture :: rest)).1 =
      ⟨(locale.mergeEach template tree before).1.languages ++
          summary :: (locale.mergeEach template middle rest).1.languages,
        (locale.mergeEach template tree before).1.failures ++
          (locale.mergeEach template middle rest).1.failures⟩ := by
    have parts := mergeEach_append locale template tree before (summary.culture :: rest)
    dsimp only at parts
    rw [parts, mergeEach_cons, merged]
    rfl
  rw [report, alone_append rfl] at alone
  have first := (alone_mergeEach template notBefore (early.aims.mp turn.aims)).mp alone.1
  have afterwards := (alone_of_grows turn.grows _).mpr ((alone_of_grows early _).mpr alone.2)
  have second := (alone_mergeEach template notLater (turn.grows.aims.mpr turn.aims)).mp afterwards
  rw [← ends]
  exact ⟨_, middle, catalog, place, turn, ⟨_, early, first⟩, ⟨_, late, second⟩⟩

/-- **A merge leaves the file of a culture that it reports with merged items**, if no other culture
that it reports has the same file. They are merged with those that were there, unless the culture's
path missed them. -/
theorem stores_of_mergeAll (rooted : tree.Rooted) {configured : List String} {template : Items}
    {report : MergeReport} (merged : locale.mergeAll configured template tree = (report, left))
    (reported : ∃ summary ∈ report.languages, summary.culture = culture)
    (alone : locale.Alone left report culture) :
    ∃ existing, ((∀ place, ¬ tree.Misses (locale.languagePath culture) place) →
        locale.loadLanguage tree culture = .ok existing) ∧
      Stores left (locale.languagePath culture) culture (Items.merge existing template).items := by
  obtain ⟨summary, member, rfl⟩ := reported
  obtain ⟨cultures, listed, turns⟩ := turns_of_mergeAll merged member
  obtain ⟨-, -, nodup, -⟩ := mem_cultures listed
  obtain ⟨rfl, rfl⟩ := Prod.ext_iff.mp turns
  obtain ⟨-, grows, -⟩ := (carries_rooted locale template).mergeEach rooted cultures
  obtain ⟨now, middle, catalog, place, turn, ⟨spots, early, first⟩, others, late, second⟩ :=
    turn_of_reported rooted nodup member ((alone_of_grows grows _).mp alone)
  obtain ⟨stamp, found⟩ := turn.found
  refine ⟨catalog.items, fun seen => loadLanguage_eq_ok.mpr ⟨catalog, ?_, rfl⟩, catalog.header,
    turn.header, readText_of_elsewhere late found second⟩
  have untouched : ∀ goal, tree.Aims (locale.languagePath summary.culture) goal → ¬ spots goal := by
    intro goal aims
    rw [aims.unique (early.aims.mp turn.aims)]
    exact first
  by_cases missing : tree.find (locale.languagePath summary.culture) = .error .notFound
  · rcases Catalog.loadOrEmpty_eq_ok.mp turn.loaded with ⟨-, rfl⟩ | ⟨text, read, -⟩
    · exact Catalog.loadOrEmpty_of_missing missing
    · exact absurd read (early.readText_of_missing untouched missing seen text)
  · rw [← Catalog.loadOrEmpty_congr (early.read_eq rooted untouched missing)]
    exact turn.loaded

/-! ### Saving again -/

/-- What a save does that puts back what it loaded of a culture, where the file stores items. It writes
nothing exactly if the name of the culture brings in no fields and the items are read with the lines
that they have; items that stand on lines can be read, and do so exactly if they are lasting. -/
structure Resaves (locale : Locale) (culture : String) (items : Items) (tree : FileTree) : Prop where
  unchanged : ∀ {again}, locale.loadLanguage tree culture = .ok again →
    (locale.saveLanguage tree culture again = (.ok false, tree) ↔
      Catalog.strayFields culture = [] ∧ Catalog.body again = Catalog.body items)
  lasting : items.Keyed → (∀ item ∈ items.values, Catalog.LegibleItem item) →
    ∃ again, locale.loadLanguage tree culture = .ok again ∧
      (Catalog.body again = Catalog.body items ↔ ∀ item ∈ items.values, Catalog.LastingItem item)

theorem Stores.resaves (stores : Stores tree (locale.languagePath culture) culture items) :
    locale.Resaves culture items tree := by
  obtain ⟨header, tidy, read⟩ := stores
  constructor
  · intro again loaded
    obtain ⟨catalog, found, rfl⟩ := loadLanguage_eq_ok.mp loaded
    have parsed : Catalog.parse (Catalog.render ⟨Header.standard (some culture) header, items⟩) =
        .ok catalog := by
      rcases Catalog.loadOrEmpty_eq_ok.mp found with ⟨missing, -⟩ | ⟨text, held, parsed⟩
      · cases read.symm.trans missing
      · cases read.symm.trans held
        exact parsed
    have named : catalog.header = Catalog.rereadHeader (Header.standard (some culture) header) :=
      Catalog.header_of_parse_render (tidy.newline_standard (some culture)) parsed
    have text := Catalog.render_resaved_iff tidy culture items catalog.items
    rw [← named] at text
    rw [← text, saveLanguage, Catalog.save_eq_rewrite, Catalog.rewrite_of_ok found]
    -- The report of a save is what became of the file.
    have plain (outcome : Except StoreError Bool) : outcome.map (fun changed => changed) = outcome := by
      cases outcome <;> rfl
    rw [plain, Prod.eta, Catalog.saveText_eq_unchanged, read, Except.ok.injEq, eq_comm]
  · intro keyed legible
    have whole : (⟨Header.standard (some culture) header, items⟩ : Catalog).Legible :=
      ⟨keyed, tidy.newline, legible⟩
    refine ⟨_, loadLanguage_eq_ok.mpr ⟨_, Catalog.loadOrEmpty_eq_ok.mpr
      (.inr ⟨_, read, whole.parse_render⟩), rfl⟩, ?_⟩
    exact Catalog.body_rereadItems_iff keyed legible

/-- Items that settle: what is loaded of them in a culture whose name is on one line is saved without
writing. -/
theorem Resaves.of_lasting (resaves : locale.Resaves culture items tree) (clean : '\n' ∉ culture.toList)
    (keyed : items.Keyed) (legible : ∀ item ∈ items.values, Catalog.LegibleItem item)
    (lasting : ∀ item ∈ items.values, Catalog.LastingItem item) :
    ∃ again, locale.loadLanguage tree culture = .ok again ∧
      locale.saveLanguage tree culture again = (.ok false, tree) := by
  obtain ⟨again, loaded, same⟩ := resaves.lasting keyed legible
  exact ⟨again, loaded,
    (resaves.unchanged loaded).mpr ⟨Catalog.strayFields_of_clean clean, same.mpr lasting⟩⟩

/-- **Saving what was loaded of a culture**, whose file was saved or merged: nothing is written exactly
if the name of the culture brings in no fields and the items are read with the lines that they have. -/
theorem resaves_written (rooted : tree.Rooted) :
    (∀ {items changed left}, locale.saveLanguage tree culture items = (.ok changed, left) →
      locale.Resaves culture items left) ∧
    ∀ {configured template report left}, locale.mergeAll configured template tree = (report, left) →
      (∃ summary ∈ report.languages, summary.culture = culture) → locale.Alone left report culture →
        ∃ existing, ((∀ place, ¬ tree.Misses (locale.languagePath culture) place) →
            locale.loadLanguage tree culture = .ok existing) ∧
          locale.Resaves culture (Items.merge existing template).items left := by
  refine ⟨fun saved => (stores_of_saveLanguage rooted saved).resaves, fun merged reported alone => ?_⟩
  obtain ⟨existing, loaded, stores⟩ := stores_of_mergeAll rooted merged reported alone
  exact ⟨existing, loaded, stores.resaves⟩

/-- A catalog of an item that is not in the template. -/
def olderText : String := "msgid \"dog\"\nmsgstr \"chien\"\n"

/-- The item of the catalog. -/
def olderItems : Items :=
  SortedMap.empty.insert "dog" { Item.ofId "dog" with localized := some "chien" }

theorem resaves_written_olderText :
    let start := sampleTree "fr" olderText 0
    let merged := sample.mergeAll ["fr"] (sampleTemplate (some "cats")) start
    merged.1.languages = [⟨"fr", 1, 1, true⟩] ∧
      ∃ again, sample.loadLanguage merged.2 "fr" = .ok again ∧
        sample.saveLanguage merged.2 "fr" again = (.ok false, merged.2) := by
  intro start merged
  obtain ⟨reported, older⟩ : merged.1.languages = [⟨"fr", 1, 1, true⟩] ∧
      sample.loadLanguage start "fr" = .ok olderItems := by decide +kernel
  have rooted : start.Rooted := by decide +kernel
  have alone : sample.Alone merged.2 merged.1 "fr" := alone_of_single reported
  have found : start.resolve (sample.languagePath "fr") =
      .ok (.present ["locale", "fr", languageName] (.file (.text olderText) 0)) := by decide +kernel
  obtain ⟨existing, loaded, resaves⟩ := (resaves_written rooted).2 (Prod.eta merged).symm
    ⟨_, reported ▸ List.mem_singleton_self _, rfl⟩ alone
  cases (loaded (not_misses_of_resolve found)).symm.trans older
  have parsed : Catalog.parse olderText = .ok ⟨.empty, olderItems⟩ := by decide +kernel
  have writable : (sampleTemplate (some "cats")).Writable := by decide +kernel
  have legible :=
    Catalog.legible_mergedWith (Catalog.tidy_of_short parsed (by decide +kernel)) writable "fr"
  have lasting : ∀ item ∈ (Items.merge olderItems (sampleTemplate (some "cats"))).items.values,
      Catalog.LastingItem item := by decide +kernel
  exact ⟨reported, resaves.of_lasting (by decide) legible.keyed legible.items lasting⟩

/-- A template whose comment has a blank at its end. -/
def blankTemplate : Items :=
  SortedMap.empty.insert "Hello" { Item.ofId "Hello" with
    references := SortedMap.empty.insert ⟨"a.html", 1⟩ (), extracted := ["first "] }

/-- A comment with a blank at its end is loaded without it, so that the file changes when it is saved. -/
theorem saveLanguage_changes_blankTemplate :
    let merged := sample.mergeAll ["fr"] blankTemplate (sampleTree "fr" "" 0)
    merged.1 = ⟨[⟨"fr", 1, 0, true⟩], []⟩ ∧
      ∃ again, sample.loadLanguage merged.2 "fr" = .ok again ∧
        sample.saveLanguage merged.2 "fr" again ≠ (.ok false, merged.2) := by
  intro merged
  obtain ⟨report, older⟩ : merged.1 = ⟨[⟨"fr", 1, 0, true⟩], []⟩ ∧
      sample.loadLanguage (sampleTree "fr" "" 0) "fr" = .ok .empty := by decide +kernel
  have rooted : (sampleTree "fr" "" 0).Rooted := by decide +kernel
  have reported : merged.1.languages = [⟨"fr", 1, 0, true⟩] := by rw [report]
  have alone : sample.Alone merged.2 merged.1 "fr" := alone_of_single reported
  have found : (sampleTree "fr" "" 0).resolve (sample.languagePath "fr") =
      .ok (.present ["locale", "fr", languageName] (.file (.text "") 0)) := by decide +kernel
  obtain ⟨existing, loaded, stores⟩ := stores_of_mergeAll rooted (Prod.eta merged).symm
    ⟨_, reported ▸ List.mem_singleton_self _, rfl⟩ alone
  cases (loaded (not_misses_of_resolve found)).symm.trans older
  have writable : blankTemplate.Writable := by decide +kernel
  have legible := Catalog.legible_mergedWith Catalog.tidy_empty writable "fr"
  obtain ⟨again, read, same⟩ := stores.resaves.lasting legible.keyed legible.items
  have blank : ¬ ∀ item ∈ (Items.merge .empty blankTemplate).items.values, Catalog.LastingItem item := by
    decide +kernel
  exact ⟨report, again, read, fun kept => blank (same.mp ((stores.resaves.unchanged read).mp kept).2)⟩

end Locale

end Localization
