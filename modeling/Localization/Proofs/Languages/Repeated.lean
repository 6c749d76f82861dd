import Localization.Proofs.Languages

/-
**A merge that is repeated.**

A second merge with the same template finds the catalogs that the first one left. It reports each of
them again, without new and without obsolete items.

* `Finds` — a path leads to a file that was merged for a culture; `Finds.mergeEach`.
* `found_of_reported` — the file of every reported culture is found on its path afterwards.
* `mergeAll_repeated` — what the second merge reports, and when it leaves a file as it is.
-/

namespace Localization

open FileTree

namespace Locale

variable {locale : Locale} {template : Items} {tree after : FileTree} {culture other : String}
  {place : Place} {path : Path}

/-! ### Files that were merged -/

/-- A path leads to a file that has the catalog of a culture, merged with the template. -/
def Finds (template : Items) (culture : String) (tree : FileTree) (path : Path) (place : Place) : Prop :=
  ∃ catalog stamp, catalog.Tidy ∧
    tree.resolve path = .ok (.present place (.file (.text (mergedText culture template catalog)) stamp))

theorem Finds.aims (finds : Finds template culture tree path place) : tree.Aims path place := by
  obtain ⟨catalog, stamp, -, found⟩ := finds
  exact aims_of_resolve found

theorem Finds.of_holds {spots : Place → Prop} (grows : Grows spots tree after)
    (finds : Finds template other tree path place) (holds : Holds Catalog.Tidy template culture after place) :
    Finds template culture after path place := by
  obtain ⟨_, _, -, found⟩ := finds
  obtain ⟨catalog, stamp, tidy, there⟩ := holds
  exact ⟨catalog, stamp, tidy, grows.resolve found there⟩

/-- A text at a place that is no spot is found on its path as before. -/
theorem readText_of_elsewhere {spots : Place → Prop} (grows : Grows spots tree after)
    {text : String} {stamp : Nat}
    (found : tree.resolve path = .ok (.present place (.file (.text text) stamp)))
    (apart : ¬ spots place) : after.readText path = .ok text :=
  readText_of_resolve
    (grows.resolve found ((grows.elsewhere apart).mpr (leads_of_resolve found).get?.1))

/-- **What turns make of a merged file.** It stays as it is, or the last culture that it belongs to
has merged it. -/
theorem Finds.mergeEach (locale : Locale) (writable : template.Writable) (sound : tree.Sound)
    (finds : Finds template other tree path place) (cultures : List String) :
    let result := locale.mergeEach template tree cultures
    (¬ locale.Touched tree result.1 place ∧ Finds template other result.2 path place ∧
        result.2.readText path = tree.readText path) ∨
      ∃ summary ∈ result.1.languages, tree.Aims (locale.languagePath summary.culture) place ∧
        Finds template summary.culture result.2 path place := by
  obtain ⟨-, grows, held⟩ := mergeEach_sound locale writable sound cultures
  by_cases touched : locale.Touched tree (locale.mergeEach template tree cultures).1 place
  · obtain ⟨summary, member, aims, holds⟩ := held place touched
    exact .inr ⟨summary, member, aims, finds.of_holds grows holds⟩
  · obtain ⟨catalog, stamp, tidy, found⟩ := finds
    have there := (grows.elsewhere touched).mpr (leads_of_resolve found).get?.1
    refine .inl ⟨touched, ⟨catalog, stamp, tidy, grows.resolve found there⟩, ?_⟩
    rw [readText_of_resolve found]
    exact readText_of_elsewhere grows found touched

/-- **The file of a reported culture is found after the merge**, as one that was merged for a
reported culture. -/
theorem found_of_reported (writable : template.Writable) (sound : tree.Sound) {cultures : List String}
    {summary : LanguageSummary}
    (member : summary ∈ (locale.mergeEach template tree cultures).1.languages) :
    ∃ last ∈ (locale.mergeEach template tree cultures).1.languages, ∃ place,
      Finds template last.culture (locale.mergeEach template tree cultures).2
        (locale.languagePath summary.culture) place ∧
      Finds template last.culture (locale.mergeEach template tree cultures).2
        (locale.languagePath last.culture) place := by
  obtain ⟨place, content, stamp, aims, found⟩ := resolve_of_reported sound.rooted member
  obtain ⟨-, -, held⟩ := mergeEach_sound locale writable sound cultures
  obtain ⟨last, inside, reaches, catalog, now, tidy, there⟩ := held place ⟨summary, member, aims⟩
  obtain ⟨goal, other, later, again, own⟩ := resolve_of_reported sound.rooted inside
  have here : goal = place := again.unique reaches
  subst here
  cases (leads_of_resolve found).get?.1.symm.trans there
  cases (leads_of_resolve own).get?.1.symm.trans there
  exact ⟨last, inside, goal, ⟨catalog, _, tidy, found⟩, ⟨catalog, _, tidy, own⟩⟩

/-- **A culture whose file was merged is reported in its turn**, and its file changes in this turn
unless it was merged last for the same culture, whose name brings in no fields. -/
theorem reported_of_finds (writable : template.Writable) (sound : tree.Sound)
    (finds : Finds template other tree (locale.languagePath culture) place) :
    ∃ summary left, locale.mergeLanguage template tree culture = (.ok summary, left) ∧
      left.Sound ∧ Grows (· = place) tree left ∧
      Finds template culture left (locale.languagePath culture) place ∧
      summary.culture = culture ∧ summary.added = 0 ∧ summary.obsoleted = 0 ∧
      (summary.written = false ↔ culture = other ∧ Catalog.strayFields other = []) ∧
      (summary.written = false → left = tree) := by
  obtain ⟨catalog, stamp, tidy, found⟩ := finds
  obtain ⟨summary, left, merged, turn, added, obsoleted, written⟩ :=
    mergeLanguage_of_holds writable sound.rooted tidy found
  obtain ⟨own, there⟩ := turn.found
  exact ⟨summary, left, merged, turn.sound writable sound, turn.grows, ⟨_, own, turn.tidy sound, there⟩,
    turn.named, added, obsoleted, written, turn.kept⟩

/-- Files that were merged for different cultures have different texts. -/
theorem Finds.culture_eq (finds : Finds template culture tree path place)
    (again : Finds template other after path place)
    (same : after.readText path = tree.readText path) : other = culture := by
  obtain ⟨first, stamp, firstTidy, found⟩ := finds
  obtain ⟨second, later, secondTidy, there⟩ := again
  rw [readText_of_resolve found, readText_of_resolve there] at same
  exact Option.some.inj
    (Catalog.language_of_render_eq secondTidy.header firstTidy.header (Except.ok.inj same))

/-! ### The second merge -/

/-- No other culture that a merge reports has the file of a culture for its own. -/
def Alone (locale : Locale) (tree : FileTree) (report : MergeReport) (culture : String) : Prop :=
  ∀ summary ∈ report.languages, summary.culture ≠ culture →
    ¬ tree.Shares (locale.languagePath summary.culture) (locale.languagePath culture)

theorem alone_append {first second : List LanguageSummary} {failures : List (String × StoreError)}
    {summary : LanguageSummary} (named : summary.culture = culture) :
    locale.Alone tree ⟨first ++ summary :: second, failures⟩ culture ↔
      locale.Alone tree ⟨first, []⟩ culture ∧ locale.Alone tree ⟨second, []⟩ culture := by
  constructor
  · intro alone
    exact ⟨fun own member => alone own (List.mem_append_left _ member),
      fun own member => alone own (List.mem_append_right _ (List.mem_cons_of_mem summary member))⟩
  · rintro ⟨before, behind⟩ own member
    rcases List.mem_append.mp member with inside | inside
    · exact before own inside
    · rcases List.mem_cons.mp inside with rfl | later
      · exact fun differs => absurd named differs
      · exact behind own later

/-- The turns of other cultures leave a culture alone exactly if they do not write its file. -/
theorem alone_mergeEach (template : Items) {cultures : List String} (absent : culture ∉ cultures)
    (aims : tree.Aims (locale.languagePath culture) place) :
    locale.Alone tree ⟨(locale.mergeEach template tree cultures).1.languages, []⟩ culture ↔
      ¬ locale.Touched tree (locale.mergeEach template tree cultures).1 place := by
  constructor
  · rintro alone ⟨summary, member, reaches⟩
    have listed := (mem_report_mergeEach locale template tree cultures summary.culture).mpr
      (.inl ⟨summary, member, rfl⟩)
    exact alone summary member (fun same => absent (same ▸ listed)) ⟨place, reaches, aims⟩
  · rintro untouched summary member - ⟨goal, reaches, own⟩
    exact untouched ⟨summary, member, own.unique aims ▸ reaches⟩

/-- What the turns of other cultures make of the merged file of a culture. -/
theorem Finds.mergeEach_absent (writable : template.Writable) (sound : tree.Sound)
    (finds : Finds template other tree (locale.languagePath culture) place) {cultures : List String}
    (absent : culture ∉ cultures) :
    let result := locale.mergeEach template tree cultures
    ∃ last, Finds template last result.2 (locale.languagePath culture) place ∧
      ((last = other ∧ locale.Alone tree ⟨result.1.languages, []⟩ culture ∧
          result.2.readText (locale.languagePath culture) =
            tree.readText (locale.languagePath culture)) ∨
        (last ≠ culture ∧ ¬ locale.Alone tree ⟨result.1.languages, []⟩ culture)) := by
  have alone := alone_mergeEach template absent finds.aims
  rcases finds.mergeEach locale writable sound cultures with
    ⟨untouched, there, same⟩ | ⟨summary, member, aims, there⟩
  · exact ⟨other, there, .inl ⟨rfl, alone.mpr untouched, same⟩⟩
  · have listed := (mem_report_mergeEach locale template tree cultures summary.culture).mpr
      (.inl ⟨summary, member, rfl⟩)
    refine ⟨summary.culture, there, .inr ⟨fun same => absent (same ▸ listed), fun kept => ?_⟩⟩
    exact alone.mp kept ⟨summary, member, aims⟩

theorem alone_of_grows {spots : Place → Prop} (grows : Grows spots tree after) (report : MergeReport) :
    locale.Alone after report culture ↔ locale.Alone tree report culture := by
  unfold Alone
  simp only [grows.shares]

/-- **Turns in which a culture has one, where its file was merged before.** The culture is reported
without new and without obsolete items. Its file stays as it is exactly if it was merged last for
this culture, whose name brings in no fields, and belongs to no other one. -/
theorem mergeEach_repeated (writable : template.Writable) (sound : tree.Sound) {cultures : List String}
    (nodup : cultures.Nodup) (listed : culture ∈ cultures)
    (finds : Finds template other tree (locale.languagePath culture) place) :
    ∃ summary ∈ (locale.mergeEach template tree cultures).1.languages, summary.culture = culture ∧
      summary.added = 0 ∧ summary.obsoleted = 0 ∧
      (summary.written = false ∧
          (locale.mergeEach template tree cultures).2.readText (locale.languagePath culture) =
            tree.readText (locale.languagePath culture) ↔
        (other = culture ∧ Catalog.strayFields culture = []) ∧
          locale.Alone tree (locale.mergeEach template tree cultures).1 culture) := by
  obtain ⟨before, rest, rfl⟩ := List.append_of_mem listed
  obtain ⟨-, restNodup, distinct⟩ := List.nodup_append.mp nodup
  have notBefore : culture ∉ before := fun member =>
    distinct culture member culture List.mem_cons_self rfl
  have notLater : culture ∉ rest := (List.nodup_cons.mp restNodup).1
  obtain ⟨good, early, -⟩ := mergeEach_sound locale writable sound before
  obtain ⟨previous, there, first⟩ := finds.mergeEach_absent writable sound notBefore
  obtain ⟨summary, left, merged, leftSound, grows, found, named, added, obsoleted, written, kept⟩ :=
    reported_of_finds writable good there
  obtain ⟨final, ends, second⟩ := found.mergeEach_absent writable leftSound notLater
  have whole : locale.mergeEach template tree (before ++ culture :: rest) =
      (⟨(locale.mergeEach template tree before).1.languages ++
          summary :: (locale.mergeEach template left rest).1.languages,
        (locale.mergeEach template tree before).1.failures ++
          (locale.mergeEach template left rest).1.failures⟩,
        (locale.mergeEach template left rest).2) := by
    have parts := mergeEach_append locale template tree before (culture :: rest)
    dsimp only at parts
    rw [mergeEach_cons, merged] at parts
    exact parts
  rw [whole, alone_append named]
  rw [alone_of_grows grows, alone_of_grows early] at second
  refine ⟨summary, by simp, named, added, obsoleted, ?_⟩
  rcases first with ⟨rfl, firstAlone, firstSame⟩ | ⟨differs, firstShared⟩
  · rcases second with ⟨rfl, secondAlone, secondSame⟩ | ⟨differs, secondShared⟩
    · constructor
      · rintro ⟨unwritten, -⟩
        obtain ⟨same, clean⟩ := written.mp unwritten
        exact ⟨⟨same.symm, same ▸ clean⟩, firstAlone, secondAlone⟩
      · rintro ⟨⟨same, clean⟩, -⟩
        have unwritten := written.mpr ⟨same.symm, same ▸ clean⟩
        refine ⟨unwritten, ?_⟩
        rw [secondSame, kept unwritten, firstSame]
    · constructor
      · rintro ⟨unwritten, same⟩
        have own := (written.mp unwritten).1
        exact absurd ((finds.culture_eq ends same).trans own.symm) differs
      · rintro ⟨-, -, alone⟩
        exact absurd alone secondShared
  · constructor
    · rintro ⟨unwritten, -⟩
      exact absurd (written.mp unwritten).1.symm differs
    · rintro ⟨-, alone, -⟩
      exact absurd alone firstShared

/-- **A merge that is repeated with the same template reports every culture again**, without new and
without obsolete items, if the locale directory can still be listed. It leaves the file of a culture
as it is exactly if the name of the culture brings in no fields and no other culture has the same
file. -/
theorem mergeAll_repeated {configured : List String} {report again : MergeReport} {last : FileTree}
    (rooted : tree.Rooted) (fits : tree.Fits) (writable : template.Writable)
    (merged : locale.mergeAll configured template tree = (report, after))
    (done : ∃ summary ∈ report.languages, summary.culture = culture)
    (repeated : locale.mergeAll configured template after = (again, last)) :
    (IsFileName culture → ∃ names, locale.languages after = .ok names) ∧
    ∀ names, locale.languages after = .ok names →
      (∀ failure ∈ again.failures, failure.1 ≠ culture) ∧
      ∃ summary ∈ again.languages, summary.culture = culture ∧ summary.added = 0 ∧
        summary.obsoleted = 0 ∧
        (summary.written = false ∧
            last.readText (locale.languagePath culture) =
              after.readText (locale.languagePath culture) ↔
          Catalog.strayFields culture = [] ∧ locale.Alone after again culture) := by
  have sound : tree.Sound := ⟨rooted, fits.tidyTexts⟩
  obtain ⟨summary, member, rfl⟩ := done
  obtain ⟨cultures, listed, turns⟩ := turns_of_mergeAll merged member
  obtain ⟨rfl, rfl⟩ := Prod.ext_iff.mp turns
  obtain ⟨afterSound, grows, -⟩ := mergeEach_sound locale writable sound cultures
  obtain ⟨previous, inside, place, finds, own⟩ := found_of_reported writable sound member
  refine ⟨fun named => ?_, fun names known => ?_⟩
  · obtain ⟨_, _, -, found⟩ := finds
    exact exists_languages named found
  obtain ⟨others, next, nodup, members⟩ := mem_cultures_of_grows grows listed known
  rw [mergeAll_of_cultures next] at repeated
  obtain ⟨rfl, rfl⟩ := Prod.ext_iff.mp repeated
  have due {own : LanguageSummary}
      (member : own ∈ (locale.mergeEach template tree cultures).1.languages) : own.culture ∈ others :=
    members own.culture ((mem_report_mergeEach locale template tree cultures own.culture).mpr
      (.inl ⟨own, member, rfl⟩))
  obtain ⟨result, there, same, added, obsoleted, unchanged⟩ :=
    mergeEach_repeated writable afterSound nodup (due member) finds
  have failed := not_failed_of_merged nodup there
  rw [same] at failed
  refine ⟨failed, result, there, same, added, obsoleted, unchanged.trans ⟨?_, ?_⟩⟩
  · rintro ⟨⟨-, clean⟩, alone⟩
    exact ⟨clean, alone⟩
  · rintro ⟨clean, alone⟩
    refine ⟨⟨Decidable.byContradiction fun differs => ?_, clean⟩, alone⟩
    -- The culture that merged the file last in the first merge has it for its own in the second.
    obtain ⟨other, listed, name, -⟩ := mergeEach_repeated writable afterSound nodup (due inside) own
    exact alone other listed (name ▸ differs) ⟨place, name ▸ own.aims, finds.aims⟩

/-- A catalog with fields, comments and texts that a merge does not write as they are. -/
def unusualText : String :=
  "#  hand \nmsgid \"\"\nmsgstr \"Note: 1\\n\"\n\n#. a \nmsgid \"dog\"\nmsgstr[1] \"chiens\"\n"

/-- However unusual a catalog is, a repeated merge leaves it as it is. -/
theorem mergeAll_repeated_unusualText :
    let first := sample.mergeAll ["fr"] (sampleTemplate none) (sampleTree "fr" unusualText 0)
    let second := sample.mergeAll ["fr"] (sampleTemplate none) first.2
    first.1.languages = [⟨"fr", 1, 1, true⟩] ∧
      ∃ summary ∈ second.1.languages, summary.culture = "fr" ∧ summary.written = false ∧
        second.2.readText (sample.languagePath "fr") = first.2.readText (sample.languagePath "fr") := by
  intro first second
  obtain ⟨reported, listed⟩ : first.1.languages = [⟨"fr", 1, 1, true⟩] ∧
      sample.cultures first.2 ["fr"] = .ok ["fr"] := by decide +kernel
  have alone : sample.Alone first.2 second.1 "fr" := by
    intro summary member differs
    rw [show second = _ from mergeAll_of_cultures listed (sampleTemplate none)] at member
    have known := (mem_report_mergeEach sample _ first.2 ["fr"] _).mpr (.inl ⟨summary, member, rfl⟩)
    exact absurd (List.mem_singleton.mp known) differs
  have rooted : (sampleTree "fr" unusualText 0).Rooted := by decide +kernel
  have fits : (sampleTree "fr" unusualText 0).Fits := by decide +kernel
  have writable : (sampleTemplate none).Writable := by decide +kernel
  obtain ⟨listable, again⟩ :=
    mergeAll_repeated rooted fits writable (Prod.eta first).symm
      ⟨_, reported ▸ List.mem_singleton_self _, rfl⟩ (Prod.eta second).symm
  obtain ⟨names, known⟩ := listable (by constructor <;> decide)
  obtain ⟨-, summary, member, named, -, -, kept⟩ := again names known
  exact ⟨reported, summary, member, named, kept.mpr ⟨Catalog.strayFields_of_clean (by decide), alone⟩⟩

/-- The name of a culture that brings in a field. -/
def strayName : String := "fr\nNote: x"

/-- Every merge adds the field that the culture's name brings in, so that the catalog changes each
time. -/
theorem mergeAll_changes_strayName :
    let first := sample.mergeAll [] (sampleTemplate none) (sampleTree strayName "" 0)
    let second := sample.mergeAll [] (sampleTemplate none) first.2
    first.1 = ⟨[⟨strayName, 1, 0, true⟩], []⟩ ∧ second.1 = ⟨[⟨strayName, 0, 0, true⟩], []⟩ := by
  let after := sampleTree strayName (mergedText strayName (sampleTemplate none) .empty) 1
  have first : sample.mergeAll [] (sampleTemplate none) (sampleTree strayName "" 0) =
      (⟨[⟨strayName, 1, 0, true⟩], []⟩, after) := by decide +kernel
  have listed : sample.cultures after [] = .ok [strayName] := by decide +kernel
  have found : after.resolve (sample.languagePath strayName) =
      .ok (.present ["locale", strayName, languageName]
        (.file (.text (mergedText strayName (sampleTemplate none) .empty)) 1)) := by decide +kernel
  have rooted : after.Rooted := by decide +kernel
  have writable : (sampleTemplate none).Writable := by decide +kernel
  have stray : Catalog.strayFields strayName ≠ [] := by decide +kernel
  obtain ⟨summary, left, merged, turn, added, obsoleted, kept⟩ :=
    mergeLanguage_of_holds writable rooted Catalog.tidy_empty found
  have written : summary.written = true :=
    Bool.not_eq_false _ ▸ fun unwritten => stray (kept.mp unwritten).2
  rw [first]
  refine ⟨rfl, ?_⟩
  rw [mergeAll_of_cultures listed, mergeEach_cons, merged]
  obtain ⟨culture, newItems, oldItems, changed⟩ := summary
  cases added
  cases obsoleted
  cases written
  cases turn.named
  rfl

end Locale

end Localization
