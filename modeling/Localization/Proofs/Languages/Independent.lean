import Localization.Proofs.FileTree.Readings
import Localization.Proofs.Languages

/-
**Languages are merged independently of each other.**

What a merge makes of a culture goes by the file of this culture alone, unless two cultures have one
file or a path misses a file until another culture has made the missing directory.

* `reportOf`, `resultOf` — what is reported of a culture, and what is left in its file, going by it.
* `Separate` — no two cultures have one file, and no path misses a file.
* `WritesSucceed` — what is to be written when the turn of a culture comes can be written.
* `read_turn`, `outcome_turn` — the turn of a culture finds its file as it was at first.
* `reports_mergeEach`, `read_mergeEach` — what all turns report, and what they leave in the files.
* `accounts_mergeEach` — the report has every culture once, in order.
* `mergeAll_independent` — the merge of all cultures, against that of each one alone;
  `mergeAll_dependent_linkedTree`, `mergeAll_dependent_detour` — where cultures are not separate.
-/

namespace Localization

open FileTree

namespace Catalog

variable {tree other : FileTree} {path : Path} {text : String} {catalog : Catalog}

/-- The catalog in a file goes by what is read on its path. -/
theorem loadOrEmpty_congr (same : other.read path = tree.read path) :
    loadOrEmpty other path = loadOrEmpty tree path := by
  unfold loadOrEmpty load?
  rw [readText_congr same]

/-- There is no catalog where nothing is found. -/
theorem loadOrEmpty_of_missing (missing : tree.find path = .error .notFound) :
    loadOrEmpty tree path = .ok .empty := by
  refine loadOrEmpty_eq_ok.mpr (.inl ⟨?_, rfl⟩)
  rw [readText, read_of_missing missing]

/-- Where a text can be stored and a catalog is read, saving says whether the text is new. -/
theorem saveText_of_store (loaded : loadOrEmpty tree path = .ok catalog)
    (stored : (tree.store path (.text text)).1 = .ok ()) :
    (saveText tree path text).1 = .ok (decide (tree.readText path ≠ .ok text)) := by
  have replaced : (saveText.replace tree path text).1 = .ok true := by
    unfold saveText.replace
    dsimp only
    rw [stored]
    rfl
  unfold saveText
  rcases loadOrEmpty_eq_ok.mp loaded with ⟨missing, -⟩ | ⟨current, read, -⟩
  · rw [missing]
    exact replaced
  · rw [read]
    dsimp only
    by_cases same : current = text
    · simp [same]
    · rw [if_neg same, replaced]
      simp [same]

end Catalog

namespace Locale

variable {locale : Locale} {template : Items} {tree other left : FileTree}
  {culture : String} {cultures before rest : List String}

/-! ### What is reported of a culture -/

/-- What a merge reports of a culture, going by the file on the culture's path. -/
def reportOf (locale : Locale) (template : Items) (tree : FileTree) (culture : String) :
    Except StoreError LanguageSummary :=
  (Catalog.loadOrEmpty tree (locale.languagePath culture)).map fun catalog =>
    let merged := Items.merge catalog.items template
    ⟨culture, merged.added.length, merged.obsoleted.length,
      decide (tree.readText (locale.languagePath culture) ≠ .ok (mergedText culture template catalog))⟩

/-- What a merge leaves in the file on the culture's path. -/
def resultOf (locale : Locale) (template : Items) (tree : FileTree) (culture : String) :
    Except FileError Content :=
  match Catalog.loadOrEmpty tree (locale.languagePath culture) with
  | .ok catalog => .ok (.text (mergedText culture template catalog))
  | .error _ => tree.read (locale.languagePath culture)

theorem reportOf_congr (same : other.read (locale.languagePath culture) =
    tree.read (locale.languagePath culture)) :
    locale.reportOf template other culture = locale.reportOf template tree culture := by
  unfold reportOf
  rw [Catalog.loadOrEmpty_congr same, readText_congr same]

theorem resultOf_congr (same : other.read (locale.languagePath culture) =
    tree.read (locale.languagePath culture)) :
    locale.resultOf template other culture = locale.resultOf template tree culture := by
  unfold resultOf
  rw [Catalog.loadOrEmpty_congr same, same]

theorem reportOf_eq_error {error : StoreError} :
    locale.reportOf template tree culture = .error error ↔
      Catalog.loadOrEmpty tree (locale.languagePath culture) = .error error := by
  unfold reportOf
  cases Catalog.loadOrEmpty tree (locale.languagePath culture) <;> simp [Except.map]

/-- **A turn whose text can be stored reports what the file of the culture says.** -/
theorem outcome_mergeLanguage
    (storable : ∀ catalog, Catalog.loadOrEmpty tree (locale.languagePath culture) = .ok catalog →
      (tree.store (locale.languagePath culture) (.text (mergedText culture template catalog))).1 =
        .ok ()) :
    (locale.mergeLanguage template tree culture).1 = locale.reportOf template tree culture := by
  rw [mergeLanguage_eq, reportOf]
  cases loaded : Catalog.loadOrEmpty tree (locale.languagePath culture) with
  | error error =>
    rw [Catalog.rewrite_of_error loaded]
    rfl
  | ok catalog =>
    have saved := Catalog.saveText_of_store loaded (storable catalog loaded)
    rw [Catalog.rewrite_of_ok loaded]
    dsimp only
    rw [saved]
    rfl

/-- **A turn whose text can be stored leaves in the file of the culture what this says**, and the
file, or what is in the way of it, is found afterwards. -/
theorem read_mergeLanguage (rooted : tree.Rooted)
    (storable : ∀ catalog, Catalog.loadOrEmpty tree (locale.languagePath culture) = .ok catalog →
      (tree.store (locale.languagePath culture) (.text (mergedText culture template catalog))).1 =
        .ok ()) :
    let left := (locale.mergeLanguage template tree culture).2
    (∃ spots, Grows spots tree left) ∧
      left.find (locale.languagePath culture) ≠ .error .notFound ∧
      left.read (locale.languagePath culture) = locale.resultOf template tree culture := by
  have outcome := outcome_mergeLanguage storable
  cases merged : locale.mergeLanguage template tree culture with
  | mk result left =>
    rw [merged] at outcome
    cases result with
    | ok summary =>
      obtain ⟨catalog, place, turn⟩ := turn_of_mergeLanguage rooted merged
      obtain ⟨stamp, resolved⟩ := turn.found
      have found := find_eq_ok.mpr resolved
      refine ⟨⟨_, turn.grows⟩, ?_, ?_⟩
      · rw [found]
        nofun
      · rw [resultOf, turn.loaded, FileTree.read, found]
    | error error =>
      have failed := reportOf_eq_error.mp outcome.symm
      rw [mergeLanguage_eq, Catalog.rewrite_of_error failed] at merged
      cases merged
      refine ⟨⟨fun _ => False, Grows.refl _ _⟩, fun missing => ?_, ?_⟩
      · rw [Catalog.loadOrEmpty_of_missing missing] at failed
        cases failed
      · rw [resultOf, failed]

/-! ### Cultures with files of their own -/

/-- No two cultures have one file, and no path misses a file. -/
structure Separate (locale : Locale) (tree : FileTree) (cultures : List String) : Prop where
  apart : cultures.Pairwise fun first second =>
    ¬ tree.Shares (locale.languagePath first) (locale.languagePath second)
  seen : ∀ culture ∈ cultures, ∀ place, ¬ tree.Misses (locale.languagePath culture) place

/-- When the turn of a culture comes whose catalog can be read, the merged text can be stored. -/
def WritesSucceed (locale : Locale) (template : Items) (tree : FileTree) (cultures : List String) : Prop :=
  ∀ before culture rest, cultures = before ++ culture :: rest → ∀ catalog,
    Catalog.loadOrEmpty tree (locale.languagePath culture) = .ok catalog →
      ((locale.mergeEach template tree before).2.store (locale.languagePath culture)
        (.text (mergedText culture template catalog))).1 = .ok ()

/-- The files of turns do not stand where the path of another culture aims. -/
theorem untouched_mergeEach
    (apart : ∀ other ∈ before, ¬ tree.Shares (locale.languagePath other) (locale.languagePath culture))
    (place : Place) (aims : tree.Aims (locale.languagePath culture) place) :
    ¬ locale.Touched tree (locale.mergeEach template tree before).1 place := by
  rintro ⟨summary, member, again⟩
  have listed := (mem_report_mergeEach locale template tree before summary.culture).mpr
    (.inl ⟨summary, member, rfl⟩)
  exact apart _ listed ⟨place, again, aims⟩

theorem Separate.earlier (separate : locale.Separate tree cultures)
    (split : cultures = before ++ culture :: rest) :
    ∀ other ∈ before, ¬ tree.Shares (locale.languagePath other) (locale.languagePath culture) := by
  have apart := separate.apart
  rw [split] at apart
  exact fun other member => (List.pairwise_append.mp apart).2.2 other member culture List.mem_cons_self

theorem Separate.later (separate : locale.Separate tree cultures)
    (split : cultures = before ++ culture :: rest) :
    ∀ other ∈ rest, ¬ tree.Shares (locale.languagePath other) (locale.languagePath culture) := by
  have apart := separate.apart
  rw [split] at apart
  rintro other member ⟨place, first, second⟩
  exact (List.pairwise_cons.mp (List.pairwise_append.mp apart).2.1).1 other member ⟨place, second, first⟩

theorem Separate.member (split : cultures = before ++ culture :: rest) : culture ∈ cultures := by
  rw [split]
  exact List.mem_append_right before List.mem_cons_self

/-- **The turn of a culture finds its file as it was at first.** -/
theorem read_turn (rooted : tree.Rooted) (separate : locale.Separate tree cultures)
    (writes : locale.WritesSucceed template tree cultures)
    (split : cultures = before ++ culture :: rest) :
    (locale.mergeEach template tree before).2.read (locale.languagePath culture) =
      tree.read (locale.languagePath culture) := by
  obtain ⟨-, grows, -⟩ := (carries_rooted locale template).mergeEach rooted before
  refine grows.read_eq_of_store rooted (untouched_mergeEach (separate.earlier split))
    (separate.seen culture (Separate.member split)) fun missing => ?_
  exact ⟨_, writes before culture rest split _ (Catalog.loadOrEmpty_of_missing missing)⟩

theorem outcome_turn (rooted : tree.Rooted) (separate : locale.Separate tree cultures)
    (writes : locale.WritesSucceed template tree cultures)
    (split : cultures = before ++ culture :: rest) :
    (locale.mergeLanguage template (locale.mergeEach template tree before).2 culture).1 =
      locale.reportOf template tree culture := by
  have same := read_turn rooted separate writes split
  rw [← reportOf_congr same]
  refine outcome_mergeLanguage fun catalog loaded => ?_
  rw [Catalog.loadOrEmpty_congr same] at loaded
  exact writes before culture rest split catalog loaded

/-! ### All cultures -/

/-- What is reported of cultures, each going by its file. -/
def reports (locale : Locale) (template : Items) (tree : FileTree) (cultures : List String) :
    MergeReport :=
  cultures.foldr (fun culture report => report.add culture (locale.reportOf template tree culture)) .empty

theorem reports_behind (before : List String) (rooted : tree.Rooted)
    (separate : locale.Separate tree cultures) (writes : locale.WritesSucceed template tree cultures)
    (split : cultures = before ++ rest) :
    (locale.mergeEach template (locale.mergeEach template tree before).2 rest).1 =
      locale.reports template tree rest := by
  induction rest generalizing before with
  | nil => rfl
  | cons culture others ih =>
    have further : (locale.mergeEach template tree (before ++ [culture])).2 =
        (locale.mergeLanguage template (locale.mergeEach template tree before).2 culture).2 := by
      rw [mergeEach_append]
      rfl
    rw [mergeEach_cons, outcome_turn rooted separate writes split, ← further,
      ih (before ++ [culture]) (split.trans (List.append_cons before culture others))]
    rfl

/-- **A merge reports of every culture what its file says.** -/
theorem reports_mergeEach (rooted : tree.Rooted) (separate : locale.Separate tree cultures)
    (writes : locale.WritesSucceed template tree cultures) :
    (locale.mergeEach template tree cultures).1 = locale.reports template tree cultures :=
  reports_behind [] rooted separate writes rfl

/-- Later turns of other cultures leave what is read on a path. -/
theorem read_mergeEach_of_apart (rooted : tree.Rooted)
    (apart : ∀ other ∈ rest, ¬ tree.Shares (locale.languagePath other) (locale.languagePath culture))
    (found : tree.find (locale.languagePath culture) ≠ .error .notFound) :
    (locale.mergeEach template tree rest).2.read (locale.languagePath culture) =
      tree.read (locale.languagePath culture) := by
  obtain ⟨-, grows, -⟩ := (carries_rooted locale template).mergeEach rooted rest
  exact grows.read_eq rooted (untouched_mergeEach apart) found

/-- **A merge leaves in the file of every culture what the file says.** -/
theorem read_mergeEach (rooted : tree.Rooted) (separate : locale.Separate tree cultures)
    (writes : locale.WritesSucceed template tree cultures)
    (split : cultures = before ++ culture :: rest) :
    (locale.mergeEach template tree cultures).2.read (locale.languagePath culture) =
      locale.resultOf template tree culture := by
  have whole : (locale.mergeEach template tree cultures).2 =
      (locale.mergeEach template
        (locale.mergeLanguage template (locale.mergeEach template tree before).2 culture).2 rest).2 := by
    rw [split, mergeEach_append, mergeEach_cons]
  -- The turns before leave the file for this one, and the turns after it leave it alone.
  obtain ⟨nowRooted, early, -⟩ := (carries_rooted locale template).mergeEach rooted before
  have same := read_turn rooted separate writes split
  have storable := writes before culture rest split
  rw [whole, ← resultOf_congr same]
  obtain ⟨⟨spots, turn⟩, found, left⟩ := read_mergeLanguage nowRooted fun catalog loaded =>
    storable catalog (Catalog.loadOrEmpty_congr same ▸ loaded)
  rw [← left]
  refine read_mergeEach_of_apart (turn.rooted nowRooted) (fun other member shares => ?_) found
  exact separate.later split other member (early.shares.mp (turn.shares.mp shares))

/-! ### Accounts -/

/-- A report accounts for every culture once, in the order of the cultures. -/
structure Accounts (report : MergeReport) (cultures : List String) : Prop where
  languages : (report.languages.map (·.culture)).Sublist cultures
  failures : (report.failures.map (·.1)).Sublist cultures
  once : ∀ culture ∈ cultures,
    culture ∈ report.languages.map (·.culture) ↔ culture ∉ report.failures.map (·.1)

/-- The lists of a report are in the order of the turns. -/
theorem sublist_mergeEach (locale : Locale) (template : Items) (tree : FileTree) (cultures : List String) :
    ((locale.mergeEach template tree cultures).1.languages.map (·.culture)).Sublist cultures ∧
      ((locale.mergeEach template tree cultures).1.failures.map (·.1)).Sublist cultures := by
  induction cultures generalizing tree with
  | nil => exact ⟨.slnil, .slnil⟩
  | cons culture rest ih =>
    obtain ⟨languages, failures⟩ := ih (locale.mergeLanguage template tree culture).2
    rw [mergeEach_cons]
    cases merged : locale.mergeLanguage template tree culture with
    | mk outcome left =>
      rw [merged] at languages failures
      cases outcome with
      | error error => exact ⟨languages.cons culture, failures.cons_cons culture⟩
      | ok summary =>
        obtain rfl := culture_of_mergeLanguage merged
        exact ⟨languages.cons_cons summary.culture, failures.cons summary.culture⟩

/-- **A merge accounts for every culture.** -/
theorem accounts_mergeEach (locale : Locale) (template : Items) (tree : FileTree)
    (nodup : cultures.Nodup) : Accounts (locale.mergeEach template tree cultures).1 cultures where
  languages := (sublist_mergeEach locale template tree cultures).1
  failures := (sublist_mergeEach locale template tree cultures).2
  once culture member := by
    simp only [List.mem_map]
    constructor
    · rintro ⟨summary, reported, rfl⟩ ⟨failure, failed, same⟩
      exact not_failed_of_merged nodup reported failure failed same
    · intro spared
      exact ((mem_report_mergeEach locale template tree cultures culture).mp member).resolve_right spared

/-! ### What is reported of one culture -/

/-- What a report says of a culture. -/
def reportedOf (report : MergeReport) (culture : String) : MergeReport :=
  ⟨report.languages.filter (·.culture = culture), report.failures.filter (·.1 = culture)⟩

theorem culture_of_reportOf {summary : LanguageSummary}
    (reported : locale.reportOf template tree culture = .ok summary) : summary.culture = culture := by
  unfold reportOf at reported
  cases loaded : Catalog.loadOrEmpty tree (locale.languagePath culture) with
  | error error =>
    rw [loaded] at reported
    cases reported
  | ok catalog =>
    rw [loaded] at reported
    cases reported
    rfl

theorem reportedOf_add (report : MergeReport) (culture other : String) :
    reportedOf (report.add culture (locale.reportOf template tree culture)) other =
      if culture = other then (reportedOf report other).add culture (locale.reportOf template tree culture)
      else reportedOf report other := by
  cases reported : locale.reportOf template tree culture with
  | error error => by_cases same : culture = other <;> simp [MergeReport.add, reportedOf, same]
  | ok summary =>
    have named := culture_of_reportOf reported
    by_cases same : culture = other <;> simp [MergeReport.add, reportedOf, named, same]

/-- Nothing is reported of a culture that has no turn. -/
theorem reportedOf_reports_of_not_mem (absent : culture ∉ cultures) :
    reportedOf (locale.reports template tree cultures) culture = .empty := by
  induction cultures with
  | nil => rfl
  | cons first rest ih =>
    obtain ⟨other, later⟩ := List.ne_and_not_mem_of_not_mem_cons absent
    rw [reports, List.foldr_cons, reportedOf_add, if_neg (Ne.symm other)]
    exact ih later

/-- Of a culture that has one turn its own report is reported. -/
theorem reportedOf_reports (nodup : cultures.Nodup) (member : culture ∈ cultures) :
    reportedOf (locale.reports template tree cultures) culture =
      MergeReport.empty.add culture (locale.reportOf template tree culture) := by
  induction cultures with
  | nil => cases member
  | cons first rest ih =>
    obtain ⟨fresh, others⟩ := List.nodup_cons.mp nodup
    rw [reports, List.foldr_cons, reportedOf_add]
    by_cases same : first = culture
    · subst same
      rw [if_pos rfl]
      exact congrArg (MergeReport.add first _ ·) (reportedOf_reports_of_not_mem fresh)
    · rw [if_neg same]
      exact ih others ((List.mem_cons.mp member).resolve_left (Ne.symm same))

/-- A culture is among the failures if a failure is reported of it. -/
theorem mem_failures_iff (report : MergeReport) (culture : String) :
    culture ∈ report.failures.map (·.1) ↔ (reportedOf report culture).failures ≠ [] := by
  unfold reportedOf
  simp

/-- The report of a culture is the error with which its catalog is read. -/
theorem failed_iff (template : Items) {error : StoreError} :
    locale.reportOf template tree culture = .error error ↔
      locale.loadLanguage tree culture = .error error := by
  rw [reportOf_eq_error, loadLanguage_eq]
  cases Catalog.loadOrEmpty tree (locale.languagePath culture) <;> simp [Except.map]

/-! ### Merging one culture alone -/

/-- A merge of one culture reports what its file says, and leaves this in the file. -/
theorem mergeEach_singleton (rooted : tree.Rooted) (writes : locale.WritesSucceed template tree [culture]) :
    (locale.mergeEach template tree [culture]).1 =
        MergeReport.empty.add culture (locale.reportOf template tree culture) ∧
      (locale.mergeEach template tree [culture]).2.read (locale.languagePath culture) =
        locale.resultOf template tree culture := by
  have storable := writes [] culture [] rfl
  rw [mergeEach_cons, outcome_mergeLanguage storable]
  exact ⟨rfl, (read_mergeLanguage rooted storable).2.2⟩

/-! ### The merge of all cultures -/

/-- The locale directory is a directory, or there is none. -/
def HasBase (locale : Locale) (tree : FileTree) : Prop :=
  tree.find locale.directory = .error .notFound ∨
    ∃ place, tree.find locale.directory = .ok (place, .directory)

/-- **The cultures of a merge are in order**, those that have a catalog and those that shall get one. -/
theorem cultures_of_base (base : locale.HasBase tree) (configured : List String) :
    ∃ names cultures, locale.languages tree = .ok names ∧ locale.cultures tree configured = .ok cultures ∧
      cultures.Pairwise (· < ·) ∧
      ∀ culture, culture ∈ cultures ↔ culture ∈ names ∨ culture ∈ configured := by
  obtain ⟨names, languages⟩ : ∃ names, locale.languages tree = .ok names := by
    unfold languages FileTree.list
    rcases base with missing | ⟨place, inside⟩
    · rw [missing]
      exact ⟨_, rfl⟩
    · rw [inside]
      exact ⟨_, rfl⟩
  have listed : locale.cultures tree configured =
      .ok (SortedSet.ofList (names ++ configured)).keys := by
    rw [cultures, languages]
    rfl
  obtain ⟨known, same, -, members⟩ := mem_cultures listed
  cases languages.symm.trans same
  refine ⟨names, _, languages, listed, ?_, members⟩
  exact List.pairwise_map.mpr (SortedSet.ofList (names ++ configured)).sorted

/-- What cultures with files of their own get from a merge of all of them: a failure where the own
file cannot be read, and what each of them gets from a merge of it alone. -/
structure Independent (locale : Locale) (template : Items) (tree : FileTree) (cultures : List String)
    (report : MergeReport) (left : FileTree) : Prop where
  failures : ∀ culture ∈ cultures, culture ∈ report.failures.map (·.1) ↔
    ∃ error, locale.loadLanguage tree culture = .error error
  kept : ∀ culture ∈ report.failures.map (·.1),
    left.read (locale.languagePath culture) = tree.read (locale.languagePath culture)
  alone : ∀ culture ∈ cultures, ∀ (alone : FileTree) (wanted : List String), alone.Rooted →
    locale.cultures alone wanted = .ok [culture] →
    alone.read (locale.languagePath culture) = tree.read (locale.languagePath culture) →
    locale.WritesSucceed template alone [culture] →
    let solo := locale.mergeAll wanted template alone
    reportedOf report culture = solo.1 ∧
      left.read (locale.languagePath culture) = solo.2.read (locale.languagePath culture)

/-- **Cultures with files of their own are merged independently.** -/
theorem independent_mergeEach (rooted : tree.Rooted) (nodup : cultures.Nodup)
    (separate : locale.Separate tree cultures) (writes : locale.WritesSucceed template tree cultures) :
    let result := locale.mergeEach template tree cultures
    locale.Independent template tree cultures result.1 result.2 := by
  have reported (culture : String) (member : culture ∈ cultures) :
      reportedOf (locale.reports template tree cultures) culture =
        MergeReport.empty.add culture (locale.reportOf template tree culture) :=
    reportedOf_reports nodup member
  have result (culture : String) (member : culture ∈ cultures) :
      (locale.mergeEach template tree cultures).2.read (locale.languagePath culture) =
        locale.resultOf template tree culture := by
    obtain ⟨before, rest, split⟩ := List.append_of_mem member
    exact read_mergeEach rooted separate writes split
  have failures (culture : String) (member : culture ∈ cultures) :
      culture ∈ (locale.mergeEach template tree cultures).1.failures.map (·.1) ↔
        ∃ error, locale.loadLanguage tree culture = .error error := by
    rw [reports_mergeEach rooted separate writes, mem_failures_iff, reported culture member]
    simp only [← failed_iff template]
    cases locale.reportOf template tree culture <;> simp [MergeReport.add, MergeReport.empty]
  refine ⟨failures, fun culture failed => ?_, fun culture member alone wanted good own same others => ?_⟩
  · have member : culture ∈ cultures :=
      ((sublist_mergeEach locale template tree cultures).2).subset failed
    obtain ⟨error, unread⟩ := (failures culture member).mp failed
    rw [result culture member, resultOf,
      reportOf_eq_error.mp ((failed_iff template).mpr unread)]
  · obtain ⟨report, left⟩ := mergeEach_singleton good others
    rw [mergeAll_of_cultures own]
    dsimp only
    rw [reports_mergeEach rooted separate writes, reported culture member, report,
      result culture member, left, reportOf_congr same, resultOf_congr same]
    exact ⟨rfl, rfl⟩

/-- **Languages are merged independently of each other**, if the locale directory is a directory or
missing. A merge accounts for every culture, in order, and changes no files but those of the cultures
it reports as merged. If what is to be written can be written, no two cultures have one file and no
path misses a file, it makes of each culture what it makes of this culture alone. -/
theorem mergeAll_independent (locale : Locale) (configured : List String) (template : Items)
    (tree : FileTree) (rooted : tree.Rooted) (base : locale.HasBase tree) :
    ∃ names cultures, locale.languages tree = .ok names ∧ locale.cultures tree configured = .ok cultures ∧
      cultures.Pairwise (· < ·) ∧
      (∀ culture, culture ∈ cultures ↔ culture ∈ names ∨ culture ∈ configured) ∧
      let result := locale.mergeAll configured template tree
      Accounts result.1 cultures ∧ Grows (locale.Touched tree result.1) tree result.2 ∧
        (locale.Separate tree cultures → locale.WritesSucceed template tree cultures →
          locale.Independent template tree cultures result.1 result.2) := by
  obtain ⟨names, cultures, languages, listed, sorted, members⟩ := cultures_of_base base configured
  obtain ⟨-, -, nodup, -⟩ := mem_cultures listed
  refine ⟨names, cultures, languages, listed, sorted, members, ?_⟩
  rw [mergeAll_of_cultures listed]
  exact ⟨accounts_mergeEach locale template tree nodup,
    ((carries_rooted locale template).mergeEach rooted cultures).2.1,
    independent_mergeEach rooted nodup⟩

/-- A locale directory with a catalog that cannot be read, and with a directory for a catalog. -/
def brokenTree : FileTree :=
  ⟨.ofList [(["locale"], .directory), (["locale", "de"], .directory),
    (["locale", "de", languageName], .file (.text "broken") 0), (["locale", "fr"], .directory)], [], 1⟩

/-- The culture whose catalog cannot be read does not keep the other one from what it gets alone. -/
theorem mergeAll_independent_brokenTree :
    let result := sample.mergeAll ["fr"] (sampleTemplate none) brokenTree
    sample.cultures brokenTree ["fr"] = .ok ["de", "fr"] ∧ Accounts result.1 ["de", "fr"] ∧
      sample.Independent (sampleTemplate none) brokenTree ["de", "fr"] result.1 result.2 := by
  have rooted : brokenTree.Rooted := by decide +kernel
  have base : sample.HasBase brokenTree := .inr ⟨["locale"], by decide +kernel⟩
  obtain ⟨-, cultures, -, listed, -, -, accounts, -, independent⟩ :=
    mergeAll_independent sample ["fr"] (sampleTemplate none) brokenTree rooted base
  have named : sample.cultures brokenTree ["fr"] = .ok ["de", "fr"] := by decide +kernel
  cases named.symm.trans listed
  have broken : brokenTree.resolve (sample.languagePath "de") =
      .ok (.present ["locale", "de", languageName] (.file (.text "broken") 0)) := by decide +kernel
  have fresh : brokenTree.resolve (sample.languagePath "fr") =
      .ok (.absent ["locale", "fr", languageName]) := by decide +kernel
  refine ⟨named, accounts, independent ⟨?_, ?_⟩ ?_⟩
  · simp only [List.pairwise_cons, List.mem_singleton, forall_eq, List.not_mem_nil, false_imp_iff,
      implies_true, List.Pairwise.nil, and_true]
    exact not_shares_of_resolve broken fresh (by decide +kernel)
  · simp only [List.mem_cons, List.not_mem_nil, or_false, forall_eq_or_imp, forall_eq]
    exact ⟨not_misses_of_resolve broken, not_misses_of_resolve fresh⟩
  · intro before culture rest split catalog loaded
    match before, split with
    | [], split =>
      cases split
      have unread : (Catalog.loadOrEmpty brokenTree (sample.languagePath "de")).isOk = false := by
        decide +kernel
      rw [loaded] at unread
      cases unread
    | [_], split =>
      cases split
      have empty : Catalog.loadOrEmpty brokenTree (sample.languagePath "fr") = .ok .empty :=
        Catalog.loadOrEmpty_of_missing (by decide +kernel)
      cases empty.symm.trans loaded
      decide +kernel
    | _ :: _ :: others, split => simp at split

/-- A locale directory in which two cultures have one file, with the text in it, written last. -/
def linkedTree (text : String) (stamp : Nat) : FileTree :=
  ⟨.ofList [(["locale"], .directory), (["locale", "fr"], .directory),
    (["locale", "fr", languageName], .file (.text text) stamp), (["locale", "fr-FR"], .link "fr")], [],
    stamp + 1⟩

/-- **Of two cultures with one file, the later one finds what the earlier one got**, though its file
says the same as that of a culture that is alone. -/
theorem mergeAll_dependent_linkedTree :
    let joint := sample.mergeAll [] (sampleTemplate none) (linkedTree "" 0)
    let solo := sample.mergeAll [] (sampleTemplate none) (sampleTree "fr-FR" "" 0)
    (linkedTree "" 0).Rooted ∧ sample.HasBase (linkedTree "" 0) ∧
      sample.cultures (linkedTree "" 0) [] = .ok ["fr", "fr-FR"] ∧
      sample.cultures (sampleTree "fr-FR" "" 0) [] = .ok ["fr-FR"] ∧
      (linkedTree "" 0).read (sample.languagePath "fr-FR") =
        (sampleTree "fr-FR" "" 0).read (sample.languagePath "fr-FR") ∧
      joint.1 = ⟨[⟨"fr", 1, 0, true⟩, ⟨"fr-FR", 0, 0, true⟩], []⟩ ∧
      solo.1 = ⟨[⟨"fr-FR", 1, 0, true⟩], []⟩ := by
  have rooted : (linkedTree "" 0).Rooted := by decide +kernel
  have base : sample.HasBase (linkedTree "" 0) := .inr ⟨["locale"], by decide +kernel⟩
  have listed : sample.cultures (linkedTree "" 0) [] = .ok ["fr", "fr-FR"] := by decide +kernel
  refine ⟨rooted, base, listed, by decide +kernel, by decide +kernel, ?_, by decide +kernel⟩
  let after := linkedTree (mergedText "fr" (sampleTemplate none) .empty) 1
  have first : sample.mergeLanguage (sampleTemplate none) (linkedTree "" 0) "fr" =
      (.ok ⟨"fr", 1, 0, true⟩, after) := by decide +kernel
  have writable : (sampleTemplate none).Writable := by decide +kernel
  have afterRooted : after.Rooted := by decide +kernel
  have found : after.resolve (sample.languagePath "fr-FR") =
      .ok (.present ["locale", "fr", languageName]
        (.file (.text (mergedText "fr" (sampleTemplate none) .empty)) 1)) := by decide +kernel
  obtain ⟨summary, left, merged, turn, added, obsoleted, kept⟩ :=
    mergeLanguage_of_holds writable afterRooted Catalog.tidy_empty found
  have written : summary.written = true :=
    Bool.not_eq_false _ ▸ fun unwritten => absurd (kept.mp unwritten).1 (by decide)
  rw [mergeAll_of_cultures listed, mergeEach_cons, first, mergeEach_cons, merged]
  obtain ⟨culture, newItems, oldItems, changed⟩ := summary
  cases added
  cases obsoleted
  cases written
  cases turn.named
  rfl

/-- A locale directory behind a directory that is missing. -/
def detour : Locale := ⟨⟨"/gone/../locale"⟩, none⟩

/-- **A path that misses a file finds it once another culture has made the missing directory.** The
catalog that cannot be read is a failure then, and is written over where the culture is alone. -/
theorem mergeAll_dependent_detour :
    let joint := detour.mergeAll ["da", "de"] (sampleTemplate none) brokenTree
    let solo := detour.mergeAll ["de"] (sampleTemplate none) brokenTree
    brokenTree.Rooted ∧ detour.HasBase brokenTree ∧
      joint.1.languages = [⟨"da", 1, 0, true⟩] ∧ joint.1.failures.map (·.1) = ["de"] ∧
      solo.1 = ⟨[⟨"de", 1, 0, true⟩], []⟩ := by
  refine ⟨by decide +kernel, .inl ?_, ?_, ?_, ?_⟩ <;> decide +kernel

end Locale

end Localization
