import Localization.Locale.Merging
import Localization.Proofs.Catalog.Remerging
import Localization.Proofs.FileTree.Parents

/-
**What a merge does to the catalogs of languages.**

A merge takes one culture after the other. Each turn either fails and changes no file, or it leaves
the merged catalog in the file at which the culture's path aims, and changes no other file.

* `Sound` — the trees in which merges are studied: rooted, and with texts that are read as tidy.
* `Catalog.rewrite` — saving a text that goes by the catalog before; saves and turns are of this form.
* `Catalog.holds_rewrite`, `Locale.holds_mergeEach` — what holds on when texts are stored.
* `Turn` — what the turn of a culture does; `turn_of_mergeLanguage`, `grows_of_mergeLanguage`.
* `Holds` — a file has a catalog that was merged for a culture with the template.
* `mergeLanguage_of_holds` — the turn of a culture whose file was merged before.
* `Carries.mergeEach` — what all turns together do, from what one turn does; `mergeEach_sound`.
* `mergeEach_split`, `mem_report_mergeEach` — which turns there were, and what is reported of them.
* `mem_languages`, `mem_cultures` — the cultures that have turns, which no merge makes fewer.
-/

namespace Localization

open Text

/-! ### Texts in trees -/

/-- A text has no more characters than a number of 64 bits counts. -/
def Entry.Fits : Entry → Prop
  | .file (.text text) _ => text.toList.length ≤ Decimal.wordMax
  | _ => True

instance : DecidablePred Entry.Fits
  | .file (.text text) _ => inferInstanceAs (Decidable (text.toList.length ≤ Decimal.wordMax))
  | .file (.binary _) _ => isTrue trivial
  | .directory => isTrue trivial
  | .link _ => isTrue trivial

namespace FileTree

/-- All texts of a tree fit into a memory of 64 bits. -/
def Fits (tree : FileTree) : Prop :=
  ∀ entry ∈ tree.entries.values, entry.Fits

instance (tree : FileTree) : Decidable tree.Fits :=
  inferInstanceAs (Decidable (∀ entry ∈ tree.entries.values, entry.Fits))

/-- What is read of any text in the tree is tidy. -/
def TidyTexts (tree : FileTree) : Prop :=
  ∀ {place text stamp}, tree.get? place = some (.file (.text text) stamp) →
    ∀ {catalog}, Catalog.parse text = .ok catalog → catalog.Tidy

/-- A tree in which a merge does what it shall. -/
structure Sound (tree : FileTree) : Prop where
  rooted : tree.Rooted
  tidy : tree.TidyTexts

theorem Fits.tidyTexts {tree : FileTree} (fits : tree.Fits) : tree.TidyTexts := by
  intro place text stamp there catalog parsed
  unfold get? at there
  split at there
  · cases there
  · exact Catalog.tidy_of_short parsed
      (fits (.file (.text text) stamp) (SortedMap.mem_values.mpr ⟨place, there⟩))

/-- A tree in which a tidy text is stored stays sound. -/
theorem Sound.of_text {tree left : FileTree} (sound : tree.Sound) {place : Place} {text : String}
    {stamp : Nat} (grows : Grows (· = place) tree left)
    (there : left.get? place = some (.file (.text text) stamp))
    (tidy : ∀ catalog, Catalog.parse text = .ok catalog → catalog.Tidy) : left.Sound where
  rooted := grows.rooted sound.rooted
  tidy := by
    intro other found own held catalog parsed
    by_cases here : other = place
    · rw [here, there] at held
      cases held
      exact tidy catalog parsed
    · exact sound.tidy ((grows.elsewhere here).mp held) parsed

/-- A tree in which no file changes stays sound. -/
theorem Sound.of_grows {tree left : FileTree} (sound : tree.Sound)
    (grows : Grows (fun _ => False) tree left) : left.Sound where
  rooted := grows.rooted sound.rooted
  tidy there := sound.tidy ((grows.elsewhere not_false).mp there)

end FileTree

open FileTree

namespace Catalog

variable {tree left : FileTree} {path : Path} {text : String} {catalog : Catalog}

/-! ### Catalogs in files -/

/-- The catalog in a file, which is empty if there is no file. -/
def loadOrEmpty (tree : FileTree) (path : Path) : Except StoreError Catalog :=
  (load? tree path).map (·.getD .empty)

theorem loadOrEmpty_eq_ok :
    loadOrEmpty tree path = .ok catalog ↔
      (tree.readText path = .error .notFound ∧ catalog = .empty) ∨
        ∃ text, tree.readText path = .ok text ∧ parse text = .ok catalog := by
  unfold loadOrEmpty load?
  cases tree.readText path with
  | error error =>
    cases error <;> simp [Except.map, eq_comm]
  | ok text =>
    cases parsed : parse text with
    | error error => simp [Except.map, parsed]
    | ok other => simp [Except.map, parsed]

theorem loadHeader_eq (tree : FileTree) (path : Path) :
    loadHeader tree path = (loadOrEmpty tree path).map (·.header) := by
  unfold loadHeader loadOrEmpty
  cases load? tree path with
  | error error => rfl
  | ok catalog? => cases catalog? <;> rfl

theorem tidy_of_loadOrEmpty (sound : tree.Sound) (loaded : loadOrEmpty tree path = .ok catalog) :
    catalog.Tidy := by
  rcases loadOrEmpty_eq_ok.mp loaded with ⟨-, rfl⟩ | ⟨text, read, parsed⟩
  · exact tidy_empty
  · obtain ⟨place, stamp, found⟩ := readText_eq_ok.mp read
    exact sound.tidy (leads_of_resolve found).get?.1 parsed

/-- **The header that is found in a file is tidy**, whatever else the file holds. -/
theorem tidyHeader_of_loadOrEmpty (loaded : loadOrEmpty tree path = .ok catalog) :
    TidyHeader catalog.header := by
  rcases loadOrEmpty_eq_ok.mp loaded with ⟨-, rfl⟩ | ⟨text, -, parsed⟩
  · exact tidyHeader_empty
  · exact tidyHeader_of_parse parsed

/-- A text that is saved stands in the file at which the path aims, and no other file changes. -/
theorem saveText_eq_ok (rooted : tree.Rooted) {changed : Bool}
    (saved : saveText tree path text = (.ok changed, left)) :
    ∃ place stamp, tree.Aims path place ∧ Grows (· = place) tree left ∧
      left.resolve path = .ok (.present place (.file (.text text) stamp)) ∧
      (changed = false ↔ tree.readText path = .ok text) ∧ (changed = false → left = tree) := by
  have replaced (differs : tree.readText path ≠ .ok text)
      (stored : saveText.replace tree path text = (.ok changed, left)) :
      ∃ place stamp, tree.Aims path place ∧ Grows (· = place) tree left ∧
        left.resolve path = .ok (.present place (.file (.text text) stamp)) ∧
        (changed = false ↔ tree.readText path = .ok text) ∧ (changed = false → left = tree) := by
    unfold saveText.replace at stored
    cases done : tree.store path (.text text) with
    | mk outcome after =>
      rw [done] at stored
      cases outcome with
      | error failure => cases stored
      | ok nothing =>
        cases stored
        obtain ⟨place, stamp, aims, grows, found⟩ := store_eq_ok rooted done
        exact ⟨place, stamp, aims, grows, found, ⟨nofun, fun same => absurd same differs⟩, nofun⟩
  unfold saveText at saved
  cases read : tree.readText path with
  | error error =>
    rw [read] at saved
    cases error with
    | notFound => exact read ▸ replaced (by rw [read]; nofun) saved
    | _ => cases saved
  | ok current =>
    rw [read] at saved
    dsimp only at saved
    by_cases same : current = text
    · rw [if_pos same] at saved
      cases saved
      subst same
      obtain ⟨place, stamp, found⟩ := readText_eq_ok.mp read
      exact ⟨place, stamp, aims_of_resolve found, Grows.refl _ tree, found, by simp, fun _ => rfl⟩
    · rw [if_neg same] at saved
      exact read ▸ replaced (by rw [read]; simpa using same) saved

/-- Where a text cannot be saved, no file changes. -/
theorem saveText_eq_error {error : StoreError} (failed : saveText tree path text = (.error error, left))
    (spots : Place → Prop) : Grows spots tree left := by
  have replaced (stored : saveText.replace tree path text = (.error error, left)) :
      Grows spots tree left := by
    unfold saveText.replace at stored
    cases done : tree.store path (.text text) with
    | mk outcome after =>
      rw [done] at stored
      cases outcome with
      | ok nothing => cases stored
      | error failure =>
        cases stored
        exact store_eq_error done spots
  unfold saveText at failed
  split at failed
  · split at failed
    · cases failed
    · exact replaced failed
  · exact replaced failed
  · cases failed
    exact Grows.refl spots tree

/-- A file that is found can be saved. -/
theorem saveText_of_resolve {place : Place} {old : String} {stamp : Nat}
    (found : tree.resolve path = .ok (.present place (.file (.text old) stamp))) (text : String) :
    ∃ changed left, saveText tree path text = (.ok changed, left) := by
  unfold saveText
  rw [readText_of_resolve found]
  dsimp only
  split
  · exact ⟨false, tree, rfl⟩
  · unfold saveText.replace
    rw [store_of_resolve found]
    exact ⟨true, _, rfl⟩

/-- Saves a text that goes by the catalog before, and reports what became of it. -/
def rewrite {α : Type} (tree : FileTree) (path : Path) (text : Catalog → String)
    (report : Catalog → Bool → α) : Except StoreError α × FileTree :=
  match loadOrEmpty tree path with
  | .error error => (.error error, tree)
  | .ok catalog =>
    let (outcome, left) := saveText tree path (text catalog)
    (outcome.map (report catalog), left)

theorem save_eq_rewrite (tree : FileTree) (path : Path) (language : Option String) (items : Items) :
    save tree path language items =
      rewrite tree path (fun catalog => render ⟨Header.standard language catalog.header, items⟩)
        fun _ changed => changed := by
  unfold save rewrite
  rw [loadHeader_eq]
  cases loadOrEmpty tree path with
  | error error => rfl
  | ok catalog =>
    dsimp only [Except.map]
    generalize saveText tree path _ = saved
    obtain ⟨outcome, left⟩ := saved
    cases outcome <;> rfl

section Rewriting

variable {α : Type} {text : Catalog → String} {report : Catalog → Bool → α} {error : StoreError}

theorem rewrite_of_ok (loaded : loadOrEmpty tree path = .ok catalog) :
    rewrite tree path text report =
      ((saveText tree path (text catalog)).1.map (report catalog),
        (saveText tree path (text catalog)).2) := by
  rw [rewrite, loaded]

theorem rewrite_of_error (failed : loadOrEmpty tree path = .error error) :
    rewrite tree path text report = (.error error, tree) := by
  rw [rewrite, failed]

/-- A text that is rewritten goes by a catalog that was read, and was saved. -/
theorem rewrite_eq_ok {result : α} (done : rewrite tree path text report = (.ok result, left)) :
    ∃ catalog changed, loadOrEmpty tree path = .ok catalog ∧
      saveText tree path (text catalog) = (.ok changed, left) ∧ report catalog changed = result := by
  cases loaded : loadOrEmpty tree path with
  | error error =>
    rw [rewrite_of_error loaded] at done
    cases done
  | ok catalog =>
    cases saved : saveText tree path (text catalog) with
    | mk outcome after =>
      rw [rewrite_of_ok loaded, saved] at done
      cases outcome with
      | error error => cases done
      | ok changed =>
        cases done
        exact ⟨catalog, changed, rfl, saved, rfl⟩

/-- Where a text cannot be rewritten, no file changes. -/
theorem rewrite_eq_error (failed : rewrite tree path text report = (.error error, left))
    (spots : Place → Prop) : Grows spots tree left := by
  cases loaded : loadOrEmpty tree path with
  | error other =>
    rw [rewrite_of_error loaded] at failed
    cases failed
    exact Grows.refl spots tree
  | ok catalog =>
    cases saved : saveText tree path (text catalog) with
    | mk outcome after =>
      rw [rewrite_of_ok loaded, saved] at failed
      cases outcome with
      | ok changed => cases failed
      | error other =>
        cases failed
        exact saveText_eq_error saved spots

/-- What holds on when a text is stored holds behind a rewritten one. -/
theorem holds_rewrite (holds : FileTree → Prop) (start : holds tree)
    (step : ∀ written, holds (tree.store path (.text written)).2) (text : Catalog → String)
    (report : Catalog → Bool → α) : holds (rewrite tree path text report).2 := by
  cases loaded : loadOrEmpty tree path with
  | error error => rwa [rewrite_of_error loaded]
  | ok catalog =>
    rw [rewrite_of_ok loaded]
    unfold saveText saveText.replace
    split
    · split
      · exact start
      · exact step _
    · exact step _
    · exact start

end Rewriting

end Catalog

namespace Locale

variable {locale : Locale} {template : Items} {tree left : FileTree} {culture : String}
  {summary : LanguageSummary} {place : Place}

/-! ### The turn of a culture -/

theorem loadLanguage_eq (locale : Locale) (tree : FileTree) (culture : String) :
    locale.loadLanguage tree culture =
      (Catalog.loadOrEmpty tree (locale.languagePath culture)).map (·.items) := by
  unfold loadLanguage Catalog.loadOrEmpty
  cases Catalog.load? tree (locale.languagePath culture) <;> rfl

theorem loadLanguage_eq_ok {items : Items} :
    locale.loadLanguage tree culture = .ok items ↔
      ∃ catalog, Catalog.loadOrEmpty tree (locale.languagePath culture) = .ok catalog ∧
        catalog.items = items := by
  rw [loadLanguage_eq]
  cases Catalog.loadOrEmpty tree (locale.languagePath culture) <;> simp [Except.map]

/-- The text that a merge saves for a culture in place of a catalog. -/
abbrev mergedText (culture : String) (template : Items) (catalog : Catalog) : String :=
  Catalog.render (Catalog.mergedWith culture template catalog)

/-- A merge rewrites a catalog as its merged text. -/
theorem mergeLanguage_eq (locale : Locale) (template : Items) (tree : FileTree) (culture : String) :
    locale.mergeLanguage template tree culture =
      Catalog.rewrite tree (locale.languagePath culture) (mergedText culture template)
        fun catalog written =>
          let merged := Items.merge catalog.items template
          ⟨culture, merged.added.length, merged.obsoleted.length, written⟩ := by
  unfold mergeLanguage
  rw [loadLanguage_eq]
  unfold saveLanguage Catalog.save
  rw [Catalog.loadHeader_eq]
  unfold Catalog.rewrite
  cases Catalog.loadOrEmpty tree (locale.languagePath culture) <;> rfl

/-- What the turn of a culture does where it does not fail: the catalog in its file is replaced by
the merged one, and no other file changes. -/
structure Turn (locale : Locale) (template : Items) (culture : String) (tree left : FileTree)
    (summary : LanguageSummary) (catalog : Catalog) (place : Place) : Prop where
  loaded : Catalog.loadOrEmpty tree (locale.languagePath culture) = .ok catalog
  aims : tree.Aims (locale.languagePath culture) place
  grows : Grows (· = place) tree left
  found : ∃ stamp, left.resolve (locale.languagePath culture) =
    .ok (.present place (.file (.text (mergedText culture template catalog)) stamp))
  named : summary.culture = culture
  added : summary.added = (Items.merge catalog.items template).added.length
  obsoleted : summary.obsoleted = (Items.merge catalog.items template).obsoleted.length
  written : summary.written = false ↔
    tree.readText (locale.languagePath culture) = .ok (mergedText culture template catalog)
  kept : summary.written = false → left = tree

theorem turn_of_mergeLanguage (rooted : tree.Rooted)
    (merged : locale.mergeLanguage template tree culture = (.ok summary, left)) :
    ∃ catalog place, Turn locale template culture tree left summary catalog place := by
  rw [mergeLanguage_eq] at merged
  obtain ⟨catalog, changed, loaded, saved, rfl⟩ := Catalog.rewrite_eq_ok merged
  obtain ⟨place, stamp, aims, grows, found, written, kept⟩ := Catalog.saveText_eq_ok rooted saved
  exact ⟨catalog, place, loaded, aims, grows, ⟨stamp, found⟩, rfl, rfl, rfl, written, kept⟩

/-- Where the turn of a culture fails, no file changes. -/
theorem grows_of_mergeLanguage {error : StoreError}
    (failed : locale.mergeLanguage template tree culture = (.error error, left))
    (spots : Place → Prop) : Grows spots tree left := by
  rw [mergeLanguage_eq] at failed
  exact Catalog.rewrite_eq_error failed spots

/-- A culture whose file is found and can be read does not fail. -/
theorem mergeLanguage_of_found {catalog : Catalog} {text : String} {stamp : Nat}
    (found : tree.resolve (locale.languagePath culture) = .ok (.present place (.file (.text text) stamp)))
    (parsed : Catalog.parse text = .ok catalog) (template : Items) :
    ∃ summary left, locale.mergeLanguage template tree culture = (.ok summary, left) := by
  have loaded : Catalog.loadOrEmpty tree (locale.languagePath culture) = .ok catalog :=
    Catalog.loadOrEmpty_eq_ok.mpr (.inr ⟨text, readText_of_resolve found, parsed⟩)
  obtain ⟨changed, left, saved⟩ := Catalog.saveText_of_resolve found (mergedText culture template catalog)
  rw [mergeLanguage_eq, Catalog.rewrite_of_ok loaded, saved]
  exact ⟨_, left, rfl⟩

/-! ### Merged files -/

/-- The file at a place has a catalog of some kind, merged with the template for a culture. -/
def Holds (kind : Catalog → Prop) (template : Items) (culture : String) (tree : FileTree)
    (place : Place) : Prop :=
  ∃ catalog stamp, kind catalog ∧
    tree.get? place = some (.file (.text (mergedText culture template catalog)) stamp)

namespace Turn

variable {catalog : Catalog}

theorem tidy (turn : Turn locale template culture tree left summary catalog place)
    (sound : tree.Sound) : catalog.Tidy :=
  Catalog.tidy_of_loadOrEmpty sound turn.loaded

theorem holds (turn : Turn locale template culture tree left summary catalog place)
    {kind : Catalog → Prop} (fine : kind catalog) : Holds kind template culture left place := by
  obtain ⟨stamp, found⟩ := turn.found
  exact ⟨catalog, stamp, fine, (leads_of_resolve found).get?.1⟩

theorem header (turn : Turn locale template culture tree left summary catalog place) :
    Catalog.TidyHeader catalog.header :=
  Catalog.tidyHeader_of_loadOrEmpty turn.loaded

/-- **A turn leaves a sound tree behind.** -/
theorem sound (turn : Turn locale template culture tree left summary catalog place)
    (writable : template.Writable) (good : tree.Sound) : left.Sound := by
  obtain ⟨stamp, found⟩ := turn.found
  refine good.of_text turn.grows (leads_of_resolve found).get?.1 fun read parsed => ?_
  have legible := Catalog.legible_mergedWith (turn.tidy good) writable culture
  cases legible.parse_render.symm.trans parsed
  exact legible.tidy_reread

end Turn

/-- A merged file is read as its catalog. -/
theorem parse_mergedText (writable : template.Writable) {catalog : Catalog} (tidy : catalog.Tidy)
    (culture : String) :
    Catalog.parse (mergedText culture template catalog) =
      .ok (Catalog.mergedWith culture template catalog).reread :=
  (Catalog.legible_mergedWith tidy writable culture).parse_render

/-- **The turn of a culture whose file was merged before** does not fail and reports no new and no
obsolete items. The file changes unless it was merged for this culture, whose name brings in no
fields. -/
theorem mergeLanguage_of_holds (writable : template.Writable) (rooted : tree.Rooted) {other : String}
    {catalog : Catalog} (tidy : catalog.Tidy) {stamp : Nat}
    (found : tree.resolve (locale.languagePath culture) =
      .ok (.present place (.file (.text (mergedText other template catalog)) stamp))) :
    ∃ summary left, locale.mergeLanguage template tree culture = (.ok summary, left) ∧
      Turn locale template culture tree left summary
        (Catalog.mergedWith other template catalog).reread place ∧
      summary.added = 0 ∧ summary.obsoleted = 0 ∧
      (summary.written = false ↔ culture = other ∧ Catalog.strayFields other = []) := by
  have parsed := parse_mergedText writable tidy other
  obtain ⟨summary, left, merged⟩ := mergeLanguage_of_found found parsed template
  obtain ⟨loaded, goal, turn⟩ := turn_of_mergeLanguage rooted merged
  have own : loaded = (Catalog.mergedWith other template catalog).reread := by
    have read : Catalog.loadOrEmpty tree (locale.languagePath culture) = .ok _ :=
      Catalog.loadOrEmpty_eq_ok.mpr (.inr ⟨_, readText_of_resolve found, parsed⟩)
    exact Except.ok.inj (turn.loaded.symm.trans read)
  have here : goal = place := turn.aims.unique (aims_of_resolve found)
  subst own here
  have reports := Catalog.reports_merge_reread catalog.items template
  refine ⟨summary, left, merged, turn, ?_, ?_, ?_⟩
  · rw [turn.added]
    exact congrArg List.length reports.1
  · rw [turn.obsoleted]
    exact congrArg List.length reports.2
  · rw [turn.written, readText_of_resolve found, Except.ok.injEq, eq_comm]
    exact Catalog.render_remerged_iff tidy other culture

/-! ### All turns -/

/-- A merge wrote the file at the place. -/
def Touched (locale : Locale) (tree : FileTree) (report : MergeReport) (place : Place) : Prop :=
  ∃ summary ∈ report.languages, tree.Aims (locale.languagePath summary.culture) place

theorem touched_iff (locale : Locale) {spots : Place → Prop} (grows : Grows spots tree left)
    (report : MergeReport) (place : Place) :
    locale.Touched left report place ↔ locale.Touched tree report place := by
  unfold Touched
  simp only [grows.aims]

theorem mergeEach_cons (locale : Locale) (template : Items) (tree : FileTree) (culture : String)
    (rest : List String) :
    locale.mergeEach template tree (culture :: rest) =
      ((locale.mergeEach template (locale.mergeLanguage template tree culture).2 rest).1.add culture
          (locale.mergeLanguage template tree culture).1,
        (locale.mergeEach template (locale.mergeLanguage template tree culture).2 rest).2) := rfl

/-- **What holds on when the text of a culture is stored holds behind the turns of all cultures.** -/
theorem holds_mergeEach (holds : FileTree → Prop) {cultures : List String} (start : holds tree)
    (step : ∀ now, holds now → ∀ culture ∈ cultures, ∀ text,
      holds (now.store (locale.languagePath culture) (.text text)).2) :
    holds (locale.mergeEach template tree cultures).2 := by
  induction cultures generalizing tree with
  | nil => exact start
  | cons culture rest ih =>
    have first : holds (locale.mergeLanguage template tree culture).2 := by
      rw [mergeLanguage_eq]
      exact Catalog.holds_rewrite holds start (step tree start culture List.mem_cons_self) _ _
    rw [mergeEach_cons]
    exact ih first fun now good other member => step now good other (List.mem_cons_of_mem culture member)

/-- What turns keep of trees, and of which kind the catalogs are that they find. -/
structure Carries (locale : Locale) (template : Items) (good : FileTree → Prop)
    (kind : Catalog → Prop) : Prop where
  rooted : ∀ {tree}, good tree → tree.Rooted
  still : ∀ {tree left}, good tree → Grows (fun _ => False) tree left → good left
  turn : ∀ {culture tree left summary catalog place}, good tree →
    Turn locale template culture tree left summary catalog place → kind catalog ∧ good left

theorem carries_rooted (locale : Locale) (template : Items) :
    Carries locale template Rooted fun catalog => Catalog.TidyHeader catalog.header where
  rooted := id
  still rooted grows := grows.rooted rooted
  turn rooted turn := ⟨turn.header, turn.grows.rooted rooted⟩

theorem carries_sound (locale : Locale) (writable : template.Writable) :
    Carries locale template Sound Catalog.Tidy where
  rooted sound := sound.rooted
  still sound := sound.of_grows
  turn sound turn := ⟨turn.tidy sound, turn.sound writable sound⟩

/-- **All turns keep of a tree what one turn keeps**, change no files but those that they write, and
leave a merged catalog in each of these. -/
theorem Carries.mergeEach {good : FileTree → Prop} {kind : Catalog → Prop}
    (carries : Carries locale template good kind) (start : good tree) (cultures : List String) :
    let result := locale.mergeEach template tree cultures
    good result.2 ∧ Grows (locale.Touched tree result.1) tree result.2 ∧
      ∀ place, locale.Touched tree result.1 place →
        ∃ summary ∈ result.1.languages, tree.Aims (locale.languagePath summary.culture) place ∧
          Holds kind template summary.culture result.2 place := by
  induction cultures generalizing tree with
  | nil => exact ⟨start, Grows.refl _ tree, fun place ⟨summary, member, _⟩ => nomatch member⟩
  | cons culture rest ih =>
    rw [mergeEach_cons]
    cases merged : locale.mergeLanguage template tree culture with
    | mk outcome left =>
      cases outcome with
      | error error =>
        have grows (spots : Place → Prop) : Grows spots tree left := grows_of_mergeLanguage merged spots
        obtain ⟨kept, later, held⟩ := ih (carries.still start (grows _))
        have same := touched_iff locale (grows fun _ => False)
        refine ⟨kept, (grows _).trans (later.mono fun place => (same _ place).mp), fun place touched => ?_⟩
        obtain ⟨last, inside, reaches, holds⟩ := held place ((same _ place).mpr touched)
        exact ⟨last, inside, (grows fun _ => False).aims.mp reaches, holds⟩
      | ok summary =>
        obtain ⟨catalog, goal, turn⟩ := turn_of_mergeLanguage (carries.rooted start) merged
        obtain ⟨fine, next⟩ := carries.turn start turn
        obtain ⟨kept, later, held⟩ := ih next
        have here : tree.Aims (locale.languagePath summary.culture) goal := turn.named ▸ turn.aims
        dsimp only [MergeReport.add]
        refine ⟨kept, (turn.grows.mono ?_).trans (later.mono ?_), ?_⟩
        · rintro place rfl
          exact ⟨summary, List.mem_cons_self, here⟩
        · rintro place ⟨other, member, aims⟩
          exact ⟨other, List.mem_cons_of_mem summary member, turn.grows.aims.mp aims⟩
        · rintro place ⟨other, member, aims⟩
          by_cases again : locale.Touched left (locale.mergeEach template left rest).1 place
          · obtain ⟨last, inside, reaches, holds⟩ := held place again
            exact ⟨last, List.mem_cons_of_mem summary inside, turn.grows.aims.mp reaches, holds⟩
          · rcases List.mem_cons.mp member with rfl | inside
            · refine ⟨other, List.mem_cons_self, aims, ?_⟩
              obtain ⟨own, stamp, tidy, there⟩ := turn.holds fine
              rw [turn.named]
              have same : place = goal := aims.unique here
              subst same
              exact ⟨own, stamp, tidy, (later.elsewhere again).mpr there⟩
            · exact absurd ⟨other, inside, turn.grows.aims.mpr aims⟩ again

theorem mergeEach_sound (locale : Locale) (writable : template.Writable) (sound : tree.Sound)
    (cultures : List String) :
    let result := locale.mergeEach template tree cultures
    result.2.Sound ∧ Grows (locale.Touched tree result.1) tree result.2 ∧
      ∀ place, locale.Touched tree result.1 place →
        ∃ summary ∈ result.1.languages, tree.Aims (locale.languagePath summary.culture) place ∧
          Holds Catalog.Tidy template summary.culture result.2 place :=
  (carries_sound locale writable).mergeEach sound cultures

theorem culture_of_mergeLanguage
    (merged : locale.mergeLanguage template tree culture = (.ok summary, left)) :
    summary.culture = culture := by
  rw [mergeLanguage_eq] at merged
  obtain ⟨catalog, changed, -, -, rfl⟩ := Catalog.rewrite_eq_ok merged
  rfl

theorem mergeEach_append (locale : Locale) (template : Items) (tree : FileTree)
    (before after : List String) :
    let first := locale.mergeEach template tree before
    let second := locale.mergeEach template first.2 after
    locale.mergeEach template tree (before ++ after) =
      (⟨first.1.languages ++ second.1.languages, first.1.failures ++ second.1.failures⟩, second.2) := by
  induction before generalizing tree with
  | nil => rfl
  | cons culture rest ih =>
    rw [List.cons_append, mergeEach_cons, mergeEach_cons, ih]
    dsimp only
    cases (locale.mergeLanguage template tree culture).1 <;> rfl

/-- **A culture that a merge reports had its turn**, after others and before the rest. -/
theorem mergeEach_split {cultures : List String}
    (member : summary ∈ (locale.mergeEach template tree cultures).1.languages) :
    ∃ before after left, cultures = before ++ summary.culture :: after ∧
      locale.mergeLanguage template (locale.mergeEach template tree before).2 summary.culture =
        (.ok summary, left) ∧
      (locale.mergeEach template left after).2 = (locale.mergeEach template tree cultures).2 := by
  induction cultures generalizing tree with
  | nil => cases member
  | cons culture rest ih =>
    rw [mergeEach_cons] at member ⊢
    have further (inside : summary ∈
        (locale.mergeEach template (locale.mergeLanguage template tree culture).2 rest).1.languages) :
        ∃ before after left, culture :: rest = before ++ summary.culture :: after ∧
          locale.mergeLanguage template (locale.mergeEach template tree before).2 summary.culture =
            (.ok summary, left) ∧
          (locale.mergeEach template left after).2 =
            (locale.mergeEach template (locale.mergeLanguage template tree culture).2 rest).2 := by
      obtain ⟨before, after, left, same, merged, ends⟩ := ih inside
      exact ⟨culture :: before, after, left, by rw [same]; rfl, merged, ends⟩
    cases merged : locale.mergeLanguage template tree culture with
    | mk outcome left =>
      rw [merged] at member further
      cases outcome with
      | error error => exact further member
      | ok own =>
        rcases List.mem_cons.mp member with rfl | inside
        · have own := culture_of_mergeLanguage merged
          subst own
          exact ⟨[], rest, left, rfl, merged, rfl⟩
        · exact further inside

/-- **The catalog of a reported culture is found on its path after the merge**, where the path aimed. -/
theorem resolve_of_reported (rooted : tree.Rooted) {cultures : List String}
    (member : summary ∈ (locale.mergeEach template tree cultures).1.languages) :
    ∃ place content stamp, tree.Aims (locale.languagePath summary.culture) place ∧
      (locale.mergeEach template tree cultures).2.resolve (locale.languagePath summary.culture) =
        .ok (.present place (.file content stamp)) := by
  obtain ⟨before, rest, left, same, merged, ends⟩ := mergeEach_split member
  have carries := carries_rooted locale template
  obtain ⟨good, early, -⟩ := carries.mergeEach rooted before
  obtain ⟨catalog, place, turn⟩ := turn_of_mergeLanguage good merged
  obtain ⟨-, late, -⟩ := carries.mergeEach (turn.grows.rooted good) rest
  obtain ⟨stamp, found⟩ := turn.found
  rw [ends] at late
  obtain ⟨content, now, there⟩ := late.files (leads_of_resolve found).get?.1
  exact ⟨place, content, now, early.aims.mp turn.aims, late.resolve found there⟩

/-- Every culture of a merge is reported, and nothing else is. -/
theorem mem_report_mergeEach (locale : Locale) (template : Items) (tree : FileTree)
    (cultures : List String) (culture : String) :
    culture ∈ cultures ↔
      (∃ summary ∈ (locale.mergeEach template tree cultures).1.languages, summary.culture = culture) ∨
        ∃ failure ∈ (locale.mergeEach template tree cultures).1.failures, failure.1 = culture := by
  induction cultures generalizing tree with
  | nil => simp [mergeEach, MergeReport.empty]
  | cons first rest ih =>
    rw [mergeEach_cons, List.mem_cons, ih (locale.mergeLanguage template tree first).2]
    cases merged : locale.mergeLanguage template tree first with
    | mk outcome left =>
      cases outcome with
      | error error =>
        simp only [MergeReport.add, List.mem_cons, exists_eq_or_imp]
        rw [or_left_comm, @eq_comm _ first]
      | ok summary =>
        simp only [MergeReport.add, List.mem_cons, exists_eq_or_imp]
        rw [culture_of_mergeLanguage merged, or_assoc, @eq_comm _ first]

/-- A culture has one turn, so it is not reported twice. -/
theorem not_failed_of_merged {cultures : List String} (nodup : cultures.Nodup)
    (member : summary ∈ (locale.mergeEach template tree cultures).1.languages) :
    ∀ failure ∈ (locale.mergeEach template tree cultures).1.failures, failure.1 ≠ summary.culture := by
  induction cultures generalizing tree with
  | nil => cases member
  | cons first rest ih =>
    obtain ⟨fresh, others⟩ := List.nodup_cons.mp nodup
    have outside (tree : FileTree) : (∀ other ∈ (locale.mergeEach template tree rest).1.languages,
        other.culture ≠ first) ∧
          ∀ failure ∈ (locale.mergeEach template tree rest).1.failures, failure.1 ≠ first := by
      have known := mem_report_mergeEach locale template tree rest first
      exact ⟨fun other inside same => fresh (known.mpr (.inl ⟨other, inside, same⟩)),
        fun failure inside same => fresh (known.mpr (.inr ⟨failure, inside, same⟩))⟩
    rw [mergeEach_cons] at member ⊢
    cases merged : locale.mergeLanguage template tree first with
    | mk outcome left =>
      rw [merged] at member
      cases outcome with
      | error error =>
        intro failure inside
        rcases List.mem_cons.mp inside with rfl | later
        · exact fun same => (outside left).1 summary member same.symm
        · exact ih others member failure later
      | ok own =>
        intro failure inside
        rcases List.mem_cons.mp member with rfl | later
        · rw [culture_of_mergeLanguage merged]
          exact (outside left).2 failure inside
        · exact ih others later failure inside

/-! ### The cultures of a merge -/

end Locale

theorem FileTree.mem_names {tree : FileTree} {place : Place} {name : String} :
    name ∈ tree.names place ↔ ∃ entry, tree.get? (place ++ [name]) = some entry := by
  have solid : place ++ [name] ≠ [] := List.concat_ne_nil _ _
  unfold FileTree.names FileTree.get?
  rw [if_neg solid, List.mem_filterMap, ← SortedMap.mem_keys]
  constructor
  · rintro ⟨other, member, found⟩
    split at found
    · rename_i inside
      obtain ⟨front, rfl⟩ := List.getLast?_eq_some_iff.mp found
      rw [List.dropLast_concat] at inside
      exact inside ▸ member
    · cases found
  · intro member
    exact ⟨place ++ [name], member, by rw [List.dropLast_concat, if_pos rfl, List.getLast?_concat]⟩

namespace Locale

variable {locale : Locale} {tree after : FileTree} {culture : String} {spots : Place → Prop}

/-- What stands at a place goes on standing there when files are stored. -/
theorem exists_of_grows (grows : Grows spots tree after) {place : Place} {entry : Entry}
    (there : tree.get? place = some entry) : ∃ entry, after.get? place = some entry := by
  cases entry with
  | file content stamp =>
    obtain ⟨now, later, found⟩ := grows.files there
    exact ⟨_, found⟩
  | directory => exact ⟨_, grows.keeps.directory there⟩
  | link target => exact ⟨_, grows.keeps.link there⟩

theorem mem_languages {names : List String} (listed : locale.languages tree = .ok names) :
    culture ∈ names ↔ (∃ place, tree.resolve locale.directory = .ok (.present place .directory) ∧
      ∃ entry, tree.get? (place ++ [culture]) = some entry) ∧ locale.hasLanguage tree culture := by
  unfold languages FileTree.list FileTree.find at listed
  cases found : tree.resolve locale.directory with
  | error error =>
    rw [found] at listed
    cases error <;> cases listed
    simp
  | ok target =>
    rw [found] at listed
    cases target with
    | absent place =>
      cases listed
      simp
    | present place entry =>
      cases entry with
      | file content stamp => cases listed
      | link target => cases listed
      | directory =>
        cases listed
        rw [SortedSet.mem_keys_ofList, List.mem_filter, FileTree.mem_names]
        simp

/-- The cultures of a merge are those that have a catalog and those that shall get one, each once. -/
theorem mem_cultures {configured cultures : List String}
    (listed : locale.cultures tree configured = .ok cultures) :
    ∃ names, locale.languages tree = .ok names ∧ cultures.Nodup ∧
      ∀ culture, culture ∈ cultures ↔ culture ∈ names ∨ culture ∈ configured := by
  unfold Locale.cultures at listed
  cases known : locale.languages tree with
  | error error =>
    rw [known] at listed
    cases listed
  | ok names =>
    rw [known] at listed
    cases listed
    refine ⟨names, rfl, SortedMap.keys_nodup _, fun culture => ?_⟩
    rw [SortedSet.mem_keys_ofList, List.mem_append]

/-- The locale directory can be listed where the file of a culture is found. -/
theorem exists_languages (named : IsFileName culture) {target : Target}
    (found : tree.resolve (locale.languagePath culture) = .ok target) :
    ∃ names, locale.languages tree = .ok names := by
  have file : IsFileName languageName := by constructor <;> decide
  have nothing : tree.resolve ⟨""⟩ = .error .notFound := by
    unfold FileTree.resolve
    rfl
  have empty {base : Path} (none : base.text = "") : tree.resolve base = .error .notFound := by
    obtain ⟨text⟩ := base
    cases none
    exact nothing
  have inner : (locale.directory.join culture).text ≠ "" := by
    intro none
    obtain ⟨front, same⟩ | same := (toList_join locale.directory named.plain).symm
    · rw [none] at same
      simp at same
    · rw [none] at same
      exact named.solid (String.toList_eq_nil_iff.mp same.symm)
  obtain none | ⟨place, below⟩ := resolve_base file found
  · exact absurd none inner
  · unfold languages FileTree.list FileTree.find
    obtain none | ⟨middle, above⟩ := resolve_base named below
    · rw [empty none]
      exact ⟨[], rfl⟩
    · rw [above]
      exact ⟨_, rfl⟩

/-- **A culture that has a catalog goes on having one** when files are stored. -/
theorem mem_languages_of_grows (grows : Grows spots tree after) {names later : List String}
    (listed : locale.languages tree = .ok names) (again : locale.languages after = .ok later)
    (member : culture ∈ names) : culture ∈ later := by
  obtain ⟨⟨place, found, entry, there⟩, has⟩ := (mem_languages listed).mp member
  exact (mem_languages again).mpr
    ⟨⟨place, grows.keeps.resolve_directory found, exists_of_grows grows there⟩, grows.isFile has⟩

theorem mergeAll_of_cultures {configured cultures : List String}
    (listed : locale.cultures tree configured = .ok cultures) (template : Items) :
    locale.mergeAll configured template tree = locale.mergeEach template tree cultures := by
  rw [mergeAll, listed]

/-- A merge that reports a culture has taken turns. -/
theorem turns_of_mergeAll {template : Items} {configured : List String} {report : MergeReport}
    (merged : locale.mergeAll configured template tree = (report, after)) {summary : LanguageSummary}
    (member : summary ∈ report.languages) :
    ∃ cultures, locale.cultures tree configured = .ok cultures ∧
      locale.mergeEach template tree cultures = (report, after) := by
  unfold mergeAll at merged
  cases listed : locale.cultures tree configured with
  | error error =>
    rw [listed] at merged
    cases merged
    cases member
  | ok cultures =>
    rw [listed] at merged
    exact ⟨cultures, rfl, merged⟩

/-- A merge that did not fail reports every culture. -/
theorem turns_of_success {template : Items} {configured : List String} {report : MergeReport}
    (merged : locale.mergeAll configured template tree = (report, after))
    (success : report.isSuccess = true) :
    ∃ cultures, locale.cultures tree configured = .ok cultures ∧
      locale.mergeEach template tree cultures = (report, after) ∧
      ∀ culture ∈ cultures, ∃ summary ∈ report.languages, summary.culture = culture := by
  have none : report.failures = [] := List.isEmpty_iff.mp success
  unfold mergeAll at merged
  cases listed : locale.cultures tree configured with
  | error error =>
    rw [listed] at merged
    cases merged
    cases none
  | ok cultures =>
    rw [listed] at merged
    refine ⟨cultures, rfl, merged, fun culture member => ?_⟩
    rcases (mem_report_mergeEach locale template tree cultures culture).mp member with
      reported | ⟨failure, inside, -⟩
    · rw [show locale.mergeEach template tree cultures = _ from merged] at reported
      exact reported
    · rw [show locale.mergeEach template tree cultures = _ from merged, none] at inside
      cases inside

/-- A culture that was to be merged is to be merged again. -/
theorem mem_cultures_of_grows (grows : Grows spots tree after) {configured cultures names : List String}
    (listed : locale.cultures tree configured = .ok cultures)
    (again : locale.languages after = .ok names) :
    ∃ others, locale.cultures after configured = .ok others ∧ others.Nodup ∧
      ∀ culture ∈ cultures, culture ∈ others := by
  obtain ⟨known, languages, -, members⟩ := mem_cultures listed
  have next : locale.cultures after configured =
      .ok (SortedSet.ofList (names ++ configured)).keys := by
    rw [Locale.cultures, again]
    rfl
  obtain ⟨found, same, nodup, later⟩ := mem_cultures next
  refine ⟨_, next, nodup, fun culture member => (later culture).mpr ?_⟩
  rcases (members culture).mp member with before | wanted
  · exact .inl (mem_languages_of_grows grows languages same before)
  · exact .inr wanted

/-! ### A locale directory with one catalog -/

/-- A locale directory. -/
def sample : Locale := ⟨⟨"/locale"⟩, none⟩

/-- The locale directory with the catalog of one culture, written last. -/
def sampleTree (culture text : String) (stamp : Nat) : FileTree :=
  ⟨.ofList [(["locale"], .directory), (["locale", culture], .directory),
    (["locale", culture, languageName], .file (.text text) stamp)], [], stamp + 1⟩

/-- A template of one item, which may have a plural. -/
def sampleTemplate (plural : Option String) : Items :=
  SortedMap.empty.insert "cat"
    { Item.ofId "cat" with
      plural := plural, references := SortedMap.empty.insert ⟨"a.html", 1⟩ () }

end Locale

end Localization
