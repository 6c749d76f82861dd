import Localization.Proofs.Languages.Repeated

/-
**What is loaded of a language after a merge.**

What a merge saves for a culture is loaded afterwards as it is read back. Of items in the shape of
their text nothing is lost, except for the localized text of a message that got a plural from the
template.

* `CanonicalTemplate` — templates in the shape of their text.
* `NumbersAgree` — no localized message gets a plural; `unmixed_merge_iff`.
* `Loads`, `Untouched` — what stands in the file of a culture, turn by turn; `settled_mergeEach`.
* `loadLanguage_mergeAll` — what is loaded of a culture after a merge.
-/

namespace Localization

open Text

/-- The item with one empty form where it has a plural without forms. -/
def Item.formed (item : Item) : Item :=
  if item.plural.isSome ∧ item.forms = [] then { item with forms := [""] } else item

namespace Catalog

variable {template existing : Items} {item : Item}

/-! ### Templates -/

/-- A template whose items are in the shape of their text. They have no texts of translators. -/
structure CanonicalTemplate (template : Items) : Prop where
  keyed : template.Keyed
  ids : ∀ item ∈ template.values, item.id ≠ ""
  extracted : ∀ item ∈ template.values, ∀ comment ∈ item.extracted, IsComment comment
  places : ∀ item ∈ template.values, ∀ place ∈ item.references.keys, IsPath place.path
  lines : ∀ item ∈ template.values, ∀ place ∈ item.references.keys, place.line ≤ Decimal.wordMax

instance (template : Items) : Decidable (CanonicalTemplate template) :=
  decidable_of_iff ((∀ entry ∈ template.entries, entry.2.id = entry.1) ∧
      (∀ item ∈ template.values, item.id ≠ "") ∧
      (∀ item ∈ template.values, ∀ comment ∈ item.extracted, IsComment comment) ∧
      (∀ item ∈ template.values, ∀ place ∈ item.references.keys, IsPath place.path) ∧
      ∀ item ∈ template.values, ∀ place ∈ item.references.keys, place.line ≤ Decimal.wordMax)
    ⟨fun ⟨keyed, ids, extracted, places, lines⟩ =>
        ⟨fun id item found => keyed (id, item) (SortedMap.get?_eq_some.mp found), ids, extracted, places,
          lines⟩,
      fun good => ⟨fun entry member => good.keyed entry.1 entry.2 (SortedMap.get?_eq_some.mpr member),
        good.ids, good.extracted, good.places, good.lines⟩⟩

theorem CanonicalTemplate.writable (canonical : CanonicalTemplate template) : template.Writable where
  keyed := canonical.keyed
  ids := canonical.ids
  extracted item member comment inside := (canonical.extracted item member comment inside).newline
  paths item member place inside := (canonical.places item member place inside).newline

/-! ### Merged items that are read back -/

/-- An item in the shape of its text, except that it may have a plural without forms or with a
localized text. -/
structure ShapedItem (item : Item) : Prop where
  localized : item.localized ≠ some ""
  single : item.plural = none → item.forms = []
  comments : ∀ comment ∈ item.comments, IsComment comment
  extracted : ∀ comment ∈ item.extracted, IsComment comment
  places : ∀ place ∈ item.references.keys, IsPath place.path
  lines : ∀ place ∈ item.references.keys, place.line ≤ Decimal.wordMax

/-- Such an item is read back with a form, unless it has a localized text next to a plural. -/
theorem ShapedItem.reread_iff (shaped : ShapedItem item) :
    rereadItem item = item.formed ↔ (item.plural.isSome → item.localized = none) := by
  have kept : rereadItem item =
      { item with localized := (writtenText? item).filter (· ≠ ""), forms := writtenForms item } := by
    unfold rereadItem
    rw [rereadReferences_of_canonical shaped.places shaped.lines, map_rereadComment shaped.extracted,
      map_rereadComment shaped.comments]
  by_cases single : item.plural = none
  · have formed : item.formed = item := if_neg (by simp [single])
    have same : rereadItem item = item := by
      rw [kept, filter_writtenText? single shaped.localized, writtenForms_of_single single,
        ← shaped.single single]
    rw [same, formed, single]
    exact iff_of_true rfl nofun
  · have counted := Option.isSome_iff_ne_none.mpr single
    have formed : item.formed = { item with forms := writtenForms item } := by
      unfold Item.formed
      by_cases empty : item.forms = []
      · rw [if_pos ⟨counted, empty⟩, writtenForms, if_neg (by simp [single]), if_pos (by simp [empty])]
      · rw [if_neg fun both => empty both.2, writtenForms_of_isSome counted empty]
    rw [kept, formed, writtenText?_of_isSome counted]
    constructor
    · intro same _
      exact (congrArg Item.localized same).symm
    · intro unset
      rw [unset counted]
      rfl

/-- No message that has a localized text and no plural gets a plural from the template. -/
def NumbersAgree (existing template : Items) : Prop :=
  ∀ id current placed, existing.get? id = some current → template.get? id = some placed →
    current.localized ≠ none → current.plural = none → placed.plural = none

instance (existing template : Items) : Decidable (NumbersAgree existing template) :=
  decidable_of_iff (∀ entry ∈ existing.entries, ∀ placed ∈ template.get? entry.1,
      entry.2.localized ≠ none → entry.2.plural = none → placed.plural = none)
    ⟨fun all id current placed known => all (id, current) (SortedMap.get?_eq_some.mp known) placed,
      fun agree entry member placed => agree entry.1 entry.2 placed (SortedMap.get?_eq_some.mpr member)⟩

section

variable (items : ∀ item ∈ existing.values, CanonicalItem item)

include items

theorem shaped_merge (canonical : CanonicalTemplate template)
    (member : item ∈ (Items.merge existing template).items.values) : ShapedItem item := by
  rcases mem_values_merge member with ⟨current, known, placed, inside, rfl⟩ | ⟨placed, inside, rfl⟩ |
    ⟨current, known, rfl⟩
  · have shape := items current known
    exact
      { localized := shape.localized
        single := fun single => shape.single (Option.or_eq_none_iff.mp single).1
        comments := shape.comments
        extracted := canonical.extracted placed inside
        places := canonical.places placed inside
        lines := canonical.lines placed inside }
  · exact
      { localized := nofun
        single := fun _ => rfl
        comments := List.forall_mem_nil _
        extracted := canonical.extracted placed inside
        places := canonical.places placed inside
        lines := canonical.lines placed inside }
  · have shape := items current known
    exact
      { localized := shape.localized
        single := shape.single
        comments := shape.comments
        extracted := shape.extracted
        places := List.forall_mem_nil _
        lines := List.forall_mem_nil _ }

/-- **Merged items mix localized texts and plurals exactly if the numbers do not agree.** -/
theorem unmixed_merge_iff :
    Unmixed (Items.merge existing template).items ↔ NumbersAgree existing template := by
  constructor
  · intro unmixed id current placed known inside text single
    have merged : (Items.merge existing template).items.get? id = some (current.revived placed) := by
      rw [Items.get?_merge, known, inside]
      rfl
    refine Option.eq_none_iff_forall_ne_some.mpr fun plural counted => text ?_
    refine (unmixed id _ merged).1 ?_
    rw [show (current.revived placed).plural = current.plural.or placed.plural from rfl, single, counted]
    rfl
  · intro agree id item found
    rw [Items.get?_merge] at found
    have shape {current : Item} (known : existing.get? id = some current) : CanonicalItem current :=
      items current (SortedMap.mem_values.mpr ⟨id, known⟩)
    cases inside : template.get? id with
    | none =>
      rw [inside] at found
      obtain ⟨current, known, rfl⟩ := Option.map_eq_some_iff.mp found
      refine ⟨fun counted => ((shape known).counted (Option.isSome_iff_ne_none.mp counted)).1,
        fun single form member => ?_⟩
      rw [show current.retired.forms = [] from (shape known).single single] at member
      cases member
    | some placed =>
      rw [inside] at found
      cases known : existing.get? id with
      | none =>
        rw [known] at found
        cases found
        exact ⟨fun _ => rfl, fun _ => List.forall_mem_nil _⟩
      | some current =>
        rw [known] at found
        have same : item = current.revived placed := (Option.some.inj found).symm
        subst same
        refine ⟨fun counted => ?_, fun single form member => ?_⟩
        · by_cases single : current.plural = none
          · refine Decidable.byContradiction fun text => ?_
            have none : (current.revived placed).plural = none :=
              Option.or_eq_none_iff.mpr ⟨single, agree id current placed known inside text single⟩
            rw [none] at counted
            cases counted
          · exact ((shape known).counted single).1
        · rw [show (current.revived placed).forms = [] from
            (shape known).single (Option.or_eq_none_iff.mp single).1] at member
          cases member

/-- What is read back of merged items. -/
theorem rereadItems_merge_iff (canonical : CanonicalTemplate template) :
    rereadItems (Items.merge existing template).items =
        (Items.merge existing template).items.mapValues (fun _ item => item.formed) ↔
      NumbersAgree existing template := by
  rw [← unmixed_merge_iff items]
  have shaped {id : String} {item : Item}
      (found : (Items.merge existing template).items.get? id = some item) : ShapedItem item :=
    shaped_merge items canonical (SortedMap.mem_values.mpr ⟨id, found⟩)
  constructor
  · intro same id item found
    have each := congrArg (fun items : Items => items.get? id) same
    simp only [SortedMap.get?_mapValues, found, Option.map_some, Option.some.injEq] at each
    refine ⟨(shaped found).reread_iff.mp each, fun single form member => ?_⟩
    rw [(shaped found).single single] at member
    cases member
  · intro unmixed
    refine SortedMap.ext fun id => ?_
    rw [SortedMap.get?_mapValues, SortedMap.get?_mapValues]
    cases found : (Items.merge existing template).items.get? id with
    | none => rfl
    | some item =>
      exact congrArg some ((shaped found).reread_iff.mpr (unmixed id item found).1)

/-- Which texts are kept when merged items are read back. -/
theorem keepsTexts_merge_iff (canonical : CanonicalTemplate template) :
    KeepsTexts existing (rereadItems (Items.merge existing template).items) ↔
      NumbersAgree existing template := by
  have saved (id : String) : (rereadItems (Items.merge existing template).items).get? id =
      ((Items.merge existing template).items.get? id).map rereadItem := SortedMap.get?_mapValues ..
  constructor
  · intro keeps id current placed known inside text single
    have merged : (Items.merge existing template).items.get? id = some (current.revived placed) := by
      rw [Items.get?_merge, known, inside]
      rfl
    obtain ⟨kept, there, texts⟩ := keeps id current known
    rw [saved, merged] at there
    cases there
    have shaped := shaped_merge items canonical (SortedMap.mem_values.mpr ⟨id, merged⟩)
    have unset := ((keeps_rereadItem_iff shaped.localized).mp texts).1
    refine Option.eq_none_iff_forall_ne_some.mpr fun plural counted => text (unset ?_)
    rw [show (current.revived placed).plural = current.plural.or placed.plural from rfl, single, counted]
    rfl
  · intro agree id current known
    obtain ⟨kept, there, work⟩ := Items.keepsWork_merge template known
    have shaped := shaped_merge items canonical (SortedMap.mem_values.mpr ⟨id, there⟩)
    have unmixed := (unmixed_merge_iff items).mpr agree id kept there
    refine ⟨rereadItem kept, by rw [saved, there]; rfl, ?_⟩
    rw [← work.localized, ← work.forms]
    exact (keeps_rereadItem_iff shaped.localized).mpr unmixed

end

end Catalog

open FileTree

/-! ### The file of a culture in all turns -/

/-- The file at a place is read as items. -/
def Loads (tree : FileTree) (place : Place) (items : Items) : Prop :=
  ∃ text stamp catalog, tree.get? place = some (.file (.text text) stamp) ∧
    Catalog.parse text = .ok catalog ∧ catalog.items = items

/-- The file at a place is read as items, which are none if there is no file. -/
def Starts (tree : FileTree) (place : Place) (items : Items) : Prop :=
  Loads tree place items ∨
    items = .empty ∧ ∀ content stamp, tree.get? place ≠ some (.file content stamp)

/-- A file stands at a place exactly if it stood there before. -/
def Untouched (before after : FileTree) (place : Place) : Prop :=
  ∀ content stamp, after.get? place = some (.file content stamp) ↔
    before.get? place = some (.file content stamp)

/-- The file at a place is as it was, or it is read as items. -/
def Settled (before after : FileTree) (place : Place) (items : Items) : Prop :=
  Untouched before after place ∨ Loads after place items

/-- A file that is not written stays settled. -/
theorem Settled.of_grows {tree now left : FileTree} {place : Place} {merged : Items}
    {spots : Place → Prop} (settled : Settled tree now place merged) (grows : Grows spots now left)
    (apart : ¬ spots place) : Settled tree left place merged := by
  rcases settled with untouched | ⟨text, stamp, own, there, parsed, same⟩
  · exact .inl fun content stamp => (grows.elsewhere apart).trans (untouched content stamp)
  · exact .inr ⟨text, stamp, own, (grows.elsewhere apart).mpr there, parsed, same⟩

theorem readText_ne_notFound {tree : FileTree} {path : Path} {place : Place} {content : Content}
    {stamp : Nat} (found : tree.resolve path = .ok (.present place (.file content stamp))) :
    tree.readText path ≠ .error .notFound := by
  intro missing
  unfold readText FileTree.read find at missing
  rw [found] at missing
  cases content <;> cases missing

/-- The items of a file are found on every path that reaches it. -/
theorem starts_of_loadOrEmpty {tree : FileTree} {path : Path} {place : Place} {catalog : Catalog}
    (aims : tree.Aims path place) (reached : tree.Reached path)
    (loaded : Catalog.loadOrEmpty tree path = .ok catalog) : Starts tree place catalog.items := by
  rcases Catalog.loadOrEmpty_eq_ok.mp loaded with ⟨missing, rfl⟩ | ⟨text, held, parsed⟩
  · exact .inr ⟨rfl, fun content stamp there =>
      readText_ne_notFound (reached place content stamp aims there) missing⟩
  · obtain ⟨goal, stamp, found⟩ := readText_eq_ok.mp held
    have here : goal = place := (aims_of_resolve found).unique aims
    subst here
    exact .inl ⟨text, stamp, catalog, (leads_of_resolve found).get?.1, parsed, rfl⟩

namespace Locale

variable {locale : Locale} {template existing merged : Items} {tree now left : FileTree}
  {culture : String} {place : Place} {path : Path} {spots : Place → Prop} {catalog : Catalog}

/-- What a later turn loads of a file: the items of the start, or what was merged since. -/
theorem items_of_loadOrEmpty (starts : Starts tree place existing) (reached : tree.Reached path)
    (grows : Grows spots tree now) (aims : tree.Aims path place)
    (settled : Settled tree now place merged)
    (loaded : Catalog.loadOrEmpty now path = .ok catalog) :
    catalog.items = existing ∨ catalog.items = merged := by
  rcases Catalog.loadOrEmpty_eq_ok.mp loaded with ⟨missing, rfl⟩ | ⟨text, held, parsed⟩
  · rcases starts with ⟨text, stamp, own, there, -⟩ | ⟨rfl, -⟩
    · obtain ⟨content, later, standing⟩ := grows.files there
      have found := grows.resolve (reached place (.text text) stamp aims there) standing
      exact absurd missing (readText_ne_notFound found)
    · exact .inl rfl
  · obtain ⟨goal, stamp, found⟩ := readText_eq_ok.mp held
    have here : goal = place := (grows.aims.mp (aims_of_resolve found)).unique aims
    subst here
    have there := (leads_of_resolve found).get?.1
    rcases settled with untouched | ⟨other, later, own, same, read, rfl⟩
    · have before := (untouched (.text text) stamp).mp there
      rcases starts with ⟨other, earlier, own, same, read, rfl⟩ | ⟨-, missing⟩
      · cases before.symm.trans same
        cases parsed.symm.trans read
        exact .inl rfl
      · exact absurd before (missing _ _)
    · cases there.symm.trans same
      cases parsed.symm.trans read
      exact .inr rfl

/-- **A turn leaves the file of a culture as it was, or with the items merged and read back.** -/
theorem Turn.settled {summary : LanguageSummary} {goal : Place} (writable : template.Writable)
    (good : now.Sound) (starts : Starts tree place existing)
    (trimmed : ∀ item ∈ existing.values, ∀ comment ∈ item.extracted, Catalog.IsComment comment)
    (reached : tree.Reached (locale.languagePath culture)) (grows : Grows spots tree now)
    (settled : Settled tree now place (Catalog.rereadItems (Items.merge existing template).items))
    (turn : Turn locale template culture now left summary catalog goal) :
    Settled tree left place (Catalog.rereadItems (Items.merge existing template).items) := by
  by_cases here : goal = place
  · subst here
    obtain ⟨stamp, found⟩ := turn.found
    refine .inr ⟨_, stamp, _, (leads_of_resolve found).get?.1,
      (Catalog.legible_mergedWith (turn.tidy good) writable culture).parse_render, ?_⟩
    show Catalog.rereadItems (Items.merge catalog.items template).items = _
    rcases items_of_loadOrEmpty starts reached grows (grows.aims.mp turn.aims) settled turn.loaded with
      same | same
    · rw [same]
    · rw [same, Catalog.rereadItems_merge_again trimmed]
  · exact settled.of_grows turn.grows fun same => here same.symm

/-- **All turns leave the file of a culture as it was, or with the items merged and read back.** -/
theorem settled_mergeEach (writable : template.Writable) (good : now.Sound)
    (starts : Starts tree place existing)
    (trimmed : ∀ item ∈ existing.values, ∀ comment ∈ item.extracted, Catalog.IsComment comment)
    (grows : Grows (fun _ => True) tree now) {cultures : List String}
    (reached : ∀ summary ∈ (locale.mergeEach template now cultures).1.languages,
      tree.Reached (locale.languagePath summary.culture))
    (settled : Settled tree now place (Catalog.rereadItems (Items.merge existing template).items)) :
    Settled tree (locale.mergeEach template now cultures).2 place
      (Catalog.rereadItems (Items.merge existing template).items) := by
  induction cultures generalizing now with
  | nil => exact settled
  | cons culture rest ih =>
    rw [mergeEach_cons] at reached ⊢
    cases done : locale.mergeLanguage template now culture with
    | mk outcome left =>
      rw [done] at reached
      cases outcome with
      | error error =>
        have kept (spots : Place → Prop) : Grows spots now left := grows_of_mergeLanguage done spots
        exact ih (good.of_grows (kept _)) (grows.trans (kept _)) reached
          (settled.of_grows (kept fun _ => False) not_false)
      | ok summary =>
        obtain ⟨catalog, goal, turn⟩ := turn_of_mergeLanguage good.rooted done
        have own := turn.named ▸ reached summary List.mem_cons_self
        refine ih (turn.sound writable good) (grows.trans (turn.grows.mono fun _ _ => trivial))
          (fun other member => reached other (List.mem_cons_of_mem summary member)) ?_
        exact turn.settled writable good starts trimmed own grows settled

/-! ### What is loaded -/

/-- **What is loaded of a culture after a merge** are its items, merged with the template and read
back with a form for every plural, exactly if the numbers agree. Only then are all localized texts and
forms kept. -/
theorem loadLanguage_mergeAll {configured : List String} {report : MergeReport} {after : FileTree}
    (rooted : tree.Rooted) (fits : tree.Fits) (canonical : Catalog.CanonicalTemplate template)
    (loaded : locale.loadLanguage tree culture = .ok existing)
    (items : ∀ item ∈ existing.values, Catalog.CanonicalItem item)
    (merged : locale.mergeAll configured template tree = (report, after))
    (done : ∃ summary ∈ report.languages, summary.culture = culture)
    (reached : ∀ summary ∈ report.languages, tree.Reached (locale.languagePath summary.culture)) :
    ∃ found, locale.loadLanguage after culture = .ok found ∧
      (found = (Items.merge existing template).items.mapValues (fun _ item => item.formed) ↔
        Catalog.NumbersAgree existing template) ∧
      (Catalog.KeepsTexts existing found ↔ Catalog.NumbersAgree existing template) := by
  have sound : tree.Sound := ⟨rooted, fits.tidyTexts⟩
  have writable := canonical.writable
  obtain ⟨summary, member, rfl⟩ := done
  obtain ⟨cultures, listed, turns⟩ := turns_of_mergeAll merged member
  obtain ⟨rfl, rfl⟩ := Prod.ext_iff.mp turns
  obtain ⟨start, begun, rfl⟩ := loadLanguage_eq_ok.mp loaded
  have trimmed : ∀ item ∈ start.items.values, ∀ comment ∈ item.extracted, Catalog.IsComment comment :=
    fun item inside => (items item inside).extracted
  obtain ⟨-, grows, -⟩ := mergeEach_sound locale writable sound cultures
  obtain ⟨last, -, place, ⟨catalog, stamp, tidy, found⟩, -⟩ := found_of_reported writable sound member
  have aims := grows.aims.mp (aims_of_resolve found)
  have there := (leads_of_resolve found).get?.1
  have parsed := (Catalog.legible_mergedWith tidy writable last.culture).parse_render
  have starts := starts_of_loadOrEmpty aims (reached summary member) begun
  have settled := settled_mergeEach writable sound starts trimmed (.refl _ tree) reached
    (.inl fun content stamp => Iff.rfl)
  have same : Catalog.rereadItems (Items.merge catalog.items template).items =
      Catalog.rereadItems (Items.merge start.items template).items := by
    rcases settled with untouched | ⟨text, later, own, held, read, same⟩
    · have before := (untouched _ stamp).mp there
      rcases starts with ⟨text, earlier, own, held, read, same⟩ | ⟨-, missing⟩
      · -- Merged items stood there at the start, and another merge does not change them.
        cases before.symm.trans held
        cases parsed.symm.trans read
        rw [← same]
        exact (Catalog.rereadItems_merge_again fun item inside =>
          (tidy.items item inside).extracted).symm
      · exact absurd before (missing _ _)
    · cases there.symm.trans held
      cases parsed.symm.trans read
      exact same
  refine ⟨Catalog.rereadItems (Items.merge start.items template).items,
    loadLanguage_eq_ok.mpr ⟨_, Catalog.loadOrEmpty_eq_ok.mpr
      (.inr ⟨_, readText_of_resolve found, parsed⟩), same⟩,
    Catalog.rereadItems_merge_iff items canonical, Catalog.keepsTexts_merge_iff items canonical⟩

/-- A catalog with the plural forms of a message. -/
def pluralText : String := "msgid \"cat\"\nmsgid_plural \"cats\"\nmsgstr[0] \"chat\"\n"

theorem loadLanguage_mergeAll_pluralText :
    ∃ existing found, sample.loadLanguage (sampleTree "fr" pluralText 0) "fr" = .ok existing ∧
      sample.loadLanguage
        (sample.mergeAll [] (sampleTemplate (some "cats")) (sampleTree "fr" pluralText 0)).2 "fr" =
          .ok found ∧
      found = (Items.merge existing (sampleTemplate (some "cats"))).items.mapValues
        (fun _ item => item.formed) ∧
      Catalog.KeepsTexts existing found := by
  let existing : Items :=
    SortedMap.empty.insert "cat" { Item.ofId "cat" with plural := some "cats", forms := ["chat"] }
  let result := sample.mergeAll [] (sampleTemplate (some "cats")) (sampleTree "fr" pluralText 0)
  have loaded : sample.loadLanguage (sampleTree "fr" pluralText 0) "fr" = .ok existing := by
    decide +kernel
  have found : (sampleTree "fr" pluralText 0).resolve (sample.languagePath "fr") =
      .ok (.present ["locale", "fr", languageName] (.file (.text pluralText) 0)) := by decide +kernel
  have rooted : (sampleTree "fr" pluralText 0).Rooted := by decide +kernel
  have fits : (sampleTree "fr" pluralText 0).Fits := by decide +kernel
  have canonical : Catalog.CanonicalTemplate (sampleTemplate (some "cats")) := by decide +kernel
  have items : ∀ item ∈ existing.values, Catalog.CanonicalItem item := by decide +kernel
  have reported : result.1.languages = [⟨"fr", 0, 0, true⟩] := by decide +kernel
  have agree : Catalog.NumbersAgree existing (sampleTemplate (some "cats")) := by decide +kernel
  have reached : ∀ summary ∈ result.1.languages,
      (sampleTree "fr" pluralText 0).Reached (sample.languagePath summary.culture) := by
    rw [reported]
    exact List.forall_mem_singleton.mpr (reached_of_resolve found)
  obtain ⟨later, again, same, kept⟩ :=
    loadLanguage_mergeAll rooted fits canonical loaded items (Prod.eta result).symm
      ⟨_, reported ▸ List.mem_singleton_self _, rfl⟩ reached
  exact ⟨existing, later, loaded, again, same.mpr agree, kept.mpr agree⟩

/-- A catalog with the localized text of a message. -/
def singularText : String := "msgid \"cat\"\nmsgstr \"chat\"\n"

/-- The localized text of a message that gets a plural is lost. -/
theorem loadLanguage_mergeAll_singularText :
    ∃ existing found, sample.loadLanguage (sampleTree "fr" singularText 0) "fr" = .ok existing ∧
      (∀ item ∈ existing.values, Catalog.CanonicalItem item) ∧
      Catalog.CanonicalTemplate (sampleTemplate (some "cats")) ∧
      (sample.mergeAll [] (sampleTemplate (some "cats")) (sampleTree "fr" singularText 0)).1 =
        ⟨[⟨"fr", 0, 0, true⟩], []⟩ ∧
      sample.loadLanguage
        (sample.mergeAll [] (sampleTemplate (some "cats")) (sampleTree "fr" singularText 0)).2 "fr" =
          .ok found ∧
      (existing.get? "cat").map (·.localized) = some (some "chat") ∧
      (found.get? "cat").map (·.localized) = some none := by
  let catalog : Catalog :=
    ⟨.empty, SortedMap.empty.insert "cat" { Item.ofId "cat" with localized := some "chat" }⟩
  let after := sampleTree "fr" (mergedText "fr" (sampleTemplate (some "cats")) catalog) 1
  have parsed : Catalog.parse singularText = .ok catalog := by decide +kernel
  have tidy : catalog.Tidy := Catalog.tidy_of_short parsed (by decide +kernel)
  have held : (sampleTree "fr" singularText 0).readText (sample.languagePath "fr") = .ok singularText := by
    decide +kernel
  have writable : (sampleTemplate (some "cats")).Writable := by decide +kernel
  have merged : sample.mergeAll [] (sampleTemplate (some "cats")) (sampleTree "fr" singularText 0) =
      (⟨[⟨"fr", 0, 0, true⟩], []⟩, after) := by decide +kernel
  have saved : after.readText (sample.languagePath "fr") =
      .ok (mergedText "fr" (sampleTemplate (some "cats")) catalog) := by decide +kernel
  refine ⟨catalog.items, (Catalog.mergedWith "fr" (sampleTemplate (some "cats")) catalog).reread.items,
    loadLanguage_eq_ok.mpr ⟨catalog, Catalog.loadOrEmpty_eq_ok.mpr (.inr ⟨_, held, parsed⟩), rfl⟩,
    by decide +kernel, by decide +kernel, ?_⟩
  rw [merged]
  exact ⟨rfl, loadLanguage_eq_ok.mpr ⟨_, Catalog.loadOrEmpty_eq_ok.mpr
    (.inr ⟨_, saved, parse_mergedText writable tidy "fr"⟩), rfl⟩, by decide +kernel, by decide +kernel⟩

end Locale

end Localization
