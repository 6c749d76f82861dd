import Localization.Proofs.Catalog.Headers
import Localization.Proofs.Merging

/-
**Catalogs that are merged, written, read and merged again.**

What is read of a merged catalog may differ from what was written: comments are trimmed, and texts
that do not belong with a plural are lost. None of this shows in the text of the next merge with the
same template, so that this text is the same but for the header.

* `Items.Writable` — templates whose ids, comments and paths can be written.
* `mergedWith` — the catalog that a merge saves; `legible_mergedWith`.
* `merge_reread` — the items of the second merge; `body_settled` — their lines are those of the first.
* `render_remerged_iff` — when the second merge writes the text of the first one.
-/

namespace Localization

open Text

/-- Every item of a template stands under its id, which is not empty, and its comments from the
sources and its paths have no newlines. -/
structure Items.Writable (template : Items) : Prop where
  keyed : template.Keyed
  ids : ∀ item ∈ template.values, item.id ≠ ""
  extracted : ∀ item ∈ template.values, ∀ comment ∈ item.extracted, '\n' ∉ comment.toList
  paths : ∀ item ∈ template.values, ∀ place ∈ item.references.keys, '\n' ∉ place.path.toList

namespace Catalog

instance (items : Items) : Decidable items.Writable :=
  decidable_of_iff ((∀ entry ∈ items.entries, entry.2.id = entry.1) ∧
      (∀ item ∈ items.values, item.id ≠ "") ∧
      (∀ item ∈ items.values, ∀ comment ∈ item.extracted, '\n' ∉ comment.toList) ∧
      ∀ item ∈ items.values, ∀ place ∈ item.references.keys, '\n' ∉ place.path.toList)
    ⟨fun ⟨keyed, ids, extracted, paths⟩ =>
        ⟨fun id item found => keyed (id, item) (SortedMap.get?_eq_some.mp found), ids, extracted, paths⟩,
      fun good => ⟨fun entry member => good.keyed entry.1 entry.2 (SortedMap.get?_eq_some.mpr member),
        good.ids, good.extracted, good.paths⟩⟩

/-- The catalog that a merge saves for a culture, in place of the one that is there. -/
def mergedWith (culture : String) (template : Items) (catalog : Catalog) : Catalog :=
  ⟨Header.standard (some culture) catalog.header, (Items.merge catalog.items template).items⟩

variable {template : Items} {catalog : Catalog}

/-! ### Merged catalogs can be written -/

theorem keyed_merge {existing : Items} (known : existing.Keyed) (keyed : template.Keyed) :
    (Items.merge existing template).items.Keyed := by
  intro id item found
  rw [Items.get?_merge] at found
  cases placed : template.get? id with
  | none =>
    rw [placed] at found
    obtain ⟨current, there, rfl⟩ := Option.map_eq_some_iff.mp found
    exact known id current there
  | some place =>
    rw [placed] at found
    cases there : existing.get? id with
    | none =>
      rw [there] at found
      cases found
      exact keyed id place placed
    | some current =>
      rw [there] at found
      cases found
      exact known id current there

/-- A merged item is a revived, a new or a retired one. -/
theorem mem_values_merge {existing : Items} {item : Item}
    (member : item ∈ (Items.merge existing template).items.values) :
    (∃ current ∈ existing.values, ∃ placed ∈ template.values, item = current.revived placed) ∨
      (∃ placed ∈ template.values, item = placed.asTemplate) ∨
      ∃ current ∈ existing.values, item = current.retired := by
  obtain ⟨id, found⟩ := SortedMap.mem_values.mp member
  rw [Items.get?_merge] at found
  cases placed : template.get? id with
  | none =>
    rw [placed] at found
    obtain ⟨current, there, rfl⟩ := Option.map_eq_some_iff.mp found
    exact .inr (.inr ⟨current, SortedMap.mem_values.mpr ⟨id, there⟩, rfl⟩)
  | some place =>
    have inside : place ∈ template.values := SortedMap.mem_values.mpr ⟨id, placed⟩
    rw [placed] at found
    cases there : existing.get? id with
    | none =>
      rw [there] at found
      cases found
      exact .inr (.inl ⟨place, inside, rfl⟩)
    | some current =>
      rw [there] at found
      cases found
      exact .inl ⟨current, SortedMap.mem_values.mpr ⟨id, there⟩, place, inside, rfl⟩

/-- **A merge of tidy items with a writable template can be written and read again.** -/
theorem legible_mergedWith (tidy : catalog.Tidy) (writable : template.Writable) (culture : String) :
    (mergedWith culture template catalog).Legible := by
  refine ⟨keyed_merge tidy.keyed writable.keyed, tidy.header.newline, fun item member => ?_⟩
  rcases mem_values_merge member with ⟨current, known, placed, inside, rfl⟩ | ⟨placed, inside, rfl⟩ |
    ⟨current, known, rfl⟩
  · have legible := (tidy.items current known).legible
    exact { legible with
      extracted := writable.extracted placed inside
      places := writable.paths placed inside }
  · exact
      { id := writable.ids placed inside
        comments := List.forall_mem_nil _
        extracted := writable.extracted placed inside
        places := writable.paths placed inside
        flags := List.forall_mem_nil _
        sure := List.not_mem_nil
        forms := Nat.zero_le _ }
  · have legible := (tidy.items current known).legible
    exact { legible with places := List.forall_mem_nil _ }

/-! ### Items that are merged again -/

/-- An item as it is read back, but with references and comments from the sources as they were. -/
def settledItem (item : Item) : Item :=
  { rereadItem item with references := item.references, extracted := item.extracted }

/-- **What a merge makes of items that it made before**, once they were written and read. -/
theorem merge_reread {existing : Items}
    (trimmed : ∀ item ∈ existing.values, ∀ comment ∈ item.extracted, IsComment comment) :
    (Items.merge ((Items.merge existing template).items.mapValues fun _ item => rereadItem item)
        template).items =
      (Items.merge existing template).items.mapValues fun _ item => settledItem item := by
  refine SortedMap.ext fun id => ?_
  rw [Items.get?_merge, SortedMap.get?_mapValues, SortedMap.get?_mapValues, Items.get?_merge]
  cases template.get? id with
  | none =>
    cases known : existing.get? id with
    | none => rfl
    | some current =>
      have kept : current.extracted.map rereadComment = current.extracted :=
        map_rereadComment (trimmed current (SortedMap.mem_values.mpr ⟨id, known⟩))
      show some (rereadItem current.retired).retired = some (settledItem current.retired)
      simp only [Item.retired, rereadItem, settledItem, kept]
  | some placed =>
    cases existing.get? id with
    | none =>
      show some ((rereadItem placed.asTemplate).revived placed) = some (settledItem placed.asTemplate)
      simp only [Item.asTemplate, Item.ofId, Item.revived, rereadItem, settledItem, Option.or_self]
    | some current =>
      show some ((rereadItem (current.revived placed)).revived placed) =
        some (settledItem (current.revived placed))
      simp only [Item.revived, rereadItem, settledItem, Option.or_assoc, Option.or_self]

/-- A merge of items that were merged, written and read reports nothing. -/
theorem reports_merge_reread (existing template : Items) :
    let again := Items.merge ((Items.merge existing template).items.mapValues fun _ item =>
      rereadItem item) template
    again.added = [] ∧ again.obsoleted = [] := by
  constructor
  · refine List.eq_nil_iff_forall_not_mem.mpr fun id member => ?_
    obtain ⟨inside, outside⟩ := Items.mem_added.mp member
    have known : id ∈ (Items.merge existing template).items.keys := Items.mem_keys_merge.mpr (.inr inside)
    obtain ⟨item, found⟩ := SortedMap.mem_keys.mp known
    refine outside (SortedMap.mem_keys.mpr ⟨rereadItem item, ?_⟩)
    rw [SortedMap.get?_mapValues, found]
    rfl
  · refine List.eq_nil_iff_forall_not_mem.mpr fun id member => ?_
    obtain ⟨item, found, live, outside⟩ := Items.mem_obsoleted.mp member
    rw [SortedMap.get?_mapValues] at found
    obtain ⟨own, there, rfl⟩ := Option.map_eq_some_iff.mp found
    have gone : own.obsolete = true :=
      ((Items.inSync_merge existing template).obsolete_iff there).mpr outside
    rw [show (rereadItem own).obsolete = own.obsolete from rfl, gone] at live
    cases live

theorem writtenText?_settledItem (item : Item) :
    (writtenText? (settledItem item)).filter (· ≠ "") = (writtenText? item).filter (· ≠ "") := by
  have plural : (settledItem item).plural = item.plural := rfl
  have localized : (settledItem item).localized = (writtenText? item).filter (· ≠ "") := rfl
  cases single : item.plural with
  | some text =>
    rw [writtenText?_of_isSome (by rw [plural, single]; rfl), writtenText?_of_isSome (by rw [single]; rfl)]
  | none =>
    refine (filter_writtenText? (plural.trans single) ?_).trans localized
    intro empty
    have solid := (Option.filter_eq_some_iff.mp (localized.symm.trans empty)).2
    simp at solid

theorem writtenForms_settledItem (item : Item) :
    writtenForms (settledItem item) = writtenForms item := by
  have plural : (settledItem item).plural = item.plural := rfl
  cases single : item.plural with
  | none => rw [writtenForms_of_single (plural.trans single), writtenForms_of_single single]
  | some text =>
    have counted : item.plural.isSome := by
      rw [single]
      rfl
    refine writtenForms_of_isSome (plural ▸ counted) fun gone => ?_
    have written : writtenForms item = [] := gone
    by_cases empty : item.forms = []
    · rw [writtenForms, single, empty] at written
      cases written
    · exact empty (writtenForms_of_isSome counted empty ▸ written)

theorem map_rereadComment_twice (comments : List String) :
    (comments.map rereadComment).map rereadComment = comments.map rereadComment := by
  rw [List.map_map]
  refine List.map_congr_left fun comment _ => ?_
  rw [Function.comp_apply, rereadComment, rereadComment, String.toList_ofList, trimEnd_trimEnd]

/-- An item is read back in the same way after it was merged again. -/
theorem rereadItem_settledItem (item : Item) : rereadItem (settledItem item) = rereadItem item := by
  have comments : (settledItem item).comments.map rereadComment = item.comments.map rereadComment :=
    map_rereadComment_twice item.comments
  unfold rereadItem
  rw [writtenText?_settledItem, writtenForms_settledItem, comments]
  rfl

/-- **The lines of an item are the same after it was merged again.** -/
theorem itemLines_settledItem {item : Item} (comments : ∀ comment ∈ item.comments, IsComment comment) :
    itemLines (settledItem item) = itemLines item := by
  have translators : (settledItem item).comments = item.comments := map_rereadComment comments
  have above : commentLines (settledItem item) = commentLines item := by
    rw [commentLines, translators]
    rfl
  have below : localizedLines (settledItem item) = localizedLines item := by
    have plural : (settledItem item).plural = item.plural := rfl
    have mark : markOf (settledItem item) = markOf item := rfl
    unfold localizedLines
    rw [plural, mark]
    cases single : item.plural with
    | none =>
      have localized : (settledItem item).localized = (some (item.localized.getD "")).filter (· ≠ "") := by
        show (writtenText? item).filter (· ≠ "") = _
        rw [writtenText?, single]
        rfl
      have text : (settledItem item).localized.getD "" = item.localized.getD "" := by
        rw [localized]
        by_cases empty : item.localized.getD "" = ""
        · simp [empty, Option.filter]
        · simp [empty, Option.filter]
      dsimp only
      rw [text]
    | some text =>
      have forms : (settledItem item).forms = if item.forms.isEmpty then [""] else item.forms := by
        show writtenForms item = _
        rw [writtenForms, single]
        rfl
      dsimp only
      rw [forms]
      cases item.forms with
      | nil => rfl
      | cons form rest => rfl
  rw [itemLines, itemLines, above, below]
  rfl

theorem comments_merge (tidy : catalog.Tidy) {item : Item}
    (member : item ∈ (Items.merge catalog.items template).items.values) :
    ∀ comment ∈ item.comments, IsComment comment := by
  rcases mem_values_merge member with ⟨current, known, placed, -, rfl⟩ | ⟨placed, -, rfl⟩ |
    ⟨current, known, rfl⟩
  · exact (tidy.items current known).comments
  · exact List.forall_mem_nil _
  · exact (tidy.items current known).comments

theorem writtenItems_mapValues {f : Item → Item} (items : Items)
    (same : ∀ item, (f item).obsolete = item.obsolete) :
    writtenItems (items.mapValues fun _ item => f item) = (writtenItems items).map f := by
  have values : (items.mapValues fun _ item => f item).values = items.values.map f := by
    simp [SortedMap.values, SortedMap.mapValues]
  rw [writtenItems, writtenItems, values, List.filter_map, List.filter_map, List.map_append]
  simp only [Function.comp_def, same]

/-- The lines of items are the same after they were merged again. -/
theorem body_settled (items : Items)
    (comments : ∀ item ∈ items.values, ∀ comment ∈ item.comments, IsComment comment) :
    (writtenItems (items.mapValues fun _ item => settledItem item)).flatMap
        (fun item => [] :: itemLines item) =
      (writtenItems items).flatMap fun item => [] :: itemLines item := by
  rw [writtenItems_mapValues (f := settledItem) items fun _ => rfl, List.flatMap_map, List.flatMap_def,
    List.flatMap_def]
  refine congrArg List.flatten (List.map_congr_left fun item member => ?_)
  rw [itemLines_settledItem (comments item (mem_writtenItems.mp member))]

/-- Items as they are read back. -/
abbrev rereadItems (items : Items) : Items :=
  items.mapValues fun _ item => rereadItem item

/-- **Items that were merged and read back are the same after another merge.** -/
theorem rereadItems_merge_again {existing : Items}
    (trimmed : ∀ item ∈ existing.values, ∀ comment ∈ item.extracted, IsComment comment) :
    rereadItems (Items.merge (rereadItems (Items.merge existing template).items) template).items =
      rereadItems (Items.merge existing template).items := by
  refine SortedMap.ext fun id => ?_
  rw [merge_reread trimmed, SortedMap.get?_mapValues, SortedMap.get?_mapValues, SortedMap.get?_mapValues,
    Option.map_map]
  exact congrArg (fun f => ((Items.merge existing template).items.get? id).map f)
    (funext rereadItem_settledItem)

/-! ### The second merge -/

/-- The catalog that a second merge saves has the items of the first one, settled. -/
theorem items_remerged (template : Items) (tidy : catalog.Tidy) (culture other : String) :
    (mergedWith other template (mergedWith culture template catalog).reread).items =
      (mergedWith culture template catalog).items.mapValues fun _ item => settledItem item :=
  merge_reread fun item member => (tidy.items item member).extracted

/-- The text of a second merge is that of the first one with the header of the second. -/
theorem render_remerged (tidy : catalog.Tidy) (culture other : String) :
    render (mergedWith other template (mergedWith culture template catalog).reread) =
      render ⟨Header.standard (some other) (rereadHeader (Header.standard (some culture) catalog.header)),
        (mergedWith culture template catalog).items⟩ := by
  have items := items_remerged template tidy culture other
  have same := body_settled (mergedWith culture template catalog).items
    fun item => comments_merge tidy
  rw [render, render, renderChars, renderChars, lines, lines, items, same]
  rfl

/-- **A second merge writes the text of the first one exactly if it is for the same culture and the
name of the culture brings in no fields.** -/
theorem render_remerged_iff (tidy : catalog.Tidy) (culture other : String) :
    render (mergedWith other template (mergedWith culture template catalog).reread) =
        render (mergedWith culture template catalog) ↔
      other = culture ∧ strayFields culture = [] := by
  have first := tidy.header.reread (some culture)
  rw [render_remerged tidy]
  constructor
  · intro same
    have named := language_of_render_eq first tidy.header same
    cases named
    have lines := standardLines_of_render_eq first tidy.header same
    have fields := List.append_cancel_right (List.append_cancel_left lines)
    have count := congrArg List.length fields
    rw [filter_rereadHeader tidy.header, Option.toList_some, List.flatMap_singleton, List.length_map,
      List.length_map, List.length_append] at count
    exact ⟨rfl, List.length_eq_zero_iff.mp (by omega)⟩
  · rintro ⟨rfl, clean⟩
    rw [standard_reread tidy.header, Option.toList_some, List.flatMap_singleton, clean]
    rfl

end Catalog

end Localization
