import Localization.Proofs.SortedMap

/-
**A run of merges keeps what translators wrote.**

A language's items are merged with one template after the other. Ids leave the template, stay away
and come back, and the items go from live to obsolete and back with them.

* `get?_merge` — one merge, id by id: an item that the template has is revived or new, one that it
  lacks is retired.
* `Item.KeepsWork` — an item still has everything that translators wrote; each merge keeps it
  (`keepsWork_merge`), and so does a run (`keepsWork_mergeAll`).
* `InSync` — items have life, places and source comments from a template; every merge brings that
  about (`inSync_merge`).
* `merge_merge_self` — a merge repeated changes nothing and reports nothing.
* `merge_run` — all of it for a run of any length.
-/

namespace Localization

namespace Item

/-- An item has everything that translators wrote into another one. -/
structure KeepsWork (item kept : Item) : Prop where
  localized : kept.localized = item.localized
  forms : kept.forms = item.forms
  comments : kept.comments = item.comments
  flags : kept.flags = item.flags
  fuzzy : kept.fuzzy = item.fuzzy
  plural : ∀ plural, item.plural = some plural → kept.plural = some plural

namespace KeepsWork

theorem refl (item : Item) : item.KeepsWork item :=
  ⟨rfl, rfl, rfl, rfl, rfl, fun _ same => same⟩

theorem trans {first second third : Item} (earlier : first.KeepsWork second)
    (later : second.KeepsWork third) : first.KeepsWork third where
  localized := later.localized.trans earlier.localized
  forms := later.forms.trans earlier.forms
  comments := later.comments.trans earlier.comments
  flags := later.flags.trans earlier.flags
  fuzzy := later.fuzzy.trans earlier.fuzzy
  plural plural same := later.plural plural (earlier.plural plural same)

theorem revived (current template : Item) : current.KeepsWork (current.revived template) where
  localized := rfl
  forms := rfl
  comments := rfl
  flags := rfl
  fuzzy := rfl
  plural plural same := by simp [Item.revived, same]

theorem retired (current : Item) : current.KeepsWork current.retired :=
  ⟨rfl, rfl, rfl, rfl, rfl, fun _ same => same⟩

end KeepsWork

/-- A revived item is revived already. -/
theorem revived_revived (current template : Item) :
    (current.revived template).revived template = current.revived template := by
  simp [revived, Option.or_assoc]

/-- An item as a template holds it is revived already. -/
theorem revived_asTemplate (template : Item) :
    template.asTemplate.revived template = template.asTemplate := by
  simp [revived, asTemplate, ofId]

end Item

namespace Items

/-! ### One merge -/

/-- The item of a merge for an item of the template. -/
def liveItem (current? : Option Item) (template : Item) : Item :=
  match current? with
  | some current => current.revived template
  | none => template.asTemplate

theorem get?_live (existing template : Items) (id : String) :
    (live existing template).get? id = (template.get? id).map (liveItem (existing.get? id)) := by
  rw [live, SortedMap.get?_mapValues]
  rfl

theorem get?_leftOver (existing template : Items) (id : String) :
    (leftOver existing template).get? id =
      if id ∈ template.keys then none else existing.get? id := by
  rw [leftOver, SortedMap.get?_filter]
  by_cases inside : id ∈ template.keys
  · rw [if_pos inside, SortedMap.contains_eq_true.mpr inside]
    cases existing.get? id <;> rfl
  · rw [if_neg inside, SortedMap.contains_eq_false.mpr (SortedMap.not_mem_keys.mp inside)]
    cases existing.get? id <;> rfl

/-- **A merge, id by id.** -/
theorem get?_merge (existing template : Items) (id : String) :
    (merge existing template).items.get? id =
      ((template.get? id).map (liveItem (existing.get? id))).or
        ((existing.get? id).map Item.retired) := by
  rw [merge, SortedMap.get?_union, get?_live, SortedMap.get?_mapValues, get?_leftOver]
  by_cases inside : id ∈ template.keys
  · obtain ⟨item, found⟩ := SortedMap.mem_keys.mp inside
    rw [if_pos inside, found]
    rfl
  · rw [if_neg inside, SortedMap.not_mem_keys.mp inside, Option.map_none, Option.or_none,
      Option.none_or]

/-- No id is ever lost, and the template's are there. -/
theorem mem_keys_merge {existing template : Items} {id : String} :
    id ∈ (merge existing template).items.keys ↔ id ∈ existing.keys ∨ id ∈ template.keys := by
  simp only [SortedMap.mem_keys, get?_merge]
  cases template.get? id <;> cases existing.get? id <;> simp

theorem keepsWork_merge {existing : Items} (template : Items) {id : String} {item : Item}
    (found : existing.get? id = some item) :
    ∃ kept, (merge existing template).items.get? id = some kept ∧ item.KeepsWork kept := by
  rw [get?_merge, found]
  cases template.get? id with
  | none => exact ⟨_, rfl, .retired item⟩
  | some placed => exact ⟨_, rfl, .revived item placed⟩

/-! ### Life and places -/

/-- Items have life, places and the comments from the sources from a template. -/
structure InSync (items template : Items) : Prop where
  live : ∀ {id item placed}, items.get? id = some item → template.get? id = some placed →
    item.obsolete = false ∧ item.references = placed.references ∧
      item.extracted = placed.extracted
  retired : ∀ {id item}, items.get? id = some item → template.get? id = none →
    item.obsolete = true ∧ item.references = .empty

theorem liveItem_placed (current? : Option Item) (template : Item) :
    (liveItem current? template).obsolete = false ∧
      (liveItem current? template).references = template.references ∧
      (liveItem current? template).extracted = template.extracted := by
  cases current? <;> exact ⟨rfl, rfl, rfl⟩

/-- **A merge brings items in line with the template.** -/
theorem inSync_merge (existing template : Items) :
    InSync (merge existing template).items template where
  live found placed := by
    rw [get?_merge, placed] at found
    cases found
    exact liveItem_placed _ _
  retired found missing := by
    rw [get?_merge, missing] at found
    obtain ⟨current, -, rfl⟩ := Option.map_eq_some_iff.mp found
    exact ⟨rfl, rfl⟩

/-- In items that are in line with a template, the obsolete ones are those that it lacks. -/
theorem InSync.obsolete_iff {items template : Items} (synced : InSync items template)
    {id : String} {item : Item} (found : items.get? id = some item) :
    item.obsolete = true ↔ id ∉ template.keys := by
  rw [SortedMap.not_mem_keys]
  cases placed : template.get? id with
  | none => simp [(synced.retired found placed).1]
  | some place => simp [(synced.live found placed).1]

/-! ### What a merge reports -/

theorem mem_added {existing template : Items} {id : String} :
    id ∈ (merge existing template).added ↔ id ∈ template.keys ∧ id ∉ existing.keys := by
  rw [merge, List.mem_filter, Bool.not_eq_true', SortedMap.contains_eq_false,
    SortedMap.not_mem_keys]

theorem added_nodup (existing template : Items) : (merge existing template).added.Nodup :=
  template.keys_nodup.sublist List.filter_sublist

theorem mem_obsoleted {existing template : Items} {id : String} :
    id ∈ (merge existing template).obsoleted ↔
      ∃ item, existing.get? id = some item ∧ item.obsolete = false ∧ id ∉ template.keys := by
  simp only [merge, List.mem_map, List.mem_filter, Bool.not_eq_true', Prod.exists,
    ← SortedMap.get?_eq_some, get?_leftOver]
  constructor
  · rintro ⟨key, item, ⟨found, live⟩, rfl⟩
    by_cases inside : key ∈ template.keys
    · rw [if_pos inside] at found
      cases found
    · rw [if_neg inside] at found
      exact ⟨item, found, live, inside⟩
  · rintro ⟨item, found, live, outside⟩
    exact ⟨id, item, ⟨by rw [if_neg outside, found], live⟩, rfl⟩

/-- **The ids that a merge reports as obsolete are those that go from live to obsolete in it.** -/
theorem mem_obsoleted_iff {existing template : Items} {id : String} :
    id ∈ (merge existing template).obsoleted ↔
      (∃ item, existing.get? id = some item ∧ item.obsolete = false) ∧
        ∃ item, (merge existing template).items.get? id = some item ∧ item.obsolete = true := by
  rw [mem_obsoleted]
  constructor
  · rintro ⟨item, found, live, outside⟩
    refine ⟨⟨item, found, live⟩, item.retired, ?_, rfl⟩
    rw [get?_merge, SortedMap.not_mem_keys.mp outside, found]
    rfl
  · rintro ⟨⟨item, found, live⟩, after, merged, obsolete⟩
    exact ⟨item, found, live, ((inSync_merge existing template).obsolete_iff merged).mp obsolete⟩

/-- **A merge that is repeated changes nothing and reports nothing.** -/
theorem merge_merge_self (existing template : Items) :
    merge (merge existing template).items template =
      ⟨(merge existing template).items, [], []⟩ := by
  have items : (merge (merge existing template).items template).items =
      (merge existing template).items := by
    refine SortedMap.ext fun id => ?_
    rw [get?_merge, get?_merge]
    cases template.get? id with
    | none => cases existing.get? id <;> rfl
    | some placed =>
      cases existing.get? id with
      | none => exact congrArg some (Item.revived_asTemplate placed)
      | some current => exact congrArg some (Item.revived_revived current placed)
  have added : (merge (merge existing template).items template).added = [] := by
    refine List.eq_nil_iff_forall_not_mem.mpr fun id member => ?_
    obtain ⟨inside, outside⟩ := mem_added.mp member
    exact outside (mem_keys_merge.mpr (.inr inside))
  have obsoleted : (merge (merge existing template).items template).obsoleted = [] := by
    refine List.eq_nil_iff_forall_not_mem.mpr fun id member => ?_
    obtain ⟨item, found, live, outside⟩ := mem_obsoleted.mp member
    rw [((inSync_merge existing template).obsolete_iff found).mpr outside] at live
    cases live
  calc merge (merge existing template).items template
      = ⟨(merge (merge existing template).items template).items,
          (merge (merge existing template).items template).added,
          (merge (merge existing template).items template).obsoleted⟩ := rfl
    _ = ⟨(merge existing template).items, [], []⟩ := by rw [items, added, obsoleted]

/-! ### A run of merges -/

/-- The outcomes of merges with templates, each with the items that the one before left. -/
def outcomes (existing : Items) : List Items → List Merged
  | [] => []
  | template :: rest =>
    merge existing template :: outcomes (merge existing template).items rest

/-- The items after merges with templates, one after the other. -/
def mergeAll (existing : Items) (templates : List Items) : Items :=
  templates.foldl (fun items template => (merge items template).items) existing

theorem mergeAll_concat (existing : Items) (earlier : List Items) (last : Items) :
    existing.mergeAll (earlier ++ [last]) = (merge (existing.mergeAll earlier) last).items := by
  rw [mergeAll, List.foldl_append]
  rfl

/-- The ids of a run are those of the language and those of all templates. -/
theorem mem_keys_mergeAll {existing : Items} {templates : List Items} {id : String} :
    id ∈ (existing.mergeAll templates).keys ↔
      id ∈ existing.keys ∨ ∃ template ∈ templates, id ∈ template.keys := by
  induction templates generalizing existing with
  | nil => simp [mergeAll]
  | cons template rest ih =>
    have later := @ih (merge existing template).items
    rw [mem_keys_merge] at later
    rw [mergeAll, List.foldl_cons, ← mergeAll, later, or_assoc]
    simp only [List.mem_cons, exists_eq_or_imp]

/-- **A run of merges keeps what translators wrote.** -/
theorem keepsWork_mergeAll {existing : Items} (templates : List Items) {id : String} {item : Item}
    (found : existing.get? id = some item) :
    ∃ kept, (existing.mergeAll templates).get? id = some kept ∧ item.KeepsWork kept := by
  induction templates generalizing existing item with
  | nil => exact ⟨item, found, .refl item⟩
  | cons template rest ih =>
    obtain ⟨first, there, earlier⟩ := keepsWork_merge template found
    obtain ⟨last, inside, later⟩ := ih there
    exact ⟨last, inside, earlier.trans later⟩

/-- An id that the language has is reported as new by no merge. -/
theorem count_added_known {existing : Items} (templates : List Items) {id : String}
    (known : id ∈ existing.keys) :
    ((existing.outcomes templates).flatMap (·.added)).count id = 0 := by
  induction templates generalizing existing with
  | nil => rfl
  | cons template rest ih =>
    have first : (merge existing template).added.count id = 0 :=
      List.count_eq_zero.mpr fun member => (mem_added.mp member).2 known
    rw [outcomes, List.flatMap_cons, List.count_append, first,
      ih (mem_keys_merge.mpr (.inl known))]

/-- **An id that the language lacks is reported as new once**, if any template has it: by the first
of them. -/
theorem count_added (existing : Items) (templates : List Items) (id : String) :
    ((existing.outcomes templates).flatMap (·.added)).count id =
      if id ∉ existing.keys ∧ ∃ template ∈ templates, id ∈ template.keys then 1 else 0 := by
  by_cases known : id ∈ existing.keys
  · rw [count_added_known templates known, if_neg fun new => new.1 known]
  · induction templates generalizing existing with
    | nil => simp [outcomes]
    | cons template rest ih =>
      rw [outcomes, List.flatMap_cons, List.count_append]
      by_cases inside : id ∈ template.keys
      · have first : (merge existing template).added.count id = 1 := by
          rw [(added_nodup _ _).count, if_pos (mem_added.mpr ⟨inside, known⟩)]
        have found : id ∈ (merge existing template).items.keys :=
          mem_keys_merge.mpr (.inr inside)
        rw [first, count_added_known rest found, if_pos ⟨known, template, List.mem_cons_self, inside⟩]
      · have first : (merge existing template).added.count id = 0 :=
          List.count_eq_zero.mpr fun member => inside (mem_added.mp member).1
        have unknown : id ∉ (merge existing template).items.keys :=
          fun member => (mem_keys_merge.mp member).elim known inside
        rw [first, ih _ unknown, Nat.zero_add]
        simp only [known, unknown, inside, List.mem_cons, exists_eq_or_imp, false_or]

/-- The outcome of a merge in a run is that of a merge with the items that the ones before left. -/
theorem outcomes_getElem? (existing : Items) (past : List Items) (template : Items)
    (future : List Items) :
    (existing.outcomes (past ++ template :: future))[past.length]? =
      some (merge (existing.mergeAll past) template) := by
  induction past generalizing existing with
  | nil => rfl
  | cons first rest ih => exact ih (merge existing first).items

/-- **A run of merges, from any items through any templates.** The last items have the ids of the
language and of all templates, with everything that translators wrote; life, places and source
comments are those of the last template. Every id that the language lacks is reported as new once
and no other is, an id is reported as obsolete by the merges in which it goes from live to obsolete,
and another merge with the last template changes nothing and reports nothing. -/
theorem merge_run (existing : Items) (earlier : List Items) (last : Items) :
    let templates := earlier ++ [last]
    let final := existing.mergeAll templates
    (∀ id, id ∈ final.keys ↔ id ∈ existing.keys ∨ ∃ template ∈ templates, id ∈ template.keys) ∧
    (∀ id item, existing.get? id = some item →
      ∃ kept, final.get? id = some kept ∧ item.KeepsWork kept) ∧
    (∀ id item, final.get? id = some item →
      (item.obsolete = true ↔ id ∉ last.keys) ∧
      (item.obsolete = true → item.references = .empty) ∧
      (∀ placed, last.get? id = some placed →
        item.references = placed.references ∧ item.extracted = placed.extracted)) ∧
    (∀ id, ((existing.outcomes templates).flatMap (·.added)).count id =
      if id ∉ existing.keys ∧ ∃ template ∈ templates, id ∈ template.keys then 1 else 0) ∧
    (∀ past template future, past ++ template :: future = templates →
      let before := existing.mergeAll past
      let step := merge before template
      (existing.outcomes templates)[past.length]? = some step ∧
      ∀ id, id ∈ step.obsoleted ↔
        (∃ item, before.get? id = some item ∧ item.obsolete = false) ∧
          ∃ item, step.items.get? id = some item ∧ item.obsolete = true) ∧
    merge final last = ⟨final, [], []⟩ := by
  intro templates final
  have ends : final = (merge (existing.mergeAll earlier) last).items :=
    mergeAll_concat existing earlier last
  have synced : InSync final last := ends ▸ inSync_merge _ _
  refine ⟨fun id => mem_keys_mergeAll, fun id item => keepsWork_mergeAll templates, ?_,
    count_added existing templates, ?_, ?_⟩
  · intro id item found
    refine ⟨synced.obsolete_iff found, fun obsolete => ?_, fun placed there => ?_⟩
    · have missing := (synced.obsolete_iff found).mp obsolete
      exact (synced.retired found (SortedMap.not_mem_keys.mp missing)).2
    · exact (synced.live found there).2
  · rintro past template future split before step
    exact ⟨split ▸ outcomes_getElem? existing past template future, fun id => mem_obsoleted_iff⟩
  · rw [ends]
    exact merge_merge_self _ _

end Items

end Localization
