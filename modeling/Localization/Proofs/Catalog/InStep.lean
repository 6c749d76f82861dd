import Localization.Proofs.Catalog.Remerging
import Localization.Proofs.Catalog.Templates

/-
**Items in step with a template.**

Items are in step with a template if another merge would bring in no item, revive or retire none, and
leave the live ones where they are in the sources.

* `Item.life`, `Items.lives` — which items are live, and where.
* `Items.InStep` — items and a template; `lives_merge` shows what the notion depends on.
* `Items.Clean` — what scans find where no comment has several lines.
* `inStep_rereadItems_merge`, `Clean.inStep` — merged items and templates are read back in step.
* `places_of_render_eq` — templates with one text have the same places.
-/

namespace Localization

/-- The places of an item, unless it is obsolete. -/
def Item.life (item : Item) : Option (SortedSet Reference) :=
  if item.obsolete then none else some item.references

namespace Items

open Catalog

variable {items other existing template : Items} {id : String}

/-- Whether there is an item for an id, and its life. -/
def lives (items : Items) (id : String) : Option (Option (SortedSet Reference)) :=
  (items.get? id).map Item.life

/-- Items have the same ids, of which the same are live, in the same places. -/
def SameLife (first second : Items) : Prop := ∀ id, first.lives id = second.lives id

/-- A merge with the template would keep the life of the items. -/
def InStep (items template : Items) : Prop := SameLife (merge items template).items items

/-- The places of an item of a template. -/
def places (template : Items) (id : String) : Option (SortedSet Reference) :=
  (template.get? id).map (·.references)

/-- **The life of merged items** comes from the places of the template, and from the ids that there
were. -/
theorem lives_merge (items template : Items) (id : String) :
    (merge items template).items.lives id =
      ((template.places id).map some).or ((items.lives id).map fun _ => none) := by
  unfold lives places
  rw [get?_merge]
  cases template.get? id with
  | none => cases items.get? id <;> rfl
  | some placed => cases items.get? id <;> rfl

theorem InStep.congr (same : ∀ id, template.places id = other.places id) :
    items.InStep template ↔ items.InStep other := by
  unfold InStep SameLife
  simp only [lives_merge, same]

theorem InStep.of_sameLife (step : items.InStep template) (same : SameLife other items) :
    other.InStep template := by
  intro id
  rw [lives_merge, same id, ← lives_merge]
  exact step id

/-! ### Clean scans -/

/-- What a scan finds where no comment has several lines. -/
structure Clean (template : Items) : Prop where
  keyed : template.Keyed
  scanned : ∀ item ∈ template.values, Scanned item
  comments : ∀ item ∈ template.values, ∀ comment ∈ item.extracted, '\n' ∉ comment.toList

theorem Clean.writable (clean : template.Clean) : template.Writable where
  keyed := clean.keyed
  ids item member := (clean.scanned item member).id
  extracted := clean.comments
  paths item member place inside := ((clean.scanned item member).paths place inside).newline

theorem Clean.references (clean : template.Clean) {placed : Item}
    (found : template.get? id = some placed) :
    rereadReferences placed.references.keys = placed.references := by
  have scanned := clean.scanned placed (SortedMap.mem_values.mpr ⟨id, found⟩)
  exact rereadReferences_of_canonical scanned.paths scanned.fits

theorem Clean.legible (clean : template.Clean) {header : Header}
    (comments : ∀ comment ∈ header.comments, '\n' ∉ comment.toList) :
    (⟨header, template⟩ : Catalog).Legible := by
  refine ⟨clean.keyed, comments, fun item member => ?_⟩
  have scanned := clean.scanned item member
  rw [← scanned.untouched]
  exact
    { id := scanned.id
      comments := List.forall_mem_nil _
      extracted := clean.comments item member
      places := fun place inside => (scanned.paths place inside).newline
      flags := List.forall_mem_nil _
      sure := List.not_mem_nil
      forms := Nat.zero_le _ }

/-! ### Items that are read back -/

theorem lives_rereadItems (items : Items) (id : String) :
    (rereadItems items).lives id = ((items.get? id).map rereadItem).map Item.life := by
  rw [lives, SortedMap.get?_mapValues]

/-- Merged items are read back with their life. -/
theorem lives_rereadItems_merge (clean : template.Clean) (existing : Items) (id : String) :
    (rereadItems (merge existing template).items).lives id = (merge existing template).items.lives id := by
  rw [lives_rereadItems, lives, get?_merge]
  cases placed : template.get? id with
  | none => cases existing.get? id <;> rfl
  | some item =>
    have same := clean.references placed
    cases existing.get? id with
    | none => exact congrArg (fun set => some (some set)) same
    | some current => exact congrArg (fun set => some (some set)) same

/-- **Merged items are read back in step with the template.** -/
theorem inStep_rereadItems_merge (clean : template.Clean) (existing : Items) :
    (rereadItems (merge existing template).items).InStep template := by
  intro id
  rw [lives_merge, lives_rereadItems_merge clean, lives_merge]
  cases template.places id with
  | none => cases existing.lives id <;> rfl
  | some places => rfl

/-- A template is read back with its places. -/
theorem Clean.lives_reread (clean : template.Clean) (id : String) :
    (rereadItems template).lives id = (template.places id).map some := by
  rw [lives_rereadItems, places]
  cases placed : template.get? id with
  | none => rfl
  | some item =>
    have live := (clean.scanned item (SortedMap.mem_values.mpr ⟨id, placed⟩)).obsolete
    have same := clean.references placed
    show some (if item.obsolete then none else some (rereadReferences item.references.keys)) = _
    rw [live, same]
    rfl

/-- **A template is read back in step with itself.** -/
theorem Clean.inStep (clean : template.Clean) : (rereadItems template).InStep template := by
  intro id
  rw [lives_merge, clean.lives_reread]
  cases template.places id <;> rfl

/-- **Templates with one text have the same places.** -/
theorem places_of_render_eq {header second : Header} (clean : template.Clean) (cleanOther : other.Clean)
    (comments : ∀ comment ∈ header.comments, '\n' ∉ comment.toList)
    (commentsOther : ∀ comment ∈ second.comments, '\n' ∉ comment.toList)
    (same : render ⟨header, template⟩ = render ⟨second, other⟩) (id : String) :
    template.places id = other.places id := by
  have parsed := (clean.legible comments).parse_render
  rw [same, (cleanOther.legible commentsOther).parse_render] at parsed
  have items : rereadItems other = rereadItems template := congrArg Catalog.items (Except.ok.inj parsed)
  have lives := clean.lives_reread id
  rw [← items, cleanOther.lives_reread] at lives
  revert lives
  cases template.places id <;> cases other.places id <;> simp [eq_comm]

end Items

end Localization
