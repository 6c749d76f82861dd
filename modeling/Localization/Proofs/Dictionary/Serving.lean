import Localization.Proofs.Dictionary
import Localization.Proofs.Nugget.Replacing

/-
**What is looked up in a dictionary, and what a nugget shows.**

A dictionary answers with what translators say, and never with an empty text. What is looked up is either a
text, for a message without a count, or a plural form, for one with a count; and where the items have plural
forms at all, no other text takes the place of a form that is missing.

* `Item.Says`, `Item.SaysFor` — what an item says for a message, without and with a plural form.
* `Dictionary.lookup?_eq_some_iff`, `lookupPlural?_eq_some_iff` — this is what is looked up.
* `Nugget.Shows` — a message takes the place of a nugget, in every text in which it is the first.
* `Dictionary.serves_usable` — what a dictionary of items answers, and what nuggets show with it.
-/

namespace Localization

/-! ### What an item says -/

namespace Item

/-- What an item says for a message: its localized text, or its first plural form if it has no such text.
An empty text says nothing. -/
inductive Says (item : Item) : String → Prop
  | localized {text} (given : item.localized = some text) (filled : text ≠ "") : item.Says text
  | firstForm {text others} (missing : ∀ text, item.localized = some text → text = "")
      (first : item.forms = text :: others) (filled : text ≠ "") : item.Says text

/-- What an item says for a message with a plural form: the text of this form, or what it says anyway if all
its plural forms are empty. -/
inductive SaysFor (item : Item) (form : Nat) : String → Prop
  | form {text} (given : item.forms[form]? = some text) (filled : text ≠ "") : item.SaysFor form text
  | formless {text} (empty : ∀ form ∈ item.forms, form = "") (said : item.Says text) :
      item.SaysFor form text

variable {item : Item} {form : Nat} {text : String}

theorem Says.filled (said : item.Says text) : text ≠ "" := by
  cases said <;> assumption

theorem SaysFor.filled (said : item.SaysFor form text) : text ≠ "" := by
  cases said with
  | form given filled => exact filled
  | formless empty said => exact said.filled

theorem localizedText?_eq_none_iff :
    item.localizedText? = none ↔ ∀ text, item.localized = some text → text = "" := by
  simp [localizedText?, Option.filter_eq_none_iff]

/-- **The text of an item is what it says.** -/
theorem singularText?_eq_some_iff : item.singularText? = some text ↔ item.Says text := by
  rw [singularText?, Option.or_eq_some_iff, localizedText?_eq_none_iff]
  simp only [localizedText?, Option.filter_eq_some_iff, decide_eq_true_iff, List.head?_eq_some_iff]
  constructor
  · rintro (⟨given, filled⟩ | ⟨missing, ⟨others, first⟩, filled⟩)
    · exact .localized given filled
    · exact .firstForm missing first filled
  · rintro (⟨given, filled⟩ | ⟨missing, first, filled⟩)
    · exact .inl ⟨given, filled⟩
    · exact .inr ⟨missing, ⟨_, first⟩, filled⟩

theorem hasForms_eq_false_iff : item.hasForms = false ↔ ∀ form ∈ item.forms, form = "" := by
  simp [hasForms]

/-- An item with a plural form that is not empty says nothing but its forms. -/
theorem saysFor_iff_of_hasForms (has : item.hasForms = true) :
    item.SaysFor form text ↔ item.forms[form]?.filter (· ≠ "") = some text := by
  rw [Option.filter_eq_some_iff, decide_eq_true_iff]
  constructor
  · rintro (⟨given, filled⟩ | ⟨empty, said⟩)
    · exact ⟨given, filled⟩
    · rw [hasForms_eq_false_iff.mpr empty] at has
      cases has
  · rintro ⟨given, filled⟩
    exact .form given filled

theorem saysFor_iff_of_formless (formless : item.hasForms = false) :
    item.SaysFor form text ↔ item.Says text := by
  have empty := hasForms_eq_false_iff.mp formless
  constructor
  · rintro (⟨given, filled⟩ | ⟨-, said⟩)
    · exact absurd (empty text (List.mem_of_getElem? given)) filled
    · exact said
  · exact fun said => .formless empty said

/-- The item may be shown: it is neither obsolete nor uncertain. -/
theorem isUsable_iff : item.isUsable = true ↔ item.obsolete = false ∧ item.fuzzy = false := by
  simp [isUsable]

end Item

/-! ### What is looked up -/

namespace Dictionary

variable {items : Items} {text : String}

/-- **The text that is looked up is what the item says.** -/
theorem lookup?_eq_some_iff (keyed : items.Keyed) (culture : String) (rules : Plural.Rules) (id : String) :
    (ofItems culture rules items).lookup? id = some text ↔
      ∃ item, items.get? id = some item ∧ item.isUsable = true ∧ item.Says text := by
  have table := takes_singular.ofItems keyed culture rules id rfl
  rw [lookup?, table, Option.bind_eq_some_iff]
  simp only [Item.usableText?, Option.ite_none_right_eq_some, Item.singularText?_eq_some_iff]

/-- **The plural form that is looked up is what the item says for it.** -/
theorem lookupPlural?_eq_some_iff (keyed : items.Keyed) (culture : String) (rules : Plural.Rules)
    (id : String) (count : Int) :
    (ofItems culture rules items).lookupPlural? id count = some text ↔
      ∃ item, items.get? id = some item ∧ item.isUsable = true ∧
        item.SaysFor (rules.form culture count) text := by
  rw [lookupPlural?_ofItems keyed]
  cases items.get? id with
  | none => simp
  | some item =>
    simp only [Option.bind_some, Item.usableForms?, Item.usableText?, Option.some.injEq,
      exists_eq_left']
    cases item.isUsable with
    | false => simp
    | true =>
      cases forms : item.hasForms with
      | false => simp [Item.saysFor_iff_of_formless forms, Item.singularText?_eq_some_iff]
      | true => simp [Item.saysFor_iff_of_hasForms forms]

end Dictionary

/-! ### What a nugget shows -/

namespace Nugget

/-- What a nugget becomes with a message: the message, with the parameters of the nugget filled in if it
has any. -/
def shown (nugget : Nugget) (message : String) : Except Overwide String :=
  if nugget.isFormatted then fillIn message nugget.items else .ok message

/-- A message takes the place of a nugget: by itself, and in every text in which the nugget is the
first. -/
structure Shows (nugget : Nugget) (dictionary : Dictionary) (message : String) : Prop where
  resolved : nugget.resolve dictionary = nugget.shown message
  replaced {markup : Markup} {text : String} {gap rest : List Char} {capture : Capture} :
    markup.first? text.toList = some (gap, capture, rest) → capture.nugget = nugget →
      markup.replace dictionary text = (nugget.shown message).bind fun word =>
        (markup.replace dictionary (.ofList rest)).map (String.ofList gap ++ word ++ ·)

/-- A nugget shows what was found for it, and its id if nothing was found. -/
structure Follows (nugget : Nugget) (dictionary : Dictionary) (found : Option String) : Prop where
  message : ∀ text, found = some text → nugget.Shows dictionary text
  fallback : found = none → nugget.Shows dictionary nugget.id

theorem shows_of_resolve {nugget : Nugget} {dictionary : Dictionary} {message : String}
    (resolved : nugget.resolve dictionary = nugget.shown message) : nugget.Shows dictionary message where
  resolved := resolved
  replaced found same := by rw [Markup.replace_of_first? found, same, resolved]

/-- A nugget shows what is looked up for it. -/
theorem follows_localized? (nugget : Nugget) (dictionary : Dictionary) :
    nugget.Follows dictionary (nugget.localized? dictionary) where
  message text found := shows_of_resolve (by rw [resolve, found]; rfl)
  fallback missing := shows_of_resolve (by rw [resolve, missing]; rfl)

end Nugget

namespace Dictionary

/-- **A dictionary answers exactly with what the items say that may be shown.** What is looked up of an id is
what its item says, if this is neither obsolete nor uncertain, and for a count what it says for the form of
the count. No answer is empty. A nugget whose first parameter is a number shows what is looked up for this
count, and any other what is looked up without one; its id is shown exactly if nothing is found. -/
theorem serves_usable {items : Items} (keyed : items.Keyed) (culture : String) (rules : Plural.Rules) :
    (∀ id text, (ofItems culture rules items).lookup? id = some text ↔
      ∃ item, items.get? id = some item ∧ (item.obsolete = false ∧ item.fuzzy = false) ∧ item.Says text) ∧
    (∀ id count text, (ofItems culture rules items).lookupPlural? id count = some text ↔
      ∃ item, items.get? id = some item ∧ (item.obsolete = false ∧ item.fuzzy = false) ∧
        item.SaysFor (rules.form culture count) text) ∧
    (∀ id, (ofItems culture rules items).lookup? id ≠ some "" ∧
      ∀ count, (ofItems culture rules items).lookupPlural? id count ≠ some "") ∧
    ∀ nugget : Nugget,
      (∀ count, nugget.count? = some count → nugget.Follows (ofItems culture rules items)
        ((ofItems culture rules items).lookupPlural? nugget.id count)) ∧
      (nugget.count? = none → nugget.Follows (ofItems culture rules items)
        ((ofItems culture rules items).lookup? nugget.id)) := by
  simp only [← Item.isUsable_iff]
  refine ⟨fun id text => lookup?_eq_some_iff keyed culture rules id,
    fun id count text => lookupPlural?_eq_some_iff keyed culture rules id count, fun id => ⟨?_, ?_⟩, ?_⟩
  · intro found
    obtain ⟨item, -, -, said⟩ := (lookup?_eq_some_iff keyed culture rules id).mp found
    exact said.filled rfl
  · intro count found
    obtain ⟨item, -, -, said⟩ := (lookupPlural?_eq_some_iff keyed culture rules id count).mp found
    exact said.filled rfl
  · intro nugget
    have follows := nugget.follows_localized? (ofItems culture rules items)
    refine ⟨fun count counted => ?_, fun uncounted => ?_⟩
    · rwa [Nugget.localized?, counted] at follows
    · rwa [Nugget.localized?, uncounted] at follows

/-- An item with an empty text and an empty first form, an uncertain one, and one with an empty form only. -/
def mixedItems : Items := .ofList [
  ("cat", { Item.ofId "cat" with localized := some "", forms := ["", "chats"] }),
  ("dog", { Item.ofId "dog" with localized := some "chien", fuzzy := true }),
  ("hen", { Item.ofId "hen" with localized := some "poule", forms := [""] })]

theorem serves_usable_mixedItems :
    mixedItems.Keyed ∧ (ofItems "fr" .standard mixedItems).lookup? "cat" = none ∧
      (ofItems "fr" .standard mixedItems).lookupPlural? "cat" 2 = some "chats" ∧
      (ofItems "fr" .standard mixedItems).lookup? "dog" ≠ some "chien" ∧
      (ofItems "fr" .standard mixedItems).lookupPlural? "hen" 2 = some "poule" ∧
      (⟨"cat", ["1"], none⟩ : Nugget).Shows (ofItems "fr" .standard mixedItems) "cat" := by
  have keyed : mixedItems.Keyed := by
    have each : ∀ entry ∈ mixedItems.entries, entry.2.id = entry.1 := by decide +kernel
    exact fun id item found => each (id, item) (SortedMap.get?_eq_some.mp found)
  obtain ⟨texts, forms, -, nuggets⟩ := serves_usable keyed "fr" .standard
  refine ⟨keyed, Option.eq_none_iff_forall_ne_some.mpr fun text found => ?_,
    (forms "cat" 2 "chats").mpr ?_, fun found => ?_, (forms "hen" 2 "poule").mpr ?_, ?_⟩
  · obtain ⟨item, held, -, said⟩ := (texts "cat" text).mp found
    cases held
    cases said with
    | localized given filled => exact filled (Option.some.inj given).symm
    | firstForm missing first filled => exact filled (List.cons.inj first).1.symm
  · exact ⟨_, rfl, ⟨rfl, rfl⟩, .form rfl (by decide)⟩
  · obtain ⟨item, held, ⟨-, sure⟩, -⟩ := (texts "dog" "chien").mp found
    cases held
    cases sure
  · exact ⟨_, rfl, ⟨rfl, rfl⟩, .formless (by decide) (.localized rfl (by decide))⟩
  · exact ((nuggets _).1 1 (by decide +kernel)).fallback (by decide +kernel)

end Dictionary

end Localization
