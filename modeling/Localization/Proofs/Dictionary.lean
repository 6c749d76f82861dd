import Localization.Dictionary
import Localization.Proofs.Catalog.Rereading

/-
**What a dictionary holds of the items it is made of.**

A dictionary has two tables, of texts and of plural forms. Both take in items one by one, and the first
usable item of an id stays.

* `Dictionary.Takes` — how a table takes in an item, and `Takes.ofItems`, what it then holds.
* `Dictionary.lookupPlural?_ofItems` — the plural form of an id for a count, by the item of the id.
-/

namespace Localization

theorem SortedMap.get?_insertNew {κ ν : Type} [StrictOrder κ] [DecidableEq κ] (map : SortedMap κ ν)
    (key other : κ) (value : ν) :
    (map.insertNew key value).get? other =
      (map.get? other).or (if key = other then some value else none) := by
  unfold insertNew
  split
  · rename_i known
    by_cases same : key = other
    · obtain ⟨held, found⟩ := Option.isSome_iff_exists.mp known
      simp [← same, found]
    · simp [same]
  · rename_i unknown
    rw [get?_insert]
    by_cases same : key = other
    · have absent : map.get? key = none := by simpa [contains] using unknown
      simp [← same, absent]
    · rw [if_neg same, if_neg (Ne.symm same), Option.or_none]

/-- Of items that stand under their ids those with one id are one. -/
theorem Items.Keyed.findSome?_values {items : Items} (keyed : items.Keyed) {ν : Type}
    (value? : Item → Option ν) (id : String) :
    (items.values.findSome? fun item => if item.id = id then value? item else none) =
      (items.get? id).bind value? := by
  have known : ∀ item ∈ items.values, items.get? item.id = some item := by
    intro item member
    obtain ⟨key, found⟩ := SortedMap.mem_values.mp member
    rw [keyed key item found]
    exact found
  have one : ∀ value, (items.values.findSome? fun item => if item.id = id then value? item else none) =
      some value → (items.get? id).bind value? = some value := by
    intro value found
    obtain ⟨item, member, own⟩ := List.exists_of_findSome?_eq_some found
    obtain ⟨rfl, given⟩ := Option.ite_none_right_eq_some.mp own
    rw [known item member]
    exact given
  cases found : items.values.findSome? fun item => if item.id = id then value? item else none with
  | some value => exact (one value found).symm
  | none =>
    cases held : items.get? id with
    | none => rfl
    | some item =>
      have absent := List.findSome?_eq_none_iff.mp found item (SortedMap.mem_values.mpr ⟨id, held⟩)
      rw [if_pos (keyed id item held)] at absent
      exact absent.symm

namespace Item

/-- The text that a dictionary takes from an item. -/
def usableText? (item : Item) : Option String :=
  if item.isUsable then item.singularText? else none

/-- The plural forms that a dictionary takes from an item. -/
def usableForms? (item : Item) : Option (List String) :=
  if item.isUsable && item.hasForms then some item.forms else none

end Item

namespace Dictionary

variable {ν : Type} {table : Dictionary → SortedMap String ν} {value? : Item → Option ν}

/-- A table takes a value from an item, unless it has one for the id. -/
def Takes (table : Dictionary → SortedMap String ν) (value? : Item → Option ν) : Prop :=
  ∀ dictionary item id, (table (addItem dictionary item)).get? id =
    ((table dictionary).get? id).or (if item.id = id then value? item else none)

theorem takes_singular : Takes singular Item.usableText? := by
  intro dictionary item id
  unfold addItem Item.usableText?
  split
  · dsimp only
    cases item.singularText? with
    | none => simp
    | some text => exact SortedMap.get?_insertNew _ _ _ _
  · simp

theorem takes_plural : Takes plural Item.usableForms? := by
  intro dictionary item id
  unfold addItem Item.usableForms?
  split
  · rename_i usable
    dsimp only
    rw [usable, Bool.true_and]
    split
    · exact SortedMap.get?_insertNew _ _ _ _
    · simp
  · rename_i unusable
    simp [unusable]

/-- What a table holds behind items is what it held, or else the value of the first item that has one. -/
theorem Takes.foldl (takes : Takes table value?) (items : List Item) (dictionary : Dictionary) (id : String) :
    (table (items.foldl addItem dictionary)).get? id =
      ((table dictionary).get? id).or
        (items.findSome? fun item => if item.id = id then value? item else none) := by
  induction items generalizing dictionary with
  | nil => simp
  | cons item rest ih =>
    rw [List.foldl_cons, ih, takes, Option.or_assoc, List.findSome?_cons]
    cases (if item.id = id then value? item else none) <;> rfl

/-- **A table of a dictionary holds for an id the value of its item.** -/
theorem Takes.ofItems (takes : Takes table value?) {items : Items} (keyed : items.Keyed)
    (culture : String) (rules : Plural.Rules) (id : String)
    (fresh : (table (empty culture rules)).get? id = none) :
    (table (Dictionary.ofItems culture rules items)).get? id = (items.get? id).bind value? := by
  rw [Dictionary.ofItems, addItems, takes.foldl, fresh, Option.none_or, keyed.findSome?_values]

theorem addItem_culture (dictionary : Dictionary) (item : Item) :
    (dictionary.addItem item).culture = dictionary.culture ∧
      (dictionary.addItem item).rules = dictionary.rules := by
  unfold addItem
  split <;> exact ⟨rfl, rfl⟩

/-- Items change neither the culture nor the rules. -/
theorem addItems_culture (dictionary : Dictionary) (items : Items) :
    (dictionary.addItems items).culture = dictionary.culture ∧
      (dictionary.addItems items).rules = dictionary.rules := by
  unfold addItems
  induction items.values generalizing dictionary with
  | nil => exact ⟨rfl, rfl⟩
  | cons item rest ih =>
    obtain ⟨culture, rules⟩ := addItem_culture dictionary item
    rw [List.foldl_cons, (ih _).1, (ih _).2]
    exact ⟨culture, rules⟩

/-- **The plural form of an id for a count, by the item of the id.** -/
theorem lookupPlural?_ofItems {items : Items} (keyed : items.Keyed) (culture : String)
    (rules : Plural.Rules) (id : String) (count : Int) :
    (ofItems culture rules items).lookupPlural? id count =
      match (items.get? id).bind Item.usableForms? with
      | none => (items.get? id).bind Item.usableText?
      | some forms => forms[rules.form culture count]?.filter (· ≠ "") := by
  have plural := takes_plural.ofItems keyed culture rules id rfl
  have singular := takes_singular.ofItems keyed culture rules id rfl
  have same := addItems_culture (empty culture rules) items
  rw [lookupPlural?, plural, lookup?, singular, ofItems, same.1, same.2]
  rfl

end Dictionary

end Localization
