import Localization.Proofs.Translating.DefaultCulture

/-
**Dictionaries of several catalogs.**

A dictionary takes in catalogs one after the other, and what is there stays. But texts and plural forms are
in two tables that are filled each on its own, so a later catalog may add the plural forms of an id whose
text is that of an earlier one, and the other way round.

* `Catalog.text?`, `Catalog.forms?` — what a dictionary takes of a catalog for an id.
* `Catalog.Translates` — a catalog has something to show for an id.
* `Dictionary.Found`, `load_of_found` — loading catalogs that are all there.
* `Dictionary.load_earlier` — what is looked up of several catalogs, and when it is what the first one has
  that translates the id.
-/

namespace Localization

/-! ### What a catalog has for an id -/

namespace Catalog

variable {catalog : Catalog} {id : String}

/-- The text that a dictionary takes of a catalog for an id. -/
def text? (catalog : Catalog) (id : String) : Option String :=
  (catalog.items.get? id).bind Item.usableText?

/-- The plural forms that a dictionary takes of a catalog for an id. -/
def forms? (catalog : Catalog) (id : String) : Option (List String) :=
  (catalog.items.get? id).bind Item.usableForms?

/-- The catalog has an item for the id that may be shown, with a localized text or a plural form that is
not empty. -/
def Translates (catalog : Catalog) (id : String) : Prop :=
  ∃ item, catalog.items.get? id = some item ∧ item.isUsable = true ∧
    (item.localizedText? ≠ none ∨ ∃ form ∈ item.forms, form ≠ "")

/-- A catalog translates an id exactly if a dictionary takes something of it for the id. -/
theorem not_translates_iff : ¬ catalog.Translates id ↔ catalog.text? id = none ∧ catalog.forms? id = none := by
  unfold Translates text? forms?
  cases catalog.items.get? id with
  | none => simp
  | some item =>
    rw [Option.bind_some, Option.bind_some, Item.usable_eq_none_iff]
    simp only [Option.some.injEq, exists_eq_left', not_and, not_or, not_exists, Classical.not_not, ne_eq]

theorem text?_isSome_of_translates (translates : catalog.Translates id) (bare : catalog.forms? id = none) :
    ∃ text, catalog.text? id = some text := by
  refine Option.ne_none_iff_exists'.mp fun none => ?_
  exact not_translates_iff.mpr ⟨none, bare⟩ translates

end Catalog

namespace Dictionary

variable {ν : Type} {table : Dictionary → SortedMap String ν} {value? : Item → Option ν}
  {tree : FileTree} {paths : List Path} {catalogs : List Catalog}

/-! ### Loading catalogs -/

/-- A table takes for an id the value of its item, unless it has one. -/
theorem Takes.addItems (takes : Takes table value?) {items : Items} (keyed : items.Keyed)
    (dictionary : Dictionary) (id : String) :
    (table (dictionary.addItems items)).get? id =
      ((table dictionary).get? id).or ((items.get? id).bind value?) := by
  rw [Dictionary.addItems, takes.foldl, keyed.findSome?_values]

/-- The dictionary with the items of catalogs, one catalog after the other. -/
def addCatalogs (dictionary : Dictionary) (catalogs : List Catalog) : Dictionary :=
  catalogs.foldl (fun dictionary catalog => dictionary.addItems catalog.items) dictionary

/-- **A table holds for an id the value of the first catalog that has one.** -/
theorem Takes.addCatalogs (takes : Takes table value?) (keyed : ∀ catalog ∈ catalogs, catalog.items.Keyed)
    (dictionary : Dictionary) (id : String) :
    (table (dictionary.addCatalogs catalogs)).get? id =
      ((table dictionary).get? id).or
        (catalogs.findSome? fun catalog => (catalog.items.get? id).bind value?) := by
  induction catalogs generalizing dictionary with
  | nil => simp [Dictionary.addCatalogs]
  | cons catalog rest ih =>
    have others := ih (fun other member => keyed other (List.mem_cons_of_mem catalog member))
      (dictionary.addItems catalog.items)
    rw [Dictionary.addCatalogs, List.foldl_cons, ← Dictionary.addCatalogs, others,
      takes.addItems (keyed catalog List.mem_cons_self), Option.or_assoc, List.findSome?_cons]
    cases (catalog.items.get? id).bind value? <;> rfl

/-- Catalogs change neither the culture nor the rules. -/
theorem addCatalogs_culture (dictionary : Dictionary) (catalogs : List Catalog) :
    (dictionary.addCatalogs catalogs).culture = dictionary.culture ∧
      (dictionary.addCatalogs catalogs).rules = dictionary.rules := by
  induction catalogs generalizing dictionary with
  | nil => exact ⟨rfl, rfl⟩
  | cons catalog rest ih =>
    obtain ⟨culture, rules⟩ := ih (dictionary.addItems catalog.items)
    obtain ⟨sameCulture, sameRules⟩ := addItems_culture dictionary catalog.items
    exact ⟨culture.trans sameCulture, rules.trans sameRules⟩

/-- The catalogs that stand on paths, each of which leads to one. -/
def Found (tree : FileTree) (paths : List Path) (catalogs : List Catalog) : Prop :=
  paths.map (Catalog.load? tree) = catalogs.map fun catalog => .ok (some catalog)

instance (tree : FileTree) (paths : List Path) (catalogs : List Catalog) :
    Decidable (Found tree paths catalogs) :=
  inferInstanceAs (Decidable (paths.map (Catalog.load? tree) = _))

theorem Found.keyed (found : Found tree paths catalogs) : ∀ catalog ∈ catalogs, catalog.items.Keyed := by
  intro catalog member
  have inside : .ok (some catalog) ∈ paths.map (Catalog.load? tree) := found ▸ List.mem_map_of_mem member
  obtain ⟨path, -, loaded⟩ := List.mem_map.mp inside
  obtain ⟨text, -, parsed⟩ := Catalog.load?_eq_some.mp loaded
  exact Locale.keyed_of_parse parsed

theorem Found.of_place (found : Found tree paths catalogs) {place : Nat} {path : Path} {catalog : Catalog}
    (stands : paths[place]? = some path) (held : catalogs[place]? = some catalog) :
    Found tree [path] [catalog] := by
  have same := congrArg (·[place]?) found
  simpa [List.getElem?_map, stands, held, Found] using same

/-- **Catalogs that are all there are taken in one after the other.** -/
theorem load_of_found (found : Found tree paths catalogs) (rules : Plural.Rules) (culture : String) :
    load tree rules culture paths = .ok ((empty culture rules).addCatalogs catalogs) := by
  unfold load
  generalize empty culture rules = dictionary
  induction paths generalizing catalogs dictionary with
  | nil =>
    rw [Found, List.map_nil, eq_comm, List.map_eq_nil_iff] at found
    rw [found]
    rfl
  | cons path rest ih =>
    cases catalogs with
    | nil => cases found
    | cons catalog others =>
      obtain ⟨loaded, later⟩ := List.cons.inj found
      rw [loadMore, loaded]
      exact ih later _

/-! ### What is looked up -/

/-- The plural form among forms that is shown for a count. -/
def shownForm? (rules : Plural.Rules) (culture : String) (count : Int) (forms : List String) : Option String :=
  forms[rules.form culture count]?.filter (· ≠ "")

theorem lookup?_addCatalogs (keyed : ∀ catalog ∈ catalogs, catalog.items.Keyed) (rules : Plural.Rules)
    (culture id : String) :
    ((empty culture rules).addCatalogs catalogs).lookup? id = catalogs.findSome? (·.text? id) := by
  rw [lookup?, takes_singular.addCatalogs keyed]
  exact Option.none_or

theorem lookupPlural?_addCatalogs (keyed : ∀ catalog ∈ catalogs, catalog.items.Keyed) (rules : Plural.Rules)
    (culture id : String) (count : Int) :
    ((empty culture rules).addCatalogs catalogs).lookupPlural? id count =
      match catalogs.findSome? (·.forms? id) with
      | none => catalogs.findSome? (·.text? id)
      | some forms => shownForm? rules culture count forms := by
  have same := addCatalogs_culture (empty culture rules) catalogs
  have forms : ((empty culture rules).addCatalogs catalogs).plural.get? id =
      catalogs.findSome? (·.forms? id) := by
    rw [takes_plural.addCatalogs keyed]
    exact Option.none_or
  rw [lookupPlural?, forms, lookup?_addCatalogs keyed, same.1, same.2]
  rfl

/-- A value that no catalog before a place has is that of the catalog at the place, else one of those behind
it. -/
theorem findSome?_place {first : Catalog} {place : Nat} {f : Catalog → Option ν}
    (stands : catalogs[place]? = some first) (before : ∀ early ∈ catalogs.take place, f early = none) :
    catalogs.findSome? f = (f first).or ((catalogs.drop (place + 1)).findSome? f) := by
  obtain ⟨inside, rfl⟩ := List.getElem?_eq_some_iff.mp stands
  calc catalogs.findSome? f
      = (catalogs.take place ++ catalogs[place] :: catalogs.drop (place + 1)).findSome? f := by
        rw [← List.drop_eq_getElem_cons inside, List.take_append_drop]
    _ = (f catalogs[place]).or ((catalogs.drop (place + 1)).findSome? f) := by
        rw [List.findSome?_append, List.findSome?_eq_none_iff.mpr before, Option.none_or, List.findSome?_cons]
        cases f catalogs[place] <;> rfl

/-- **What is looked up of several catalogs** that are all there. Nothing is found of an id that no catalog
translates. Else the text is that of the first catalog that translates the id if this has one, or if no
later one has one either; and a plural form is that of the first catalog if this has plural forms, or if no
later one has forms that show another text. -/
theorem load_earlier (found : Found tree paths catalogs) (rules : Plural.Rules) (culture id : String) :
    ∃ dictionary, load tree rules culture paths = .ok dictionary ∧
      ((∀ catalog ∈ catalogs, ¬ catalog.Translates id) →
        dictionary.lookup? id = none ∧ ∀ count, dictionary.lookupPlural? id count = none) ∧
      ∀ (place : Nat) path first, paths[place]? = some path → catalogs[place]? = some first →
        (∀ early ∈ catalogs.take place, ¬ early.Translates id) → first.Translates id →
          ∃ own, load tree rules culture [path] = .ok own ∧
            (dictionary.lookup? id = own.lookup? id ↔
              first.text? id ≠ none ∨ ∀ late ∈ catalogs.drop (place + 1), late.text? id = none) ∧
            ∀ count, (dictionary.lookupPlural? id count = own.lookupPlural? id count ↔
              first.forms? id ≠ none ∨
                ∀ forms, (catalogs.drop (place + 1)).findSome? (·.forms? id) = some forms →
                  shownForm? rules culture count forms = first.text? id) := by
  have keyed := found.keyed
  refine ⟨_, load_of_found found rules culture, fun none => ?_, ?_⟩
  · have texts : catalogs.findSome? (·.text? id) = Option.none :=
      List.findSome?_eq_none_iff.mpr fun catalog member =>
        (Catalog.not_translates_iff.mp (none catalog member)).1
    have forms : catalogs.findSome? (·.forms? id) = Option.none :=
      List.findSome?_eq_none_iff.mpr fun catalog member =>
        (Catalog.not_translates_iff.mp (none catalog member)).2
    refine ⟨by rw [lookup?_addCatalogs keyed, texts], fun count => ?_⟩
    rw [lookupPlural?_addCatalogs keyed, forms]
    exact texts
  intro place path first stands held before translates
  have alone := found.of_place stands held
  have texts := findSome?_place (f := (·.text? id)) held fun early member =>
    (Catalog.not_translates_iff.mp (before early member)).1
  have forms := findSome?_place (f := (·.forms? id)) held fun early member =>
    (Catalog.not_translates_iff.mp (before early member)).2
  have ownText : [first].findSome? (·.text? id) = first.text? id := List.findSome?_singleton
  have ownForms : [first].findSome? (·.forms? id) = first.forms? id := List.findSome?_singleton
  refine ⟨_, load_of_found alone rules culture, ?_, fun count => ?_⟩
  · rw [lookup?_addCatalogs keyed, lookup?_addCatalogs alone.keyed, texts, ownText,
      ← List.findSome?_eq_none_iff]
    cases first.text? id <;> simp
  · rw [lookupPlural?_addCatalogs keyed, lookupPlural?_addCatalogs alone.keyed, texts, forms, ownText, ownForms]
    cases bare : first.forms? id with
    | some forms => simp
    | none =>
      obtain ⟨text, has⟩ := Catalog.text?_isSome_of_translates translates bare
      rw [has]
      cases (catalogs.drop (place + 1)).findSome? (·.forms? id) <;> simp

/-- The catalog of one item. -/
def single (item : Item) : Catalog :=
  ⟨.empty, SortedMap.empty.insert item.id item⟩

/-- Files in the root directory. -/
def filesTree (files : List (String × String)) : FileTree :=
  ⟨.ofList (files.map fun (name, text) => ([name], .file (.text text) 0)), [], 1⟩

/-- A file of another id, one with a text and plural forms, and one with another text. -/
def threeFiles : FileTree := filesTree [
  ("a.po", "msgid \"dog\"\nmsgstr \"chien\"\n"),
  ("b.po", "msgid \"cat\"\nmsgid_plural \"cats\"\nmsgstr[0] \"chat\"\n"),
  ("c.po", "msgid \"cat\"\nmsgstr \"minou\"\n")]

theorem load_earlier_threeFiles :
    ∃ dictionary own, load threeFiles .standard "fr" [⟨"/a.po"⟩, ⟨"/b.po"⟩, ⟨"/c.po"⟩] = .ok dictionary ∧
      load threeFiles .standard "fr" [⟨"/b.po"⟩] = .ok own ∧
      dictionary.lookup? "cat" = own.lookup? "cat" ∧
      ∀ count, dictionary.lookupPlural? "cat" count = own.lookupPlural? "cat" count := by
  let dog := single { Item.ofId "dog" with localized := some "chien" }
  let cat := single { Item.ofId "cat" with plural := some "cats", forms := ["chat"] }
  let late := single { Item.ofId "cat" with localized := some "minou" }
  have found : Found threeFiles [⟨"/a.po"⟩, ⟨"/b.po"⟩, ⟨"/c.po"⟩] [dog, cat, late] := by decide +kernel
  have before : ∀ early ∈ [dog, cat, late].take 1, ¬ early.Translates "cat" := by
    intro early member
    rw [List.mem_singleton.mp member]
    exact Catalog.not_translates_iff.mpr (by decide +kernel)
  have translates : cat.Translates "cat" :=
    ⟨_, rfl, rfl, .inr ⟨"chat", List.mem_cons_self, by decide⟩⟩
  obtain ⟨dictionary, loaded, -, others⟩ := load_earlier found .standard "fr" "cat"
  obtain ⟨own, alone, texts, forms⟩ := others 1 ⟨"/b.po"⟩ cat rfl rfl before translates
  exact ⟨dictionary, own, loaded, alone, texts.mpr (.inl (by decide +kernel)),
    fun count => (forms count).mpr (.inl (by decide +kernel))⟩

/-- A file with a text for an id, and one with plural forms. -/
def textThenForms : FileTree := filesTree [
  ("a.po", "msgid \"cat\"\nmsgstr \"chat\"\n"),
  ("b.po", "msgid \"cat\"\nmsgid_plural \"cats\"\nmsgstr[0] \"minou\"\n")]

/-- Plural forms are taken of a later file, although an earlier one translates the id. -/
theorem load_takes_laterForms :
    ∃ dictionary own, load textThenForms .standard "fr" [⟨"/a.po"⟩, ⟨"/b.po"⟩] = .ok dictionary ∧
      load textThenForms .standard "fr" [⟨"/a.po"⟩] = .ok own ∧
      (∀ count, own.lookupPlural? "cat" count = some "chat") ∧
      dictionary.lookup? "cat" = some "chat" ∧ dictionary.lookupPlural? "cat" 1 = some "minou" ∧
      dictionary.lookupPlural? "cat" 2 = none := by
  let chat := single { Item.ofId "cat" with localized := some "chat" }
  let minou := single { Item.ofId "cat" with plural := some "cats", forms := ["minou"] }
  have both : Found textThenForms [⟨"/a.po"⟩, ⟨"/b.po"⟩] [chat, minou] := by decide +kernel
  have one : Found textThenForms [⟨"/a.po"⟩] [chat] := by decide +kernel
  refine ⟨_, _, load_of_found both .standard "fr", load_of_found one .standard "fr", fun _ => rfl, ?_⟩
  decide +kernel

end Dictionary

end Localization
