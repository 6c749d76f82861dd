import Localization.Proofs.Cache
import Localization.Proofs.FileTree.Readings
import Localization.Translator

/-
**The dictionaries that texts are translated with.**

A translator keeps the dictionaries that it has loaded. What the files of a culture hold is a matter of
what is read on their paths.

* `Service.offered` — the dictionary of a culture where no cache stands between.
* `Locale.dictionary` — the dictionary of a culture, from the files it is served from.
* `Locale.dictionary_of_grows` — it stays the same while other files are stored.
-/

namespace Localization

open FileTree

/-! ### Services -/

/-- The dictionary of a culture where no cache stands between. It has no texts if it cannot be loaded. -/
def Service.offered {ρ : Type} (service : Service ρ) (culture : String) : Dictionary :=
  match service.load culture with
  | .ok dictionary => dictionary
  | .error _ => .empty culture .standard

/-- What a cache answers of a dictionary that is loaded for it is that dictionary. -/
theorem Service.served_build {ρ : Type} (service : Service ρ) (culture : String) :
    served culture (.fresh (service.build culture)) = service.offered culture := by
  unfold build offered
  cases service.load culture <;> rfl

theorem Translator.translate_eq (translator : Translator) (tree : FileTree) (now : Nat)
    (culture text : String) :
    translator.translate tree now culture text =
      (translator.markup.replace (translator.dictionary tree now culture).1 text,
        (translator.dictionary tree now culture).2) := rfl

/-! ### Dictionaries of cultures -/

namespace Locale

variable {locale : Locale} {tree now : FileTree} {culture : String} {spots : Place → Prop}

/-- The dictionary of a culture, from the files it is served from. It has no texts if these cannot be
read. -/
def dictionary (locale : Locale) (tree : FileTree) (culture : String) : Dictionary :=
  match Dictionary.load tree .standard culture (locale.files culture) with
  | .ok dictionary => dictionary
  | .error _ => .empty culture .standard

theorem files_eq (locale : Locale) (culture : String) : ∃ path, locale.files culture = [path] := by
  unfold files
  split
  · exact ⟨_, rfl⟩
  · exact ⟨_, rfl⟩

/-- There are no texts where no file can be read. -/
theorem dictionary_of_unread {path : Path} (served : locale.files culture = [path])
    (unread : ∀ text, tree.readText path ≠ .ok text) :
    locale.dictionary tree culture = .empty culture .standard := by
  unfold dictionary Dictionary.load
  rw [served, Dictionary.loadMore, Catalog.load?]
  cases read : tree.readText path with
  | ok text => exact absurd read (unread text)
  | error error => cases error <;> rfl

/-- **The dictionary of a culture stays the same** while files are stored elsewhere, unless its path
misses a file. -/
theorem dictionary_of_grows (rooted : tree.Rooted) (grows : Grows spots tree now)
    (seen : ∀ path ∈ locale.files culture, ∀ place, ¬ tree.Misses path place)
    (apart : ∀ path ∈ locale.files culture, ∀ place, tree.Aims path place → ¬ spots place) :
    locale.dictionary now culture = locale.dictionary tree culture := by
  obtain ⟨path, served⟩ := locale.files_eq culture
  have own : path ∈ locale.files culture := served ▸ List.mem_singleton_self path
  by_cases missing : tree.find path = .error .notFound
  · have before (text : String) : tree.readText path ≠ .ok text := by
      rw [readText, read_of_missing missing]
      intro same
      cases same
    have after (text : String) : now.readText path ≠ .ok text := by
      exact grows.readText_of_missing (apart path own) missing (seen path own) text
    rw [dictionary_of_unread served before, dictionary_of_unread served after]
  · have same := readText_congr (grows.read_eq rooted (apart path own) missing)
    have loaded : Catalog.load? now path = Catalog.load? tree path := by
      unfold Catalog.load?
      rw [same]
    unfold dictionary Dictionary.load
    rw [served, Dictionary.loadMore, loaded, Dictionary.loadMore]
    rfl

end Locale

end Localization
