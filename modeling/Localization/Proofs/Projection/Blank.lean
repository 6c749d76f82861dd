import Localization.Proofs.Projection

/-
**Cultures without texts.**

A copy can be stored where the catalog of its culture is looked for. If nothing was found there for the
start, the culture has no texts, and it goes on having none: by then that there were none is kept, or
nothing can be read on the path of the catalog.

* `Clear` — no file stands where copies are to be stored; `Clear.step`.
* `Blank` — a culture has no texts; `Blank.makeCopy`, `Blank.makeCopies`.
* `exists_turn` — a copy is made with the dictionary of its culture as it was at the start.
-/

namespace Localization

open FileTree

namespace Projection

/-! ### Places of copies -/

variable {locale : Locale} {tree now left after : FileTree} {translator next : Translator}
  {copy : Copy} {before sooner rest copies : List Copy} {written : Nat} {culture : String} {path : Path}

/-- No file stands where copies are to be stored. -/
def Clear (tree : FileTree) (copies : List Copy) : Prop :=
  ∀ copy ∈ copies, ∀ place, tree.Aims copy.target place →
    ∀ content stamp, tree.get? place ≠ some (.file content stamp)

/-- A file where no copy is to be stored. -/
theorem Clear.not_targeted (clear : Clear tree copies) {place : Place} {content : Content} {stamp : Nat}
    (file : tree.get? place = some (.file content stamp)) : ¬ Targeted tree copies place := by
  rintro ⟨copy, member, aims⟩
  exact clear copy member place aims content stamp file

/-- A copy that is made leaves the places of the others free. -/
theorem Clear.step (clear : Clear now (copy :: rest))
    (apart : (copy :: rest).Pairwise fun first second => ¬ now.Shares first.target second.target)
    (grows : Grows (Targeted now [copy]) now left) :
    Clear left rest ∧ rest.Pairwise fun first second => ¬ left.Shares first.target second.target := by
  obtain ⟨own, others⟩ := List.pairwise_cons.mp apart
  refine ⟨fun other member place aims content stamp file => ?_, ?_⟩
  · have aimed := grows.aims.mp aims
    by_cases spot : Targeted now [copy] place
    · obtain ⟨same, inside, reaches⟩ := spot
      rw [List.mem_singleton.mp inside] at reaches
      exact own other member ⟨place, reaches, aimed⟩
    · exact clear other (List.mem_cons_of_mem copy member) place aimed content stamp
        ((grows.elsewhere spot).mp file)
  · simp only [grows.shares]
    exact others

/-! ### Paths without texts -/

/-- No text is ever read on the path, whatever files are stored. -/
def Never (path : Path) (now : FileTree) : Prop :=
  ∀ after, Grows (fun _ => True) now after → ∀ text, after.readText path ≠ .ok text

/-- No text stands where the path aims. -/
def Free (path : Path) (now : FileTree) : Prop :=
  ∀ place, now.Aims path place → ∀ text stamp, now.get? place ≠ some (.file (.text text) stamp)

section Paths

variable {spots : Place → Prop} {place : Place} {error : FileError}

theorem Never.onward (never : Never path now) (grows : Grows spots now left) : Never path left :=
  fun after further => never after ((grows.mono fun _ _ => trivial).trans further)

theorem never_of_error (rooted : now.Rooted) (known : error ≠ .notFound)
    (failed : now.find path = .error error) : Never path now := by
  intro after grows text read
  rw [readText, FileTree.read, grows.find_error rooted known failed] at read
  cases read

theorem never_of_directory (found : now.resolve path = .ok (.present place .directory)) :
    Never path now := by
  intro after grows text read
  rw [readText, FileTree.read, find_eq_ok.mpr (grows.keeps.resolve_directory found)] at read
  cases read

theorem Free.readText (free : Free path now) (text : String) : now.readText path ≠ .ok text := by
  intro read
  obtain ⟨place, stamp, found⟩ := readText_eq_ok.mp read
  exact free place (aims_of_resolve found) text stamp (leads_of_resolve found).get?.1

/-- A path on which no file is found, and that misses none, is without texts for a start. -/
theorem never_or_free (rooted : tree.Rooted) (missing : tree.isFile path = false)
    (seen : ∀ place, ¬ tree.Misses path place) : Never path tree ∨ Free path tree := by
  cases found : tree.find path with
  | ok pair =>
    obtain ⟨place, entry⟩ := pair
    have there := find_eq_ok.mp found
    cases entry with
    | file content stamp =>
      rw [isFile_iff.mpr ⟨place, content, stamp, there⟩] at missing
      cases missing
    | link target => exact absurd rfl (not_link_of_resolve rooted there target)
    | directory => exact .inl (never_of_directory there)
  | error error =>
    by_cases known : error = .notFound
    · subst known
      exact .inr fun place aims text stamp file => seen place ⟨aims, ⟨_, stamp, file⟩, found⟩
    · exact .inl (never_of_error rooted known found)

/-- **A path stays without texts when a new file is stored**, unless nothing was found on the path and
the file is a text. -/
theorem Free.store (free : Free path now) (rooted : now.Rooted) (grows : Grows (· = place) now left)
    (fresh : ∀ content stamp, now.get? place ≠ some (.file content stamp)) {content : Content}
    {stamp : Nat} (there : left.get? place = some (.file content stamp)) :
    Never path left ∨ Free path left ∨
      (∃ text, content = .text text) ∧ now.find path = .error .notFound := by
  by_cases own : now.Aims path place
  · cases content with
    | binary bytes =>
      -- The only place where the path aims holds no text.
      refine .inr (.inl fun other reaches text later file => ?_)
      obtain rfl := (grows.aims.mp reaches).unique own
      cases there.symm.trans file
    | text words =>
      cases found : now.find path with
      | ok pair =>
        obtain ⟨other, entry⟩ := pair
        have leads := find_eq_ok.mp found
        obtain rfl : other = place := (aims_of_resolve leads).unique own
        have held := (leads_of_resolve leads).get?.1
        cases entry with
        | file content earlier => exact absurd held (fresh content earlier)
        | directory => cases there.symm.trans (grows.keeps.directory held)
        | link target => exact absurd rfl (not_link_of_resolve rooted leads target)
      | error error =>
        by_cases nothing : error = .notFound
        · subst nothing
          exact .inr (.inr ⟨⟨words, rfl⟩, rfl⟩)
        · exact .inl ((never_of_error rooted nothing found).onward grows)
  · -- Where the path aims, everything is as it was.
    refine .inr (.inl fun other reaches text later file => ?_)
    have aimed := grows.aims.mp reaches
    refine free other aimed text later ((grows.elsewhere ?_).mp file)
    rintro rfl
    exact own aimed

end Paths

/-! ### Cultures without texts -/

/-- A culture has no texts: none can be read, or that there were none is kept. -/
structure Blank (culture : String) (path : Path) (translator : Translator) (now : FileTree) : Prop where
  endless : translator.cache.policy.timeToLive = none
  known : translator.cache.All fun other dictionary =>
    other = culture → dictionary = .empty culture .standard
  blank : Never path now ∨ Free path now ∨ translator.cache.Keeps culture

/-- What is built where no text is read has no texts, and it is built where nothing is found. -/
theorem build_of_unread (reached : Reached locale tree before translator now)
    (served : locale.files culture = [path]) (unread : ∀ text, now.readText path ≠ .ok text) :
    ((∃ error, (translator.service now).build culture = .failed error) ∨
        (translator.service now).build culture = .built (.empty culture .standard)) ∧
      (now.find path = .error .notFound →
        (translator.service now).build culture = .built (.empty culture .standard)) := by
  have load : (translator.service now).load culture =
      Dictionary.load now .standard culture [path] := by
    show translator.load now culture = _
    rw [Translator.load, reached.source, reached.rules, ← served]
    rfl
  unfold Service.build
  rw [load, Dictionary.load, Dictionary.loadMore, Catalog.load?]
  constructor
  · cases read : now.readText path with
    | ok text => exact absurd read (unread text)
    | error error =>
      cases error with
      | notFound => exact .inr rfl
      | _ => exact .inl ⟨_, rfl⟩
  · intro missing
    rw [readText, read_of_missing missing]
    rfl

/-- **A culture without texts is served none**, and goes on having none. If nothing is found for it,
this is kept. -/
theorem Blank.dictionary (reached : Reached locale tree before translator now)
    (served : locale.files culture = [path]) (blank : Blank culture path translator now)
    (time : Nat) :
    (translator.dictionary now time culture).1 = .empty culture .standard ∧
      Blank culture path (translator.dictionary now time culture).2 now ∧
      (now.find path = .error .notFound →
        (translator.dictionary now time culture).2.cache.Keeps culture) := by
  unfold Translator.dictionary Service.dictionary
  dsimp only
  by_cases keeps : translator.cache.Keeps culture
  · -- What is kept is served, and what could be loaded makes no difference.
    obtain ⟨value, stored⟩ := keeps.stored? blank.endless time
    have still := Cache.keeps_fetch blank.endless time time
      (fun _ => (translator.service now).build culture) (.inl keeps)
    have fetched : translator.cache.fetch time time culture
        (fun _ => (translator.service now).build culture) =
          (.stored value, translator.cache.touch culture) := by
      rw [Cache.fetch, stored]
    rw [fetched] at still ⊢
    refine ⟨blank.known.stored stored rfl, ⟨?_, blank.known.touch culture, .inr (.inr still)⟩,
      fun _ => still⟩
    exact (Cache.policy_touch _ _).symm ▸ blank.endless
  · have unread : ∀ text, now.readText path ≠ .ok text := by
      rcases blank.blank with never | free | kept
      · exact never now (Grows.refl _ now)
      · exact free.readText
      · exact absurd kept keeps
    obtain ⟨built, found⟩ := build_of_unread reached served unread
    obtain ⟨known, answer⟩ := blank.known.fetch time time culture
      (fun _ => (translator.service now).build culture) fun value same _ => by
        rcases built with ⟨error, failed⟩ | empty
        · cases failed.symm.trans same
        · cases empty.symm.trans same
          rfl
    refine ⟨?_, ⟨?_, known, ?_⟩, fun missing => ?_⟩
    · rcases answer with ⟨value, stored, own⟩ | fresh
      · rw [stored]
        exact own rfl
      · rw [fresh]
        rcases built with ⟨error, failed⟩ | empty
        · rw [failed]
          rfl
        · rw [empty]
          rfl
    · exact (Cache.policy_fetch _ _ _ _ _).symm ▸ blank.endless
    · exact blank.blank.imp id (.imp id fun kept => absurd kept keeps)
    · exact Cache.keeps_fetch blank.endless time time _ (.inr ⟨_, found missing⟩)

/-- Translating a content for a culture without texts leaves it without. -/
theorem Blank.translated (reached : Reached locale tree before translator now)
    (served : locale.files culture = [path]) (blank : Blank culture path translator now)
    {input output : Content} (made : translated translator now culture input = (.ok output, next)) :
    Blank culture path next now ∧
      ((∃ text, output = .text text) → now.find path = .error .notFound →
        next.cache.Keeps culture) := by
  cases input with
  | binary bytes =>
    cases made
    exact ⟨blank, nofun⟩
  | text words =>
    obtain ⟨-, after, kept⟩ := blank.dictionary reached served now.clock
    unfold Projection.translated at made
    dsimp only at made
    rw [Translator.translate_eq] at made
    have same : next = (translator.dictionary now now.clock culture).2 := (Prod.mk.inj made).2.symm
    rw [same]
    exact ⟨after, fun _ => kept⟩

/-- **A culture without texts goes on having none** when a copy for it is made, even one that is stored
as its catalog. -/
theorem Blank.makeCopy (rooted : now.Rooted) (reached : Reached locale tree before translator now)
    (served : locale.files copy.culture = [path])
    (blank : Blank copy.culture path translator now) (clear : Clear now [copy])
    (made : makeCopy translator now copy = (.done, next, left)) :
    Blank copy.culture path next left := by
  unfold Projection.makeCopy at made
  split at made
  · cases made
  · rename_i input read
    split at made
    · cases made
    · rename_i output between translation
      obtain ⟨⟨endless, known, states⟩, kept⟩ := blank.translated reached served translation
      split at made
      · rename_i last stored
        cases made
        obtain ⟨place, stamp, aims, grows, found⟩ := store_eq_ok rooted stored
        refine ⟨endless, known, ?_⟩
        rcases states with never | free | keeps
        · exact .inl (never.onward grows)
        · have fresh := clear copy (List.mem_singleton_self copy) place aims
          rcases free.store rooted grows fresh (leads_of_resolve found).get?.1 with
            never | still | ⟨text, missing⟩
          · exact .inl never
          · exact .inr (.inl still)
          · -- The copy has come to stand as the catalog, but the catalog was looked for before.
            exact .inr (.inr (kept text missing))
        · exact .inr (.inr keeps)
      · cases made

/-- **Where a run stands at each of its copies** for a culture without texts. -/
theorem Blank.makeCopies (rooted : tree.Rooted) (reached : Reached locale tree before translator now)
    (served : locale.files culture = [path]) (blank : Blank culture path translator now)
    (own : ∀ copy ∈ sooner, copy.culture = culture) (clear : Clear now sooner)
    (apart : sooner.Pairwise fun first second => ¬ now.Shares first.target second.target)
    (made : makeCopies translator now (sooner ++ rest) = (.ok (written, []), after)) :
    ∃ next left count, Reached locale tree (before ++ sooner) next left ∧
      Blank culture path next left ∧
      Projection.makeCopies next left rest = (.ok (count, []), after) := by
  induction sooner generalizing before translator now written with
  | nil => exact ⟨translator, now, written, by rwa [List.append_nil], blank, made⟩
  | cons copy others ih =>
    obtain ⟨next, left, count, first, later, rfl⟩ := makeCopies_cons made
    obtain rfl := own copy List.mem_cons_self
    have here := reached.grows.rooted rooted
    obtain ⟨further, -⟩ := reached.makeCopy rooted first
    have one : Clear now [copy] := fun other member =>
      clear other (List.mem_singleton.mp member ▸ List.mem_cons_self)
    have grows := grows_makeCopy here translator copy
    rw [first] at grows
    obtain ⟨free, distinct⟩ := clear.step apart grows
    obtain ⟨last, final, number, there, done, made⟩ := ih further
      (blank.makeCopy here reached served one first)
      (fun other member => own other (List.mem_cons_of_mem copy member)) free distinct later
    exact ⟨last, final, number, by rwa [List.append_cons], done, made⟩

/-! ### What the copies hold -/

/-- The catalog of a culture is found, or it is not missed and only copies for this culture come
before. -/
def Settled (locale : Locale) (tree : FileTree) (before : List Copy) (culture : String) : Prop :=
  ∃ path, locale.files culture = [path] ∧ (tree.isFile path = true ∨
    (∀ place, ¬ tree.Misses path place) ∧ ∀ copy ∈ before, copy.culture = culture)

/-- **A copy is made with the dictionary of its culture as it was at the start.** -/
theorem exists_turn (rooted : tree.Rooted) (ready : Reached locale tree [] translator tree)
    (fresh : translator.cache = .empty .standard) (settled : Settled locale tree before copy.culture)
    (clear : Clear tree before)
    (apart : before.Pairwise fun first second => ¬ tree.Shares first.target second.target)
    (made : makeCopies translator tree (before ++ copy :: rest) = (.ok (written, []), after)) :
    ∃ next now count, Reached locale tree before next now ∧
      makeCopies next now (copy :: rest) = (.ok (count, []), after) ∧
      (next.dictionary now now.clock copy.culture).1 = locale.dictionary tree copy.culture := by
  obtain ⟨path, served, catalog⟩ := settled
  cases there : tree.isFile path with
  | true =>
    obtain ⟨next, now, count, reached, others, -⟩ := ready.makeCopies rooted made
    obtain ⟨place, content, stamp, found⟩ := isFile_iff.mp there
    obtain ⟨⟨earlier, grows, same⟩, -⟩ := reached.dictionary now.clock copy.culture
    refine ⟨next, now, count, reached, others, same.trans ?_⟩
    refine Locale.dictionary_of_grows rooted grows ?_ ?_
    · rw [served]
      exact List.forall_mem_singleton.mpr (not_misses_of_resolve found)
    · rw [served]
      refine List.forall_mem_singleton.mpr fun other aims => ?_
      rw [← (aims_of_resolve found).unique aims]
      exact clear.not_targeted (leads_of_resolve found).get?.1
  | false =>
    rw [there] at catalog
    obtain ⟨seen, own⟩ := catalog.resolve_left Bool.false_ne_true
    have start : Blank copy.culture path translator tree := by
      refine ⟨?_, ?_, (never_or_free rooted there seen).imp id .inl⟩
      · rw [fresh]
        rfl
      · rw [fresh]
        exact Cache.all_empty _ _
    obtain ⟨next, now, count, reached, blank, others⟩ :=
      start.makeCopies rooted ready served own clear apart made
    refine ⟨next, now, count, reached, others, ?_⟩
    have unread (text : String) : tree.readText path ≠ .ok text := by
      intro read
      obtain ⟨place, stamp, found⟩ := readText_eq_ok.mp read
      rw [isFile_iff.mpr ⟨place, _, stamp, found⟩] at there
      cases there
    rw [(blank.dictionary reached served now.clock).1, Locale.dictionary_of_unread served unread]

end Projection

end Localization
