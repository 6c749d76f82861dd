import Localization.Projection
import Localization.Proofs.Nugget.Replacing
import Localization.Proofs.Translating

/-
**What the copies of a projection hold.**

A projection makes one copy after the other. Each one stores what its source holds at its turn, with
the nuggets of the standard markup replaced, whatever markup the project has chosen.

* `Copied` — what a copy makes of a content.
* `holds_makeCopies` — what holds on when copies are stored; `grows_makeCopies`.
* `Reached` — where a run stands after some copies; `Reached.makeCopy`, `Reached.makeCopies`.
* `Undisturbed` — no other copy is stored where a copy takes what it needs.
* `copied_of_makeCopies` — what such a copy holds in the end.
* `Planned` — what a plan is made of; `plan_eq_ok_iff`.
* `run_copies` — what a projection without failures writes.
-/

namespace Localization

open FileTree

/-! ### Copies -/

namespace Projection

/-- What a copy holds: the nuggets of a text are replaced, other content is as it was. -/
inductive Copied (markup : Markup) (dictionary : Dictionary) : Content → Content → Prop
  | binary (bytes : List UInt8) : Copied markup dictionary (.binary bytes) (.binary bytes)
  | text {words output : String} (replaced : markup.Replaced dictionary words.toList output.toList) :
    Copied markup dictionary (.text words) (.text output)

/-- A copy is to be stored at the place. -/
def Targeted (tree : FileTree) (copies : List Copy) (place : Place) : Prop :=
  ∃ copy ∈ copies, tree.Aims copy.target place

variable {locale : Locale} {start tree now left after : FileTree} {translator next : Translator}
  {copy : Copy} {before rest : List Copy} {written : Nat} {culture : String}

theorem targeted_iff {spots : Place → Prop} (grows : Grows spots tree left) (copies : List Copy)
    (place : Place) : Targeted left copies place ↔ Targeted tree copies place := by
  unfold Targeted
  simp only [grows.aims]

/-- Making a copy stores something in its target, or nothing. -/
theorem left_makeCopy (translator : Translator) (tree : FileTree) (copy : Copy) :
    (makeCopy translator tree copy).2.2 = tree ∨
      ∃ content, (makeCopy translator tree copy).2.2 = (tree.store copy.target content).2 := by
  unfold makeCopy
  cases tree.read copy.input with
  | error error => exact .inl rfl
  | ok input =>
    dsimp only
    obtain ⟨outcome, after⟩ := translated translator tree copy.culture input
    cases outcome with
    | error cause => exact .inl rfl
    | ok output =>
      refine .inr ⟨output, ?_⟩
      dsimp only
      generalize tree.store copy.target output = stored
      obtain ⟨result, left⟩ := stored
      cases result <;> rfl

/-- Making a copy changes no file but its target. -/
theorem grows_makeCopy (rooted : tree.Rooted) (translator : Translator) (copy : Copy) :
    Grows (Targeted tree [copy]) tree (makeCopy translator tree copy).2.2 := by
  rcases left_makeCopy translator tree copy with same | ⟨content, same⟩
  · rw [same]
    exact Grows.refl _ tree
  · rw [same]
    exact (grows_store rooted copy.target content).mono fun place aims =>
      ⟨copy, List.mem_singleton_self copy, aims⟩

/-- **What holds on when a copy is stored holds behind all copies.** -/
theorem holds_makeCopies (holds : FileTree → Prop) {copies : List Copy} (start : holds tree)
    (step : ∀ now, holds now → ∀ copy ∈ copies, ∀ content, holds (now.store copy.target content).2)
    (translator : Translator) : holds (makeCopies translator tree copies).2 := by
  induction copies generalizing translator tree with
  | nil => exact start
  | cons copy rest ih =>
    have first : holds (makeCopy translator tree copy).2.2 := by
      rcases left_makeCopy translator tree copy with same | ⟨content, same⟩
      · rwa [same]
      · rw [same]
        exact step tree start copy List.mem_cons_self content
    have others {now : FileTree} (good : holds now) (next : Translator) :
        holds (makeCopies next now rest).2 :=
      ih good (fun later kept other member => step later kept other (List.mem_cons_of_mem copy member)) next
    rw [makeCopies]
    generalize makeCopy translator tree copy = turn at first ⊢
    obtain ⟨outcome, after, left⟩ := turn
    cases outcome with
    | stopped cause => exact first
    | done => exact others first after
    | failed error => exact others first after

/-- **Making copies changes no files but their targets.** -/
theorem grows_makeCopies (rooted : tree.Rooted) (translator : Translator) (copies : List Copy) :
    Grows (Targeted tree copies) tree (makeCopies translator tree copies).2 := by
  refine holds_makeCopies (Grows (Targeted tree copies) tree) (Grows.refl _ tree) ?_ translator
  intro now grows copy member content
  refine grows.trans ((grows_store (grows.rooted rooted) copy.target content).mono fun place aims => ?_)
  exact ⟨copy, member, grows.aims.mp aims⟩

/-- Where a run stands after some copies: no files changed but their targets, and the dictionaries
that are kept were loaded since the start. -/
structure Reached (locale : Locale) (start : FileTree) (before : List Copy) (translator : Translator)
    (now : FileTree) : Prop where
  grows : Grows (Targeted start before) start now
  source : translator.source = .locale locale
  rules : translator.rules = .standard
  markup : translator.markup = .standard
  known : translator.cache.All fun culture dictionary =>
    ∃ earlier, Grows (Targeted start before) start earlier ∧
      dictionary = locale.dictionary earlier culture

/-- **The dictionary of a culture is one that was loaded since the start.** -/
theorem Reached.dictionary (reached : Reached locale start before translator now) (time : Nat)
    (culture : String) :
    (∃ earlier, Grows (Targeted start before) start earlier ∧
      (translator.dictionary now time culture).1 = locale.dictionary earlier culture) ∧
    Reached locale start before (translator.dictionary now time culture).2 now := by
  have load : (translator.service now).load culture =
      Dictionary.load now .standard culture (locale.files culture) := by
    show translator.load now culture = _
    rw [Translator.load, reached.source, reached.rules]
    rfl
  have served : Service.served culture (.fresh ((translator.service now).build culture)) =
      locale.dictionary now culture := by
    rw [Service.served_build, Service.offered, load]
    rfl
  have builds (value : Dictionary) (built : (translator.service now).build culture = .built value) :
      ∃ earlier, Grows (Targeted start before) start earlier ∧
        value = locale.dictionary earlier culture := by
    rw [built] at served
    exact ⟨now, reached.grows, served⟩
  obtain ⟨known, answer⟩ :=
    reached.known.fetch time time culture (fun _ => (translator.service now).build culture) builds
  refine ⟨?_, ⟨reached.grows, reached.source, reached.rules, reached.markup, known⟩⟩
  unfold Translator.dictionary Service.dictionary
  dsimp only
  -- What the cache keeps was loaded before; anything else is loaded now, and is empty if it cannot be.
  rcases answer with ⟨value, stored, ⟨earlier, grows, own⟩⟩ | fresh
  · rw [stored]
    exact ⟨earlier, grows, own⟩
  · rw [fresh]
    exact ⟨now, reached.grows, served⟩

theorem Reached.mono (reached : Reached locale start before translator now) (more : List Copy) :
    Reached locale start (before ++ more) translator now := by
  have wider (place : Place) (targeted : Targeted start before place) :
      Targeted start (before ++ more) place := by
    obtain ⟨copy, member, aims⟩ := targeted
    exact ⟨copy, List.mem_append_left more member, aims⟩
  refine ⟨reached.grows.mono wider, reached.source, reached.rules, reached.markup,
    fun culture stamped member => ?_⟩
  obtain ⟨earlier, grows, own⟩ := reached.known culture stamped member
  exact ⟨earlier, grows.mono wider, own⟩

/-- **The nuggets of a text are replaced with a dictionary that was loaded since the start.** -/
theorem Reached.translated (reached : Reached locale start before translator now)
    {input output : Content} (made : translated translator now culture input = (.ok output, next)) :
    Reached locale start before next now ∧
      ∃ earlier, Grows (Targeted start before) start earlier ∧
        Copied .standard (locale.dictionary earlier culture) input output := by
  cases input with
  | binary bytes =>
    cases made
    exact ⟨reached, now, reached.grows, .binary bytes⟩
  | text words =>
    obtain ⟨⟨earlier, grows, own⟩, further⟩ := reached.dictionary now.clock culture
    unfold Projection.translated at made
    dsimp only at made
    rw [Translator.translate_eq, reached.markup, own] at made
    cases replaced : Markup.standard.replace (locale.dictionary earlier culture) words with
    | error cause =>
      rw [replaced] at made
      cases made
    | ok words =>
      rw [replaced] at made
      cases made
      exact ⟨further, earlier, grows, .text (Markup.replace_eq_ok_iff.mp replaced)⟩

/-- **What making a copy leaves in its target**, and where it leaves the run. -/
theorem Reached.makeCopy (rooted : start.Rooted) (reached : Reached locale start before translator now)
    (made : makeCopy translator now copy = (.done, next, left)) :
    Reached locale start (before ++ [copy]) next left ∧
      ∃ input output earlier place stamp, now.read copy.input = .ok input ∧
        Grows (Targeted start before) start earlier ∧
        Copied .standard (locale.dictionary earlier copy.culture) input output ∧
        left.resolve copy.target = .ok (.present place (.file output stamp)) := by
  unfold Projection.makeCopy at made
  cases read : now.read copy.input with
  | error error =>
    rw [read] at made
    cases made
  | ok input =>
    rw [read] at made
    dsimp only at made
    cases translation : Projection.translated translator now copy.culture input with
    | mk outcome between =>
      rw [translation] at made
      cases outcome with
      | error cause => cases made
      | ok output =>
        dsimp only at made
        obtain ⟨further, earlier, loaded, copied⟩ := reached.translated translation
        cases stored : now.store copy.target output with
        | mk result last =>
          rw [stored] at made
          cases result with
          | error failure => cases made
          | ok done =>
            cases made
            obtain ⟨place, stamp, aims, grows, found⟩ :=
              store_eq_ok (reached.grows.rooted rooted) stored
            have own : Grows (Targeted start (before ++ [copy])) now left :=
              grows.mono fun other here => ⟨copy, List.mem_append_right before List.mem_cons_self,
                reached.grows.aims.mp (here ▸ aims)⟩
            exact ⟨{ further.mono [copy] with grows := (further.mono [copy]).grows.trans own },
              input, output, earlier, place, stamp, rfl, loaded, copied, found⟩

theorem makeCopies_cons
    (made : makeCopies translator now (copy :: rest) = (.ok (written, []), after)) :
    ∃ next left count, Projection.makeCopy translator now copy = (.done, next, left) ∧
      makeCopies next left rest = (.ok (count, []), after) ∧ written = count + 1 := by
  rw [makeCopies] at made
  generalize Projection.makeCopy translator now copy = turn at made ⊢
  obtain ⟨outcome, next, left⟩ := turn
  cases outcome with
  | stopped cause => cases made
  | failed error =>
    dsimp only at made
    generalize makeCopies next left rest = others at made
    obtain ⟨result, last⟩ := others
    cases result <;> cases made
  | done =>
    dsimp only at made
    cases others : makeCopies next left rest with
    | mk result last =>
      rw [others] at made
      cases result with
      | error cause => cases made
      | ok counted =>
        obtain ⟨count, failures⟩ := counted
        cases made
        exact ⟨next, left, count, rfl, others, rfl⟩

/-- **Where a run without failures stands at each of its copies.** -/
theorem Reached.makeCopies (rooted : start.Rooted)
    (reached : Reached locale start before translator now) {sooner : List Copy}
    (made : makeCopies translator now (sooner ++ rest) = (.ok (written, []), after)) :
    ∃ next left count, Reached locale start (before ++ sooner) next left ∧
      Projection.makeCopies next left rest = (.ok (count, []), after) ∧
      written = sooner.length + count := by
  induction sooner generalizing before translator now written with
  | nil => exact ⟨translator, now, written, by rwa [List.append_nil], made, (Nat.zero_add written).symm⟩
  | cons copy others ih =>
    obtain ⟨next, left, count, first, later, rfl⟩ := makeCopies_cons made
    obtain ⟨further, -⟩ := reached.makeCopy rooted first
    obtain ⟨last, final, number, there, done, rfl⟩ := ih further later
    refine ⟨last, final, number, ?_, done, ?_⟩
    · rwa [List.append_cons]
    · rw [List.length_cons]
      omega

/-- No copy before is stored where a copy takes its source and its messages from, and none after it
where it is stored itself. The catalog is not missed. -/
structure Undisturbed (locale : Locale) (tree : FileTree) (before : List Copy) (copy : Copy)
    (later : List Copy) : Prop where
  input : ∀ other ∈ before, ¬ tree.Shares other.target copy.input
  catalog : ∀ path ∈ locale.files copy.culture,
    (∀ place, ¬ tree.Misses path place) ∧ ∀ other ∈ before, ¬ tree.Shares other.target path
  target : ∀ other ∈ later, ¬ tree.Shares other.target copy.target

theorem not_targeted {copies : List Copy} {path : Path} {place : Place}
    (apart : ∀ other ∈ copies, ¬ tree.Shares other.target path) (aims : tree.Aims path place) :
    ¬ Targeted tree copies place := by
  rintro ⟨other, member, reaches⟩
  exact apart other member ⟨place, reaches, aims⟩

/-- **A copy that nothing disturbs holds its source with the nuggets replaced** by their messages in
the culture. -/
theorem copied_of_makeCopies (rooted : tree.Rooted)
    (ready : Reached locale tree [] translator tree) {later : List Copy}
    (made : makeCopies translator tree (before ++ copy :: later) = (.ok (written, []), after))
    (calm : Undisturbed locale tree before copy later) {input : Content}
    (read : tree.read copy.input = .ok input) :
    ∃ output, Copied .standard (locale.dictionary tree copy.culture) input output ∧
      after.read copy.target = .ok output := by
  obtain ⟨next, now, count, reached, others, -⟩ := ready.makeCopies rooted made
  obtain ⟨final, left, number, turn, last, -⟩ := makeCopies_cons others
  obtain ⟨further, own, output, earlier, place, stamp, again, loaded, copied, found⟩ :=
    reached.makeCopy rooted turn
  -- At its turn the copy finds its source and its catalog as they were at the start.
  have same : now.read copy.input = tree.read copy.input := by
    refine reached.grows.read_eq rooted (fun place aims => not_targeted calm.input aims) fun missing => ?_
    rw [read_of_missing missing] at read
    cases read
  rw [same, read] at again
  cases again
  have dictionary := Locale.dictionary_of_grows rooted loaded
    (fun path served => (calm.catalog path served).1)
    fun path served place aims => not_targeted (calm.catalog path served).2 aims
  rw [dictionary] at copied
  refine ⟨output, copied, ?_⟩
  -- What it has stored is not stored over.
  have grows := grows_makeCopies (further.grows.rooted rooted) final later
  rw [last] at grows
  have aims := further.grows.aims.mp (aims_of_resolve found)
  have apart : ¬ Targeted left later place := fun targeted =>
    not_targeted calm.target aims ((targeted_iff further.grows later place).mp targeted)
  have stays := (grows.elsewhere apart).mpr (leads_of_resolve found).get?.1
  rw [FileTree.read, find_eq_ok.mpr (grows.resolve found stays)]

/-! ### Projections -/

variable {project : Project} {options : ProjectionOptions} {report : ProjectionReport}

/-- What a plan is made of: it has a copy of every file in the source for every culture, and without
force none of them would take the place of something. -/
structure Planned (project : Project) (options : ProjectionOptions) (tree : FileTree) (plan : Plan)
    (source : Path) (languages : List String) : Prop where
  chosen : defaultCulture options = .ok plan.defaultCulture
  found : Projection.source tree options = .ok source
  aimed : output tree options source = .ok plan.output
  listed : project.locale.languages tree = .ok languages
  cultures : plan.cultures = addCultures [plan.defaultCulture] languages
  copies : plan.copies =
    Projection.copies source plan.output plan.cultures (files tree source plan.output)
  free : options.force = false → firstExisting? tree plan.copies = none

theorem plan_eq_ok_iff {plan : Plan} : Projection.plan project options tree = .ok plan ↔
    ∃ source languages, Planned project options tree plan source languages := by
  unfold Projection.plan
  simp only [bind, Except.bind]
  constructor
  · intro planned
    split at planned
    · cases planned
    · rename_i default chosen
      split at planned
      · cases planned
      · rename_i source found
        split at planned
        · cases planned
        · rename_i output aimed
          split at planned
          · cases planned
          · rename_i cultures listed
            split at planned
            · cases planned
            · rename_i none
              cases planned
              unfold Projection.cultures at listed
              cases known : project.locale.languages tree with
              | error error =>
                rw [known] at listed
                cases listed
              | ok languages =>
                rw [known] at listed
                cases listed
                refine ⟨source, languages, chosen, found, aimed, known, rfl, rfl, fun gentle => ?_⟩
                rw [gentle] at none
                exact none
  · rintro ⟨source, languages, planned⟩
    have cultures : (Projection.cultures tree project.locale plan.defaultCulture).mapError
        ProjectionError.store = .ok plan.cultures := by
      rw [Projection.cultures, planned.listed, planned.cultures]
      rfl
    have free : (if options.force then none else firstExisting? tree plan.copies) = none := by
      split
      · rfl
      · rename_i gentle
        exact planned.free (Bool.eq_false_iff.mpr gentle)
    rw [planned.chosen]
    dsimp only
    rw [planned.found]
    dsimp only
    rw [planned.aimed]
    dsimp only
    rw [cultures]
    dsimp only
    rw [← planned.copies, free]

theorem run_eq_of_fst {result : Except Overwide (Except ProjectionError ProjectionReport)}
    (done : (run project options tree).1 = result) :
    run project options tree = (result, (run project options tree).2) := by
  rw [← done]

/-- A projection without failures made all its copies. -/
theorem makeCopies_of_run (ran : run project options tree = (.ok (.ok report), after))
    (success : report.isSuccess = true) :
    ∃ plan, Projection.plan project options tree = .ok plan ∧ report.cultures = plan.cultures ∧
      Projection.makeCopies (Projection.translator project plan.defaultCulture) tree plan.copies =
        (.ok (report.written, []), after) := by
  unfold run at ran
  cases planned : Projection.plan project options tree with
  | error error =>
    rw [planned] at ran
    cases ran
  | ok plan =>
    rw [planned] at ran
    dsimp only at ran
    refine ⟨plan, rfl, ?_⟩
    cases made : Projection.makeCopies (Projection.translator project plan.defaultCulture) tree
        plan.copies with
    | mk outcome left =>
      rw [made] at ran
      cases outcome with
      | error cause => cases ran
      | ok counted =>
        obtain ⟨count, failures⟩ := counted
        cases ran
        cases List.isEmpty_iff.mp success
        exact ⟨rfl, rfl⟩

/-- The catalogs that a projection takes its messages from. -/
def catalogs (project : Project) (defaultCulture : String) : Locale :=
  { project.locale with defaultCulture := some defaultCulture }

/-- A projection starts without dictionaries, and with the standard markup. -/
theorem reached_start (project : Project) (defaultCulture : String) (tree : FileTree) :
    Reached (catalogs project defaultCulture) tree [] (Projection.translator project defaultCulture)
      tree where
  grows := Grows.refl _ tree
  source := rfl
  rules := rfl
  markup := rfl
  known := Cache.all_empty _ _

/-- Tokens that make up a markup are accepted as this markup. -/
theorem ofTokens_tokens (markup : Markup) : Markup.ofTokens markup.tokens = .ok markup := by
  unfold Markup.ofTokens
  split
  · rfl
  · rename_i refused
    cases markup.accepted.symm.trans refused

/-- A scan looks for the nuggets of the project's markup. -/
theorem markup_of_scanner {scanner : SourceScanner} {showContext : Bool}
    (made : SourceScanner.ofProject project showContext = .ok scanner) :
    Markup.ofTokens project.settings.tokens = .ok scanner.markup := by
  unfold SourceScanner.ofProject at made
  simp only [bind, Except.bind] at made
  split at made
  · cases made
  · split at made
    · cases made
    · rename_i markup accepted
      cases made
      cases tokens : Markup.ofTokens project.settings.tokens with
      | error error =>
        rw [tokens] at accepted
        cases accepted
      | ok own =>
        rw [tokens] at accepted
        cases accepted
        rfl

/-- What the copy of a text holds: the nuggets of the standard markup are replaced. This replaces the
nuggets of the project's markup exactly if both markups make the same of the text, and then every
nugget that a scan extracts has its message in the copy. -/
structure TextCopy (project : Project) (tree : FileTree) (dictionary : Dictionary) (input : Path)
    (text output : String) : Prop where
  standard : Markup.standard.Replaced dictionary text.toList output.toList
  faithful : ∀ markup, Markup.ofTokens project.settings.tokens = .ok markup →
    (markup.Replaced dictionary text.toList output.toList ↔
      markup.replace dictionary text = Markup.standard.replace dictionary text)
  extracted : ∀ markup, Markup.ofTokens project.settings.tokens = .ok markup →
    markup.Replaced dictionary text.toList output.toList →
      ∀ scanner showContext, SourceScanner.ofProject project showContext = .ok scanner →
        ∀ mention ∈ (scanner.scanFile tree input).mentions,
          ∃ part ∈ markup.found text.toList, part.2.nugget.id = mention.id ∧
            ∃ message, part.2.nugget.resolve dictionary = .ok message ∧
              message.toList <:+: output.toList

theorem textCopy_of_replaced {dictionary : Dictionary} {input : Path} {text output : String}
    (read : tree.read input = .ok (.text text))
    (replaced : Markup.standard.Replaced dictionary text.toList output.toList) :
    TextCopy project tree dictionary input text output where
  standard := replaced
  faithful markup accepted := by
    rw [← Markup.replace_eq_ok_iff, Markup.replace_eq_ok_iff.mpr replaced]
  extracted markup accepted faithful scanner showContext made mention member := by
    cases (markup_of_scanner made).symm.trans accepted
    have words : tree.readText input = .ok text := by
      rw [readText, read]
    obtain ⟨part, inside, same⟩ := SourceScanner.found_of_mem_scanFile words member
    exact ⟨part, inside, same, faithful.message_of_found inside⟩

/-- **What a projection without failures writes.** It makes a copy of every file for every culture. A
copy that no other one disturbs holds what its source holds, with the nuggets of the standard markup
replaced by their messages in the culture. -/
theorem run_copies (rooted : tree.Rooted)
    (ran : run project options tree = (.ok (.ok report), after)) (success : report.isSuccess = true) :
    ∃ plan source, Projection.plan project options tree = .ok plan ∧
      Projection.source tree options = .ok source ∧
      plan.copies = copies source plan.output plan.cultures (files tree source plan.output) ∧
      report.cultures = plan.cultures ∧ report.written = plan.copies.length ∧
      let locale := catalogs project plan.defaultCulture
      ∀ before copy later, plan.copies = before ++ copy :: later →
        Undisturbed locale tree before copy later →
        (∀ bytes, tree.read copy.input = .ok (.binary bytes) →
          after.read copy.target = .ok (.binary bytes)) ∧
        ∀ text, tree.read copy.input = .ok (.text text) →
          ∃ output, after.read copy.target = .ok (.text output) ∧
            TextCopy project tree (locale.dictionary tree copy.culture) copy.input text output := by
  obtain ⟨plan, planned, cultures, made⟩ := makeCopies_of_run ran success
  obtain ⟨source, _, contents⟩ := plan_eq_ok_iff.mp planned
  have start := reached_start project plan.defaultCulture tree
  have number : report.written = plan.copies.length := by
    rw [← List.append_nil plan.copies] at made
    obtain ⟨_, _, count, -, rest, written⟩ := start.makeCopies rooted made
    cases rest
    exact written
  refine ⟨plan, source, planned, contents.found, contents.copies, cultures, number, ?_⟩
  intro locale before copy later split calm
  rw [split] at made
  constructor
  · intro bytes read
    obtain ⟨output, copied, written⟩ := copied_of_makeCopies rooted start made calm read
    cases copied
    exact written
  · intro text read
    obtain ⟨output, copied, written⟩ := copied_of_makeCopies rooted start made calm read
    cases copied with
    | text replaced => exact ⟨_, written, textCopy_of_replaced read replaced⟩

/-! ### A projection of one source -/

/-- A project with the markup of some tokens. -/
def sampleProject (tokens : Tokens) : Project where
  directory := ⟨"/"⟩
  settings := { Settings.standard with tokens := tokens }

/-- A catalog with one message. -/
def sampleCatalog : String := "msgid \"Hello\"\nmsgstr \"Bonjour\"\n"

/-- A source, and the catalog of a culture. -/
def sampleTree (source : String) : FileTree :=
  ⟨.ofList [(["locale"], .directory), (["locale", "fr"], .directory),
    (["locale", "fr", Locale.languageName], .file (.text sampleCatalog) 0),
    (["src"], .directory), (["src", "a.html"], .file (.text source) 0),
    (["src", outputName], .directory), (["src", outputName, "en"], .directory),
    (["src", outputName, "fr"], .directory)], [], 1⟩

/-- The source is projected. -/
def sampleOptions : ProjectionOptions := ⟨⟨"/src"⟩, some "en", none, false⟩

/-- The copy of the source in a culture. -/
def sampleCopy (culture : String) : Copy :=
  ⟨culture, ⟨"/src/a.html"⟩, ⟨"/src/projected/" ++ culture ++ "/a.html"⟩⟩

/-- With the standard tokens, the nugget is replaced by its message. -/
theorem run_copies_standardTokens :
    ∃ report after, run (sampleProject .standard) sampleOptions (sampleTree "[[[Hello]]] you") =
        (.ok (.ok report), after) ∧
      report.isSuccess = true ∧ after.read (sampleCopy "fr").target = .ok (.text "Bonjour you") := by
  let tree := sampleTree "[[[Hello]]] you"
  have rooted : tree.Rooted := by decide +kernel
  have planned : Projection.plan (sampleProject .standard) sampleOptions tree =
      .ok ⟨"en", ⟨"/src/projected"⟩, ["en", "fr"], [sampleCopy "en", sampleCopy "fr"]⟩ := by
    decide +kernel
  have done : (run (sampleProject .standard) sampleOptions tree).1 =
      .ok (.ok ⟨⟨"/src/projected"⟩, ["en", "fr"], 2, []⟩) := by decide +kernel
  have ran := run_eq_of_fst done
  obtain ⟨plan, source, same, -, -, -, -, made⟩ := run_copies rooted ran rfl
  cases planned.symm.trans same
  have source : tree.resolve (sampleCopy "fr").input =
      .ok (.present ["src", "a.html"] (.file (.text "[[[Hello]]] you") 0)) := by decide +kernel
  have english : tree.resolve (sampleCopy "en").target =
      .ok (.absent ["src", outputName, "en", "a.html"]) := by decide +kernel
  have catalog : tree.resolve ⟨"/locale/fr/messages.po"⟩ =
      .ok (.present ["locale", "fr", Locale.languageName] (.file (.text sampleCatalog) 0)) := by
    decide +kernel
  have served : (catalogs (sampleProject .standard) "en").files "fr" = [⟨"/locale/fr/messages.po"⟩] := by
    decide +kernel
  have calm : Undisturbed (catalogs (sampleProject .standard) "en") tree [sampleCopy "en"]
      (sampleCopy "fr") [] := by
    refine ⟨?_, ?_, nofun⟩
    · simp only [List.mem_singleton, forall_eq]
      exact not_shares_of_resolve english source (by decide)
    · rw [show (sampleCopy "fr").culture = "fr" from rfl, served]
      simp only [List.mem_singleton, forall_eq]
      exact ⟨not_misses_of_resolve catalog, not_shares_of_resolve english catalog (by decide)⟩
  obtain ⟨-, texts⟩ := made [sampleCopy "en"] (sampleCopy "fr") [] rfl calm
  obtain ⟨output, written, made⟩ := texts "[[[Hello]]] you" (by decide +kernel)
  have message : Markup.standard.replace ((catalogs (sampleProject .standard) "en").dictionary tree "fr")
      "[[[Hello]]] you" = .ok "Bonjour you" := by decide +kernel
  cases message.symm.trans (Markup.replace_eq_ok_iff.mpr made.standard)
  exact ⟨_, _, ran, rfl, written⟩

/-- A markup with angle brackets. -/
def angled : Markup :=
  ⟨⟨"<<", ">>", "^^", "##"⟩, Tokens.check_eq_ok_iff.mpr (by decide)⟩

/-- **A projection does not see the nuggets of a markup that the project has chosen**, but replaces
those of the standard one. -/
theorem run_ignores_angled :
    let project := sampleProject angled.tokens
    let tree := sampleTree "<<Hello>> [[[Hi]]]"
    let result := run project sampleOptions tree
    project.settings.problems = [] ∧ tree.Rooted ∧
      Markup.ofTokens project.settings.tokens = .ok angled ∧
      angled.replace ((catalogs project "en").dictionary tree "fr") "<<Hello>> [[[Hi]]]" =
        .ok "Bonjour [[[Hi]]]" ∧
      result.1 = .ok (.ok ⟨⟨"/src/projected"⟩, ["en", "fr"], 2, []⟩) ∧
      result.2.read (sampleCopy "fr").target = .ok (.text "<<Hello>> Hi") := by
  refine ⟨?_, ?_, ofTokens_tokens angled, ?_, ?_⟩ <;> decide +kernel

end Projection

end Localization
