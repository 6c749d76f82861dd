import Localization.Proofs.Projection.Blank
import Localization.Proofs.Projection.Targets

/-
**What a projection without force leaves as it is.**

No target of a copy is found before the copies are made, so a file can only be stored over where a
target goes through a missing directory and back. Where none does, all files stay as they are, and
every copy is made of what its source and its catalog held at the start.

* `copied_of_clear` — what the copies hold.
* `spared_of_makeCopies` — what copies that are made leave (`Spared`).
* `run_unforced` — what a projection without force does.
* `run_overwrites_detour` — a file that is stored over.
-/

namespace Localization

open FileTree

namespace Projection

variable {locale : Locale} {tree now left after : FileTree} {translator next : Translator}
  {copy : Copy} {before rest copies : List Copy} {written : Nat} {culture : String} {path : Path}

/-! ### What the copies hold -/

theorem read_eq_ok {content : Content} : tree.read path = .ok content ↔
    ∃ place stamp, tree.resolve path = .ok (.present place (.file content stamp)) := by
  unfold FileTree.read find
  cases tree.resolve path with
  | error error => simp
  | ok target =>
    cases target with
    | absent place => simp
    | present place entry => cases entry <;> simp

/-- **What is read of a file to copy is what it held before**, as long as no file is stored over. -/
theorem read_source (plain : tree.Plain) {source output file : Path} {place : Place}
    (absolute : source.isAbsolute = true)
    (found : tree.resolve source = .ok (.present place .directory))
    (listed : file ∈ files tree source output) {spots : Place → Prop} (grows : Grows spots tree now)
    (untouched : ∀ other content stamp, tree.get? other = some (.file content stamp) → ¬ spots other)
    {content : Content} (read : now.read (source.join file.text) = .ok content) :
    tree.read (source.join file.text) = .ok content := by
  obtain ⟨named, perm, -, known⟩ := files_perm plain absolute found output
  obtain ⟨names, inside, rfl⟩ := List.mem_map.mp (perm.mem_iff.mp listed)
  obtain ⟨good, held, stamp, there⟩ := known names inside
  obtain ⟨goal, later, resolved⟩ := read_eq_ok.mp read
  obtain ⟨middle, start, rfl, steps⟩ :=
    aims_join plain.unlinked good (grows.aims.mp (aims_of_resolve resolved))
  obtain rfl := (leads_solidParts found).aims.unique start
  have before := resolve_join plain.rooted plain.unlinked good found there
    (usable_of_resolve resolved) steps
  have still := (grows.elsewhere (untouched _ held stamp there)).mpr there
  cases still.symm.trans (leads_of_resolve resolved).get?.1
  exact read_eq_ok.mpr ⟨_, _, before⟩

theorem copied_of_translated (standard : translator.markup = .standard) {input output : Content}
    (made : translated translator now culture input = (.ok output, next)) :
    Copied .standard (translator.dictionary now now.clock culture).1 input output := by
  cases input with
  | binary bytes =>
    cases made
    exact .binary bytes
  | text words =>
    unfold Projection.translated at made
    dsimp only at made
    rw [Translator.translate_eq, standard] at made
    cases replaced : Markup.standard.replace (translator.dictionary now now.clock culture).1 words with
    | error cause =>
      rw [replaced] at made
      cases made
    | ok words =>
      rw [replaced] at made
      cases made
      exact .text (Markup.replace_eq_ok_iff.mp replaced)

/-- **What the copies hold** where none is stored over a file or over another copy. -/
theorem copied_of_clear (plain : tree.Plain) {source output file : Path} {place : Place}
    (absolute : source.isAbsolute = true)
    (found : tree.resolve source = .ok (.present place .directory))
    (listed : file ∈ files tree source output) (own : copy.input = source.join file.text)
    (ready : Reached locale tree [] translator tree) (fresh : translator.cache = .empty .standard)
    (settled : Settled locale tree before copy.culture) (clear : Clear tree (before ++ copy :: rest))
    (apart : (before ++ copy :: rest).Pairwise fun first second =>
      ¬ tree.Shares first.target second.target)
    (made : makeCopies translator tree (before ++ copy :: rest) = (.ok (written, []), after)) :
    ∃ input output, tree.read copy.input = .ok input ∧
      Copied .standard (locale.dictionary tree copy.culture) input output ∧
      after.read copy.target = .ok output := by
  have rooted := plain.rooted
  obtain ⟨firsts, others, -⟩ := List.pairwise_append.mp apart
  have earlier : Clear tree before := fun other member => clear other (List.mem_append_left _ member)
  obtain ⟨next, now, count, reached, turns, dictionary⟩ :=
    exists_turn rooted ready fresh settled earlier firsts made
  obtain ⟨final, left, number, turn, last, -⟩ := makeCopies_cons turns
  obtain ⟨further, -⟩ := reached.makeCopy rooted turn
  unfold Projection.makeCopy at turn
  split at turn
  · cases turn
  · rename_i input read
    split at turn
    · cases turn
    · rename_i content between translation
      split at turn
      · rename_i stays stored
        cases turn
        have copied := copied_of_translated reached.markup translation
        rw [dictionary] at copied
        obtain ⟨goal, stamp, aims, -, there⟩ := store_eq_ok (reached.grows.rooted rooted) stored
        rw [own] at read
        have before := read_source plain absolute found listed reached.grows
          (fun other content stamp file => earlier.not_targeted file) read
        rw [← own] at before
        refine ⟨input, content, before, copied, ?_⟩
        -- What it has stored is not stored over.
        have grows := grows_makeCopies (further.grows.rooted rooted) final rest
        rw [last] at grows
        have spared : ¬ Targeted left rest goal := by
          rintro ⟨other, member, again⟩
          exact (List.pairwise_cons.mp others).1 other member
            ⟨goal, reached.grows.aims.mp aims, further.grows.aims.mp again⟩
        have held := (grows.elsewhere spared).mpr (leads_of_resolve there).get?.1
        exact read_eq_ok.mpr ⟨goal, stamp, grows.resolve there held⟩
      · cases turn

/-! ### Projections without force -/

variable {project : Project} {options : ProjectionOptions} {report : ProjectionReport}
  {failures : List ProjectionError}

/-- A file stands at a place where none stood. -/
def IsNew (before after : FileTree) (place : Place) : Prop :=
  (∃ content stamp, after.get? place = some (.file content stamp)) ∧
    ∀ content stamp, before.get? place ≠ some (.file content stamp)

/-- Every copy is made or fails. -/
theorem length_makeCopies
    (made : makeCopies translator tree copies = (.ok (written, failures), after)) :
    written + failures.length = copies.length := by
  induction copies generalizing translator tree written failures with
  | nil =>
    cases made
    rfl
  | cons copy rest ih =>
    rw [makeCopies] at made
    generalize Projection.makeCopy translator tree copy = turn at made
    obtain ⟨outcome, next, left⟩ := turn
    cases outcome with
    | stopped cause => cases made
    | done =>
      dsimp only at made
      cases others : makeCopies next left rest with
      | mk result last =>
        rw [others] at made
        cases result with
        | error cause => cases made
        | ok counted =>
          cases made
          have counts := ih others
          rw [List.length_cons]
          omega
    | failed error =>
      dsimp only at made
      cases others : makeCopies next left rest with
      | mk result last =>
        rw [others] at made
        cases result with
        | error cause => cases made
        | ok counted =>
          cases made
          have counts := ih others
          rw [List.length_cons, List.length_cons]
          omega

theorem length_copies (source output : Path) (cultures : List String) (files : List Path) :
    (Projection.copies source output cultures files).length = cultures.length * files.length := by
  simp [Projection.copies, List.length_flatMap]

/-- A copy that is made is stored where its target aims. -/
theorem stored_of_makeCopies (rooted : tree.Rooted) (ready : Reached locale tree [] translator tree)
    (made : makeCopies translator tree copies = (.ok (written, []), after)) (member : copy ∈ copies) :
    (∃ place content stamp, tree.Aims copy.target place ∧
      after.get? place = some (.file content stamp)) ∧
      (tree.exists? copy.target = false → tree.find copy.target = .error .notFound) := by
  obtain ⟨before, rest, rfl⟩ := List.append_of_mem member
  obtain ⟨next, now, count, reached, turns, -⟩ := ready.makeCopies rooted made
  obtain ⟨final, left, number, turn, last, -⟩ := makeCopies_cons turns
  obtain ⟨further, -, content, -, place, stamp, -, -, -, found⟩ := reached.makeCopy rooted turn
  have grows := grows_makeCopies (further.grows.rooted rooted) final rest
  rw [last] at grows
  obtain ⟨content, stamp, there⟩ := grows.files (leads_of_resolve found).get?.1
  refine ⟨⟨place, content, stamp, further.grows.aims.mp (aims_of_resolve found), there⟩, fun absent => ?_⟩
  cases missing : tree.find copy.target with
  | ok pair =>
    rw [exists?, missing] at absent
    cases absent
  | error error =>
    by_cases known : error = .notFound
    · rw [known]
    · have stuck := further.grows.find_error rooted known missing
      rw [find_eq_ok.mpr found] at stuck
      cases stuck

/-- What a projection that ends is made of. -/
theorem plan_of_run (ran : run project options tree = (.ok (.ok report), after)) :
    ∃ plan, Projection.plan project options tree = .ok plan ∧ report.output = plan.output ∧
      report.cultures = plan.cultures ∧
      Projection.makeCopies (Projection.translator project plan.defaultCulture) tree plan.copies =
        (.ok (report.written, report.failures), after) := by
  unfold run at ran
  cases planned : Projection.plan project options tree with
  | error error =>
    rw [planned] at ran
    cases ran
  | ok plan =>
    rw [planned] at ran
    dsimp only at ran
    refine ⟨plan, rfl, ?_⟩
    cases made : Projection.makeCopies (Projection.translator project plan.defaultCulture) tree
        plan.copies with
    | mk outcome left =>
      rw [made] at ran
      cases outcome with
      | error cause => cases ran
      | ok counted =>
        cases ran
        exact ⟨rfl, rfl, rfl⟩

/-- The default culture is what is asked for, without blanks around it. -/
theorem defaultCulture_eq_ok {default : String} (chosen : defaultCulture options = .ok default) :
    default = String.ofList (Text.trim (options.defaultCulture.getD "").toList) ∧
      Culture.isKnown default = true := by
  unfold defaultCulture at chosen
  dsimp only at chosen
  split at chosen
  · cases chosen
  · split at chosen
    · rename_i known
      cases chosen
      exact ⟨rfl, known⟩
    · cases chosen

/-- The copies for the default culture come first. -/
theorem default_first (source output : Path) (files : List Path) {default : String} {rest : List String}
    (apart : (default :: rest).Pairwise Apart) :
    (Projection.copies source output (default :: rest) files).Pairwise fun first second =>
      second.culture = default → first.culture = default := by
  have cultures : (default :: rest).Pairwise fun first second => second = default → first = default := by
    obtain ⟨others, more⟩ := List.pairwise_cons.mp apart
    refine List.pairwise_cons.mpr ⟨fun _ _ _ => rfl, more.imp_of_mem fun _ inside _ same => ?_⟩
    exact absurd (congrArg Culture.normalize same.symm) (others _ inside)
  unfold Projection.copies
  refine List.pairwise_flatMap.mpr ⟨fun culture member => ?_, cultures.imp fun first => ?_⟩
  · refine List.pairwise_map.mpr (List.pairwise_of_forall fun _ _ same => same)
  · intro copy here next there
    obtain ⟨-, -, rfl⟩ := List.mem_map.mp here
    obtain ⟨-, -, rfl⟩ := List.mem_map.mp there
    exact first

/-- **Every catalog is found or only looked for by the first copies**, those for the default culture. -/
theorem settled_of_cultures {default : String} {languages rest : List String}
    (listed : project.locale.languages tree = .ok languages) (sublist : rest.Sublist languages)
    (apart : (default :: rest).Pairwise Apart) (member : culture ∈ default :: rest)
    (seen : ∀ place, ¬ tree.Misses project.locale.templatePath place)
    (first : culture = default → ∀ other ∈ before, other.culture = default) :
    Settled (catalogs project default) tree before culture := by
  have same (name : String) : (catalogs project default).isDefault name =
      decide (Culture.normalize default = Culture.normalize name) := rfl
  unfold Settled Locale.files
  rcases List.mem_cons.mp member with rfl | inside
  · rw [same, if_pos (by simp)]
    exact ⟨_, rfl, .inr ⟨seen, first rfl⟩⟩
  · have other : ¬ Culture.normalize default = Culture.normalize culture :=
      (List.pairwise_cons.mp apart).1 culture inside
    rw [same, if_neg (by simpa using other)]
    exact ⟨_, rfl, .inl ((Locale.mem_languages listed).mp (sublist.subset inside)).2⟩

/-- The languages on disk are names of directories, in order. -/
theorem languages_sorted (named : tree.Named) {languages : List String}
    (listed : locale.languages tree = .ok languages) :
    languages.Pairwise (· < ·) ∧ ∀ language ∈ languages, IsFileName language := by
  constructor
  · unfold Locale.languages at listed
    split at listed
    · cases listed
      exact .nil
    · cases listed
    · cases listed
      exact List.pairwise_map.mpr (SortedMap.sorted _)
  · intro language member
    obtain ⟨⟨place, -, entry, there⟩, -⟩ := (Locale.mem_languages listed).mp member
    exact named.good there language (List.mem_append_right place (List.mem_singleton_self language))

/-- No target leads to a file that is not found on it. -/
def Unmissed (tree : FileTree) (copies : List Copy) : Prop :=
  ∀ copy ∈ copies, ∀ place, ¬ tree.Misses copy.target place

/-- What a projection without failures leaves: the new files are the copies exactly if no target misses
a file, and then no other file changes and every copy holds its source, translated for its culture. -/
structure Spared (project : Project) (default : String) (tree after : FileTree) (copies : List Copy) :
    Prop where
  exact : (∀ place, IsNew tree after place ↔ Targeted tree copies place) ↔ Unmissed tree copies
  same : Unmissed tree copies → ∀ place content stamp, tree.get? place = some (.file content stamp) →
    after.get? place = some (.file content stamp)
  copied : Unmissed tree copies → (∀ place, ¬ tree.Misses project.locale.templatePath place) →
    ∀ copy ∈ copies, ∃ input output, tree.read copy.input = .ok input ∧
      Copied .standard ((catalogs project default).dictionary tree copy.culture) input output ∧
      after.read copy.target = .ok output

/-- **Copies that are made without force** take the place of a file only where a target misses it. -/
theorem spared_of_makeCopies (plain : tree.Plain) {source output : Path} {default : String}
    {languages rest : List String} (found : Projection.source tree options = .ok source)
    (listed : project.locale.languages tree = .ok languages) (sublist : rest.Sublist languages)
    (apart : (default :: rest).Pairwise Apart) (known : IsFileName default)
    (none : firstExisting? tree
      (Projection.copies source output (default :: rest) (files tree source output)) = none)
    (made : makeCopies (Projection.translator project default) tree
        (Projection.copies source output (default :: rest) (files tree source output)) =
      (.ok (written, []), after)) :
    Spared project default tree after
      (Projection.copies source output (default :: rest) (files tree source output)) := by
  have rooted := plain.rooted
  have ready := reached_start project default tree
  obtain ⟨absolute, place, directory⟩ := source_eq_ok found
  have good : ∀ culture ∈ default :: rest, IsFileName culture :=
    List.forall_mem_cons.mpr ⟨known, fun culture member =>
      (languages_sorted plain.isNamed listed).2 culture (sublist.subset member)⟩
  have distinct := targets_apart output plain absolute directory good
    (apart.imp fun differs same => differs (congrArg Culture.normalize same))
  have order := default_first source output (files tree source output) apart
  have inputs : ∀ copy ∈ Projection.copies source output (default :: rest) (files tree source output),
      copy.culture ∈ default :: rest ∧
        ∃ file ∈ files tree source output, copy.input = source.join file.text := by
    intro copy member
    obtain ⟨culture, inside, here⟩ := List.mem_flatMap.mp member
    obtain ⟨file, there, rfl⟩ := List.mem_map.mp here
    exact ⟨inside, file, there, rfl⟩
  generalize Projection.copies source output (default :: rest) (files tree source output) = copies
    at none made distinct order inputs ⊢
  have missing : ∀ copy ∈ copies, tree.find copy.target = .error .notFound := by
    intro copy member
    refine (stored_of_makeCopies rooted ready made member).2 ?_
    have free := List.find?_eq_none.mp none copy.target (List.mem_map_of_mem member)
    simpa using free
  have stored : ∀ place, Targeted tree copies place →
      ∃ content stamp, after.get? place = some (.file content stamp) := by
    rintro place ⟨copy, member, aims⟩
    obtain ⟨⟨other, content, stamp, again, there⟩, -⟩ := stored_of_makeCopies rooted ready made member
    exact ⟨content, stamp, aims.unique again ▸ there⟩
  have clear (seen : Unmissed tree copies) : Clear tree copies := by
    intro copy member place aims content stamp file
    exact seen copy member place ⟨aims, ⟨content, stamp, file⟩, missing copy member⟩
  have grows := grows_makeCopies rooted (Projection.translator project default) copies
  rw [made] at grows
  refine ⟨⟨fun exact copy member place misses => ?_, fun seen place => ⟨fun new => ?_, fun targeted => ?_⟩⟩,
    fun seen place content stamp file => ?_, fun seen template copy member => ?_⟩
  · obtain ⟨content, stamp, file⟩ := misses.file
    exact ((exact place).mpr ⟨copy, member, misses.aims⟩).2 content stamp file
  · obtain ⟨⟨content, stamp, there⟩, fresh⟩ := new
    refine Classical.byContradiction fun elsewhere => ?_
    exact fresh content stamp ((grows.elsewhere elsewhere).mp there)
  · exact ⟨stored place targeted, fun content stamp file => (clear seen).not_targeted file targeted⟩
  · exact (grows.elsewhere ((clear seen).not_targeted file)).mpr file
  · obtain ⟨inside, file, there, own⟩ := inputs copy member
    obtain ⟨before, later, rfl⟩ := List.append_of_mem member
    have settled : Settled (catalogs project default) tree before copy.culture :=
      settled_of_cultures listed sublist apart inside template fun same other earlier =>
        (List.pairwise_append.mp order).2.2 other earlier copy List.mem_cons_self same
    exact copied_of_clear plain absolute directory there own ready rfl settled (clear seen) distinct made

/-- **A projection without force.** If it is refused, nothing changes. Otherwise it makes the copies of
all files for the default culture and for the languages that are no other spellings of it or of each
other. If it makes them all, and no target goes through a missing directory and back to a file, they are
the new files, and no other file changes. -/
theorem run_unforced (plain : tree.Plain) (gentle : options.force = false) :
    (∀ error after, run project options tree = (.ok (.error error), after) → after = tree) ∧
      ∀ report after, run project options tree = (.ok (.ok report), after) →
        ∃ default source languages rest,
          default = String.ofList (Text.trim (options.defaultCulture.getD "").toList) ∧
          Projection.source tree options = .ok source ∧
          project.locale.languages tree = .ok languages ∧ languages.Pairwise (· < ·) ∧
          report.cultures = default :: rest ∧ rest.Sublist languages ∧
          report.cultures.Pairwise Apart ∧
          (∀ language ∈ languages, ∃ culture ∈ report.cultures,
            Culture.normalize culture = Culture.normalize language) ∧
          let files := files tree source report.output
          report.written + report.failures.length = report.cultures.length * files.length ∧
          (report.isSuccess = true → Spared project default tree after
            (Projection.copies source report.output report.cultures files)) := by
  refine ⟨fun error after ran => ?_, fun report after ran => ?_⟩
  · unfold run at ran
    split at ran
    · cases ran
      rfl
    · rename_i plan planned
      generalize makeCopies (Projection.translator project plan.defaultCulture) tree plan.copies = made at ran
      obtain ⟨outcome, left⟩ := made
      cases outcome <;> cases ran
  · obtain ⟨plan, planned, output, cultures, made⟩ := plan_of_run ran
    obtain ⟨source, languages, chosen, found, -, listed, added, copies, none⟩ :=
      plan_eq_ok_iff.mp planned
    obtain ⟨trimmed, known⟩ := defaultCulture_eq_ok chosen
    obtain ⟨sorted, names⟩ := languages_sorted plain.isNamed listed
    obtain ⟨rest, all, sublist, apart, covered⟩ :=
      addCultures_spec [plan.defaultCulture] languages (List.pairwise_singleton _ _)
    rw [← output, added, all] at copies
    rw [List.singleton_append] at *
    rw [added, all] at cultures
    refine ⟨plan.defaultCulture, source, languages, rest, trimmed, found, listed, sorted, cultures, sublist,
      ?_⟩
    rw [cultures]
    refine ⟨apart, covered, ?_, fun success => ?_⟩
    · rw [length_makeCopies made, copies, length_copies]
    · have single : plan.copies = Projection.copies source report.output (plan.defaultCulture :: rest)
          (files tree source report.output) := copies
      have complete : report.failures = [] := List.isEmpty_iff.mp success
      rw [single, complete] at made
      exact spared_of_makeCopies plain found listed sublist apart (Culture.isFileName_of_isKnown known)
        (single ▸ none gentle) made

/-- The copies of a source are new files, and no other file changes. -/
theorem run_unforced_sampleTree :
    let tree := sampleTree "[[[Hello]]] you"
    ∃ report after, sampleOptions.force = false ∧ tree.Plain ∧
      run (sampleProject .standard) sampleOptions tree = (.ok (.ok report), after) ∧
      report.cultures = ["en", "fr"] ∧ report.written = 2 ∧
      (∀ place content stamp, tree.get? place = some (.file content stamp) →
        after.get? place = some (.file content stamp)) ∧
      after.read (sampleCopy "fr").target = .ok (.text "Bonjour you") := by
  intro tree
  have plain : tree.Plain := plain_of_entries (by decide +kernel) (by decide +kernel)
  have done : (run (sampleProject .standard) sampleOptions tree).1 =
      .ok (.ok ⟨⟨"/src/projected"⟩, ["en", "fr"], 2, []⟩) := by decide +kernel
  have ran := run_eq_of_fst done
  obtain ⟨default, source, languages, rest, trimmed, found, -, -, -, -, -, -, -, spared⟩ :=
    (run_unforced plain rfl).2 _ _ ran
  have own : Projection.source tree sampleOptions = .ok ⟨"/src"⟩ := by decide +kernel
  cases own.symm.trans found
  have chosen : default = "en" := trimmed.trans (by decide +kernel)
  subst chosen
  have copies : Projection.copies ⟨"/src"⟩ ⟨"/src/projected"⟩ ["en", "fr"]
      (files tree ⟨"/src"⟩ ⟨"/src/projected"⟩) = [sampleCopy "en", sampleCopy "fr"] := by
    decide +kernel
  obtain ⟨-, same, copied⟩ := spared rfl
  rw [copies] at same copied
  have english : tree.resolve (sampleCopy "en").target =
      .ok (.absent ["src", outputName, "en", "a.html"]) := by decide +kernel
  have french : tree.resolve (sampleCopy "fr").target =
      .ok (.absent ["src", outputName, "fr", "a.html"]) := by decide +kernel
  have template : tree.resolve (sampleProject .standard).locale.templatePath =
      .ok (.absent ["locale", Locale.templateName]) := by decide +kernel
  have seen : Unmissed tree [sampleCopy "en", sampleCopy "fr"] := by
    refine List.forall_mem_cons.mpr ⟨not_misses_of_resolve english, ?_⟩
    exact List.forall_mem_singleton.mpr (not_misses_of_resolve french)
  obtain ⟨input, output, read, replaced, written⟩ := copied seen (not_misses_of_resolve template)
    (sampleCopy "fr") (List.mem_cons_of_mem _ (List.mem_singleton_self _))
  have source : tree.read (sampleCopy "fr").input = .ok (.text "[[[Hello]]] you") := by decide +kernel
  have message : Markup.standard.replace ((catalogs (sampleProject .standard) "en").dictionary tree "fr")
      "[[[Hello]]] you" = .ok "Bonjour you" := by decide +kernel
  cases source.symm.trans read
  cases replaced with
  | text output =>
    cases message.symm.trans (Markup.replace_eq_ok_iff.mpr output)
    exact ⟨_, _, rfl, plain, ran, rfl, rfl, same seen, written⟩

/-- A source, and a copy that is there already. -/
def copiedTree : FileTree :=
  ⟨.ofList [(["src"], .directory), (["src", "a.html"], .file (.text "[[[Hello]]]") 0),
    (["out"], .directory), (["out", "en"], .directory),
    (["out", "en", "a.html"], .file (.text "old") 0)], [], 1⟩

/-- The copies go through a missing directory and back. -/
def detourOptions : ProjectionOptions := ⟨⟨"/src"⟩, some "en", some ⟨"/gone/../out"⟩, false⟩

/-- **A projection without force can store over a file**: it is not found on the target's path, which
goes through a missing directory, until this directory is made for the copy. -/
theorem run_overwrites_detour :
    let result := run (sampleProject .standard) detourOptions copiedTree
    copiedTree.Plain ∧ detourOptions.force = false ∧
      copiedTree.get? ["out", "en", "a.html"] = some (.file (.text "old") 0) ∧
      result.1 = .ok (.ok ⟨⟨"/gone/../out"⟩, ["en"], 1, []⟩) ∧
      result.2.get? ["out", "en", "a.html"] = some (.file (.text "Hello") 1) := by
  refine ⟨plain_of_entries ?_ ?_, ?_⟩ <;> decide +kernel

end Projection

end Localization
