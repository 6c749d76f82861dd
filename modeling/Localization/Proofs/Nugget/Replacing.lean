import Localization.Proofs.Nugget.Grammar
import Localization.Replacement
import Localization.Scan.Sources

/-
**Texts with their nuggets replaced.**

Replacing the nuggets of a text is described by the grammar of nuggets. A scan with the same markup
mentions nuggets that are replaced.

* `Markup.Replaced` — an output has the message of every nugget of a text in the nugget's place.
* `Markup.replace_eq_ok_iff` — this is what replacing does; `replace_of_first?`, nugget by nugget.
* `Markup.Replaced.message_of_found` — the message of a nugget stands in the output.
* `SourceScanner.found_of_mem_scanFile` — what a scan mentions is found by its markup.
-/

namespace Localization

/-! ### Texts with their nuggets replaced -/

namespace Markup

/-- An output is a text in which the message of every nugget takes its place, and all else is as it
was. Each nugget is the first behind the one before. -/
inductive Replaced (markup : Markup) (dictionary : Dictionary) : (text output : List Char) → Prop
  | done {text}
      (last : ∀ gap capture inside rest, text = gap ++ inside → Clear [markup.opening] gap inside →
        ¬ markup.Heads capture inside rest) : markup.Replaced dictionary text text
  | next {gap capture message rest output}
      (passed : Clear [markup.opening] gap (capture.source markup ++ rest))
      (heads : markup.Heads capture (capture.source markup ++ rest) rest)
      (resolved : capture.nugget.resolve dictionary = .ok message)
      (later : markup.Replaced dictionary rest output) :
    markup.Replaced dictionary (gap ++ (capture.source markup ++ rest))
      (gap ++ (message.toList ++ output))

variable {markup : Markup} {dictionary : Dictionary} {text output : List Char}

theorem replaceParts_cons {before tail output : List Char} {capture : Capture}
    {parts : List (List Char × Capture)} :
    replaceParts dictionary tail ((before, capture) :: parts) = .ok output ↔
      ∃ message others, capture.nugget.resolve dictionary = .ok message ∧
        replaceParts dictionary tail parts = .ok others ∧
        output = before ++ (message.toList ++ others) := by
  rw [replaceParts]
  cases capture.nugget.resolve dictionary with
  | error cause => simp [bind, Except.bind]
  | ok message =>
    cases replaceParts dictionary tail parts with
    | error cause => simp [bind, Except.bind]
    | ok others => simp [bind, Except.bind, eq_comm]

theorem replaced_of_parts
    (made : replaceParts dictionary (markup.tail text) (markup.found text) = .ok output) :
    markup.Replaced dictionary text output := by
  fun_induction markup.found text generalizing output with
  | case1 text missing =>
    rw [(found_of_none missing).2] at made
    cases made
    exact .done (first?_eq_none_iff.mp missing)
  | case2 text gap capture rest step _ ih =>
    rw [(found_of_some step).2] at made
    obtain ⟨message, others, resolved, later, rfl⟩ := replaceParts_cons.mp made
    obtain ⟨inside, rfl, heads, passed⟩ := first?_eq_some_iff.mp step
    cases heads.source
    exact .next passed heads resolved (ih later)

theorem Replaced.parts (replaced : markup.Replaced dictionary text output) :
    replaceParts dictionary (markup.tail text) (markup.found text) = .ok output := by
  induction replaced with
  | done last =>
    have missing := first?_eq_none_iff.mpr last
    rw [(found_of_none missing).1, (found_of_none missing).2]
    rfl
  | next passed heads resolved later ih =>
    have step := first?_eq_some_iff.mpr ⟨_, rfl, heads, passed⟩
    rw [(found_of_some step).1, (found_of_some step).2]
    exact replaceParts_cons.mpr ⟨_, _, resolved, ih, rfl⟩

/-- **Replacing puts the message of every nugget of the grammar in its place**, and leaves all else. -/
theorem replace_eq_ok_iff {text output : String} :
    markup.replace dictionary text = .ok output ↔
      markup.Replaced dictionary text.toList output.toList := by
  unfold replace
  constructor
  · intro made
    cases parts : replaceParts dictionary (markup.tail text.toList) (markup.found text.toList) with
    | error cause =>
      rw [parts] at made
      cases made
    | ok chars =>
      rw [parts] at made
      cases made
      rw [String.toList_ofList]
      exact replaced_of_parts parts
  · intro replaced
    rw [replaced.parts]
    exact congrArg Except.ok String.ofList_toList

/-- **The first nugget of a text is resolved before what follows it is gone through.** -/
theorem replace_of_first? {text : String} {gap rest : List Char} {capture : Capture}
    (found : markup.first? text.toList = some (gap, capture, rest)) :
    markup.replace dictionary text = (capture.nugget.resolve dictionary).bind fun word =>
      (markup.replace dictionary (.ofList rest)).map (String.ofList gap ++ word ++ ·) := by
  obtain ⟨parts, tail⟩ := found_of_some found
  unfold replace
  rw [parts, tail, replaceParts, String.toList_ofList]
  cases capture.nugget.resolve dictionary with
  | error overwide => rfl
  | ok word =>
    cases replaceParts dictionary (markup.tail rest) (markup.found rest) with
    | error overwide => rfl
    | ok output => exact congrArg Except.ok (String.toList_injective (by simp))

/-- The message of a nugget that is found stands in the output. -/
theorem Replaced.message_of_found (replaced : markup.Replaced dictionary text output)
    {gap : List Char} {capture : Capture} (found : (gap, capture) ∈ markup.found text) :
    ∃ message, capture.nugget.resolve dictionary = .ok message ∧ message.toList <:+: output := by
  induction replaced with
  | done last =>
    rw [(found_of_none (first?_eq_none_iff.mpr last)).1] at found
    cases found
  | @next before other message rest others passed heads resolved later ih =>
    have step := first?_eq_some_iff.mpr ⟨_, rfl, heads, passed⟩
    rw [(found_of_some step).1] at found
    rcases List.mem_cons.mp found with same | inside
    · cases same
      exact ⟨message, resolved, gap, others, by simp⟩
    · obtain ⟨own, its, front, back, within⟩ := ih inside
      exact ⟨own, its, before ++ (message.toList ++ front), back, by simp [← within]⟩

end Markup

/-! ### Nuggets that a scan extracts -/

theorem Markup.found_of_mem_spans {markup : Markup} {offset : Nat} {parts : List (List Char × Capture)}
    {capture : Capture} {span : Span} (member : (capture, span) ∈ markup.spans offset parts) :
    ∃ part ∈ parts, part.2 = capture := by
  induction parts generalizing offset with
  | nil => cases member
  | cons part rest ih =>
    rcases List.mem_cons.mp member with same | later
    · cases same
      exact ⟨part, List.mem_cons_self, rfl⟩
    · obtain ⟨other, inside, same⟩ := ih later
      exact ⟨other, List.mem_cons_of_mem part inside, same⟩

/-- A nugget of a source is one that the markup finds. -/
theorem Markup.found_of_mem_parse {markup : Markup} {purpose : Purpose} {text : String}
    {occurrence : Occurrence} (member : .ok occurrence ∈ markup.parse purpose text) :
    ∃ part ∈ markup.found text.toList, part.2.nugget = occurrence.nugget := by
  unfold parse at member
  obtain ⟨⟨capture, span⟩, inside, made⟩ := List.mem_map.mp member
  obtain ⟨part, found, rfl⟩ := found_of_mem_spans inside
  dsimp only at made
  split at made
  · cases made
  · cases made
    exact ⟨part, found, rfl⟩

namespace SourceScanner

variable {scanner : SourceScanner}

/-- What is mentioned in the findings of nuggets is one of them. -/
theorem mem_of_mem_findings {name : String} {text : List Char} {counter : LineCounter}
    {results : List (Except NuggetError Occurrence)} {mention : Mention}
    (member : mention ∈ (scanner.findings name text counter results).mentions) :
    ∃ occurrence, .ok occurrence ∈ results ∧ occurrence.nugget.id = mention.id := by
  induction results generalizing counter with
  | nil => cases member
  | cons result rest ih =>
    rcases List.mem_append.mp member with here | later
    · cases result with
      | error error => cases here
      | ok occurrence =>
        rw [List.mem_singleton.mp here]
        exact ⟨occurrence, List.mem_cons_self, rfl⟩
    · obtain ⟨occurrence, inside, same⟩ := ih later
      exact ⟨occurrence, List.mem_cons_of_mem result inside, same⟩

/-- **A scan mentions nuggets that its markup finds.** -/
theorem found_of_mem_scanFile {tree : FileTree} {path : Path} {text : String} {mention : Mention}
    (read : tree.readText path = .ok text) (member : mention ∈ (scanner.scanFile tree path).mentions) :
    ∃ part ∈ scanner.markup.found text.toList, part.2.nugget.id = mention.id := by
  unfold scanFile at member
  rw [read] at member
  obtain ⟨occurrence, inside, same⟩ := mem_of_mem_findings member
  obtain ⟨part, found, own⟩ := Markup.found_of_mem_parse inside
  exact ⟨part, found, own ▸ same⟩

end SourceScanner

end Localization
