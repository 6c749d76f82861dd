import Localization.Nugget.Scanner

/-
**The grammar of nuggets, and that the scanner reads exactly it.**

The grammar speaks of the whole text: whether a token starts within a capture depends on what follows
the capture, for tokens may overlap captures and each other.

* `Clear` — no token starts within a part of a text.
* `Markup.Stands` — a mark is the one that counts at a place.
* `Markup.Body`, `Markup.Heads` — a text starts with a nugget and goes on with a rest.
* `first?_eq_some_iff` — the scanner's first nugget is the first one of the grammar.
* `Markup.Occurrences` — the nuggets of a text in order; `parse_response` — those of a page.
-/

namespace Localization

open Text

/-! ### The earliest place -/

/-- The earliest place of a text at which something is found: what stands before it, and what is
found. -/
def earliest {α : Type} (find : List Char → Option α) : List Char → Option (List Char × α)
  | [] => none
  | c :: rest =>
    match find (c :: rest) with
    | some found => some ([], found)
    | none => (earliest find rest).map fun (before, found) => (c :: before, found)

/-- Something holds at every place within `front` in the text `front ++ back`. -/
def Throughout (holds : List Char → Prop) (front back : List Char) : Prop :=
  ∀ before after, front = before ++ after → after ≠ [] → holds (after ++ back)

theorem throughout_nil (holds : List Char → Prop) (back : List Char) : Throughout holds [] back := by
  intro before after split solid
  exact absurd (List.append_eq_nil_iff.mp split.symm).2 solid

theorem throughout_cons {holds : List Char → Prop} {c : Char} {front back : List Char} :
    Throughout holds (c :: front) back ↔ holds (c :: (front ++ back)) ∧ Throughout holds front back := by
  constructor
  · intro all
    refine ⟨all [] (c :: front) rfl (List.cons_ne_nil c front), fun before after split => ?_⟩
    exact all (c :: before) after (congrArg (c :: ·) split)
  · rintro ⟨head, later⟩ before after split solid
    cases before with
    | nil =>
      cases split
      exact head
    | cons d others =>
      cases split
      exact later others after rfl solid

/-- **Something is found at the earliest place exactly if it is found there and nowhere before.** -/
theorem earliest_eq_some_iff {α : Type} {find : List Char → Option α} (nowhere : find [] = none)
    {text before : List Char} {found : α} :
    earliest find text = some (before, found) ↔
      ∃ inside, text = before ++ inside ∧ find inside = some found ∧
        Throughout (find · = none) before inside := by
  induction text generalizing before with
  | nil =>
    refine ⟨nofun, ?_⟩
    rintro ⟨inside, split, here, -⟩
    rw [(List.append_eq_nil_iff.mp split.symm).2, nowhere] at here
    cases here
  | cons c rest ih =>
    unfold earliest
    cases head : find (c :: rest) with
    | some first =>
      constructor
      · intro same
        cases same
        exact ⟨c :: rest, rfl, head, throughout_nil _ _⟩
      · rintro ⟨inside, split, here, passed⟩
        cases before with
        | nil =>
          rw [show inside = c :: rest from split.symm, head] at here
          cases here
          rfl
        | cons d others =>
          have absent := (throughout_cons.mp passed).1
          rw [← List.cons_append, ← split, head] at absent
          cases absent
    | none =>
      dsimp only
      rw [Option.map_eq_some_iff]
      constructor
      · rintro ⟨⟨others, later⟩, further, same⟩
        cases same
        obtain ⟨inside, split, here, passed⟩ := ih.mp further
        exact ⟨inside, congrArg (c :: ·) split, here, throughout_cons.mpr ⟨split ▸ head, passed⟩⟩
      · rintro ⟨inside, split, here, passed⟩
        cases before with
        | nil =>
          rw [show inside = c :: rest from split.symm, head] at here
          cases here
        | cons d others =>
          cases split
          exact ⟨(others, found), ih.mpr ⟨inside, rfl, here, (throughout_cons.mp passed).2⟩, rfl⟩

/-! ### Parts without tokens -/

/-- None of the tokens starts within `front` in the text `front ++ back`. -/
def Clear (tokens : List (List Char)) : List Char → List Char → Prop :=
  Throughout fun text => ∀ token ∈ tokens, ¬ token <+: text

theorem dropToken?_eq_none {token text : List Char} :
    dropToken? token text = none ↔ ¬ token <+: text := by
  rw [Option.eq_none_iff_forall_ne_some]
  constructor
  · rintro missing ⟨rest, rfl⟩
    exact missing rest (dropToken?_eq_some.mpr rfl)
  · rintro absent rest found
    exact absent ⟨rest, (dropToken?_eq_some.mp found).symm⟩

namespace Markup

theorem split?_eq_earliest (token text : List Char) :
    split? token text = earliest (dropToken? token) text := by
  induction text with
  | nil => rfl
  | cons c rest ih =>
    rw [split?, earliest, ih]
    cases dropToken? token (c :: rest) <;> rfl

theorem next?_eq_earliest (markup : Markup) (marks : List Mark) (text : List Char) :
    markup.next? marks text = earliest (markup.markAt? marks) text := by
  induction text with
  | nil => rfl
  | cons c rest ih =>
    rw [next?, earliest, ih]
    cases markup.markAt? marks (c :: rest) <;> rfl

/-- **A token is found where it stands with none starting before.** -/
theorem split?_eq_some_iff {token text before after : List Char} (solid : token ≠ []) :
    split? token text = some (before, after) ↔
      text = before ++ (token ++ after) ∧ Clear [token] before (token ++ after) := by
  have nowhere : dropToken? token [] = none :=
    dropToken?_eq_none.mpr fun within => solid (List.prefix_nil.mp within)
  rw [split?_eq_earliest, earliest_eq_some_iff nowhere]
  simp only [dropToken?_eq_some, dropToken?_eq_none]
  unfold Clear
  simp only [List.mem_singleton, forall_eq]
  constructor
  · rintro ⟨inside, split, rfl, passed⟩
    exact ⟨split, passed⟩
  · rintro ⟨split, passed⟩
    exact ⟨_, split, rfl, passed⟩

end Markup

/-! ### Nuggets -/

/-- The marks that count before another one where both could be read. -/
def Mark.rivals : Mark → List Mark
  | .delimiter => []
  | .comment => [.delimiter]
  | .closing => [.delimiter, .comment]

namespace Markup

/-- A mark is the one that counts at the head of a text, before `after`. -/
structure Stands (markup : Markup) (mark : Mark) (text after : List Char) : Prop where
  here : text = markup.token mark ++ after
  first : ∀ rival ∈ mark.rivals, ¬ markup.token rival <+: text

/-- The tokens that end an id or a parameter. -/
def captureTokens (markup : Markup) : List (List Char) :=
  [markup.delimiter, markup.comment, markup.closing]

/-- The inside of a nugget from the mark behind its id on: parameters, each after a delimiter, then at
most one comment after its token, then the closing token, and a rest. -/
inductive Body (markup : Markup) :
    (items : List (List Char)) → (comment : Option (List Char)) → (text rest : List Char) → Prop
  | closing {text rest} (here : markup.Stands .closing text rest) : markup.Body [] none text rest
  | comment {text words rest} (here : markup.Stands .comment text (words ++ (markup.closing ++ rest)))
      (clear : Clear [markup.closing] words (markup.closing ++ rest)) :
    markup.Body [] (some words) text rest
  | item {text item inside items comment rest}
      (here : markup.Stands .delimiter text (item ++ inside))
      (clear : Clear markup.captureTokens item inside) (more : markup.Body items comment inside rest) :
    markup.Body (item :: items) comment text rest

/-- A nugget stands at the head of a text, before a rest. -/
def Heads (markup : Markup) (capture : Capture) (text rest : List Char) : Prop :=
  ∃ inside, text = markup.opening ++ (capture.id ++ inside) ∧
    Clear markup.captureTokens capture.id inside ∧
    markup.Body capture.items capture.comment inside rest

variable {markup : Markup} {text before inside after rest : List Char} {mark : Mark}
  {items : List (List Char)} {comment : Option (List Char)} {capture : Capture}

/-! ### Reading marks -/

/-- The marks are tried in their order. -/
theorem markAt?_captureMarks (markup : Markup) (text : List Char) :
    markup.markAt? captureMarks text =
      match dropToken? markup.delimiter text, dropToken? markup.comment text,
        dropToken? markup.closing text with
      | some after, _, _ => some (.delimiter, after)
      | none, some after, _ => some (.comment, after)
      | none, none, some after => some (.closing, after)
      | none, none, none => none := by
  unfold markAt? captureMarks
  simp only [List.findSome?_cons, List.findSome?_nil, token]
  cases dropToken? markup.delimiter text <;> cases dropToken? markup.comment text <;>
    cases dropToken? markup.closing text <;> rfl

theorem markAt?_eq_some_iff :
    markup.markAt? captureMarks text = some (mark, after) ↔ markup.Stands mark text after := by
  constructor
  · intro found
    refine ⟨(markAt?_eq_some found).2, ?_⟩
    rw [markAt?_captureMarks] at found
    split at found
    · cases found
      exact nofun
    · rename_i noDelimiter _
      cases found
      intro rival earlier
      cases List.mem_singleton.mp earlier
      exact dropToken?_eq_none.mp noDelimiter
    · rename_i noDelimiter noComment _
      cases found
      intro rival earlier
      rcases List.mem_cons.mp earlier with rfl | last
      · exact dropToken?_eq_none.mp noDelimiter
      · cases List.mem_singleton.mp last
        exact dropToken?_eq_none.mp noComment
    · cases found
  · rintro ⟨here, first⟩
    have dropped := dropToken?_eq_some.mpr here
    have passed {rival : Mark} (earlier : rival ∈ mark.rivals) :
        dropToken? (markup.token rival) text = none := dropToken?_eq_none.mpr (first rival earlier)
    rw [markAt?_captureMarks]
    cases mark with
    | delimiter => rw [show dropToken? markup.delimiter text = _ from dropped]
    | comment =>
      rw [show dropToken? markup.delimiter text = _ from @passed .delimiter (by simp [Mark.rivals]),
        show dropToken? markup.comment text = _ from dropped]
    | closing =>
      rw [show dropToken? markup.delimiter text = _ from @passed .delimiter (by simp [Mark.rivals]),
        show dropToken? markup.comment text = _ from @passed .comment (by simp [Mark.rivals]),
        show dropToken? markup.closing text = _ from dropped]

theorem markAt?_eq_none_iff :
    markup.markAt? captureMarks text = none ↔ ∀ token ∈ markup.captureTokens, ¬ token <+: text := by
  unfold markAt? captureMarks captureTokens
  simp [dropToken?_eq_none, token]

/-- **A capture ends at the earliest mark.** -/
theorem next?_eq_some_iff :
    markup.next? captureMarks text = some (before, mark, after) ↔
      ∃ inside, text = before ++ inside ∧ markup.Stands mark inside after ∧
        Clear markup.captureTokens before inside := by
  have nowhere : markup.markAt? captureMarks [] = none := by
    rw [markAt?_eq_none_iff]
    rintro token member within
    simp only [captureTokens, List.mem_cons, List.not_mem_nil, or_false] at member
    rcases member with rfl | rfl | rfl
    · exact markup.delimiter_ne_nil (List.prefix_nil.mp within)
    · exact markup.comment_ne_nil (List.prefix_nil.mp within)
    · exact markup.closing_ne_nil (List.prefix_nil.mp within)
  rw [next?_eq_earliest, earliest_eq_some_iff nowhere]
  simp only [markAt?_eq_some_iff, markAt?_eq_none_iff]
  rfl

/-! ### Reading nuggets -/

/-- One mark counts at a place. -/
theorem Stands.unique {other : Mark} {back : List Char} (stands : markup.Stands mark text after)
    (again : markup.Stands other text back) : mark = other ∧ after = back := by
  have same := (markAt?_eq_some_iff.mpr stands).symm.trans (markAt?_eq_some_iff.mpr again)
  cases same
  exact ⟨rfl, rfl⟩

theorem Body.stands (body : markup.Body items comment text rest) :
    ∃ mark after, markup.Stands mark text after := by
  cases body with
  | closing here => exact ⟨_, _, here⟩
  | comment here => exact ⟨_, _, here⟩
  | item here => exact ⟨_, _, here⟩

/-- **The rest of a nugget is read as the grammar has it.** -/
theorem captures?_eq_some_iff (stands : markup.Stands mark text after) :
    markup.captures? mark after = some (items, comment, rest) ↔ markup.Body items comment text rest := by
  fun_induction markup.captures? mark after generalizing text items comment rest with
  | case1 after =>
    constructor
    · intro found
      cases found
      exact .closing stands
    · intro body
      cases body with
      | closing here => rw [(stands.unique here).2]
      | comment here => cases (stands.unique here).1
      | item here => cases (stands.unique here).1
  | case2 after =>
    rw [Option.map_eq_some_iff]
    constructor
    · rintro ⟨⟨words, back⟩, found, same⟩
      cases same
      obtain ⟨rfl, clear⟩ := (split?_eq_some_iff markup.closing_ne_nil).mp found
      exact .comment stands clear
    · intro body
      cases body with
      | closing here => cases (stands.unique here).1
      | comment here clear =>
        obtain ⟨-, rfl⟩ := stands.unique here
        exact ⟨_, (split?_eq_some_iff markup.closing_ne_nil).mpr ⟨rfl, clear⟩, rfl⟩
      | item here => cases (stands.unique here).1
  | case3 after missing =>
    constructor
    · intro found
      cases found
    · intro body
      cases body with
      | closing here => cases (stands.unique here).1
      | comment here => cases (stands.unique here).1
      | item here clear more =>
        obtain ⟨-, rfl⟩ := stands.unique here
        obtain ⟨next, behind, there⟩ := more.stands
        rw [next?_eq_some_iff.mpr ⟨_, rfl, there, clear⟩] at missing
        cases missing
  | case4 after item next behind step _ ih =>
    obtain ⟨inside, rfl, there, clear⟩ := next?_eq_some_iff.mp step
    rw [Option.map_eq_some_iff]
    constructor
    · rintro ⟨⟨others, words, back⟩, found, same⟩
      cases same
      exact .item stands clear ((ih there).mp found)
    · intro body
      cases body with
      | closing here => cases (stands.unique here).1
      | comment here => cases (stands.unique here).1
      | item here own more =>
        obtain ⟨-, split⟩ := stands.unique here
        obtain ⟨other, back, begins⟩ := more.stands
        have again := next?_eq_some_iff.mpr ⟨_, rfl, begins, own⟩
        rw [← split, step] at again
        cases again
        rw [List.append_cancel_left_eq] at split
        subst split
        exact ⟨_, (ih there).mpr more, rfl⟩

/-- **The scanner finds a nugget exactly if it is the first one of the grammar.** -/
theorem first?_eq_some_iff :
    markup.first? text = some (before, capture, rest) ↔
      ∃ inside, text = before ++ inside ∧ markup.Heads capture inside rest ∧
        Clear [markup.opening] before inside := by
  simp only [first?, body?, Option.bind_eq_bind, Option.bind_eq_some_iff, Option.some.injEq,
    Prod.mk.injEq]
  constructor
  · rintro ⟨⟨front, inside⟩, opened, ⟨inner, back⟩, ⟨⟨id, mark, after⟩, step,
      ⟨items, comment, remaining⟩, closed, rfl, rfl⟩, rfl, rfl, rfl⟩
    obtain ⟨split, passed⟩ := (split?_eq_some_iff markup.opening_ne_nil).mp opened
    obtain ⟨text, rfl, stands, clear⟩ := next?_eq_some_iff.mp step
    exact ⟨_, split, ⟨text, rfl, clear, (captures?_eq_some_iff stands).mp closed⟩, passed⟩
  · rintro ⟨_, rfl, ⟨inside, rfl, clear, body⟩, passed⟩
    obtain ⟨mark, after, stands⟩ := body.stands
    exact ⟨(before, capture.id ++ inside), (split?_eq_some_iff markup.opening_ne_nil).mpr ⟨rfl, passed⟩,
      (capture, rest), ⟨(capture.id, mark, after), next?_eq_some_iff.mpr ⟨inside, rfl, stands, clear⟩,
        (capture.items, capture.comment, rest), (captures?_eq_some_iff stands).mpr body, rfl⟩,
      rfl, rfl, rfl⟩

/-- The scanner finds no nugget where the grammar has none. -/
theorem first?_eq_none_iff :
    markup.first? text = none ↔
      ∀ gap capture inside rest, text = gap ++ inside → Clear [markup.opening] gap inside →
        ¬ markup.Heads capture inside rest := by
  rw [Option.eq_none_iff_forall_ne_some]
  constructor
  · intro missing gap capture inside rest split passed heads
    exact missing (gap, capture, rest) (first?_eq_some_iff.mpr ⟨inside, split, heads, passed⟩)
  · rintro last ⟨gap, capture, rest⟩ found
    obtain ⟨inside, split, heads, passed⟩ := first?_eq_some_iff.mp found
    exact last gap capture inside rest split passed heads

/-- A nugget is written from its opening to its closing token. -/
theorem Heads.source (heads : markup.Heads capture text rest) :
    text = capture.source markup ++ rest :=
  first?_source (first?_eq_some_iff.mpr ⟨text, rfl, heads, throughout_nil _ _⟩)

/-! ### All nuggets of a text -/

/-- The nuggets of `back` in order, in a text that starts with `front`. Each one is the first behind the
one before, and behind the last one there is no other. -/
inductive Occurrences (markup : Markup) : (front back : List Char) → List Occurrence → Prop
  | done {front back}
      (last : ∀ gap capture inside rest, back = gap ++ inside → Clear [markup.opening] gap inside →
        ¬ markup.Heads capture inside rest) : markup.Occurrences front back []
  | next {front gap capture rest occurrences}
      (passed : Clear [markup.opening] gap (capture.source markup ++ rest))
      (heads : markup.Heads capture (capture.source markup ++ rest) rest)
      (later : markup.Occurrences (front ++ gap ++ capture.source markup) rest occurrences) :
    markup.Occurrences front (gap ++ (capture.source markup ++ rest))
      (⟨capture.nugget, ⟨byteLength (front ++ gap), byteLength (front ++ gap ++ capture.source markup)⟩⟩ ::
        occurrences)

/-- The occurrences that the scanner finds in a text behind a front. -/
def scanned (markup : Markup) (front back : List Char) : List Occurrence :=
  (markup.spans (byteLength front) (markup.found back)).map fun (capture, span) => ⟨capture.nugget, span⟩

theorem parse_response_eq (markup : Markup) (text : String) :
    markup.parse .response text = (markup.scanned [] text.toList).map .ok := by
  unfold parse scanned
  rw [List.map_map]
  rfl

/-- A text without a nugget is its own tail. -/
theorem found_of_none (missing : markup.first? text = none) :
    markup.found text = [] ∧ markup.tail text = text := by
  constructor
  · rw [found]
    split
    · rfl
    · rename_i present
      cases missing.symm.trans present
  · rw [tail]
    split
    · rfl
    · rename_i present
      cases missing.symm.trans present

/-- Behind the first nugget the others are found. -/
theorem found_of_some (present : markup.first? text = some (before, capture, rest)) :
    markup.found text = (before, capture) :: markup.found rest ∧ markup.tail text = markup.tail rest := by
  constructor
  · rw [found]
    split
    · rename_i missing
      cases present.symm.trans missing
    · rename_i again
      cases present.symm.trans again
      rfl
  · rw [tail]
    split
    · rename_i missing
      cases present.symm.trans missing
    · rename_i again
      cases present.symm.trans again
      rfl

theorem scanned_of_none (missing : markup.first? text = none) (front : List Char) :
    markup.scanned front text = [] := by
  rw [scanned, (found_of_none missing).1]
  rfl

theorem scanned_of_some (present : markup.first? text = some (before, capture, rest))
    (front : List Char) :
    markup.scanned front text =
      ⟨capture.nugget,
        ⟨byteLength (front ++ before), byteLength (front ++ before ++ capture.source markup)⟩⟩ ::
        markup.scanned (front ++ before ++ capture.source markup) rest := by
  unfold scanned
  rw [(found_of_some present).1, spans, List.map_cons]
  simp only [byteLength_append]

theorem occurrences_scanned (markup : Markup) (front back : List Char) :
    markup.Occurrences front back (markup.scanned front back) := by
  fun_induction markup.found back generalizing front with
  | case1 back missing =>
    rw [scanned_of_none missing]
    exact .done (first?_eq_none_iff.mp missing)
  | case2 back gap capture rest step _ ih =>
    rw [scanned_of_some step]
    obtain ⟨inside, rfl, heads, passed⟩ := first?_eq_some_iff.mp step
    cases heads.source
    exact .next passed heads (ih _)

/-- A nugget takes up bytes. -/
theorem byteLength_source_pos (markup : Markup) (capture : Capture) :
    0 < byteLength (capture.source markup) := by
  unfold Capture.source
  cases opening : markup.opening with
  | nil => exact absurd opening markup.opening_ne_nil
  | cons c rest =>
    have positive := c.utf8Size_pos
    simp only [List.cons_append, byteLength_cons]
    omega

/-- Occurrences take up bytes behind the front, one after the other. -/
theorem Occurrences.ordered {occurrences : List Occurrence}
    (listed : markup.Occurrences before text occurrences) :
    (∀ occurrence ∈ occurrences, byteLength before ≤ occurrence.span.start ∧
      occurrence.span.start < occurrence.span.stop) ∧
    occurrences.Pairwise fun first second => first.span.stop ≤ second.span.start := by
  induction listed with
  | done => exact ⟨nofun, .nil⟩
  | @next front gap capture rest occurrences _ _ _ ih =>
    obtain ⟨bounds, ordered⟩ := ih
    have positive := byteLength_source_pos markup capture
    refine ⟨?_, .cons (fun later member => (bounds later member).1) ordered⟩
    rintro occurrence (_ | ⟨_, member⟩)
    · simp only [byteLength_append]
      omega
    · have within := bounds occurrence member
      simp only [byteLength_append] at within
      omega

/-- **The nuggets of a page are those of the grammar.** They follow each other without overlapping,
and the first one is the first of the grammar. -/
theorem parse_response (markup : Markup) (text : String) :
    (∃ occurrences : List Occurrence, markup.parse .response text = occurrences.map .ok ∧
      markup.Occurrences [] text.toList occurrences ∧
      (∀ occurrence ∈ occurrences, occurrence.span.start < occurrence.span.stop) ∧
      occurrences.Pairwise fun first second => first.span.stop ≤ second.span.start) ∧
    ∀ occurrence, (markup.parse .response text).head? = some (.ok occurrence) ↔
      ∃ gap capture inside rest, text.toList = gap ++ inside ∧
        Clear [markup.opening] gap inside ∧ markup.Heads capture inside rest ∧
        occurrence = ⟨capture.nugget,
          ⟨byteLength gap, byteLength gap + byteLength (capture.source markup)⟩⟩ := by
  have listed := occurrences_scanned markup [] text.toList
  obtain ⟨bounds, ordered⟩ := listed.ordered
  rw [parse_response_eq]
  refine ⟨⟨_, rfl, listed, fun occurrence member => (bounds occurrence member).2, ordered⟩,
    fun occurrence => ?_⟩
  cases step : markup.first? text.toList with
  | none =>
    rw [scanned_of_none step]
    refine ⟨nofun, ?_⟩
    rintro ⟨gap, capture, inside, rest, split, passed, heads, -⟩
    exact absurd heads (first?_eq_none_iff.mp step gap capture inside rest split passed)
  | some found =>
    obtain ⟨before, capture, rest⟩ := found
    rw [scanned_of_some step, List.map_cons, List.head?_cons, Option.some.injEq, Except.ok.injEq]
    simp only [List.nil_append, byteLength_append]
    constructor
    · rintro rfl
      obtain ⟨inside, split, heads, passed⟩ := first?_eq_some_iff.mp step
      exact ⟨before, capture, inside, rest, split, passed, heads, rfl⟩
    · rintro ⟨gap, other, inside, behind, split, passed, heads, rfl⟩
      rw [first?_eq_some_iff.mpr ⟨inside, split, heads, passed⟩] at step
      cases step
      rfl

end Markup

end Localization
