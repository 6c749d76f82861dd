import Localization.Proofs.Nugget.Grammar

/-
**Where a scan ends.**

The scanner gives up on the whole rest of a text at the first opening token behind which it finds no
closing token. Delimiters and comment tokens that it reads on its way could cover a closing token; where
they cannot, nothing is lost.

* `Apart` — occurrences of two tokens share no character; `apart_of_disjoint`.
* `Markup.Unobscured` — closing tokens are apart from delimiters and comment tokens.
* `Markup.Unobscured.body?_isSome_iff` — a nugget can be read exactly where a closing token follows.
* `Markup.parse_until_unclosed` — the scan of a text goes on exactly as long as a closing token follows
  the next opening one.
-/

namespace Localization

open Text

/-! ### Tokens that cannot overlap -/

/-- An occurrence of a token that starts at a place of a text covers another place. -/
def Covers (token text : List Char) (start place : Nat) : Prop :=
  token <+: text.drop start ∧ start ≤ place ∧ place < start + token.length

/-- Occurrences of two tokens share no character, whatever the text. -/
def Apart (first second : List Char) : Prop :=
  ∀ text i j place, Covers first text i place → ¬ Covers second text j place

/-- An occurrence has the characters of its token. -/
theorem Covers.mem {token text : List Char} {start place : Nat} (covers : Covers token text start place) :
    ∃ c ∈ token, text[place]? = some c := by
  obtain ⟨⟨after, split⟩, later, within⟩ := covers
  have inside : place - start < token.length := by omega
  refine ⟨_, List.getElem_mem inside, ?_⟩
  rw [← List.getElem?_eq_getElem inside, ← List.getElem?_append_left inside, split, List.getElem?_drop,
    Nat.add_sub_cancel' later]

/-- Tokens without a common character cannot overlap. -/
theorem apart_of_disjoint {first second : List Char}
    (disjoint : (first.all fun c => !second.contains c) = true) : Apart first second := by
  intro text i j place here there
  obtain ⟨c, own, read⟩ := here.mem
  obtain ⟨d, its, again⟩ := there.mem
  rw [read, Option.some.injEq] at again
  have missing := List.all_eq_true.mp disjoint c own
  simp [again ▸ its] at missing

/-- Behind a token that cannot overlap another one, the other one still stands. -/
theorem Apart.infix_after {token other after : List Char} (apart : Apart other token)
    (solid : other ≠ []) (inside : other <:+: token ++ after) : other <:+: after := by
  obtain ⟨front, back, split⟩ := inside
  rw [List.append_assoc] at split
  have starts : other <+: (token ++ after).drop front.length := by
    rw [← split, List.drop_left]
    exact List.prefix_append other back
  have length := List.length_pos_iff.mpr solid
  have behind : token.length ≤ front.length := by
    refine Nat.le_of_not_lt fun short => ?_
    exact apart _ front.length 0 front.length ⟨starts, Nat.le_refl _, by omega⟩
      ⟨List.prefix_append token after, Nat.zero_le _, by omega⟩
  rcases List.append_eq_append_iff.mp split with ⟨part, rfl, same⟩ | ⟨part, rfl, same⟩
  · have empty : part = [] := by
      rw [List.length_append] at behind
      exact List.length_eq_zero_iff.mp (by omega)
    rw [empty, List.nil_append] at same
    exact ⟨[], back, same⟩
  · exact ⟨part, back, by rw [same, List.append_assoc]⟩

/-- A token that starts nowhere in the front of a text stands in the rest. -/
theorem Clear.infix_after {tokens : List (List Char)} {token before inside : List Char}
    (clear : Clear tokens before inside) (member : token ∈ tokens)
    (within : token <:+: before ++ inside) : token <:+: inside := by
  obtain ⟨front, back, split⟩ := within
  rw [List.append_assoc] at split
  rcases List.append_eq_append_iff.mp split with ⟨part, same, rest⟩ | ⟨part, -, rest⟩
  · cases part with
    | nil => exact ⟨[], back, rest⟩
    | cons c others =>
      refine absurd ?_ (clear front (c :: others) same (List.cons_ne_nil c others) token member)
      rw [← rest]
      exact List.prefix_append token back
  · exact ⟨part, back, by rw [rest, List.append_assoc]⟩

/-! ### Tokens that are nowhere -/

theorem earliest_eq_none_iff {α : Type} {find : List Char → Option α} {text : List Char} :
    earliest find text = none ↔ Throughout (find · = none) text [] := by
  induction text with
  | nil => exact ⟨fun _ => throughout_nil _ _, fun _ => rfl⟩
  | cons c rest ih =>
    rw [earliest, throughout_cons, ← ih, List.append_nil]
    cases find (c :: rest) <;> simp

theorem not_infix_of_clear {tokens : List (List Char)} {token text : List Char}
    (clear : Clear tokens text []) (member : token ∈ tokens) (solid : token ≠ []) :
    ¬ token <:+: text := by
  intro within
  have nowhere := clear.infix_after member ((List.append_nil text).symm ▸ within)
  exact solid (List.infix_nil.mp nowhere)

namespace Markup

variable {markup : Markup} {text before after gap rest : List Char} {mark : Mark}

/-- A token that is not found is nowhere in the text. -/
theorem split?_eq_none_iff {token : List Char} (solid : token ≠ []) :
    split? token text = none ↔ ¬ token <:+: text := by
  constructor
  · intro missing
    rw [split?_eq_earliest, earliest_eq_none_iff] at missing
    have clear : Clear [token] text [] := by
      intro front back split full other member
      rw [List.mem_singleton.mp member]
      exact dropToken?_eq_none.mp (missing front back split full)
    exact not_infix_of_clear clear (List.mem_singleton_self token) solid
  · intro nowhere
    rw [Option.eq_none_iff_forall_ne_some]
    rintro ⟨front, back⟩ found
    exact nowhere ⟨front, back, (split?_source found).symm⟩

/-- Where no mark is found, no closing token stands. -/
theorem not_infix_of_next?_eq_none (missing : markup.next? captureMarks text = none) :
    ¬ markup.closing <:+: text := by
  rw [next?_eq_earliest, earliest_eq_none_iff] at missing
  have clear : Clear markup.captureTokens text [] := fun front back split full =>
    markAt?_eq_none_iff.mp (missing front back split full)
  exact not_infix_of_clear clear (by simp [captureTokens]) markup.closing_ne_nil

/-! ### Nuggets that are closed -/

/-- No delimiter and no comment token can share a character with a closing token. -/
structure Unobscured (markup : Markup) : Prop where
  delimiter : Apart markup.closing markup.delimiter
  comment : Apart markup.closing markup.comment

/-- The tokens of a project that chooses none cannot overlap. -/
theorem unobscured_standard : standard.Unobscured where
  delimiter := apart_of_disjoint (by decide)
  comment := apart_of_disjoint (by decide)

namespace Unobscured

/-- **A mark that is read covers no closing token**: one that stood before it is read stands behind it,
unless it is the mark. -/
theorem remaining (unobscured : markup.Unobscured)
    (step : markup.next? captureMarks text = some (before, mark, after))
    (closed : markup.closing <:+: text) : mark = .closing ∨ markup.closing <:+: after := by
  obtain ⟨inside, rfl, ⟨rfl, -⟩, clear⟩ := next?_eq_some_iff.mp step
  have follows := clear.infix_after (by simp [captureTokens]) closed
  cases mark with
  | delimiter => exact .inr (unobscured.delimiter.infix_after markup.closing_ne_nil follows)
  | comment => exact .inr (unobscured.comment.infix_after markup.closing_ne_nil follows)
  | closing => exact .inl rfl

theorem captures?_isSome (unobscured : markup.Unobscured)
    (closed : mark = .closing ∨ markup.closing <:+: text) : (markup.captures? mark text).isSome := by
  fun_induction markup.captures? mark text with
  | case1 text => rfl
  | case2 text =>
    have follows := closed.resolve_left (by decide)
    rw [Option.isSome_map, Option.isSome_iff_ne_none, Ne, split?_eq_none_iff markup.closing_ne_nil]
    exact not_not_intro follows
  | case3 text missing => exact absurd (closed.resolve_left (by decide)) (not_infix_of_next?_eq_none missing)
  | case4 text item next after step _ ih =>
    rw [Option.isSome_map]
    exact ih (unobscured.remaining step (closed.resolve_left (by decide)))

/-- **A nugget can be read behind its opening token exactly if a closing token follows.** -/
theorem body?_isSome_iff (unobscured : markup.Unobscured) :
    (markup.body? text).isSome ↔ markup.closing <:+: text := by
  constructor
  · intro read
    obtain ⟨⟨capture, rest⟩, found⟩ := Option.isSome_iff_exists.mp read
    simp only [body?, Option.bind_eq_bind, Option.bind_eq_some_iff] at found
    obtain ⟨⟨id, mark, after⟩, step, ⟨items, comment, remaining⟩, closed, -⟩ := found
    have source : text = id ++ markup.token mark ++ after := (next?_source step).2
    have written : markup.token mark ++ after = _ := captures?_source closed
    refine ⟨id ++ (Capture.itemsSource markup items ++ Capture.commentSource markup comment), remaining, ?_⟩
    rw [List.append_assoc, written] at source
    simp [source]
  · intro closed
    unfold body?
    cases step : markup.next? captureMarks text with
    | none => exact absurd closed (not_infix_of_next?_eq_none step)
    | some found =>
      obtain ⟨id, mark, after⟩ := found
      obtain ⟨captures, read⟩ := Option.isSome_iff_exists.mp
        (unobscured.captures?_isSome (unobscured.remaining step closed))
      simp [read]

end Unobscured

/-! ### The first opening token -/

/-- The first opening token of a text stands between a gap and a rest. -/
structure Opens (markup : Markup) (text gap rest : List Char) : Prop where
  here : text = gap ++ (markup.opening ++ rest)
  first : Clear [markup.opening] gap (markup.opening ++ rest)

theorem split?_opening_iff : split? markup.opening text = some (gap, rest) ↔ markup.Opens text gap rest :=
  (split?_eq_some_iff markup.opening_ne_nil).trans ⟨fun ⟨here, first⟩ => ⟨here, first⟩,
    fun opens => ⟨opens.here, opens.first⟩⟩

/-- A nugget that is found starts with the first opening token. -/
theorem Opens.gap_of_first? (opens : markup.Opens text gap rest) {capture : Capture}
    (found : markup.first? text = some (before, capture, after)) : before = gap := by
  obtain ⟨inside, split, ⟨inner, rfl, -⟩, passed⟩ := first?_eq_some_iff.mp found
  have same := (split?_opening_iff.mpr ⟨split, passed⟩).symm.trans (split?_opening_iff.mpr opens)
  cases same
  rfl

/-- **The first opening token of a text starts a nugget exactly if a closing token follows.** -/
theorem Opens.first?_isSome_iff (opens : markup.Opens text gap rest) (unobscured : markup.Unobscured) :
    (∃ capture after, markup.first? text = some (gap, capture, after)) ↔ markup.closing <:+: rest := by
  have opened := split?_opening_iff.mpr opens
  rw [← unobscured.body?_isSome_iff, Option.isSome_iff_exists]
  unfold first?
  constructor
  · rintro ⟨capture, after, found⟩
    simp only [opened, Option.bind_eq_bind, Option.bind_some, Option.bind_eq_some_iff] at found
    obtain ⟨read, body, -⟩ := found
    exact ⟨read, body⟩
  · rintro ⟨⟨capture, after⟩, body⟩
    exact ⟨capture, after, by simp [opened, body]⟩

/-- There is no nugget exactly if there is no opening token, or no closing one behind the first. -/
theorem Unobscured.first?_eq_none_iff (unobscured : markup.Unobscured) :
    markup.first? text = none ↔ ¬ markup.opening <:+: text ∨
      ∃ gap rest, markup.Opens text gap rest ∧ ¬ markup.closing <:+: rest := by
  rw [← split?_eq_none_iff markup.opening_ne_nil]
  constructor
  · intro missing
    cases opened : split? markup.opening text with
    | none => exact .inl rfl
    | some parts =>
      obtain ⟨gap, rest⟩ := parts
      have opens := split?_opening_iff.mp opened
      refine .inr ⟨gap, rest, opens, fun closed => ?_⟩
      obtain ⟨capture, after, found⟩ := (opens.first?_isSome_iff unobscured).mpr closed
      cases missing.symm.trans found
  · rintro (unopened | ⟨gap, rest, opens, unclosed⟩)
    · simp [first?, unopened]
    · rw [Option.eq_none_iff_forall_ne_some]
      rintro ⟨before, capture, after⟩ found
      cases opens.gap_of_first? found
      exact unclosed ((opens.first?_isSome_iff unobscured).mp ⟨capture, after, found⟩)

/-! ### The whole scan -/

/-- Where a nugget stands, also one with a mistake. -/
def resultSpan : Except NuggetError Occurrence → Span
  | .ok occurrence => occurrence.span
  | .error error => error.span

/-- The spans of the nuggets of a text in order, also of those with a mistake. -/
def resultSpans (markup : Markup) (purpose : Purpose) (text : String) : List Span :=
  (markup.parse purpose text).map resultSpan

/-- The byte behind the last of some spans, or `start` if there is none. -/
def cursor (start : Nat) (spans : List Span) : Nat :=
  spans.foldl (fun _ span => span.stop) start

theorem span_of_problem? {capture : Capture} {span : Span} {error : NuggetError}
    (wrong : capture.problem? span = some error) : error.span = span := by
  unfold Capture.problem? at wrong
  split at wrong
  · cases wrong
    rfl
  · obtain ⟨index, -, rfl⟩ := Option.map_eq_some_iff.mp wrong
    rfl

theorem resultSpans_eq (markup : Markup) (purpose : Purpose) (text : String) :
    markup.resultSpans purpose text = (markup.spans 0 (markup.found text.toList)).map (·.2) := by
  rw [resultSpans, parse, List.map_map]
  refine List.map_congr_left fun found _ => ?_
  obtain ⟨capture, span⟩ := found
  rw [Function.comp_apply]
  dsimp only
  split
  · rename_i wrong
    exact span_of_problem? wrong
  · rfl

/-- After some nuggets, a scan goes on behind the last of them as if it started there. -/
theorem exists_drop_spans (markup : Markup) (front back : List Char) (count : Nat) :
    ∃ passed rest, back = passed ++ rest ∧
      byteLength (front ++ passed) = cursor (byteLength front)
        (((markup.spans (byteLength front) (markup.found back)).map (·.2)).take count) ∧
      (markup.spans (byteLength front) (markup.found back)).drop count =
        markup.spans (byteLength (front ++ passed)) (markup.found rest) := by
  fun_induction markup.found back generalizing front count with
  | case1 back missing =>
    refine ⟨[], back, rfl, ?_, ?_⟩
    · simp [spans, cursor]
    · rw [(found_of_none missing).1]
      simp [spans]
  | case2 back gap capture rest step _ ih =>
    cases count with
    | zero =>
      refine ⟨[], back, rfl, ?_, ?_⟩
      · simp [cursor]
      · rw [(found_of_some step).1, List.append_nil]
        rfl
    | succ count =>
      obtain ⟨passed, later, split, reached, same⟩ := ih (front ++ gap ++ capture.source markup) count
      refine ⟨gap ++ capture.source markup ++ passed, later, ?_, ?_, ?_⟩
      · rw [first?_source step, split]
        simp
      · rw [spans]
        simp only [List.map_cons, List.take_succ_cons, cursor, List.foldl_cons, ← byteLength_append]
        rw [← List.append_assoc, ← List.append_assoc, reached]
        rfl
      · rw [spans, List.drop_succ_cons]
        simp only [← byteLength_append]
        rw [← List.append_assoc, ← List.append_assoc, same]

/-- **A scan goes on as long as nuggets are closed.** However many nuggets of a text have been read, the
next one is that of the first opening token behind them, exactly if a closing token follows it; and there
is no other exactly if no opening token is left, or no closing one behind the first. -/
theorem parse_until_unclosed (unobscured : markup.Unobscured) (purpose : Purpose) (text : String)
    (count : Nat) :
    ∃ front back, text.toList = front ++ back ∧
      byteLength front = cursor 0 ((markup.resultSpans purpose text).take count) ∧
      (∀ gap rest, markup.Opens back gap rest →
        ((∃ span, (markup.resultSpans purpose text)[count]? = some span ∧
          span.start = byteLength (front ++ gap)) ↔ markup.closing <:+: rest)) ∧
      ((markup.resultSpans purpose text)[count]? = none ↔ ¬ markup.opening <:+: back ∨
        ∃ gap rest, markup.Opens back gap rest ∧ ¬ markup.closing <:+: rest) := by
  obtain ⟨passed, back, split, reached, same⟩ := exists_drop_spans markup [] text.toList count
  have next : (markup.resultSpans purpose text)[count]? =
      ((markup.spans (byteLength passed) (markup.found back)).map (·.2)).head? := by
    rw [List.nil_append] at same
    rw [resultSpans_eq, ← List.head?_drop, ← List.map_drop, ← same]
    rfl
  refine ⟨passed, back, split, ?_, ?_, ?_⟩
  · rw [resultSpans_eq]
    exact reached
  · intro gap rest opens
    rw [← opens.first?_isSome_iff unobscured, next]
    constructor
    · rintro ⟨span, found, -⟩
      cases step : markup.first? back with
      | none =>
        rw [(found_of_none step).1] at found
        cases found
      | some parts =>
        obtain ⟨before, capture, after⟩ := parts
        cases opens.gap_of_first? step
        exact ⟨capture, after, rfl⟩
    · rintro ⟨capture, after, step⟩
      rw [(found_of_some step).1]
      exact ⟨_, rfl, (byteLength_append passed gap).symm⟩
  · rw [next, ← unobscured.first?_eq_none_iff]
    cases step : markup.first? back with
    | none => simp [(found_of_none step).1, spans]
    | some parts =>
      obtain ⟨before, capture, after⟩ := parts
      simp [(found_of_some step).1, spans]

/-- Delimiters behind a comment token do not keep a nugget from being closed, and the scan ends before the
opening token that no closing one follows. -/
theorem parse_until_unclosed_commented :
    standard.Unobscured ∧
      standard.resultSpans .source "[[[Save///a|||b]]] [[[two|||" = [⟨0, 18⟩] ∧
      ∃ front back, "[[[Save///a|||b]]] [[[two|||".toList = front ++ back ∧ byteLength front = 18 ∧
        (¬ standard.opening <:+: back ∨
          ∃ gap rest, standard.Opens back gap rest ∧ ¬ standard.closing <:+: rest) := by
  have spans : standard.resultSpans .source "[[[Save///a|||b]]] [[[two|||" = [⟨0, 18⟩] := by
    decide +kernel
  obtain ⟨front, back, split, reached, -, ended⟩ :=
    parse_until_unclosed unobscured_standard .source "[[[Save///a|||b]]] [[[two|||" 1
  rw [spans] at reached ended
  exact ⟨unobscured_standard, spans, front, back, split, reached, ended.mp rfl⟩

/-- A delimiter that covers part of a closing token hides it. -/
example : (⟨⟨"[", "]]", "|]", "//"⟩, Tokens.check_eq_ok_iff.mpr (by decide)⟩ : Markup).found
    "[a|]]".toList = [] := by decide +kernel

end Markup

end Localization
