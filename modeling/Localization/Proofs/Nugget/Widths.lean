import Localization.Proofs.Nugget.Replacing
import Localization.Proofs.Text

/-
**Widths that cannot be laid out.**

A placeholder may ask for more room than can be laid out, and then filling in a template stops the program.
Nothing else does.

* `Message.Asks` — a placeholder names a supplied argument, and perhaps a width.
* `Message.Stops` — the first placeholder of a template that cannot be filled in asks for such a width.
* `Message.format_eq_overwide_iff` — filling in a template stops the program exactly in this case.
* `Markup.replace_returns_iff` — what texts can have their nuggets replaced.
-/

namespace Localization

open Text

/-! ### Templates -/

namespace Message

/-- What stands between the braces of a placeholder. -/
structure Hole (placeholder : List Char) : Prop where
  unclosed : '}' ∉ placeholder
  single : placeholder.head? ≠ some '{'

/-- A placeholder names one of the arguments, and a width if it has an alignment. -/
inductive Asks (arguments : List (List Char)) (placeholder : List Char) : Option Nat → Prop
  | plain {index place} (parts : placeholderParts placeholder = (index, none))
      (number : Decimal.word? index = some place) (supplied : place < arguments.length) :
    Asks arguments placeholder none
  | wide {index padding digits place width}
      (parts : placeholderParts placeholder = (index, some (padding, digits)))
      (number : Decimal.word? index = some place) (supplied : place < arguments.length)
      (size : Decimal.word? digits = some width) :
    Asks arguments placeholder (some width)

/-- A placeholder can be filled in: it asks for no width, or for one that can be laid out. -/
def Fits (arguments : List (List Char)) (placeholder : List Char) : Prop :=
  ∃ width, Asks arguments placeholder width ∧ ∀ size ∈ width, size ≤ widthLimit

/-- The parts at the front of a template can be filled in, up to a placeholder that asks for a width
beyond the limit. -/
inductive Stops (arguments : List (List Char)) (width : Nat) : List Char → Prop
  | here {placeholder rest} (hole : Hole placeholder)
      (asks : Asks arguments placeholder (some width)) (beyond : widthLimit < width) :
    Stops arguments width ('{' :: (placeholder ++ '}' :: rest))
  | filled {placeholder rest} (hole : Hole placeholder) (fits : Fits arguments placeholder)
      (later : Stops arguments width rest) :
    Stops arguments width ('{' :: (placeholder ++ '}' :: rest))
  | brace {brace rest} (doubled : brace = '{' ∨ brace = '}') (later : Stops arguments width rest) :
    Stops arguments width (brace :: brace :: rest)
  | char {c rest} (plain : c ≠ '{' ∧ c ≠ '}') (later : Stops arguments width rest) :
    Stops arguments width (c :: rest)

variable {arguments : List (List Char)} {placeholder rest template : List Char} {position width : Nat}

/-- A placeholder without an alignment is filled in. -/
theorem expand_of_asks_none (asks : Asks arguments placeholder none) (position : Nat) :
    ∃ text, expand arguments position placeholder = .ok text := by
  cases asks with
  | @plain index place parts number supplied =>
    refine ⟨arguments[place], ?_⟩
    simp only [expand, parts, number, List.getElem?_eq_getElem supplied]

/-- A placeholder with an alignment is laid out, unless its width is beyond the limit. -/
theorem expand_of_asks_some (asks : Asks arguments placeholder (some width)) (position : Nat) :
    ∃ text, expand arguments position placeholder =
      if widthLimit < width then .error (.overwide width) else .ok text := by
  cases asks with
  | @wide index padding digits place width parts number supplied size =>
    refine ⟨pad padding width arguments[place], ?_⟩
    simp only [expand, parts, number, size, List.getElem?_eq_getElem supplied]

/-- A placeholder that names no argument, or no width where it should, is at fault. -/
theorem expand_of_not_asks (silent : ∀ size, ¬ Asks arguments placeholder size) (position : Nat) :
    ∃ cause, expand arguments position placeholder = .error (.error cause) := by
  unfold expand
  rcases parts : placeholderParts placeholder with ⟨index, alignment⟩
  dsimp only
  cases number : Decimal.word? index with
  | none => exact ⟨_, rfl⟩
  | some place =>
    dsimp only
    by_cases supplied : place < arguments.length
    · rw [List.getElem?_eq_getElem supplied]
      cases alignment with
      | none => exact absurd (.plain parts number supplied) (silent none)
      | some alignment =>
        obtain ⟨padding, digits⟩ := alignment
        dsimp only
        cases size : Decimal.word? digits with
        | none => exact ⟨_, rfl⟩
        | some width => exact absurd (.wide parts number supplied size) (silent (some width))
    · rw [List.getElem?_eq_none (Nat.le_of_not_lt supplied)]
      exact ⟨_, rfl⟩

/-- A placeholder fits, asks for a width beyond the limit, or is at fault. -/
theorem expand_cases (arguments : List (List Char)) (position : Nat) (placeholder : List Char) :
    Fits arguments placeholder ∨
      (∃ width, Asks arguments placeholder (some width) ∧ widthLimit < width) ∨
      ∃ cause, expand arguments position placeholder = .error (.error cause) := by
  by_cases named : ∃ size, Asks arguments placeholder size
  · obtain ⟨size, asks⟩ := named
    cases size with
    | none => exact .inl ⟨none, asks, nofun⟩
    | some width =>
      by_cases beyond : widthLimit < width
      · exact .inr (.inl ⟨width, asks, beyond⟩)
      · refine .inl ⟨some width, asks, fun size same => ?_⟩
        cases same
        exact Nat.le_of_not_lt beyond
  · have silent : ∀ size, ¬ Asks arguments placeholder size := fun size asks => named ⟨size, asks⟩
    exact .inr (.inr (expand_of_not_asks silent position))

theorem Fits.expand (fits : Fits arguments placeholder) (position : Nat) :
    ∃ text, expand arguments position placeholder = .ok text := by
  obtain ⟨size, asks, within⟩ := fits
  cases size with
  | none => exact expand_of_asks_none asks position
  | some width =>
    obtain ⟨text, laid⟩ := expand_of_asks_some asks position
    rw [if_neg (Nat.not_lt.mpr (within width rfl))] at laid
    exact ⟨text, laid⟩

/-- A placeholder is filled in before what follows it. -/
theorem formatFrom_hole (hole : Hole placeholder) (arguments : List (List Char)) (position : Nat)
    (rest : List Char) :
    formatFrom arguments position ('{' :: (placeholder ++ '}' :: rest)) =
      (expand arguments position placeholder).bind fun text =>
        (formatFrom arguments (position + byteLength placeholder + 2) rest).map (text ++ ·) := by
  have closed : cut (· = '}') (placeholder ++ '}' :: rest) = some (placeholder, rest) := by
    refine cut_append (fun c member => decide_eq_false ?_) (by decide) rest
    rintro rfl
    exact hole.unclosed member
  have single : ∀ others, placeholder ++ '}' :: rest ≠ '{' :: others := by
    intro others same
    cases placeholder with
    | nil => cases same
    | cons c tail => exact hole.single (congrArg List.head? same)
  rw [formatFrom]
  · split
    · rename_i open_ended
      cases closed.symm.trans open_ended
    · rename_i found
      cases closed.symm.trans found
      cases expand arguments position placeholder with
      | error failure => rfl
      | ok text =>
        cases formatFrom arguments (position + byteLength placeholder + 2) rest <;> rfl
  · exact single

theorem formatFrom_doubled {brace : Char} (doubled : brace = '{' ∨ brace = '}')
    (arguments : List (List Char)) (position : Nat) (rest : List Char) :
    formatFrom arguments position (brace :: brace :: rest) =
      (formatFrom arguments (position + 2) rest).map (brace :: ·) := by
  rcases doubled with rfl | rfl <;> rw [formatFrom]

theorem formatFrom_plain {c : Char} (plain : c ≠ '{' ∧ c ≠ '}') (arguments : List (List Char))
    (position : Nat) (rest : List Char) :
    formatFrom arguments position (c :: rest) =
      (formatFrom arguments (position + c.utf8Size) rest).map (c :: ·) := by
  rw [formatFrom]
  · exact fun _ opened => absurd opened plain.1
  · exact plain.1
  · exact fun _ closed => absurd closed plain.2
  · exact plain.2

/-- The part of a template that stands behind an opening brace and up to a closing one. -/
theorem hole_of_cut {text after : List Char} (single : ∀ others, text ≠ '{' :: others)
    (found : cut (· = '}') text = some (placeholder, after)) :
    Hole placeholder ∧ text = placeholder ++ '}' :: after := by
  obtain ⟨c, closing, clean, rfl⟩ := cut_eq_some found
  cases of_decide_eq_true closing
  refine ⟨⟨fun member => by simpa using clean '}' member, fun opened => ?_⟩, rfl⟩
  obtain ⟨others, rfl⟩ := List.head?_eq_some_iff.mp opened
  exact single _ rfl

/-- A template that stops the program has a width beyond the limit at its first fault. -/
theorem stops_of_formatFrom
    (stopped : formatFrom arguments position template = .error (.overwide width)) :
    Stops arguments width template := by
  fun_induction formatFrom arguments position template with
  | case1 position => cases stopped
  | case2 position rest ih => exact .brace (.inl rfl) (ih (map_eq_error_iff.mp stopped))
  | case3 position rest _ open_ended => cases stopped
  | case4 position rest single placeholder after found ih =>
    obtain ⟨hole, rfl⟩ := hole_of_cut single found
    rcases expand_cases arguments position placeholder with
      fits | ⟨size, asks, beyond⟩ | ⟨cause, failed⟩
    · obtain ⟨text, filled⟩ := fits.expand position
      rw [filled] at stopped
      exact .filled hole fits (ih (map_eq_error_iff.mp stopped))
    · obtain ⟨text, laid⟩ := expand_of_asks_some asks position
      rw [laid, if_pos beyond] at stopped
      cases stopped
      exact .here hole asks beyond
    · rw [failed] at stopped
      cases stopped
  | case5 position rest ih => exact .brace (.inr rfl) (ih (map_eq_error_iff.mp stopped))
  | case6 position tail _ => cases stopped
  | case7 position c rest _ open_ _ close ih =>
    exact .char ⟨open_, close⟩ (ih (map_eq_error_iff.mp stopped))

theorem formatFrom_of_stops (stops : Stops arguments width template) (position : Nat) :
    formatFrom arguments position template = .error (.overwide width) := by
  induction stops generalizing position with
  | @here placeholder rest hole asks beyond =>
    obtain ⟨text, laid⟩ := expand_of_asks_some asks position
    rw [formatFrom_hole hole, laid, if_pos beyond]
    rfl
  | @filled placeholder rest hole fits later ih =>
    obtain ⟨text, filled⟩ := fits.expand position
    rw [formatFrom_hole hole, filled]
    exact map_eq_error_iff.mpr (ih _)
  | brace doubled later ih =>
    rw [formatFrom_doubled doubled]
    exact map_eq_error_iff.mpr (ih _)
  | char plain later ih =>
    rw [formatFrom_plain plain]
    exact map_eq_error_iff.mpr (ih _)

/-- **Filling in a template stops the program exactly by a width beyond the limit.** -/
theorem format_eq_overwide_iff {template : String} {arguments : List String} :
    format template arguments = .error (.overwide width) ↔
      Stops (arguments.map (·.toList)) width template.toList := by
  unfold format
  rw [map_eq_error_iff]
  exact ⟨stops_of_formatFrom, fun stops => formatFrom_of_stops stops 0⟩

/-- A template that does not stop the program is filled in, or has a fault that is reported. -/
theorem format_returns_iff {template : String} {arguments : List String} :
    ((∃ text, format template arguments = .ok text) ∨
        ∃ cause, format template arguments = .error (.error cause)) ↔
      ∀ width, ¬ Stops (arguments.map (·.toList)) width template.toList := by
  simp only [← format_eq_overwide_iff]
  cases format template arguments with
  | ok text => simp
  | error failure => cases failure <;> simp

end Message

/-! ### Nuggets -/

namespace Nugget

variable {nugget : Nugget} {dictionary : Dictionary} {width : Nat}

/-- The message of a nugget before its parameters are filled in. -/
def message (nugget : Nugget) (dictionary : Dictionary) : String :=
  (nugget.localized? dictionary).getD nugget.id

/-- Filling the parameters of a nugget into its message stops the program. -/
def Stops (nugget : Nugget) (dictionary : Dictionary) (width : Nat) : Prop :=
  nugget.isFormatted = true ∧ Message.Stops (nugget.items.map (·.toList)) width
    (Message.normalize (nugget.message dictionary)).toList

/-- The parameters of a nugget cannot be filled into its message, for a reason that is reported. -/
def Misfit (nugget : Nugget) (dictionary : Dictionary) : Prop :=
  nugget.isFormatted = true ∧
    ∃ cause, Message.format (Message.normalize (nugget.message dictionary)) nugget.items =
      .error (.error cause)

theorem resolve_eq_error_iff :
    nugget.resolve dictionary = .error ⟨width⟩ ↔ nugget.Stops dictionary width := by
  unfold Stops
  rw [← Message.format_eq_overwide_iff]
  unfold resolve fillIn
  cases nugget.isFormatted with
  | false => simp
  | true =>
    simp only [if_true, true_and]
    rw [← message]
    cases Message.format (Message.normalize (nugget.message dictionary)) nugget.items with
    | ok text => simp
    | error failure => cases failure <;> simp

/-- A nugget has a text to take its place exactly if its parameters do not stop the program. -/
theorem resolve_returns_iff :
    (∃ text, nugget.resolve dictionary = .ok text) ↔ ∀ width, ¬ nugget.Stops dictionary width := by
  simp only [← resolve_eq_error_iff]
  cases nugget.resolve dictionary with
  | ok text => simp
  | error overwide =>
    obtain ⟨width⟩ := overwide
    simp

/-- A message that cannot be filled in is shown as it is, with a marker. -/
theorem Misfit.resolve (misfit : nugget.Misfit dictionary) :
    nugget.resolve dictionary =
      .ok (Message.normalize (nugget.message dictionary) ++ formatMarker) := by
  obtain ⟨formatted, cause, failed⟩ := misfit
  unfold Nugget.resolve
  rw [if_pos formatted, ← message]
  simp only [fillIn, failed]

end Nugget

/-! ### Texts -/

namespace Markup

variable {markup : Markup} {dictionary : Dictionary} {text : String}

theorem replaceParts_returns_iff (tail : List Char) {parts : List (List Char × Capture)} :
    (∃ output, replaceParts dictionary tail parts = .ok output) ↔
      ∀ part ∈ parts, ∃ message, part.2.nugget.resolve dictionary = .ok message := by
  induction parts with
  | nil => exact ⟨fun _ => nofun, fun _ => ⟨tail, rfl⟩⟩
  | cons part rest ih =>
    obtain ⟨before, capture⟩ := part
    simp only [replaceParts_cons, List.forall_mem_cons, ← ih]
    constructor
    · rintro ⟨output, message, others, resolved, later, -⟩
      exact ⟨⟨message, resolved⟩, others, later⟩
    · rintro ⟨⟨message, resolved⟩, others, later⟩
      exact ⟨_, message, others, resolved, later, rfl⟩

/-- The spans of nuggets leave their captures as they are. -/
theorem map_fst_spans (markup : Markup) (offset : Nat) (parts : List (List Char × Capture)) :
    (markup.spans offset parts).map (·.1) = parts.map (·.2) := by
  induction parts generalizing offset with
  | nil => rfl
  | cons part rest ih => rw [spans, List.map_cons, List.map_cons, ih]

/-- Something holds of every nugget of a page exactly if it holds of all that the scanner finds. -/
theorem forall_parse_response_iff (holds : Nugget → Prop) :
    (∀ occurrence, .ok occurrence ∈ markup.parse .response text → holds occurrence.nugget) ↔
      ∀ part ∈ markup.found text.toList, holds part.2.nugget := by
  have captures (capture : Capture) : (∃ part ∈ markup.found text.toList, part.2 = capture) ↔
      ∃ spot ∈ markup.spans 0 (markup.found text.toList), spot.1 = capture := by
    rw [← List.mem_map (f := Prod.snd), ← map_fst_spans markup 0, List.mem_map]
  constructor
  · intro all part member
    obtain ⟨spot, inside, same⟩ := (captures part.2).mp ⟨part, member, rfl⟩
    rw [← same]
    refine all ⟨spot.1.nugget, spot.2⟩ ?_
    exact List.mem_map.mpr ⟨spot, inside, rfl⟩
  · intro all occurrence member
    obtain ⟨part, inside, same⟩ := found_of_mem_parse member
    exact same ▸ all part inside

/-- **A text has its nuggets replaced unless one of them asks for a width beyond the limit**, and the same
is so for a template by itself. A message whose parameters cannot be filled in for another reason stands
in the output with a marker. -/
theorem replace_returns_iff (markup : Markup) (dictionary : Dictionary) (text : String) :
    ((∃ output, markup.replace dictionary text = .ok output) ↔
      ∀ occurrence, .ok occurrence ∈ markup.parse .response text →
        ∀ width, ¬ occurrence.nugget.Stops dictionary width) ∧
    (∀ output, markup.replace dictionary text = .ok output →
      ∀ occurrence, .ok occurrence ∈ markup.parse .response text →
        occurrence.nugget.Misfit dictionary →
        (Message.normalize (occurrence.nugget.message dictionary) ++ Nugget.formatMarker).toList <:+:
          output.toList) ∧
    ∀ template arguments,
      ((∃ text, Message.format template arguments = .ok text) ∨
          ∃ cause, Message.format template arguments = .error (.error cause)) ↔
        ∀ width, ¬ Message.Stops (arguments.map (·.toList)) width template.toList := by
  refine ⟨?_, ?_, fun template arguments => Message.format_returns_iff⟩
  · rw [forall_parse_response_iff fun nugget => ∀ width, ¬ nugget.Stops dictionary width]
    simp only [← Nugget.resolve_returns_iff]
    rw [← replaceParts_returns_iff (markup.tail text.toList), replace]
    exact map_returns_iff
  · intro output replaced occurrence member misfit
    obtain ⟨part, inside, same⟩ := found_of_mem_parse member
    obtain ⟨message, resolved, within⟩ := (replace_eq_ok_iff.mp replaced).message_of_found inside
    rw [same, misfit.resolve] at resolved
    cases resolved
    exact within

/-- A width beyond the limit stops the program, in a nugget and in a template. -/
theorem replace_stops_wide :
    (¬ ∃ output, standard.replace (.ofItems "en" .standard .empty) "[[[{0,70000}|||x]]]" =
      .ok output) ∧
    Message.format "{0,70000}" ["x"] = .error (.overwide 70000) := by
  have stopped : standard.replace (.ofItems "en" .standard .empty) "[[[{0,70000}|||x]]]" =
      .error ⟨70000⟩ := by decide +kernel
  refine ⟨?_, by decide +kernel⟩
  rintro ⟨output, replaced⟩
  cases stopped.symm.trans replaced

/-- A parameter that is not supplied is found missing before its width is read. -/
example : (standard.replace (.empty "en" .standard) "[[[{1,70000}|||x]]]").toOption =
    some "{1,70000}[FORMAT EXCEPTION]" := by decide +kernel

end Markup

end Localization
