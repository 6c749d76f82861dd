import Localization.Proofs.Nugget.Widths

/-
**Templates put together.**

A template is filled in from the front, and what has been passed is not looked at again. So two templates in
a row become what they become one by one, and a fault of the second one is reported where it stands.

* `Message.FormatFailure.shift` — how a template fails that stands further behind.
* `Message.formatFrom_shift` — where a template starts matters to the positions of its faults only.
* `Message.Fills` — what a template becomes, part by part; `format_eq_ok_iff`, this is what filling it in does.
* `Message.Fills.formatFrom_append` — a template that can be filled in, before any other.
* `Message.format_append` — templates put together, and texts with their braces doubled.
-/

namespace Localization.Message

open Text

/-! ### Faults further behind -/

/-- The error of a template that starts `distance` bytes further behind. -/
def FormatError.shift (distance : Nat) : FormatError → FormatError
  | unbalancedBrace brace position => unbalancedBrace brace (position + distance)
  | invalidPlaceholder placeholder position => invalidPlaceholder placeholder (position + distance)
  | indexOutOfRange index count => indexOutOfRange index count

/-- The failure of a template that starts `distance` bytes further behind. -/
def FormatFailure.shift (distance : Nat) : FormatFailure → FormatFailure
  | error cause => error (cause.shift distance)
  | overwide width => overwide width

variable {arguments : List (List Char)} {placeholder rest template text : List Char}

theorem mapError_map {ε ε' α β : Type} (result : Except ε α) (f : α → β) (g : ε → ε') :
    (result.map f).mapError g = (result.mapError g).map f := by
  cases result <;> rfl

/-- Where a placeholder stands matters to the positions of its faults only. -/
theorem expand_shift (arguments : List (List Char)) (position distance : Nat)
    (placeholder : List Char) :
    expand arguments (position + distance) placeholder =
      (expand arguments position placeholder).mapError (·.shift distance) := by
  unfold expand
  rcases placeholderParts placeholder with ⟨index, alignment⟩
  dsimp only
  cases Decimal.word? index with
  | none => rfl
  | some place =>
    dsimp only
    cases arguments[place]? with
    | none => rfl
    | some argument =>
      cases alignment with
      | none => rfl
      | some alignment =>
        obtain ⟨padding, digits⟩ := alignment
        dsimp only
        cases Decimal.word? digits with
        | none => rfl
        | some width =>
          dsimp only
          split <;> rfl

/-- **Where a template starts matters to the positions of its faults only.** -/
theorem formatFrom_shift (arguments : List (List Char)) (position distance : Nat)
    (template : List Char) :
    formatFrom arguments (position + distance) template =
      (formatFrom arguments position template).mapError (·.shift distance) := by
  fun_induction formatFrom arguments position template with
  | case1 position => rw [formatFrom]; rfl
  | case2 position rest ih =>
    rw [formatFrom_doubled (.inl rfl), Nat.add_right_comm, ih, mapError_map]
  | case3 position rest single unclosed =>
    rw [formatFrom]
    · split
      · rfl
      · rename_i found
        cases unclosed.symm.trans found
    · exact single
  | case4 position rest single placeholder after found ih =>
    obtain ⟨hole, rfl⟩ := hole_of_cut single found
    rw [formatFrom_hole hole, expand_shift]
    cases expand arguments position placeholder with
    | error failure => rfl
    | ok text =>
      have further : position + distance + byteLength placeholder + 2 =
          position + byteLength placeholder + 2 + distance := by omega
      show (formatFrom arguments (position + distance + byteLength placeholder + 2) after).map _ = _
      rw [further, ih]
      cases formatFrom arguments (position + byteLength placeholder + 2) after <;> rfl
  | case5 position rest ih =>
    rw [formatFrom_doubled (.inr rfl), Nat.add_right_comm, ih, mapError_map]
  | case6 position tail single =>
    rw [formatFrom]
    · rfl
    · exact single
  | case7 position c rest _ opened _ closed ih =>
    rw [formatFrom_plain ⟨opened, closed⟩, Nat.add_right_comm, ih, mapError_map]

/-! ### What templates become -/

/-- What a template becomes, part by part: a placeholder becomes its argument, a doubled brace a single
one, and all else stays. -/
inductive Fills (arguments : List (List Char)) : (template text : List Char) → Prop
  | done : Fills arguments [] []
  | hole {placeholder word rest text} (hole : Hole placeholder)
      (filled : expand arguments 0 placeholder = .ok word) (later : Fills arguments rest text) :
      Fills arguments ('{' :: (placeholder ++ '}' :: rest)) (word ++ text)
  | brace {brace rest text} (doubled : brace = '{' ∨ brace = '}')
      (later : Fills arguments rest text) : Fills arguments (brace :: brace :: rest) (brace :: text)
  | char {c rest text} (plain : c ≠ '{' ∧ c ≠ '}') (later : Fills arguments rest text) :
      Fills arguments (c :: rest) (c :: text)

theorem Fills.append {others more : List Char} (front : Fills arguments template text)
    (back : Fills arguments others more) : Fills arguments (template ++ others) (text ++ more) := by
  induction front with
  | done => exact back
  | hole hole filled later ih =>
    rw [List.cons_append, List.append_assoc, List.cons_append, List.append_assoc]
    exact .hole hole filled ih
  | brace doubled later ih => exact .brace doubled ih
  | char plain later ih => exact .char plain ih

/-- A placeholder is filled in alike wherever it stands. -/
theorem expand_eq_ok_iff {position : Nat} {word : List Char} :
    expand arguments position placeholder = .ok word ↔
      expand arguments 0 placeholder = .ok word := by
  have moved := expand_shift arguments 0 position placeholder
  rw [Nat.zero_add] at moved
  rw [moved]
  cases expand arguments 0 placeholder with
  | ok text => exact Iff.rfl
  | error failure =>
    constructor
    · rintro ⟨⟩
    · rintro ⟨⟩

theorem fills_of_formatFrom {position : Nat}
    (made : formatFrom arguments position template = .ok text) : Fills arguments template text := by
  fun_induction formatFrom arguments position template generalizing text with
  | case1 position =>
    cases made
    exact .done
  | case2 position rest ih =>
    obtain ⟨others, later, rfl⟩ := map_eq_ok_iff.mp made
    exact .brace (.inl rfl) (ih later)
  | case3 position rest single unclosed => cases made
  | case4 position rest single placeholder after found ih =>
    obtain ⟨hole, rfl⟩ := hole_of_cut single found
    cases filled : expand arguments position placeholder with
    | error failure =>
      rw [filled] at made
      cases made
    | ok word =>
      rw [filled] at made
      obtain ⟨others, later, rfl⟩ := map_eq_ok_iff.mp made
      exact .hole hole (expand_eq_ok_iff.mp filled) (ih later)
  | case5 position rest ih =>
    obtain ⟨others, later, rfl⟩ := map_eq_ok_iff.mp made
    exact .brace (.inr rfl) (ih later)
  | case6 position tail single => cases made
  | case7 position c rest _ opened _ closed ih =>
    obtain ⟨others, later, rfl⟩ := map_eq_ok_iff.mp made
    exact .char ⟨opened, closed⟩ (ih later)

/-- **A template that can be filled in comes before any other one**, which then starts where it ends. -/
theorem Fills.formatFrom_append (fills : Fills arguments template text) (position : Nat)
    (rest : List Char) :
    formatFrom arguments position (template ++ rest) =
      (formatFrom arguments (position + byteLength template) rest).map (text ++ ·) := by
  induction fills generalizing position with
  | done =>
    rw [List.nil_append, byteLength_nil, Nat.add_zero]
    cases formatFrom arguments position rest <;> rfl
  | @hole placeholder word others text hole filled later ih =>
    have size : position + byteLength placeholder + 2 + byteLength others =
        position + byteLength ('{' :: (placeholder ++ '}' :: others)) := by
      have opening : '{'.utf8Size = 1 := by decide
      have closing : '}'.utf8Size = 1 := by decide
      rw [byteLength_cons, byteLength_append, byteLength_cons, opening, closing]
      omega
    rw [List.cons_append, List.append_assoc, List.cons_append, formatFrom_hole hole,
      expand_eq_ok_iff.mpr filled, ih, size]
    cases formatFrom arguments (position + byteLength ('{' :: (placeholder ++ '}' :: others))) rest with
    | error failure => rfl
    | ok after => exact congrArg Except.ok (List.append_assoc word text after).symm
  | @brace brace others text doubled later ih =>
    have size : position + 2 + byteLength others =
        position + byteLength (brace :: brace :: others) := by
      have single : brace.utf8Size = 1 := by rcases doubled with rfl | rfl <;> decide
      rw [byteLength_cons, byteLength_cons, single]
      omega
    rw [List.cons_append, List.cons_append, formatFrom_doubled doubled, ih, size]
    cases formatFrom arguments (position + byteLength (brace :: brace :: others)) rest <;> rfl
  | @char c others text plain later ih =>
    rw [List.cons_append, formatFrom_plain plain, ih, byteLength_cons, ← Nat.add_assoc]
    cases formatFrom arguments (position + c.utf8Size + byteLength others) rest <;> rfl

/-- **Filling in a template turns it into what it becomes part by part.** -/
theorem format_eq_ok_iff {template text : String} {arguments : List String} :
    format template arguments = .ok text ↔
      Fills (arguments.map (·.toList)) template.toList text.toList := by
  unfold format
  constructor
  · intro made
    obtain ⟨chars, inner, rfl⟩ := map_eq_ok_iff.mp made
    rw [String.toList_ofList]
    exact fills_of_formatFrom inner
  · intro fills
    have whole := fills.formatFrom_append 0 []
    rw [List.append_nil, formatFrom] at whole
    rw [whole]
    simp [Except.map]

/-! ### Braces that stand for themselves -/

/-- A text with its braces doubled. -/
def doubleBraces (text : String) : String :=
  String.ofList (text.toList.flatMap fun c => if c = '{' ∨ c = '}' then [c, c] else [c])

/-- A text with its braces doubled becomes the text. -/
theorem fills_doubleBraces (arguments : List (List Char)) (text : String) :
    Fills arguments (doubleBraces text).toList text.toList := by
  unfold doubleBraces
  rw [String.toList_ofList]
  induction text.toList with
  | nil => exact .done
  | cons c rest ih =>
    rw [List.flatMap_cons]
    split
    · rename_i brace
      exact .brace brace ih
    · rename_i plain
      exact .char (not_or.mp plain) ih

/-! ### Templates in a row -/

/-- **Templates are filled in one after the other.** If the first one can be filled in, then both together
become what it becomes and what the second one does, or the second one fails as it would alone, only that
its fault is reported by so many bytes further behind as the first one takes. And every text is what its
template with doubled braces becomes, with any arguments. -/
theorem format_append (arguments : List String) :
    (∀ front back filled, format front arguments = .ok filled →
      format (front ++ back) arguments =
        match format back arguments with
        | .ok text => .ok (filled ++ text)
        | .error failure => .error (failure.shift (byteLength front.toList))) ∧
    ∀ text, format (doubleBraces text) arguments = .ok text := by
  constructor
  · intro front back filled made
    have fills := format_eq_ok_iff.mp made
    have moved := formatFrom_shift (arguments.map (·.toList)) 0 (byteLength front.toList) back.toList
    unfold format
    rw [String.toList_append, fills.formatFrom_append, moved]
    cases formatFrom (arguments.map (·.toList)) 0 back.toList with
    | error failure => rfl
    | ok text =>
      refine congrArg Except.ok ?_
      rw [String.ofList_append, String.ofList_toList]
  · exact fun text => format_eq_ok_iff.mpr (fills_doubleBraces _ text)

/-- Braces at the seam: a doubled one behind a placeholder, and one that is not closed. -/
theorem format_append_at_seam :
    format "é{0,-3}" ["a"] = .ok "éa  " ∧
    format ("é{0,-3}" ++ "\x7d\x7d\x7b\x7b{0}") ["a"] = .ok "éa  \x7d\x7ba" ∧
    format ("é{0,-3}" ++ "\x7d\x7d\x7d") ["a"] = .error (.error (.unbalancedBrace '}' 10)) ∧
    format ("é{0,-3}" ++ "\x7b7") ["a"] = .error (.error (.unbalancedBrace '{' 8)) := by
  have filled : format "é{0,-3}" ["a"] = .ok "éa  " := by decide +kernel
  have seam := (format_append ["a"]).1 "é{0,-3}"
  refine ⟨filled, ?_, ?_, ?_⟩
  · rw [seam _ _ filled]
    decide +kernel
  · rw [seam _ _ filled]
    decide +kernel
  · rw [seam _ _ filled]
    decide +kernel

end Localization.Message
