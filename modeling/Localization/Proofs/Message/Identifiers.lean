import Localization.Proofs.Message.Templates
import Localization.Proofs.Text.Decimal

/-
**Identifiers stand for arguments.**

A message without braces is filled in by two readers: one puts placeholders in the place of the
identifiers, and the other reads these again. Together they put the arguments straight in the place of
the identifiers.

* `Message.Reads` — the pieces of a message: its identifiers, and all other characters one by one.
* `Message.normalizeChars_of_reads` — the first reader, piece by piece.
* `Message.fills_template_of_supplied`, `Message.formatFrom_template_of_missing` — what the second one
  makes of a piece.
* `Message.format_normalize` — the two readers together, and what a nugget becomes.
-/

namespace Localization

open Text

namespace Message

/-! ### Pieces -/

/-- A piece of a message: an identifier with its digits, or any other character. -/
inductive Piece where
  | char (c : Char)
  | identifier (digits : List Char)
  deriving DecidableEq, Repr

namespace Piece

/-- A piece as it is written in a message. -/
def source : Piece → List Char
  | char c => [c]
  | identifier digits => '%' :: digits

/-- The argument that a piece names, where its number fits 64 bits. -/
def place? : Piece → Option Nat
  | char _ => none
  | identifier digits =>
    if Decimal.value digits ≤ Decimal.wordMax then some (Decimal.value digits) else none

/-- An argument that a piece names is one of those that are supplied. -/
def Supplied (count : Nat) (piece : Piece) : Prop :=
  ∀ place ∈ piece.place?, place < count

instance (count : Nat) (piece : Piece) : Decidable (piece.Supplied count) :=
  inferInstanceAs (Decidable (∀ place ∈ piece.place?, place < count))

/-- The argument that a piece names, or the piece itself. -/
def filled (arguments : List (List Char)) (piece : Piece) : List Char :=
  (piece.place?.bind (arguments[·]?)).getD piece.source

/-- What stands for a piece in a template. -/
def template (piece : Piece) : List Char :=
  match piece.place? with
  | some place => '{' :: (Decimal.digits place ++ ['}'])
  | none => piece.source

theorem le_wordMax_of_place? {piece : Piece} {place : Nat} (names : piece.place? = some place) :
    place ≤ Decimal.wordMax := by
  unfold place? at names
  split at names
  · cases names
  · split at names
    · cases names
      assumption
    · cases names

end Piece

/-- No digit comes first. -/
def Digitless (text : List Char) : Prop :=
  ∀ c ∈ text.head?, Decimal.isDigit c = false

instance (text : List Char) : Decidable (Digitless text) :=
  decidable_of_iff (text.head?.all (!Decimal.isDigit ·) = true) (by cases text <;> simp [Digitless])

/-- The pieces of a message. The digits of an identifier are all that follow its percent sign, and there
is at least one; a percent sign without digits is a character like any other. -/
inductive Reads : (message : List Char) → (pieces : List Piece) → Prop
  | done : Reads [] []
  | char {c rest pieces} (alone : c = '%' → Digitless rest) (later : Reads rest pieces) :
    Reads (c :: rest) (.char c :: pieces)
  | identifier {digits rest pieces} (solid : digits ≠ [])
      (run : ∀ c ∈ digits, Decimal.isDigit c = true) (whole : Digitless rest)
      (later : Reads rest pieces) :
    Reads ('%' :: (digits ++ rest)) (.identifier digits :: pieces)

variable {message digits rest : List Char} {pieces : List Piece}

theorem Digitless.takeWhile (whole : Digitless rest) (run : ∀ c ∈ digits, Decimal.isDigit c = true) :
    (digits ++ rest).takeWhile Decimal.isDigit = digits := by
  rw [List.takeWhile_append_of_pos run]
  cases rest with
  | nil => exact List.append_nil digits
  | cons c others => simp [whole c rfl]

theorem Digitless.dropWhile (whole : Digitless rest) (run : ∀ c ∈ digits, Decimal.isDigit c = true) :
    (digits ++ rest).dropWhile Decimal.isDigit = rest := by
  rw [List.dropWhile_append_of_pos run]
  cases rest with
  | nil => rfl
  | cons c others => simp [whole c rfl]

theorem digitless_dropWhile (text : List Char) : Digitless (text.dropWhile Decimal.isDigit) := by
  intro c first
  have head := List.head?_dropWhile_not Decimal.isDigit text
  rw [Option.mem_def.mp first] at head
  simpa using head

theorem not_digitless_run (solid : digits ≠ []) (run : ∀ c ∈ digits, Decimal.isDigit c = true) :
    ¬ Digitless (digits ++ rest) := by
  intro whole
  cases digits with
  | nil => exact solid rfl
  | cons c others =>
    have plain := whole c rfl
    rw [run c List.mem_cons_self] at plain
    cases plain

/-- Every message has its pieces. -/
theorem exists_reads (message : List Char) : ∃ pieces, Reads message pieces := by
  fun_induction normalizeChars message with
  | case1 => exact ⟨[], .done⟩
  | case2 rest ih =>
    obtain ⟨pieces, later⟩ := ih
    have whole := digitless_dropWhile rest
    by_cases numbered : rest.takeWhile Decimal.isDigit = []
    · have same : rest.dropWhile Decimal.isDigit = rest := by
        have both : rest.takeWhile Decimal.isDigit ++ rest.dropWhile Decimal.isDigit = rest :=
          List.takeWhile_append_dropWhile
        rwa [numbered] at both
      rw [same] at later whole
      exact ⟨_, .char (fun _ => whole) later⟩
    · have read := Reads.identifier numbered
        (fun c member => List.all_eq_true.mp List.all_takeWhile c member) whole later
      rw [List.takeWhile_append_dropWhile] at read
      exact ⟨_, read⟩
  | case3 c rest other ih =>
    obtain ⟨pieces, later⟩ := ih
    exact ⟨_, .char (fun percent => absurd percent other) later⟩

/-- A message has its pieces in one way only. -/
theorem Reads.unique (reads : Reads message pieces) {others : List Piece}
    (again : Reads message others) : pieces = others := by
  induction reads generalizing others with
  | done =>
    cases again
    rfl
  | char alone later ih =>
    cases again with
    | char _ further => rw [ih further]
    | identifier solid run _ _ => exact absurd (alone rfl) (not_digitless_run solid run)
  | @identifier digits rest pieces solid run whole later ih =>
    generalize source : digits ++ rest = text at again
    cases again with
    | char alone _ => exact absurd (source ▸ alone rfl) (not_digitless_run solid run)
    | @identifier own after _ _ also ends further =>
      have front : digits = own := by
        rw [← whole.takeWhile run, source, ends.takeWhile also]
      have back : rest = after := by
        rw [← whole.dropWhile run, source, ends.dropWhile also]
      subst front back
      rw [ih further]

/-- Nothing of a message is lost in its pieces. -/
theorem Reads.source (reads : Reads message pieces) : pieces.flatMap Piece.source = message := by
  induction reads with
  | done => rfl
  | char alone later ih => rw [List.flatMap_cons, ih]; rfl
  | identifier solid run whole later ih => rw [List.flatMap_cons, ih]; rfl

theorem placeholder_of_run (solid : digits ≠ []) (run : ∀ c ∈ digits, Decimal.isDigit c = true) :
    placeholder digits = (Piece.identifier digits).template := by
  rw [placeholder, Decimal.word?_of_run solid run]
  rfl

/-- **Normalizing works piece by piece.** -/
theorem normalizeChars_of_reads (reads : Reads message pieces) :
    normalizeChars message = pieces.flatMap Piece.template := by
  induction reads with
  | done => rw [normalizeChars]; rfl
  | @char c rest pieces alone later ih =>
    rw [normalizeChars, List.flatMap_cons, ← ih]
    split
    · rename_i percent
      subst percent
      have none : ∀ d ∈ ([] : List Char), Decimal.isDigit d = true := by simp
      have front := (alone rfl).takeWhile none
      have back := (alone rfl).dropWhile none
      rw [List.nil_append] at front back
      rw [front, back]
      rfl
    · rfl
  | @identifier digits rest pieces solid run whole later ih =>
    rw [normalizeChars, if_pos rfl, whole.takeWhile run, whole.dropWhile run, ih,
      placeholder_of_run solid run, List.flatMap_cons]

/-! ### Templates -/

/-- A text without braces. -/
def Braceless (text : List Char) : Prop :=
  '{' ∉ text ∧ '}' ∉ text

instance (text : List Char) : Decidable (Braceless text) :=
  inferInstanceAs (Decidable ('{' ∉ text ∧ '}' ∉ text))

variable {arguments : List (List Char)} {piece : Piece} {place : Nat}

/-- A text without braces stays as it is. -/
theorem fills_braceless {text : List Char} (plain : Braceless text) (arguments : List (List Char)) :
    Fills arguments text text := by
  induction text with
  | nil => exact .done
  | cons c others ih =>
    simp only [Braceless, List.mem_cons, not_or] at plain
    obtain ⟨⟨opens, behind⟩, closes, after⟩ := plain
    exact .char ⟨Ne.symm opens, Ne.symm closes⟩ (ih ⟨behind, after⟩)

theorem not_mem_digits {c : Char} (other : c.isDigit = false) (number : Nat) :
    c ∉ Decimal.digits number := by
  intro member
  rw [Decimal.isDigit_of_mem_digits member] at other
  cases other

theorem placeholderParts_digits (number : Nat) :
    placeholderParts (Decimal.digits number) = (Decimal.digits number, none) := by
  have whole (mark : Char) (other : mark.isDigit = false) :
      cut (· = mark) (Decimal.digits number) = none := by
    refine cut_eq_none.mpr fun c member => decide_eq_false ?_
    rintro rfl
    exact not_mem_digits other number member
  have trimmed : trim (Decimal.digits number) = Decimal.digits number := by
    refine trim_of_edges (fun c first => ?_) (fun c last => ?_)
    · exact Decimal.not_isBlank_of_isDigit
        (Decimal.isDigit_of_mem_digits (List.mem_of_mem_head? first))
    · exact Decimal.not_isBlank_of_isDigit
        (Decimal.isDigit_of_mem_digits (List.mem_of_mem_getLast? last))
  simp only [placeholderParts, whole ':' (by decide), whole ',' (by decide),
    Option.map_none, Option.getD_none, trimmed]

theorem hole_digits (number : Nat) : Hole (Decimal.digits number) where
  unclosed := not_mem_digits (by decide) number
  single first := not_mem_digits (by decide) number (List.mem_of_mem_head? first)

/-- A placeholder that is a number takes the argument of this number. -/
theorem expand_digits (fits : place ≤ Decimal.wordMax) (arguments : List (List Char)) (position : Nat) :
    expand arguments position (Decimal.digits place) =
      (arguments[place]?).elim (.error (.error (.indexOutOfRange place arguments.length))) .ok := by
  unfold expand
  rw [placeholderParts_digits]
  dsimp only
  rw [Decimal.word?_digits fits]
  dsimp only
  cases arguments[place]? <;> rfl

theorem Piece.template_of_place? (names : piece.place? = some place) :
    piece.template = '{' :: (Decimal.digits place ++ ['}']) := by
  rw [template, names]

theorem Piece.template_of_unnamed (unnamed : piece.place? = none) : piece.template = piece.source := by
  rw [template, unnamed]

/-- **A piece is filled in** with an argument that is supplied, or stays as it is. -/
theorem fills_template_of_supplied (plain : Braceless piece.source)
    (supplied : piece.Supplied arguments.length) :
    Fills arguments piece.template (piece.filled arguments) := by
  cases names : piece.place? with
  | none =>
    have kept : piece.filled arguments = piece.source := by rw [Piece.filled, names]; rfl
    rw [Piece.template_of_unnamed names, kept]
    exact fills_braceless plain arguments
  | some place =>
    have present : place < arguments.length := supplied place names
    have within : arguments[place]? = some arguments[place] := List.getElem?_eq_getElem present
    have taken : piece.filled arguments = arguments[place] := by
      rw [Piece.filled, names, Option.bind_some, within, Option.getD_some]
    have word : expand arguments 0 (Decimal.digits place) = .ok arguments[place] := by
      rw [expand_digits (Piece.le_wordMax_of_place? names), within]
      rfl
    rw [Piece.template_of_place? names, taken]
    simpa using Fills.hole (hole_digits place) word .done

/-- A piece whose argument is missing cannot be filled in. -/
theorem formatFrom_template_of_missing (names : piece.place? = some place)
    (missing : arguments.length ≤ place) (position : Nat) (rest : List Char) :
    formatFrom arguments position (piece.template ++ rest) =
      .error (.error (.indexOutOfRange place arguments.length)) := by
  rw [Piece.template_of_place? names, List.cons_append, List.append_assoc, List.singleton_append,
    formatFrom_hole (hole_digits place), expand_digits (Piece.le_wordMax_of_place? names),
    List.getElem?_eq_none missing]
  rfl

theorem braceless_append {front back : List Char} :
    Braceless (front ++ back) ↔ Braceless front ∧ Braceless back := by
  simp only [Braceless, List.mem_append, not_or]
  exact and_and_and_comm

/-- **The pieces of a message are filled in one after the other**, while their arguments are supplied. -/
theorem fills_templates (plain : Braceless (pieces.flatMap Piece.source))
    (supplied : ∀ piece ∈ pieces, piece.Supplied arguments.length) :
    Fills arguments (pieces.flatMap Piece.template) (pieces.flatMap (Piece.filled arguments)) := by
  induction pieces with
  | nil => exact .done
  | cons piece others ih =>
    rw [List.flatMap_cons, braceless_append] at plain
    obtain ⟨here, later⟩ := List.forall_mem_cons.mp supplied
    rw [List.flatMap_cons, List.flatMap_cons]
    exact (fills_template_of_supplied plain.1 here).append (ih plain.2 later)

end Message

/-! ### Nuggets -/

/-- A word takes the place of a nugget: by itself, and in every text in which the nugget is the first. -/
structure Nugget.Becomes (nugget : Nugget) (dictionary : Dictionary) (word : String) : Prop where
  resolved : nugget.resolve dictionary = .ok word
  replaced {markup : Markup} {text : String} {gap rest : List Char} {capture : Capture} :
    markup.first? text.toList = some (gap, capture, rest) → capture.nugget = nugget →
      markup.replace dictionary text =
        (markup.replace dictionary (.ofList rest)).map (String.ofList gap ++ word ++ ·)

theorem Nugget.becomes_of_resolve {nugget : Nugget} {dictionary : Dictionary} {word : String}
    (resolved : nugget.resolve dictionary = .ok word) : nugget.Becomes dictionary word where
  resolved := resolved
  replaced {markup text gap rest capture} found same := by
    rw [Markup.replace_of_first? found, same, resolved]
    rfl

namespace Message

/-- **Arguments take the place of the identifiers of a message, as they are.** A message without braces
has its pieces in one way only, and it becomes its pieces with the arguments that they name, where these
are supplied. Where some are not, it is the first piece without its argument that is reported, and a
nugget becomes the message with placeholders and a marker. -/
theorem format_normalize {message : String} (plain : Braceless message.toList)
    (arguments : List String) :
    ∃ pieces, Reads message.toList pieces ∧
      (∀ others, Reads message.toList others → others = pieces) ∧
      ((∀ piece ∈ pieces, piece.Supplied arguments.length) →
        format (normalize message) arguments =
          .ok (.ofList (pieces.flatMap (Piece.filled (arguments.map (·.toList)))))) ∧
      ∀ front piece back place, pieces = front ++ piece :: back →
        (∀ earlier ∈ front, earlier.Supplied arguments.length) →
        piece.place? = some place → arguments.length ≤ place →
          format (normalize message) arguments =
              .error (.error (.indexOutOfRange place arguments.length)) ∧
            ∀ (nugget : Nugget) (dictionary : Dictionary), nugget.isFormatted = true →
              nugget.items = arguments → nugget.message dictionary = message →
              nugget.Becomes dictionary (normalize message ++ Nugget.formatMarker) := by
  obtain ⟨pieces, reads⟩ := exists_reads message.toList
  have counted : (arguments.map (·.toList)).length = arguments.length := List.length_map _
  rw [← reads.source] at plain
  refine ⟨pieces, reads, fun others again => (reads.unique again).symm, fun supplied => ?_, ?_⟩
  · rw [← counted] at supplied
    rw [format_eq_ok_iff, normalize, String.toList_ofList, String.toList_ofList,
      normalizeChars_of_reads reads]
    exact fills_templates plain supplied
  · intro front piece back place split earlier names missing
    have failed : format (normalize message) arguments =
        .error (.error (.indexOutOfRange place arguments.length)) := by
      rw [split, List.flatMap_append, braceless_append] at plain
      rw [← counted] at earlier missing
      rw [format, normalize, String.toList_ofList, normalizeChars_of_reads reads, split,
        List.flatMap_append, List.flatMap_cons, (fills_templates plain.1 earlier).formatFrom_append,
        formatFrom_template_of_missing names missing, counted]
      rfl
    refine ⟨failed, fun nugget dictionary formatted items shown => Nugget.becomes_of_resolve ?_⟩
    have misfit : nugget.Misfit dictionary := ⟨formatted, _, by rw [shown, items, failed]⟩
    rw [misfit.resolve, shown]

/-- Identifiers in a row, one with a leading zero and one beyond 64 bits, and an argument that is
missing. -/
theorem format_normalize_in_a_row :
    Braceless "%1%01%99999999999999999999%".toList ∧
    format (normalize "%1%01%99999999999999999999%") ["a", "{0}%0"] =
      .ok "{0}%0{0}%0%99999999999999999999%" ∧
    format (normalize "%1%01%99999999999999999999%") ["a"] =
      .error (.error (.indexOutOfRange 1 1)) ∧
    Nugget.Becomes ⟨"%1%01%99999999999999999999%", ["a"], none⟩ (.empty "en" .standard)
      "{1}{1}%99999999999999999999%[FORMAT EXCEPTION]" := by
  have plain : Braceless "%1%01%99999999999999999999%".toList := by decide
  have source : "%1%01%99999999999999999999%".toList =
      '%' :: (['1'] ++ '%' :: (['0', '1'] ++ '%' :: (List.replicate 20 '9' ++ ['%']))) := by decide
  have known : Reads "%1%01%99999999999999999999%".toList
      [.identifier ['1'], .identifier ['0', '1'], .identifier (.replicate 20 '9'), .char '%'] := by
    rw [source]
    have last : Reads ['%'] [.char '%'] := .char (fun _ => by decide) .done
    exact .identifier (by decide) (List.all_eq_true.mp (by decide)) (by decide)
      (.identifier (by decide) (List.all_eq_true.mp (by decide)) (by decide)
        (.identifier (by decide) (List.all_eq_true.mp (by decide)) (by decide) last))
  refine ⟨plain, ?_, ?_⟩
  · obtain ⟨pieces, -, unique, filled, -⟩ := format_normalize plain ["a", "{0}%0"]
    cases unique _ known
    rw [filled (by decide +kernel)]
    decide +kernel
  · obtain ⟨pieces, -, unique, -, missing⟩ := format_normalize plain ["a"]
    cases unique _ known
    obtain ⟨failed, becomes⟩ := missing [] _ _ 1 rfl nofun (by decide) (by decide)
    have shown : normalize "%1%01%99999999999999999999%" ++ Nugget.formatMarker =
        "{1}{1}%99999999999999999999%[FORMAT EXCEPTION]" := by decide +kernel
    exact ⟨failed, shown ▸ becomes _ _ rfl rfl (by decide)⟩

end Message

end Localization
