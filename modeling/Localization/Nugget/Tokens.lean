/-
**The tokens that frame a nugget.**

* `Tokens.check` — accepts four tokens that are not empty and pairwise different.
* `Markup` — tokens that pass the check; the scanner works with these alone.
* `check_eq_ok_iff` — what the check accepts.
-/

namespace Localization

/-- The part that a token plays. -/
inductive TokenRole where
  | opening
  | closing
  | delimiter
  | comment
  deriving DecidableEq, Repr

/-- The name of the part in settings and messages. -/
def TokenRole.name : TokenRole → String
  | opening => "begin"
  | closing => "end"
  | delimiter => "delimiter"
  | comment => "comment"

/-- The four literal tokens of the markup. In `[[[Hello %0|||World///greeting]]]` they are `[[[`,
`]]]`, the parameter delimiter `|||` and the comment delimiter `///`. -/
structure Tokens where
  opening : String
  closing : String
  delimiter : String
  comment : String
  deriving DecidableEq, Repr

/-- The reasons to refuse tokens. -/
inductive TokenError where
  | empty (role : TokenRole)
  | duplicate (first second : TokenRole) (token : String)
  deriving DecidableEq, Repr

/-- The wording of a refusal. -/
def TokenError.message : TokenError → String
  | empty role => s!"Nugget token '{role.name}' cannot be empty"
  | duplicate first second token =>
    s!"Nugget tokens '{first.name}' and '{second.name}' must differ (both are '{token}')"

namespace Tokens

/-- The tokens of a project that chooses none. -/
def standard : Tokens := ⟨"[[[", "]]]", "|||", "///"⟩

/-- The tokens with their parts, in the order in which they are checked. -/
def named (tokens : Tokens) : List (TokenRole × String) :=
  [(.opening, tokens.opening), (.closing, tokens.closing), (.delimiter, tokens.delimiter),
    (.comment, tokens.comment)]

/-- The first two parts in a list that share a token. -/
def firstDuplicate? : List (TokenRole × String) → Option TokenError
  | [] => none
  | (role, token) :: rest =>
    match rest.find? (·.2 = token) with
    | some (other, _) => some (.duplicate role other token)
    | none => firstDuplicate? rest

/-- The first reason to refuse the tokens: an empty one, else two equal ones. -/
def problem? (tokens : Tokens) : Option TokenError :=
  match tokens.named.find? (·.2 = "") with
  | some (role, _) => some (.empty role)
  | none => firstDuplicate? tokens.named

/-- Accepts tokens that are not empty and pairwise different. -/
def check (tokens : Tokens) : Except TokenError Unit :=
  match tokens.problem? with
  | some error => .error error
  | none => .ok ()

theorem firstDuplicate?_eq_none {named : List (TokenRole × String)} :
    firstDuplicate? named = none ↔ (named.map (·.2)).Nodup := by
  induction named with
  | nil => simp [firstDuplicate?]
  | cons head rest ih =>
    obtain ⟨role, token⟩ := head
    unfold firstDuplicate?
    split
    · rename_i other _ found
      have member := List.mem_of_find?_eq_some found
      have equal := List.find?_some found
      simp only [decide_eq_true_eq] at equal
      simp only [reduceCtorEq, List.map_cons, List.nodup_cons, false_iff, not_and]
      intro absent
      exact absurd (List.mem_map.mpr ⟨_, member, equal⟩) absent
    · rename_i missing
      rw [ih]
      simp only [List.find?_eq_none, decide_eq_true_eq] at missing
      simp only [List.map_cons, List.nodup_cons]
      refine ⟨fun distinct => ⟨?_, distinct⟩, fun both => both.2⟩
      intro member
      obtain ⟨entry, inside, equal⟩ := List.mem_map.mp member
      exact missing entry inside equal

/-- **The check accepts exactly the tokens that are not empty and pairwise different.** -/
theorem check_eq_ok_iff {tokens : Tokens} :
    tokens.check = .ok () ↔
      (∀ entry ∈ tokens.named, entry.2 ≠ "") ∧ (tokens.named.map (·.2)).Nodup := by
  unfold check problem?
  cases found : tokens.named.find? (·.2 = "") with
  | some entry =>
    have member := List.mem_of_find?_eq_some found
    have empty := List.find?_some found
    simp only [decide_eq_true_eq] at empty
    simp only [reduceCtorEq, false_iff, not_and]
    intro solid
    exact absurd empty (solid entry member)
  | none =>
    have solid := List.find?_eq_none.mp found
    simp only [decide_eq_true_eq] at solid
    simp only
    cases duplicate : firstDuplicate? tokens.named with
    | some error =>
      simp only [reduceCtorEq, false_iff, not_and]
      intro _ distinct
      rw [firstDuplicate?_eq_none.mpr distinct] at duplicate
      cases duplicate
    | none => exact ⟨fun _ => ⟨solid, firstDuplicate?_eq_none.mp duplicate⟩, fun _ => rfl⟩

end Tokens

/-- Tokens that passed the check. -/
structure Markup where
  tokens : Tokens
  accepted : tokens.check = .ok ()

namespace Markup

/-- The markup with the tokens of a project that chooses none. -/
def standard : Markup := ⟨Tokens.standard, Tokens.check_eq_ok_iff.mpr (by decide)⟩

/-- The markup with the given tokens, or the reason to refuse them. -/
def ofTokens (tokens : Tokens) : Except TokenError Markup :=
  match accepted : tokens.check with
  | .ok () => .ok ⟨tokens, accepted⟩
  | .error error => .error error

/-- The characters of the token that opens a nugget. -/
def opening (markup : Markup) : List Char := markup.tokens.opening.toList

/-- The characters of the token that closes a nugget. -/
def closing (markup : Markup) : List Char := markup.tokens.closing.toList

/-- The characters of the token before a parameter. -/
def delimiter (markup : Markup) : List Char := markup.tokens.delimiter.toList

/-- The characters of the token before a comment. -/
def comment (markup : Markup) : List Char := markup.tokens.comment.toList

theorem toList_ne_nil (markup : Markup) {role : TokenRole} {token : String}
    (member : (role, token) ∈ markup.tokens.named) : token.toList ≠ [] := by
  have solid := (Tokens.check_eq_ok_iff.mp markup.accepted).1 (role, token) member
  intro empty
  exact solid (String.toList_inj.mp (by simpa using empty))

theorem opening_ne_nil (markup : Markup) : markup.opening ≠ [] :=
  markup.toList_ne_nil (List.mem_of_getElem? (i := 0) rfl)

theorem closing_ne_nil (markup : Markup) : markup.closing ≠ [] :=
  markup.toList_ne_nil (List.mem_of_getElem? (i := 1) rfl)

theorem delimiter_ne_nil (markup : Markup) : markup.delimiter ≠ [] :=
  markup.toList_ne_nil (List.mem_of_getElem? (i := 2) rfl)

theorem comment_ne_nil (markup : Markup) : markup.comment ≠ [] :=
  markup.toList_ne_nil (List.mem_of_getElem? (i := 3) rfl)

end Markup

end Localization
