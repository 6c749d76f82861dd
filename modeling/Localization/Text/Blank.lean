/-
**White space and trimming.**

* `isBlank` — the twenty-five characters that Unicode counts as white space.
* `trimStart`, `trimEnd`, `trim` — a text without the blanks at its ends.
* `trim_of_edges` — a text whose ends are not blank is its own trimming.
-/

namespace Localization.Text

/-- The white space of Unicode: tab to carriage return, the space, and the spaces and separators
beyond ASCII. -/
def isBlank (c : Char) : Bool :=
  let code := c.toNat
  (9 ≤ code && code ≤ 13) || code == 0x20 || code == 0x85 || code == 0xA0 || code == 0x1680 ||
    (0x2000 ≤ code && code ≤ 0x200A) || code == 0x2028 || code == 0x2029 || code == 0x202F ||
    code == 0x205F || code == 0x3000

/-- A text without its leading blanks. -/
def trimStart (text : List Char) : List Char :=
  text.dropWhile isBlank

/-- A text without its trailing blanks. -/
def trimEnd (text : List Char) : List Char :=
  (text.reverse.dropWhile isBlank).reverse

/-- A text without the blanks at either end. -/
def trim (text : List Char) : List Char :=
  trimEnd (trimStart text)

theorem trimStart_cons_of_not_blank {c : Char} (rest : List Char) (solid : isBlank c = false) :
    trimStart (c :: rest) = c :: rest := by
  simp [trimStart, solid]

theorem trimEnd_append_of_not_blank {c : Char} (front : List Char) (solid : isBlank c = false) :
    trimEnd (front ++ [c]) = front ++ [c] := by
  simp [trimEnd, solid]

/-- A text whose ends are not blank is its own trimming. -/
theorem trim_of_edges {text : List Char}
    (first : ∀ c ∈ text.head?, isBlank c = false) (last : ∀ c ∈ text.getLast?, isBlank c = false) :
    trim text = text := by
  have started : trimStart text = text := by
    cases text with
    | nil => rfl
    | cons c rest => exact trimStart_cons_of_not_blank rest (first c rfl)
  rw [trim, started]
  rcases List.eq_nil_or_concat text with rfl | ⟨front, c, rfl⟩
  · rfl
  · rw [List.concat_eq_append] at last ⊢
    exact trimEnd_append_of_not_blank front (last c (by simp))

end Localization.Text
