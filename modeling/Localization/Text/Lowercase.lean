import Localization.Text.CaseTable

/-
**Lower case of a text, for all of Unicode.**

* `lowercase` — every character by its lower-case form; the capital I with a dot becomes two
  characters, and a capital sigma at the end of a word becomes the final sigma.
-/

namespace Localization.Text

/-- The code point lies in one of the closed ranges. -/
def inRanges (ranges : List (Nat × Nat)) (code : Nat) : Bool :=
  ranges.any fun (first, last) => first ≤ code && code ≤ last

/-- The character has a case. -/
def isCased (c : Char) : Bool :=
  inRanges casedRanges c.toNat

/-- The case of a word looks through the character. -/
def isCaseIgnorable (c : Char) : Bool :=
  inRanges ignorableRanges c.toNat

/-- The run covers the code point. -/
def LowerRun.covers (run : LowerRun) (code : Nat) : Bool :=
  run.first ≤ code && code ≤ run.last && (code - run.first) % run.step == 0

/-- The lower-case form of a character, where that is one character. -/
def lowerChar (c : Char) : Char :=
  if c.toNat < 128 then c.toLower
  else
    match lowerRuns.find? (·.covers c.toNat) with
    | some run => Char.ofNat (c.toNat + run.shift).toNat
    | none => c

/-- A word goes on in `text`, read away from a sigma: a cased character follows after those that
the case looks through. -/
def continuesWord (text : List Char) : Bool :=
  (text.dropWhile isCaseIgnorable).head?.any isCased

/-- The lower case of `text`, where `before` holds the characters that precede it, nearest first. -/
def lowercaseAfter (before : List Char) : List Char → List Char
  | [] => []
  | c :: rest =>
    let lower :=
      if c = '\u03A3' then
        [if continuesWord before && !continuesWord rest then '\u03C2' else '\u03C3']
      else if c = '\u0130' then ['i', '\u0307']
      else [lowerChar c]
    lower ++ lowercaseAfter (c :: before) rest

/-- The lower case of a text. -/
def lowercase (text : List Char) : List Char :=
  lowercaseAfter [] text

theorem lowercaseAfter_ascii (before : List Char) {text : List Char}
    (ascii : ∀ c ∈ text, c.toNat < 128) :
    lowercaseAfter before text = text.map Char.toLower := by
  induction text generalizing before with
  | nil => rfl
  | cons c rest ih =>
    have small := ascii c (by simp)
    have notSigma : c ≠ '\u03A3' := by rintro rfl; revert small; decide
    have notDotted : c ≠ '\u0130' := by rintro rfl; revert small; decide
    simp [lowercaseAfter, notSigma, notDotted, lowerChar, small,
      ih (c :: before) fun d member => ascii d (by simp [member])]

theorem lowercase_ascii {text : List Char} (ascii : ∀ c ∈ text, c.toNat < 128) :
    lowercase text = text.map Char.toLower :=
  lowercaseAfter_ascii [] ascii

end Localization.Text
