import Localization.Culture

/-
**Plural families.**

Languages that choose among their plural forms in the same way make up a family. The form of a
count depends on its absolute value `n`, and mostly on its last one or two digits.

* `Family.ofCulture?` — the family of a culture's language; Brazilian Portuguese counts like French.
* `Family.form` — the index of the form for a count.
* `Family.form_lt_forms` — the index is below the family's number of forms.
-/

namespace Localization.Plural

/-- The languages that share a rule for choosing a plural form. -/
inductive Family where
  /-- One form for every count. -/
  | single
  /-- One, and the rest. -/
  | germanic
  /-- Zero and one, and the rest. -/
  | french
  /-- Ending in one, ending in two to four, and the rest, the teens apart. -/
  | eastSlavic
  /-- One, ending in two to four without the teens, and the rest. -/
  | polish
  /-- One, two to four, and the rest. -/
  | westSlavic
  /-- One, two, three to six, seven to ten, and the rest. -/
  | irish
  /-- Zero, one, two, ending in 3 to 10, ending in 11 to 99, and the rest. -/
  | arabic
  /-- Ending in one, ending in two to nine without the teens, and the rest. -/
  | lithuanian
  /-- Ending in one but not eleven, the other counts but zero, and zero. -/
  | latvian
  /-- One, zero and those ending in 1 to 19, and the rest. -/
  | romanian
  /-- Ending in 1, in 2, in 3 or 4, and the rest. -/
  | slovenian
  deriving DecidableEq, Repr

namespace Family

/-- The languages of each family. -/
def members : List (Family × List String) := [
  (single, ["ja", "ko", "zh", "vi", "th", "id", "ms", "km", "lo", "my", "ka", "kk", "ky", "tr",
    "fa"]),
  (germanic, ["en", "de", "nl", "sv", "da", "no", "nb", "nn", "fi", "et", "el", "he", "hu", "it",
    "es", "pt", "ca", "bg", "eo", "eu", "fo", "gl", "af", "sq", "sw", "ur", "hi", "bn", "gu",
    "kn", "mr", "ta", "te", "pa", "ne", "az", "uz", "mn", "tn", "xh", "zu", "ts", "se", "is",
    "mk", "fil", "tl"]),
  (french, ["fr", "am", "hy", "ln", "mi"]),
  (eastSlavic, ["ru", "uk", "be", "sr", "hr", "bs"]),
  (polish, ["pl"]),
  (westSlavic, ["cs", "sk"]),
  (irish, ["ga"]),
  (arabic, ["ar"]),
  (lithuanian, ["lt"]),
  (latvian, ["lv"]),
  (romanian, ["ro"]),
  (slovenian, ["sl"])]

/-- The family of a culture's language. -/
def ofCulture? (culture : String) : Option Family :=
  if Culture.normalize culture = "pt-br" then some french
  else (members.find? fun (_, languages) => languages.contains (Culture.language culture)).map (·.1)

/-- The last digit is two to four, and the last two digits are not twelve to fourteen. -/
def isFew (n : Nat) : Bool :=
  2 ≤ n % 10 && n % 10 ≤ 4 && (n % 100 < 12 || 14 < n % 100)

/-- The last digit is one, and the last two digits are not eleven. -/
def endsInOne (n : Nat) : Bool :=
  n % 10 == 1 && n % 100 != 11

/-- The index of the plural form for the absolute count `n`. -/
def form (family : Family) (n : Nat) : Nat :=
  match family with
  | single => 0
  | germanic => if n = 1 then 0 else 1
  | french => if n ≤ 1 then 0 else 1
  | eastSlavic => if endsInOne n then 0 else if isFew n then 1 else 2
  | polish => if n = 1 then 0 else if isFew n then 1 else 2
  | westSlavic => if n = 1 then 0 else if 2 ≤ n ∧ n ≤ 4 then 1 else 2
  | irish =>
    if n = 1 then 0 else if n = 2 then 1 else if 3 ≤ n ∧ n ≤ 6 then 2
    else if 7 ≤ n ∧ n ≤ 10 then 3 else 4
  | arabic =>
    if n ≤ 2 then n else if 3 ≤ n % 100 ∧ n % 100 ≤ 10 then 3 else if 11 ≤ n % 100 then 4 else 5
  | lithuanian =>
    if endsInOne n then 0
    else if 2 ≤ n % 10 ∧ (n % 100 < 10 ∨ 20 ≤ n % 100) then 1 else 2
  | latvian => if endsInOne n then 0 else if n ≠ 0 then 1 else 2
  | romanian =>
    if n = 1 then 0 else if n = 0 ∨ (0 < n % 100 ∧ n % 100 < 20) then 1 else 2
  | slovenian =>
    if n % 100 = 1 then 0 else if n % 100 = 2 then 1
    else if n % 100 = 3 ∨ n % 100 = 4 then 2 else 3

/-- The number of plural forms of a family. -/
def forms : Family → Nat
  | single => 1
  | germanic | french => 2
  | eastSlavic | polish | westSlavic | lithuanian | latvian | romanian => 3
  | slovenian => 4
  | irish => 5
  | arabic => 6

/-- **The form of a count is one of the family's forms.** -/
theorem form_lt_forms (family : Family) (n : Nat) : family.form n < family.forms := by
  cases family <;> simp only [form, forms] <;> (repeat' split) <;> omega

end Family

end Localization.Plural
