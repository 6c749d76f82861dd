import Localization.Text.Lowercase
import Localization.Text.Pieces

/-
**Culture names.**

A culture name is a language subtag, optionally followed by script, region or variant subtags:
`fr`, `pt-BR`, `sr_Cyrl_BA`. Hyphen and underscore both separate subtags.

* `Culture.normalize` — the spelling by which names are compared.
* `Culture.language` — the language subtag in lower case.
* `Culture.isKnown` — a known language, followed by short alphanumeric subtags.
-/

namespace Localization.Culture

open Text

/-- The language subtags that names may start with. -/
def languages : List String := [
  "af", "am", "ar", "az", "be", "bg", "bn", "bs", "ca", "cs", "cy", "da", "de", "dv", "el",
  "en", "eo", "es", "et", "eu", "fa", "fi", "fil", "fo", "fr", "ga", "gl", "gu", "he", "hi",
  "hr", "hu", "hy", "id", "is", "it", "ja", "ka", "kk", "km", "kn", "ko", "kok", "ky", "lo",
  "lt", "lv", "mi", "mk", "mn", "mr", "ms", "mt", "my", "nb", "nl", "nn", "no", "ns", "pa",
  "pl", "ps", "pt", "qu", "ro", "ru", "sa", "se", "sk", "sl", "sq", "sr", "sv", "sw", "syr",
  "ta", "te", "th", "tl", "tn", "tr", "ts", "tt", "uk", "ur", "uz", "vi", "xh", "zh", "zu"]

/-- The characters between subtags. -/
def isSeparator (c : Char) : Bool :=
  c == '-' || c == '_'

/-- The subtags of a name; there is always a first one. -/
def subtags (name : String) : List (List Char) :=
  pieces isSeparator name.toList

/-- The spelling by which names are compared: lower case, with hyphens for underscores. -/
def normalize (name : String) : String :=
  String.ofList ((lowercase name.toList).map fun c => if c = '_' then '-' else c)

/-- The language subtag in lower case. -/
def language (name : String) : String :=
  String.ofList (lowercase (name.toList.takeWhile (!isSeparator ·)))

/-- The letters and digits of ASCII. -/
def isAlphanumeric (c : Char) : Bool :=
  c.isAlphanum

/-- A subtag after the first: two to eight letters and digits of ASCII. -/
def isShortSubtag (subtag : List Char) : Bool :=
  2 ≤ subtag.length && subtag.length ≤ 8 && subtag.all isAlphanumeric

/-- The name starts with a known language and goes on with short subtags. -/
def isKnown (name : String) : Bool :=
  languages.contains (language name) && (subtags name).tail.all isShortSubtag

end Localization.Culture
