import Localization.Json
import Localization.Settings.Basic
import Localization.Text.Decimal

/-
**Settings files.**

A settings file is a JSON text. Every group of settings is an object whose members may be missing
and may be joined by others, but not repeated; or it is an array of the same values in order, of
which the last ones may be missing. This is how a JSON library that is not part of the program's sources
is documented to read records.

* `Settings.parse?` — reads the text of a settings file.
-/

namespace Localization

namespace Settings

/-- The fields of a group by name. -/
abbrev Fields := List (String × Json)

/-- The text of a string. -/
def string? : Json → Option String
  | .string units => (Json.text? units).map String.ofList
  | _ => none

/-- The elements of an array of strings. -/
def strings? : Json → Option (List String)
  | .array elements => elements.mapM string?
  | _ => none

/-- A number of 64 bits that is written without sign, fraction and exponent. -/
def natural? : Json → Option Nat
  | .number digits => Text.Decimal.word? digits
  | _ => none

/-- A value that may be null. -/
def nullable? {α : Type} (read : Json → Option α) : Json → Option (Option α)
  | .null => some none
  | value => (read value).map some

/-- The members of an object with the names of fields; a name that is no text is a mistake. -/
def members? : List (List Json.Unit16 × Json) → Option Fields
  | [] => some []
  | (name, value) :: rest => do
    let name ← Json.text? name
    let others ← members? rest
    some ((String.ofList name, value) :: others)

/-- The fields of a group, by the names that it knows in their order. -/
def fields? (names : List String) : Json → Option Fields
  | .object members => do
    let fields ← members? members
    let known := fields.filter fun field => names.contains field.1
    if (known.map (·.1)).Nodup then some known else none
  | .array elements =>
    if elements.length ≤ names.length then some (names.zip elements) else none
  | _ => none

/-- The value of a field, or what stands in for a field that is missing. -/
def field? {α : Type} (fields : Fields) (name : String) (read : Json → Option α) (standIn : α) :
    Option α :=
  match fields.lookup name with
  | none => some standIn
  | some value => read value

/-- Reads the tokens. -/
def tokens? (value : Json) : Option Tokens := do
  let fields ← fields? ["begin", "end", "delimiter", "comment"] value
  some {
    opening := ← field? fields "begin" string? Tokens.standard.opening
    closing := ← field? fields "end" string? Tokens.standard.closing
    delimiter := ← field? fields "delimiter" string? Tokens.standard.delimiter
    comment := ← field? fields "comment" string? Tokens.standard.comment }

/-- Reads the settings of the scan: the number of threads. -/
def threadCount? (value : Json) : Option (Option Nat) := do
  let fields ← fields? ["numThreads"] value
  field? fields "numThreads" (nullable? natural?) none

/-- The names of the settings, in order. -/
def names : List String :=
  ["localeDirectory", "directoriesToScan", "includePatterns", "excludePatterns", "nuggetTokens",
    "languages", "indexing"]

/-- Reads settings. -/
def ofJson? (value : Json) : Option Settings := do
  let fields ← fields? names value
  some {
    localeDirectory := ← field? fields "localeDirectory" string? standard.localeDirectory
    directoriesToScan := ← field? fields "directoriesToScan" strings? standard.directoriesToScan
    includePatterns := ← field? fields "includePatterns" strings? standard.includePatterns
    excludePatterns := ← field? fields "excludePatterns" strings? standard.excludePatterns
    tokens := ← field? fields "nuggetTokens" tokens? standard.tokens
    languages := ← field? fields "languages" strings? standard.languages
    threadCount := ← field? fields "indexing" threadCount? standard.threadCount }

/-- Reads the text of a settings file. -/
def parse? (text : String) : Option Settings :=
  (Json.parse? text.toList).bind ofJson?

end Settings

end Localization
