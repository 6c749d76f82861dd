import Localization.Culture
import Localization.Path

/-
**The locale directory: where templates and languages are kept.**

The template is `messages.pot` in the locale directory, and the catalog of a culture is
`messages.po` in a directory of the culture's name. The default culture is the one in which the
sources are written; it is served from the template.
-/

namespace Localization

/-- A locale directory, and the culture that is served from its template. -/
structure Locale where
  directory : Path
  defaultCulture : Option String
  deriving DecidableEq, Repr

namespace Locale

/-- The name of the template. -/
def templateName : String := "messages.pot"

/-- The name of a culture's catalog. -/
def languageName : String := "messages.po"

/-- The path of the template. -/
def templatePath (locale : Locale) : Path :=
  locale.directory.join templateName

/-- The path of a culture's catalog. -/
def languagePath (locale : Locale) (culture : String) : Path :=
  (locale.directory.join culture).join languageName

/-- The culture is the default one, in whatever spelling. -/
def isDefault (locale : Locale) (culture : String) : Bool :=
  locale.defaultCulture.any fun name => Culture.normalize name = Culture.normalize culture

/-- The files that a culture is served from. -/
def files (locale : Locale) (culture : String) : List Path :=
  if locale.isDefault culture then [locale.templatePath] else [locale.languagePath culture]

end Locale

end Localization
