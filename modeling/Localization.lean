import Localization.Build
import Localization.Cache
import Localization.Catalog.Files
import Localization.Catalog.Header
import Localization.Catalog.Item
import Localization.Catalog.Line
import Localization.Catalog.Merge
import Localization.Catalog.Quoted
import Localization.Catalog.Reader
import Localization.Catalog.Writer
import Localization.Command.Arguments
import Localization.Command.Run
import Localization.Culture
import Localization.Dictionary
import Localization.FileTree.Basic
import Localization.FileTree.Files
import Localization.FileTree.Ignore
import Localization.FileTree.Walk
import Localization.Glob.Matching
import Localization.Glob.Pattern
import Localization.Json
import Localization.Locale
import Localization.Locale.Catalogs
import Localization.Locale.Merging
import Localization.Main
import Localization.Message.Identifiers
import Localization.Message.Template
import Localization.Nugget.Basic
import Localization.Nugget.Scanner
import Localization.Nugget.Tokens
import Localization.Path
import Localization.Plural.Family
import Localization.Plural.Rules
import Localization.Project
import Localization.Projection
import Localization.Proofs.Build
import Localization.Proofs.Build.InStep
import Localization.Proofs.Build.Rebuilding
import Localization.Proofs.Build.Unreadable
import Localization.Proofs.Cache
import Localization.Proofs.Cache.Displacing
import Localization.Proofs.Cache.History
import Localization.Proofs.Cache.Recent
import Localization.Proofs.Catalog.Arrangements
import Localization.Proofs.Catalog.Blocks
import Localization.Proofs.Catalog.Entries
import Localization.Proofs.Catalog.Faults
import Localization.Proofs.Catalog.Headers
import Localization.Proofs.Catalog.InStep
import Localization.Proofs.Catalog.Items
import Localization.Proofs.Catalog.Lasting
import Localization.Proofs.Catalog.Lines
import Localization.Proofs.Catalog.Quoted
import Localization.Proofs.Catalog.ReferenceLines
import Localization.Proofs.Catalog.References
import Localization.Proofs.Catalog.Remerging
import Localization.Proofs.Catalog.Rereading
import Localization.Proofs.Catalog.Resaving
import Localization.Proofs.Catalog.RoundTrip
import Localization.Proofs.Catalog.Settling
import Localization.Proofs.Catalog.Templates
import Localization.Proofs.Catalog.Tidy
import Localization.Proofs.Catalog.Unspaced
import Localization.Proofs.Confined
import Localization.Proofs.Culture
import Localization.Proofs.Dictionary
import Localization.Proofs.Dictionary.PluralForms
import Localization.Proofs.Dictionary.Serving
import Localization.Proofs.FileTree
import Localization.Proofs.FileTree.Joined
import Localization.Proofs.FileTree.Made
import Localization.Proofs.FileTree.Names
import Localization.Proofs.FileTree.Parents
import Localization.Proofs.FileTree.Places
import Localization.Proofs.FileTree.Readings
import Localization.Proofs.FileTree.Spellings
import Localization.Proofs.Languages
import Localization.Proofs.Languages.Headers
import Localization.Proofs.Languages.Independent
import Localization.Proofs.Languages.Reloaded
import Localization.Proofs.Languages.Repeated
import Localization.Proofs.Languages.Resaved
import Localization.Proofs.Merging
import Localization.Proofs.Message.Identifiers
import Localization.Proofs.Message.Normalizing
import Localization.Proofs.Message.Templates
import Localization.Proofs.Nugget.Closing
import Localization.Proofs.Nugget.Grammar
import Localization.Proofs.Nugget.Replacing
import Localization.Proofs.Nugget.Splicing
import Localization.Proofs.Nugget.Widths
import Localization.Proofs.Path
import Localization.Proofs.Path.References
import Localization.Proofs.Plural
import Localization.Proofs.Projection
import Localization.Proofs.Projection.Blank
import Localization.Proofs.Projection.Output
import Localization.Proofs.Projection.Targets
import Localization.Proofs.Projection.Unforced
import Localization.Proofs.Scanning
import Localization.Proofs.Scanning.Context
import Localization.Proofs.Scanning.Exact
import Localization.Proofs.Scanning.Lines
import Localization.Proofs.Scheduler
import Localization.Proofs.Scheduler.Nesting
import Localization.Proofs.Scheduler.Triggers
import Localization.Proofs.Settings
import Localization.Proofs.SortedMap
import Localization.Proofs.Text
import Localization.Proofs.Text.Decimal
import Localization.Proofs.Text.Lowercase
import Localization.Proofs.Text.Words
import Localization.Proofs.Translating
import Localization.Proofs.Translating.Caching
import Localization.Proofs.Translating.DefaultCulture
import Localization.Proofs.Translating.EarlierFiles
import Localization.Proofs.Watch
import Localization.Proofs.Watch.Looking
import Localization.Reference
import Localization.Replacement
import Localization.Scan.Lines
import Localization.Scan.Sources
import Localization.Scheduler
import Localization.Scheduler.Calls
import Localization.Settings.Basic
import Localization.Settings.Reader
import Localization.Settings.Validation
import Localization.SortedMap
import Localization.SourceFilter
import Localization.Text.Blank
import Localization.Text.CaseTable
import Localization.Text.Decimal
import Localization.Text.Lowercase
import Localization.Text.Pieces
import Localization.Text.Utf8
import Localization.Translator
import Localization.Watch
import Localization.Watch.Watching
