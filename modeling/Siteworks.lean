import Siteworks.Archive.Basic
import Siteworks.Archive.Pack
import Siteworks.Archive.Zip
import Siteworks.Color.Decimal
import Siteworks.Color.Hex
import Siteworks.Color.Oklch
import Siteworks.CommandLine.Arguments
import Siteworks.CommandLine.Run
import Siteworks.Component
import Siteworks.Data.Base64
import Siteworks.Data.Basic
import Siteworks.Envelope
import Siteworks.Error
import Siteworks.FileSystem.Basic
import Siteworks.FileSystem.Operations
import Siteworks.FileSystem.Path
import Siteworks.FileSystem.Resolve
import Siteworks.Font
import Siteworks.Generation
import Siteworks.Json.Binary64
import Siteworks.Json.Printer
import Siteworks.Json.Reader
import Siteworks.Json.Value
import Siteworks.Layout.Basic
import Siteworks.Layout.Edit
import Siteworks.Main
import Siteworks.Page.Attributes
import Siteworks.Page.Source
import Siteworks.Proofs.Archive.Contents
import Siteworks.Proofs.Archive.Packing
import Siteworks.Proofs.Archive.Walking
import Siteworks.Proofs.Color.Decimals
import Siteworks.Proofs.Color.Grammar
import Siteworks.Proofs.CommandLine.Envelopes
import Siteworks.Proofs.CommandLine.ViolationLines
import Siteworks.Proofs.FileSystem.Agreement
import Siteworks.Proofs.FileSystem.Ancestors
import Siteworks.Proofs.FileSystem.Contents
import Siteworks.Proofs.FileSystem.Directories
import Siteworks.Proofs.FileSystem.Edits
import Siteworks.Proofs.FileSystem.Following
import Siteworks.Proofs.FileSystem.Goals
import Siteworks.Proofs.FileSystem.Listing
import Siteworks.Proofs.FileSystem.Retrying
import Siteworks.Proofs.FileSystem.Storing
import Siteworks.Proofs.FileSystem.Ways
import Siteworks.Proofs.Generation.Acceptance
import Siteworks.Proofs.Generation.Confinement
import Siteworks.Proofs.Generation.Decoration
import Siteworks.Proofs.Generation.Histories
import Siteworks.Proofs.Generation.Independence
import Siteworks.Proofs.Generation.Interleavings
import Siteworks.Proofs.Generation.Locality
import Siteworks.Proofs.Generation.Outcomes
import Siteworks.Proofs.Generation.Refusals
import Siteworks.Proofs.Generation.Reruns
import Siteworks.Proofs.Generation.Runs
import Siteworks.Proofs.Generation.Sites
import Siteworks.Proofs.Generation.Stages
import Siteworks.Proofs.Json.Lines
import Siteworks.Proofs.Json.NumberTexts
import Siteworks.Proofs.Json.Numerals
import Siteworks.Proofs.Json.Printing
import Siteworks.Proofs.Json.Rereading
import Siteworks.Proofs.Json.Shortest
import Siteworks.Proofs.Layout.BodyTag
import Siteworks.Proofs.Layout.Calls
import Siteworks.Proofs.Layout.Classes
import Siteworks.Proofs.Layout.Dressing
import Siteworks.Proofs.Layout.LineEnds
import Siteworks.Proofs.Layout.Names
import Siteworks.Proofs.Layout.Parsing
import Siteworks.Proofs.Layout.Places
import Siteworks.Proofs.Layout.Rereading
import Siteworks.Proofs.Layout.Restyling
import Siteworks.Proofs.Layout.Roles
import Siteworks.Proofs.Layout.Tokens
import Siteworks.Proofs.Ownership
import Siteworks.Proofs.Page.Encoding
import Siteworks.Proofs.Page.Faults
import Siteworks.Proofs.Page.Imports
import Siteworks.Proofs.Page.Structure
import Siteworks.Proofs.Page.Template
import Siteworks.Proofs.Repair.Agreement
import Siteworks.Proofs.Repair.Elements
import Siteworks.Proofs.Repair.Faults
import Siteworks.Proofs.Repair.FixedPoints
import Siteworks.Proofs.Repair.Identifiers
import Siteworks.Proofs.Repair.Judging
import Siteworks.Proofs.Repair.Numbering
import Siteworks.Proofs.Repair.Printing
import Siteworks.Proofs.Repair.Retention
import Siteworks.Proofs.Repair.Search
import Siteworks.Proofs.Repair.Validity
import Siteworks.Proofs.Scaffold.Agreement
import Siteworks.Proofs.Scaffold.Completion
import Siteworks.Proofs.Scaffold.Copying
import Siteworks.Proofs.Scaffold.Mirroring
import Siteworks.Proofs.Schema.Exactness
import Siteworks.Proofs.Schema.Order
import Siteworks.Proofs.Schema.Reports
import Siteworks.Proofs.Schema.Rules
import Siteworks.Proofs.Slugs
import Siteworks.Proofs.Stylesheet.Blocks
import Siteworks.Proofs.Stylesheet.Declarations
import Siteworks.Proofs.Stylesheet.FontValues
import Siteworks.Proofs.Stylesheet.Heads
import Siteworks.Proofs.Stylesheet.Keeping
import Siteworks.Proofs.Stylesheet.LastPalette
import Siteworks.Proofs.Stylesheet.Leftovers
import Siteworks.Proofs.Stylesheet.Missing
import Siteworks.Proofs.Stylesheet.Occurrences
import Siteworks.Proofs.Stylesheet.Overlaps
import Siteworks.Proofs.Stylesheet.Scopes
import Siteworks.Proofs.Stylesheet.Segments
import Siteworks.Proofs.Stylesheet.Steady
import Siteworks.Proofs.Texts
import Siteworks.Proofs.Theme.Application
import Siteworks.Proofs.Theme.CarriedTexts
import Siteworks.Proofs.Theme.FontImports
import Siteworks.Proofs.Theme.FontLines
import Siteworks.Proofs.Theme.FontNames
import Siteworks.Proofs.Theme.FontUses
import Siteworks.Proofs.Theme.Fonts
import Siteworks.Proofs.Theme.LastFont
import Siteworks.Proofs.Theme.Refonting
import Siteworks.Proofs.Theme.Remainders
import Siteworks.Proofs.Theme.Settling
import Siteworks.Proofs.Turns
import Siteworks.Proofs.Words
import Siteworks.Scaffold
import Siteworks.Slug
import Siteworks.SlugLock
import Siteworks.Spec.Basic
import Siteworks.Spec.Decode
import Siteworks.Spec.Repair
import Siteworks.Spec.Violation
import Siteworks.Stylesheet
import Siteworks.Text.Blank
import Siteworks.Text.CaseTable
import Siteworks.Text.Casing
import Siteworks.Text.Cut
import Siteworks.Text.Hexadecimal
import Siteworks.Text.Quoted
import Siteworks.Text.Ranges
import Siteworks.Text.Replace
import Siteworks.Text.Slice
import Siteworks.Text.Unprintable
import Siteworks.Text.Word
import Siteworks.Theme
