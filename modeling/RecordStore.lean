import RecordStore.Number.Power
import RecordStore.Number.Basic
import RecordStore.Text.Identifier
import RecordStore.Text.Blank
import RecordStore.Text.Quoted
import RecordStore.Text.Joined
import RecordStore.Text.Lowercase
import RecordStore.Json.Printer
import RecordStore.Json.Reader
import RecordStore.Error
import RecordStore.Query.Listing
import RecordStore.Model.Definition
import RecordStore.Model.Registry
import RecordStore.Query.Compile
import RecordStore.Database.Basic
import RecordStore.Database.Location
import RecordStore.Operation.Basic
import RecordStore.Session.Basic
import RecordStore.CommandLine.Run
import RecordStore.Settings.Shape
import RecordStore.Settings.Toml
import RecordStore.Settings.Layers
import RecordStore.CommandLine.Program
import RecordStore.Database.Image
import RecordStore.Main
import RecordStore.Proofs.Database.Names
import RecordStore.Proofs.Database.Rows
import RecordStore.Proofs.Query.Meaning
import RecordStore.Proofs.Sql.Reading
import RecordStore.Proofs.Sql.Tokens
import RecordStore.Proofs.Sql.ReadBack
import RecordStore.Proofs.Sql.Statements
import RecordStore.Proofs.Query.Selection
import RecordStore.Proofs.Operation.Actions
import RecordStore.Proofs.Operation.Planned
import RecordStore.Proofs.Operation.Writes
import RecordStore.Proofs.Operation.Plans
import RecordStore.Proofs.Session.Places
import RecordStore.Proofs.Session.History
import RecordStore.Proofs.Query.Keys
import RecordStore.Proofs.Session.Refusal
import RecordStore.Proofs.Database.FirstRow
import RecordStore.Proofs.Session.Opening
import RecordStore.Proofs.Session.Isolation
import RecordStore.Proofs.Number.Rounding
import RecordStore.Proofs.Number.Exact
import RecordStore.Proofs.Database.Sorted
import RecordStore.Proofs.Database.Unique
import RecordStore.Proofs.Json.Members
import RecordStore.Proofs.Json.Numbers
import RecordStore.Proofs.Json.ReadBack
import RecordStore.Proofs.Json.Proper
import RecordStore.Proofs.Model.Cells
import RecordStore.Proofs.Model.Rows
import RecordStore.Proofs.Model.Records
import RecordStore.Proofs.Model.Filled
import RecordStore.Proofs.Model.Refusals
import RecordStore.Proofs.Model.Members
import RecordStore.Proofs.Model.Typing
import RecordStore.Proofs.Operation.Answers
import RecordStore.Proofs.Session.Reopening
import RecordStore.Proofs.Session.Serving
import RecordStore.Proofs.Session.Offers
import RecordStore.Proofs.Session.Agreement
import RecordStore.Proofs.Session.Upsert
import RecordStore.Proofs.Session.Lookup
import RecordStore.Proofs.Session.Typing
import RecordStore.Proofs.Number.Nearest
import RecordStore.Proofs.Database.Rank
import RecordStore.Proofs.Query.Sorting
import RecordStore.Proofs.Session.Pages
import RecordStore.Proofs.Session.Sorting
import RecordStore.Proofs.Model.Counter
import RecordStore.Proofs.Operation.Effects
import RecordStore.Proofs.Session.Remembering
import RecordStore.Proofs.Model.Creation
import RecordStore.Proofs.Session.Creation
import RecordStore.Proofs.Session.Assignment
import RecordStore.Proofs.Session.Failures
import RecordStore.Proofs.Json.Arrays
import RecordStore.Proofs.Session.Batches
import RecordStore.Proofs.Session.BatchCreation
import RecordStore.Proofs.Session.BatchChanges
import RecordStore.Proofs.Query.Shapes
import RecordStore.Proofs.Query.Requests
import RecordStore.Proofs.Session.Arguments
import RecordStore.Proofs.Query.Grammar
import RecordStore.Proofs.Session.Schema
import RecordStore.Proofs.Session.Lifecycle
import RecordStore.Proofs.Session.Identity
import RecordStore.Proofs.Session.Wide
import RecordStore.Proofs.Text.Parts
import RecordStore.Proofs.Query.Shorthand
import RecordStore.Proofs.Query.Notations
import RecordStore.Proofs.Model.Change
import RecordStore.Proofs.Session.Change
import RecordStore.Proofs.Session.Search
import RecordStore.Proofs.Model.Validity
import RecordStore.Proofs.Model.Registration
import RecordStore.Proofs.Model.Encoding
import RecordStore.Proofs.Session.FailedOpening
import RecordStore.Proofs.Database.CellOrder
import RecordStore.Proofs.Operation.Reordered
import RecordStore.Proofs.Session.KeyOrder
import RecordStore.Proofs.CommandLine.Arguments
import RecordStore.Proofs.CommandLine.Commands
import RecordStore.Proofs.Model.Definitions
import RecordStore.Proofs.Settings.Layers
import RecordStore.Proofs.Number.HalfEven
import RecordStore.Proofs.Number.Grammar
import RecordStore.Proofs.Number.Literals
import RecordStore.Proofs.Query.Layout
import RecordStore.Proofs.Query.Unrestricted
import RecordStore.Proofs.Query.Placeholders
import RecordStore.Proofs.Sql.Lexemes
import RecordStore.Proofs.Model.TableText
