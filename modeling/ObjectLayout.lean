import ObjectLayout.Handle
import ObjectLayout.Builtin
import ObjectLayout.Primitive
import ObjectLayout.DataModel
import ObjectLayout.Decimal
import ObjectLayout.Json.Basic
import ObjectLayout.Json.Token
import ObjectLayout.Json.Parser
import ObjectLayout.Json.Printer
import ObjectLayout.Json.Shape
import ObjectLayout.Table.Basic
import ObjectLayout.Table.Check
import ObjectLayout.Table.Query
import ObjectLayout.Table.Edit
import ObjectLayout.Table.Json
import ObjectLayout.Graph.Node
import ObjectLayout.Graph.Basic
import ObjectLayout.Graph.Name
import ObjectLayout.Graph.Walk
import ObjectLayout.Graph.Title
import ObjectLayout.Graph.Outline
import ObjectLayout.Graph.Diagram
import ObjectLayout.Expansion.Memo
import ObjectLayout.Expansion.Options
import ObjectLayout.Expansion.Basic
import ObjectLayout.Expansion.Session
import ObjectLayout.Storage.Codec
import ObjectLayout.Storage.Archive
import ObjectLayout.Build
import ObjectLayout.Command.Settings
import ObjectLayout.Command.Host
import ObjectLayout.Command.Run
import ObjectLayout.Command.Folder
import ObjectLayout.Main
import ObjectLayout.Proofs.Table.Resolution
import ObjectLayout.Proofs.Graph.Growth
import ObjectLayout.Proofs.Expansion.Change
import ObjectLayout.Proofs.Expansion.Coherence
import ObjectLayout.Proofs.Expansion.Description
import ObjectLayout.Proofs.Expansion.Outcome
import ObjectLayout.Proofs.Expansion.Progress
import ObjectLayout.Proofs.Expansion.Answers
import ObjectLayout.Proofs.Expansion.Fuel
import ObjectLayout.Proofs.Session.History
import ObjectLayout.Proofs.Session.Ending
import ObjectLayout.Proofs.Session.Meaning
import ObjectLayout.Proofs.Expansion.Ahead
import ObjectLayout.Proofs.Session.Residue
import ObjectLayout.Proofs.Expansion.Exploration
import ObjectLayout.Proofs.Session.Deletion
import ObjectLayout.Proofs.Session.Refusal
import ObjectLayout.Proofs.Expansion.Outermost
import ObjectLayout.Proofs.Session.Boundary
import ObjectLayout.Proofs.Storage.Exact
import ObjectLayout.Proofs.Storage.Layout
import ObjectLayout.Proofs.Expansion.Shadow
import ObjectLayout.Proofs.Graph.Closed
import ObjectLayout.Proofs.Graph.Naming
import ObjectLayout.Proofs.Graph.Renaming
import ObjectLayout.Proofs.Graph.Walking
import ObjectLayout.Proofs.Session.Independence
import ObjectLayout.Proofs.Storage.Canonical
import ObjectLayout.Proofs.Storage.Safety
import ObjectLayout.Proofs.Session.Layers
import ObjectLayout.Proofs.Graph.Census
import ObjectLayout.Proofs.Expansion.Gathering
import ObjectLayout.Proofs.Build.Requests
import ObjectLayout.Proofs.Build.Reached
import ObjectLayout.Proofs.Session.Again
import ObjectLayout.Proofs.Build.Verdicts
import ObjectLayout.Proofs.Build.Exports
import ObjectLayout.Proofs.Table.Handles
import ObjectLayout.Proofs.Graph.Traversal
import ObjectLayout.Proofs.Graph.Drawing
import ObjectLayout.Proofs.Expansion.Entered
import ObjectLayout.Proofs.Session.Stability
import ObjectLayout.Proofs.Json.Scanning
import ObjectLayout.Proofs.Json.Reading
import ObjectLayout.Proofs.Json.Fields
import ObjectLayout.Proofs.Table.Text
import ObjectLayout.Proofs.Graph.Unfolding
import ObjectLayout.Proofs.Graph.Wiring
import ObjectLayout.Proofs.Graph.Numbering
import ObjectLayout.Proofs.Expansion.Unfollowed
import ObjectLayout.Proofs.Session.Addresses
import ObjectLayout.Proofs.Graph.Indentation
import ObjectLayout.Proofs.Graph.Editing
import ObjectLayout.Proofs.Session.Members
import ObjectLayout.Proofs.Table.Bare
import ObjectLayout.Proofs.Expansion.Bare
import ObjectLayout.Proofs.Build.Bare
import ObjectLayout.Proofs.Storage.Truncation
import ObjectLayout.Proofs.Table.Extent
import ObjectLayout.Proofs.Table.Building
import ObjectLayout.Proofs.Build.Unlisted
import ObjectLayout.Proofs.Expansion.Balance
import ObjectLayout.Proofs.Expansion.Depth
import ObjectLayout.Proofs.Expansion.Counter
import ObjectLayout.Proofs.Session.Depth
import ObjectLayout.Proofs.Command.Arguments
import ObjectLayout.Proofs.Graph.Labels
import ObjectLayout.Proofs.Command.Settings
