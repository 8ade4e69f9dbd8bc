import Compliance.Address
import Compliance.Address.Text
import Compliance.Audit
import Compliance.Binary64
import Compliance.Binary64.Shortest
import Compliance.Command
import Compliance.Command.Arguments
import Compliance.Declaration
import Compliance.Declaration.Parser
import Compliance.Declaration.Reader
import Compliance.Declaration.Recovery
import Compliance.Declaration.References
import Compliance.Disk
import Compliance.Disk.Folder
import Compliance.Fault
import Compliance.Gathering
import Compliance.Inventory
import Compliance.Json
import Compliance.Json.Reader
import Compliance.Main
import Compliance.Moment
import Compliance.Moment.Text
import Compliance.Named
import Compliance.Path
import Compliance.Predicate
import Compliance.Predicate.Operator
import Compliance.Predicate.Parser
import Compliance.Predicate.Text
import Compliance.Provider
import Compliance.Reference
import Compliance.Registry
import Compliance.Report
import Compliance.Resolution
import Compliance.Resolution.Issue
import Compliance.Resolved
import Compliance.Resource
import Compliance.Settings
import Compliance.Source
import Compliance.Specification
import Compliance.Statement
import Compliance.Statement.Parser
import Compliance.Store
import Compliance.Text.Blank
import Compliance.Text.Digits
import Compliance.Text.Letter
import Compliance.Text.Quoted
import Compliance.Text.Split
import Compliance.Token
import Compliance.Token.Cursor
import Compliance.Token.Lexer
import Compliance.Value
import Compliance.Value.Literal
import Compliance.Value.Text
import Compliance.Verdict
import Compliance.Proofs.Access
import Compliance.Proofs.Registry
import Compliance.Proofs.Gathering.Coverage
import Compliance.Proofs.Binary64.Rounding
import Compliance.Proofs.Text.Digits
import Compliance.Proofs.Verdict.Meaning
import Compliance.Proofs.Address.Text
import Compliance.Proofs.Binary64.Text
import Compliance.Proofs.Command.Success
import Compliance.Proofs.Gathering.Reach
import Compliance.Proofs.Command.Served
import Compliance.Proofs.Declaration.RoundTrip
import Compliance.Audit.Crew
import Compliance.Proofs.Audit.Slots
import Compliance.Proofs.Audit.Steady
import Compliance.Proofs.Audit.Independence
import Compliance.Proofs.Resolution.Places
import Compliance.Proofs.Path.Walk
import Compliance.Proofs.Resolution.Stages
import Compliance.Proofs.Resolution.Unfolded
import Compliance.Proofs.Resolution.Inlined
import Compliance.Proofs.Token.Extended
import Compliance.Proofs.Declaration.Extended
import Compliance.Proofs.Declaration.Fragments
import Compliance.Proofs.Declaration.Recovered
import Compliance.Proofs.Statement.Grammar
import Compliance.Proofs.Resolution.Omitted
import Compliance.Proofs.Verdict.Evidence
import Compliance.Proofs.Verdict.Shape
import Compliance.Proofs.Token.Replaced
import Compliance.Proofs.Token.Inserted
import Compliance.Proofs.Statement.Moved
import Compliance.Proofs.Declaration.Moved
import Compliance.Proofs.Declaration.Inserted
import Compliance.Proofs.Declaration.Limits
import Compliance.Proofs.Gathering.Frames
import Compliance.Proofs.Resolution.Reentered
import Compliance.Proofs.Declaration.Counting
import Compliance.Proofs.Declaration.Counted
import Compliance.Proofs.Value.Order
import Compliance.Proofs.Value.Denoted
import Compliance.Proofs.Address.Single
import Compliance.Proofs.Address.Containment
import Compliance.Proofs.Predicate.Negation
import Compliance.Proofs.Verdict.Entry
import Compliance.Proofs.Inventory.Written
import Compliance.Proofs.Inventory.Loaded
import Compliance.Proofs.Resolution.Reused
import Compliance.Proofs.Token.RoundTrip
import Compliance.Proofs.Declaration.Ordered
import Compliance.Proofs.Resource.Association
import Compliance.Proofs.Source.Entries
import Compliance.Proofs.Reference.Canonical
import Compliance.Proofs.Reference.Bare
import Compliance.Proofs.Declaration.Supplied
import Compliance.Proofs.Registry.Partition
import Compliance.Proofs.Settings.Keyed
import Compliance.Proofs.Token.Passing
import Compliance.Proofs.Declaration.Passing
import Compliance.Proofs.Declaration.Turns
import Compliance.Proofs.Declaration.Levels
