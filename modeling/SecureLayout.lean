import SecureLayout.Collab.Awareness
import SecureLayout.Collab.Document
import SecureLayout.Collab.Hub
import SecureLayout.Collab.Network
import SecureLayout.Collab.Provider
import SecureLayout.Collab.Shared
import SecureLayout.Collab.Store
import SecureLayout.Collab.Workspace
import SecureLayout.Component.Hydration
import SecureLayout.Component.Markup
import SecureLayout.Component.Registry
import SecureLayout.Component.Resolver
import SecureLayout.Component.Stock
import SecureLayout.Config.Address
import SecureLayout.Config.Layout
import SecureLayout.Config.Server
import SecureLayout.Config.Startup
import SecureLayout.Entries
import SecureLayout.Failure
import SecureLayout.Json.Decode
import SecureLayout.Json.Error
import SecureLayout.Json.Path
import SecureLayout.Json.Printer
import SecureLayout.Json.Reader
import SecureLayout.Json.Record
import SecureLayout.Json.Tagged
import SecureLayout.Json.Value
import SecureLayout.Main
import SecureLayout.Numeric.Double
import SecureLayout.Numeric.Power
import SecureLayout.Numeric.Shortest
import SecureLayout.Pattern.Matching
import SecureLayout.Pattern.Reading
import SecureLayout.Pattern.Room
import SecureLayout.Policy.Allowlist
import SecureLayout.Policy.Engine
import SecureLayout.Policy.Settings
import SecureLayout.Relay.Endpoint
import SecureLayout.Relay.Session
import SecureLayout.Relay.Target
import SecureLayout.Sandbox.Attributes
import SecureLayout.Sandbox.Directory
import SecureLayout.Sandbox.Guest
import SecureLayout.Sandbox.Manager
import SecureLayout.Sandbox.Recording
import SecureLayout.Sandbox.Window
import SecureLayout.Session.LayoutSession
import SecureLayout.Session.Settling
import SecureLayout.Template.Arithmetic
import SecureLayout.Template.Budget
import SecureLayout.Template.Depth
import SecureLayout.Template.Directive
import SecureLayout.Template.Environment
import SecureLayout.Template.Error
import SecureLayout.Template.Escape
import SecureLayout.Template.Evaluation
import SecureLayout.Template.Expansion
import SecureLayout.Template.Filter
import SecureLayout.Template.Lexer
import SecureLayout.Template.Machine
import SecureLayout.Template.Names
import SecureLayout.Template.Parser
import SecureLayout.Template.Tag
import SecureLayout.Template.Token
import SecureLayout.Template.Tree
import SecureLayout.Template.Value
import SecureLayout.Text.Blank
import SecureLayout.Text.Case
import SecureLayout.Text.Category
import SecureLayout.Text.Hidden
import SecureLayout.Text.Octets
import SecureLayout.Text.Quoted
import SecureLayout.Text.Replace
import SecureLayout.Text.Word
import SecureLayout.Wire.Clock
import SecureLayout.Wire.Frame
import SecureLayout.Wire.Socket
import SecureLayout.Wire.Sync
import SecureLayout.Yaml.Node
import SecureLayout.Yaml.Scalar
import SecureLayout.Yaml.Token
import SecureLayout.Proofs.Collab.Merge
import SecureLayout.Proofs.Collab.Delivery
import SecureLayout.Proofs.Collab.Links
import SecureLayout.Proofs.Collab.Replica
import SecureLayout.Proofs.Collab.Convergence
import SecureLayout.Proofs.Template.Agreement
import SecureLayout.Proofs.Collab.Listening
import SecureLayout.Proofs.Collab.Mirroring
import SecureLayout.Proofs.Template.Bounded
import SecureLayout.Proofs.Collab.Acknowledgement
import SecureLayout.Proofs.Collab.Ledger
import SecureLayout.Proofs.Sandbox.Transport
import SecureLayout.Proofs.Collab.Presence
import SecureLayout.Proofs.Collab.Language
import SecureLayout.Proofs.Wire.Texts
import SecureLayout.Proofs.Session.Legibility
import SecureLayout.Proofs.Pattern.Spans
import SecureLayout.Proofs.Policy.Context
import SecureLayout.Proofs.Session.Repainting
import SecureLayout.Proofs.Component.Placeholders
import SecureLayout.Proofs.Template.Answering
import SecureLayout.Proofs.Template.Carried
import SecureLayout.Proofs.Template.Data
import SecureLayout.Proofs.Template.Directives
import SecureLayout.Proofs.Template.Inlined
import SecureLayout.Proofs.Template.Pages
import SecureLayout.Proofs.Template.Parsed
import SecureLayout.Proofs.Template.Spoken
import SecureLayout.Proofs.Template.Written
import SecureLayout.Proofs.Template.Yielding
import SecureLayout.Proofs.Component.Hydrating
import SecureLayout.Proofs.Sandbox.Teardown
import SecureLayout.Proofs.Session.Page
import SecureLayout.Proofs.Session.Steps
import SecureLayout.Proofs.Session.Teardown
import SecureLayout.Proofs.Collab.Observing
import SecureLayout.Proofs.Sandbox.Alike
import SecureLayout.Proofs.Session.Unnoticed
import SecureLayout.Proofs.Template.Capturing
import SecureLayout.Proofs.Wire.Decoding
import SecureLayout.Proofs.Sandbox.Heeding
import SecureLayout.Proofs.Session.Unheard
import SecureLayout.Proofs.Session.Course
import SecureLayout.Proofs.Session.Attending
import SecureLayout.Proofs.Session.Containment
import SecureLayout.Proofs.Relay.Bridging
import SecureLayout.Proofs.Template.Numbering
import SecureLayout.Proofs.Collab.Clocks
import SecureLayout.Proofs.Collab.Unfolding
import SecureLayout.Proofs.Collab.Watching
import SecureLayout.Proofs.Collab.Subscribing
import SecureLayout.Proofs.Template.Confined
import SecureLayout.Proofs.Template.Reaching
import SecureLayout.Proofs.Template.Traces
import SecureLayout.Proofs.Template.Outcomes
import SecureLayout.Proofs.Collab.Pacing
import SecureLayout.Proofs.Sandbox.Replying
import SecureLayout.Proofs.Relay.Idleness
import SecureLayout.Proofs.Text.Splitting
import SecureLayout.Proofs.Sandbox.Updating
import SecureLayout.Proofs.Policy.Identifiers
import SecureLayout.Proofs.Component.Loading
import SecureLayout.Proofs.Component.Lockstep
import SecureLayout.Proofs.Collab.Connection
import SecureLayout.Proofs.Config.Acceptance
import SecureLayout.Proofs.Template.Independence
import SecureLayout.Proofs.Template.Nesting
import SecureLayout.Proofs.Template.Splicing
import SecureLayout.Proofs.Collab.Attendance
import SecureLayout.Proofs.Session.Synchrony
