import LayeredCss.Decimal.Shortest
import LayeredCss.Json.Reader
import LayeredCss.Json.Record
import LayeredCss.Glob.Expression
import LayeredCss.Glob.Lookup
import LayeredCss.Glob.Match
import LayeredCss.Config
import LayeredCss.Theme
import LayeredCss.SourceFilter
import LayeredCss.Loader
import LayeredCss.Layers
import LayeredCss.Transform
import LayeredCss.RuleStore
import LayeredCss.Stylesheet
import LayeredCss.Session
import LayeredCss.SheetModule
import LayeredCss.Plugin
import LayeredCss.Live.Broadcast
import LayeredCss.Live.Debouncer
import LayeredCss.Live.Hub
import LayeredCss.Live.Endpoint
import LayeredCss.Live.FlushTask
import LayeredCss.Live.Server
import LayeredCss.Script.Listener
import LayeredCss.Script.Transform
import LayeredCss.Proofs.Slots
import LayeredCss.Proofs.Session.Moves
import LayeredCss.Proofs.Session.Run
import LayeredCss.Proofs.Session.Reservations
import LayeredCss.Proofs.Session.History
import LayeredCss.Proofs.Session.Contents
import LayeredCss.Proofs.Session.Batch
import LayeredCss.Proofs.Session.StableBases
import LayeredCss.Proofs.Session.MonotonicBases
import LayeredCss.Proofs.Plugin.Anew
import LayeredCss.Proofs.Live.Receivers
import LayeredCss.Proofs.Live.Scene
import LayeredCss.Proofs.Live.News
import LayeredCss.Proofs.Live.Clients
import LayeredCss.Proofs.Live.Turns
import LayeredCss.Proofs.Counter
import LayeredCss.Proofs.Live.Serving
import LayeredCss.Proofs.Session.FailedBatch
import LayeredCss.Proofs.SlotClients
import LayeredCss.Proofs.SharedCache
import LayeredCss.Proofs.Store.Listing
import LayeredCss.Proofs.Annotations
import LayeredCss.Proofs.Live.Ending
import LayeredCss.Proofs.Session.Reordering
import LayeredCss.Proofs.Live.Windows
import LayeredCss.Proofs.Live.Deliveries
import LayeredCss.Proofs.SlotLimits
import LayeredCss.Proofs.Plugin.Loaders
import LayeredCss.Proofs.Plugin.Modules
import LayeredCss.Proofs.Plugin.Imports
import LayeredCss.Proofs.Session.Relying
import LayeredCss.Proofs.Json.Grammar
import LayeredCss.Proofs.Json.Tokens
import LayeredCss.Proofs.Json.Reading
import LayeredCss.Proofs.Json.Writing
import LayeredCss.Proofs.Settings
import LayeredCss.Proofs.Wire
