import Ixmati.Lib.Run
import Ixmati.Writer.Tables
import Ixmati.Writer.Outbox
import Ixmati.Writer.WriteEngine
import Ixmati.Lib.Log
import Ixmati.Writer.History
import Ixmati.Writer.Versions
import Ixmati.Writer.Consistency
import Ixmati.Writer.Ingest
import Ixmati.Lib.Replica
import Ixmati.Writer.PublishTracker
import Ixmati.Writer.Publisher
import Ixmati.Api.Read
import Ixmati.Cache.Protocol
import Ixmati.Cache.Isolation
import Ixmati.Lib.Backlog
import Ixmati.System.Step
import Ixmati.System.Acknowledgement
import Ixmati.System.Coherence
import Ixmati.System.ReadYourWrites
import Ixmati.System.ReadHandler
import Ixmati.Core.Document
import Ixmati.System.Replay
import Ixmati.Writer.Boundaries
import Ixmati.Writer.Convergence
import Ixmati.System.Status
import Ixmati.Api.EventStream
import Ixmati.Api.Resumption
import Ixmati.Writer.Isolation
import Ixmati.Core.Projection
import Ixmati.Projector.Engine
import Ixmati.Projector.Delivery
import Ixmati.Reconciler.Rebuild
import Ixmati.Projector.Feed
import Ixmati.Reconciler.PatternM
import Ixmati.Projector.Operations
import Ixmati.Projector.Unordered
import Ixmati.Projector.Index
import Ixmati.Projector.PatternR
import Ixmati.Reconciler.PatternR
import Ixmati.Api.Backpressure
import Ixmati.Api.Retention
import Ixmati.Api.WriteDispatch
import Ixmati.Cache.ReadModes
import Ixmati.Cache.Session
import Ixmati.Lib.Collect
import Ixmati.Migrate.Collect
import Ixmati.Migrate.Destinations
import Ixmati.Migrate.SplitMerge
import Ixmati.Migrate.Protection
import Ixmati.Migrate.Events
import Ixmati.Lib.Exec
import Ixmati.Migrate.Execute
import Ixmati.Migrate.Publication
import Ixmati.Projector.References
import Ixmati.Migrate.LastWriter
import Ixmati.Migrate.Commands
import Ixmati.Migrate.Lossless
import Ixmati.Migrate.Modes
import Ixmati.Lib.Sql
import Ixmati.System.StoreNames
import Ixmati.Api.Scopes
import Ixmati.Cache.KeySpaces
import Ixmati.Writer.PublishOnce
import Ixmati.Writer.Watchdog
import Ixmati.Lib.Potential
import Ixmati.Writer.TrackerCalls
import Ixmati.Api.Throttle
import Ixmati.Api.Floats
import Ixmati.Api.RoundTrip
import Ixmati.Lib.Like
import Ixmati.Cache.Backends
import Ixmati.Cache.FlashDb
import Ixmati.Lib.Simulation
import Ixmati.Writer.Pipeline
import Ixmati.Writer.WriteThread
import Ixmati.Cache.Proxy
import Ixmati.Lib.Topic
import Ixmati.Core.Config
import Ixmati.System.Routing
import Ixmati.Lib.Interaction
import Ixmati.Api.Authentication
import Ixmati.Api.Submit
import Ixmati.Api.Endpoints
import Ixmati.Api.Mediation
import Ixmati.Api.Transports
import Ixmati.Api.Admission
import Ixmati.Api.Evidence
import Ixmati.System.Deployment
