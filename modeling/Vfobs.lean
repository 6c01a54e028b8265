import Vfobs.Foundations.Run
import Vfobs.Foundations.BoundedQueue
import Vfobs.Foundations.RateLimiter
import Vfobs.Foundations.Stages
import Vfobs.Foundations.Exceptions
import Vfobs.Foundations.Dict
import Vfobs.Foundations.Utf8
import Vfobs.Foundations.PercentEncoding
import Vfobs.Foundations.UrlPath
import Vfobs.Foundations.Calendar
import Vfobs.Foundations.Digits
import Vfobs.Foundations.Datetime
import Vfobs.Foundations.Json
import Vfobs.Foundations.JsonReadBack
import Vfobs.Foundations.JsonSchema
import Vfobs.Foundations.KeyOrder
import Vfobs.Foundations.TaskPool
import Vfobs.Foundations.Keyset
import Vfobs.Foundations.LatestPer
import Vfobs.Foundations.Sql
import Vfobs.Events.Base
import Vfobs.Events.Namespaces
import Vfobs.Events.Event
import Vfobs.Events.Factory
import Vfobs.Events.Schema
import Vfobs.Alembic.InitialSchema
import Vfobs.Alembic.PartitionRanges
import Vfobs.Repositories.EventRepository
import Vfobs.Repositories.InMemory
import Vfobs.Repositories.Postgres
import Vfobs.Repositories.RowCodec
import Vfobs.Repositories.Cost
import Vfobs.Repositories.CostHistory
import Vfobs.Repositories.PartitionRouting
import Vfobs.Adapters.Vtf
import Vfobs.Api.Auth
import Vfobs.Api.ReadAuth
import Vfobs.Api.ConcurrentAuth
import Vfobs.Api.TokenCache
import Vfobs.Api.AnyEvent
import Vfobs.Api.Events
import Vfobs.Api.Query
import Vfobs.Api.QueryString
import Vfobs.Api.Reads
import Vfobs.Api.EventsListing
import Vfobs.Api.Resources
import Vfobs.Api.ConcurrentResources
import Vfobs.Api.Cost
import Vfobs.Api.Admission
import Vfobs.Api.Degradation
import Vfobs.Api.Operations
import Vfobs.Api.Backends
import Vfobs.Api.Transactions
import Vfobs.Api.Interference
import Vfobs.Sdk.Events
import Vfobs.Sdk.Ingest
import Vfobs.Sdk.Vendored
import Vfobs.Api.Contract
import Vfobs.Sdk.Emitter
import Vfobs.Sdk.EmitterWake
import Vfobs.Sdk.EmitterDelivery
import Vfobs.Sdk.DeliveryWarnings
import Vfobs.Sdk.ReadClient
import Vfobs.Sdk.ConcurrentReads
import Vfobs.Sdk.ConcurrentWalks
import Vfobs.Sdk.TaskUrl
import Vfobs.Sdk.Watch
import Vfobs.Sdk.WatchAttempts
import Vfobs.Sdk.Alerts
import Vfobs.Sdk.WireFidelity
import Vfobs.Sdk.WatchLoop
import Vfobs.Sdk.WatchedLog
import Vfobs.Service.App
import Vfobs.Service.Requests
import Vfobs.Service.Refinement
import Vfobs.Service.Authorization
import Vfobs.Service.Isolation
import Vfobs.Service.Production
import Vfobs.Service.Delivery
import Vfobs.Service.Monitoring
import Vfobs.Service.DeliveredCosts
