import DinnerRush.Concurrency.Pool
import DinnerRush.Concurrency.RelyGuarantee
import DinnerRush.Models
import DinnerRush.Concurrency.Table
import DinnerRush.Downstream
import DinnerRush.Payment.Service
import DinnerRush.Payment.Agreement
import DinnerRush.Fulfillment.Service
import DinnerRush.Fulfillment.Agreement
import DinnerRush.Concurrency.ReadCommitted
import DinnerRush.Broker
import DinnerRush.HttpClient
import DinnerRush.Outbox
import DinnerRush.Ingestion.Service
import DinnerRush.Ingestion.Accept
import DinnerRush.Orchestrator.Handlers
import DinnerRush.Orchestrator.System
import DinnerRush.Orchestrator.Steps
import DinnerRush.Orchestrator.Ledger
import DinnerRush.Orchestrator.Custody
import DinnerRush.Orchestrator.Discipline
import DinnerRush.Orchestrator.Statements
import DinnerRush.Orchestrator.Recording
import DinnerRush.Orchestrator.Handling
import DinnerRush.Orchestrator.Calling
import DinnerRush.Orchestrator.Relaying
import DinnerRush.Orchestrator.Lifecycle
import DinnerRush.Orchestrator.Liveness
import DinnerRush.Pipeline
import DinnerRush.Concurrency.Conduct
import DinnerRush.Concurrency.History
import DinnerRush.Orchestrator.Composition
import DinnerRush.Orchestrator.Retries
import DinnerRush.Orchestrator.Replay
import DinnerRush.Orchestrator.Provenance
import DinnerRush.Orchestrator.Sequencing
import DinnerRush.Orchestrator.Publications
import DinnerRush.Orchestrator.Copies
import DinnerRush.Orchestrator.EventOrder
import DinnerRush.Orchestrator.Services
import DinnerRush.Orchestrator.ExactlyOnce
import DinnerRush.Concurrency.Refinement
import DinnerRush.Orchestrator.FirstLine
import DinnerRush.Orchestrator.WithoutRedis
import DinnerRush.OutboxRelay.Soundness
import DinnerRush.Concurrency.Transitions
import DinnerRush.ResilientClient.System
import DinnerRush.ResilientClient.Probe
import DinnerRush.ResilientClient.Tripped
import DinnerRush.ResilientClient.PostJson
import DinnerRush.CustomerWeb.View
import DinnerRush.CustomerWeb.Stream
import DinnerRush.CustomerWeb.Closing
import DinnerRush.CustomerWeb.Onward
import DinnerRush.Ingestion.Authorship
import DinnerRush.Grouping
import DinnerRush.CustomerWeb.PlaceCart
import DinnerRush.CustomerWeb.Checkout
import DinnerRush.CustomerWeb.Retry
import DinnerRush.CustomerWeb.Reported
import DinnerRush.CustomerWeb.Separate
import DinnerRush.CustomerWeb.Shop
import DinnerRush.CustomerWeb.Conserved
import DinnerRush.CustomerWeb.Billed
import DinnerRush.ResilientClient.ClosedForm
import DinnerRush.ResilientClient.RateLimited
import DinnerRush.ResilientClient.RetryLoop
import DinnerRush.CustomerWeb.Finished
import DinnerRush.CustomerWeb.Untrusted
import DinnerRush.CustomerWeb.Handled
import DinnerRush.CustomerWeb.Cart
import DinnerRush.CustomerWeb.CartSharing
import DinnerRush.CustomerWeb.Hydration
import DinnerRush.CustomerWeb.Catalog
import DinnerRush.CustomerWeb.WellFormed
import DinnerRush.Concurrency.FixedWindow
import DinnerRush.FlakyCore
import DinnerRush.Concurrency.Execution
import DinnerRush.LoadGen.Generator
import DinnerRush.LoadGen.Accounted
import DinnerRush.LoadGen.Backpressure
import DinnerRush.CustomerWeb.Derived
import DinnerRush.CustomerWeb.Packages
import DinnerRush.Orchestrator.Causality
import DinnerRush.Orchestrator.Reading
import DinnerRush.Orchestrator.Accounting
import DinnerRush.Concurrency.SlidingWindow
import DinnerRush.DashboardApi.Service
import DinnerRush.DashboardApi.Live
import DinnerRush.Concurrency.Quota
import DinnerRush.Orchestrator.DlqDrain
import DinnerRush.Orchestrator.Gated
import DinnerRush.Concurrency.Angelic
import DinnerRush.Orchestrator.Capabilities
import DinnerRush.Orchestrator.Recovery
import DinnerRush.Orchestrator.Recoverable
