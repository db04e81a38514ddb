import MessagingGateway.Transition.System
import MessagingGateway.Transition.CheckThenInsert
import MessagingGateway.Events.Store
import MessagingGateway.Events.Emitters
import MessagingGateway.Events.Routability
import MessagingGateway.Data.Message
import MessagingGateway.Data.Outbound
import MessagingGateway.Inbound.Persist
import MessagingGateway.Inbound.Steps
import MessagingGateway.Inbound.Uniqueness
import MessagingGateway.Inbound.Completion
import MessagingGateway.Transition.Since
import MessagingGateway.Outbound.Pipeline
import MessagingGateway.Outbound.Frame
import MessagingGateway.Outbound.Invariants
import MessagingGateway.Outbound.Acceptance
import MessagingGateway.Outbound.Cancellation
import MessagingGateway.Outbound.Reconciliation
import MessagingGateway.Js.Text
import MessagingGateway.Js.Coerce
import MessagingGateway.Js.Lines
import MessagingGateway.Js.Number
import MessagingGateway.Js.Base64
import MessagingGateway.Js.Url
import MessagingGateway.Js.Date
import MessagingGateway.Js.Heap
import MessagingGateway.Js.Integer
import MessagingGateway.Js.Denotes
import MessagingGateway.Routing.Projection
import MessagingGateway.Routing.Placing
import MessagingGateway.Routing.Sharing
import MessagingGateway.Routing.Faithful
import MessagingGateway.Routing.Template
import MessagingGateway.Routing.Rendering
import MessagingGateway.Routing.Dispatch
import MessagingGateway.Routing.Independence
import MessagingGateway.Routing.Filters
import MessagingGateway.Routing.FanOut
import MessagingGateway.Routing.FanOutOnce
import MessagingGateway.Routing.Draining
import MessagingGateway.Sms.Segments
import MessagingGateway.Sms.Splitting
import MessagingGateway.Sms.Boundaries
import MessagingGateway.Sms.Slots
import MessagingGateway.Sms.Repair
import MessagingGateway.Sms.Buffer
import MessagingGateway.Sms.Retention
import MessagingGateway.Sms.Redelivery
import MessagingGateway.Sms.Draining
import MessagingGateway.Sms.Ending
import MessagingGateway.Provisioning.Wizard
import MessagingGateway.Provisioning.Ownership
import MessagingGateway.Provisioning.Lasting
import MessagingGateway.Provisioning.Preference
import MessagingGateway.Outbound.SingleJob
import MessagingGateway.Transition.Reorder
import MessagingGateway.Outbound.Reports
import MessagingGateway.Transition.Observed
import MessagingGateway.Transition.Journal
import MessagingGateway.Transition.Attempts
import MessagingGateway.Transition.Guarded
import MessagingGateway.Outbound.Traffic
import MessagingGateway.Outbound.SendRace
import MessagingGateway.Outbound.StatusHistory
import MessagingGateway.Outbound.Announcements
import MessagingGateway.Delivery.Execution
import MessagingGateway.Delivery.Processor
import MessagingGateway.Delivery.AttemptMachine
import MessagingGateway.Delivery.Steps
import MessagingGateway.Delivery.Stranding
import MessagingGateway.Sending.Request
import MessagingGateway.Sending.Send
import MessagingGateway.Sending.Replay
import MessagingGateway.Sending.OneMessage
import MessagingGateway.Sending.Files
import MessagingGateway.Sending.Outbound
import MessagingGateway.Sending.Target
import MessagingGateway.Conversations.Phone
import MessagingGateway.Conversations.Lookup
import MessagingGateway.Alerts.Raising
import MessagingGateway.Delivery.Canonical
import MessagingGateway.Conversations.Threads
import MessagingGateway.Conversations.Recency
import MessagingGateway.Conversations.Merge
import MessagingGateway.Conversations.Folding
import MessagingGateway.Inbound.Signal
import MessagingGateway.Inbound.Sequential
import MessagingGateway.Inbound.SignalKeys
import MessagingGateway.Outbound.Execution
import MessagingGateway.Outbound.SendJob
import MessagingGateway.Outbound.Scheduling
import MessagingGateway.Balance.Config
import MessagingGateway.Balance.LostUpdates
import MessagingGateway.Balance.Incidents
import MessagingGateway.Adapters.WallClock
import MessagingGateway.Adapters.Balance
import MessagingGateway.Adapters.Send
import MessagingGateway.Adapters.Attachments
import MessagingGateway.Adapters.Inbound
import MessagingGateway.Adapters.Receiving
import MessagingGateway.Adapters.SignalFrames
import MessagingGateway.Adapters.MessageId
import MessagingGateway.Adapters.Media
import MessagingGateway.Media.Storage
import MessagingGateway.Media.Tracking
import MessagingGateway.Media.Orphans
import MessagingGateway.Audit.Redaction
import MessagingGateway.Destinations.PublicView
import MessagingGateway.Destinations.Service
import MessagingGateway.Web.DestinationForm
import MessagingGateway.Web.RuleForm
import MessagingGateway.Access.Guards
import MessagingGateway.Access.Downloads
import MessagingGateway.Access.Revocation
import MessagingGateway.Records.Alone
import MessagingGateway.Inbound.Bridge
import MessagingGateway.Inbound.BridgePasses
import MessagingGateway.Routing.RuleSaves
import MessagingGateway.Routing.RuleSerial
