import MonitoringAgent.Library.Except
import MonitoringAgent.Library.BitList
import MonitoringAgent.Library.StreamCode
import MonitoringAgent.Library.Increasing
import MonitoringAgent.Library.Resume
import MonitoringAgent.Library.Rounding
import MonitoringAgent.Library.BigEndian
import MonitoringAgent.Library.Table
import MonitoringAgent.Library.Keyed
import MonitoringAgent.Library.Text
import MonitoringAgent.Library.Base64
import MonitoringAgent.Library.Aead
import MonitoringAgent.Model.Uuid
import MonitoringAgent.Model.Tier
import MonitoringAgent.Model.Value
import MonitoringAgent.Model.Codec.Bits
import MonitoringAgent.Model.Codec.Raw
import MonitoringAgent.Model.Codec.Rollup
import MonitoringAgent.Model.Rollup
import MonitoringAgent.Model.State
import MonitoringAgent.Model.Bytes
import MonitoringAgent.Model.Tail
import MonitoringAgent.Library.Lexical
import MonitoringAgent.Model.Series
import MonitoringAgent.Library.Decimal
import MonitoringAgent.Model.Block.Name
import MonitoringAgent.Model.CheckedTail
import MonitoringAgent.Model.Log
import MonitoringAgent.Model.Tables
import MonitoringAgent.Model.Ingest
import MonitoringAgent.Model.Writer
import MonitoringAgent.Model.Recovery
import MonitoringAgent.Model.Retention.Policy
import MonitoringAgent.Model.Retention.Capacity
import MonitoringAgent.Model.Store.Handoff
import MonitoringAgent.Model.Store.Pass
import MonitoringAgent.Model.Store.Records
import MonitoringAgent.Model.Store.Blocks
import MonitoringAgent.Model.Store.Store
import MonitoringAgent.Verification.Codec.Bits
import MonitoringAgent.Verification.Codec.Raw
import MonitoringAgent.Verification.Codec.Rollup
import MonitoringAgent.Verification.Bytes
import MonitoringAgent.Verification.Log
import MonitoringAgent.Verification.Series.Open
import MonitoringAgent.Verification.Series.Rollup
import MonitoringAgent.Verification.Series.Invariant
import MonitoringAgent.Verification.Series.Tail
import MonitoringAgent.Verification.Series.History
import MonitoringAgent.Verification.Series.Slots
import MonitoringAgent.Verification.Writer.Head
import MonitoringAgent.Verification.Writer.Recovery
import MonitoringAgent.Verification.Writer.Tails
import MonitoringAgent.Verification.Writer.Commit
import MonitoringAgent.Verification.Writer.Steps
import MonitoringAgent.Verification.Writer.History
import MonitoringAgent.Library.Bounded
import MonitoringAgent.Library.Trace
import MonitoringAgent.Library.Checked
import MonitoringAgent.Model.Codec.Checked
import MonitoringAgent.Verification.Codec.Exact
import MonitoringAgent.Verification.Codec.Decoded
import MonitoringAgent.Verification.Codec.Checked
import MonitoringAgent.Verification.Codec.Fields
import MonitoringAgent.Verification.Series.Names
import MonitoringAgent.Verification.Block.Name
import MonitoringAgent.Verification.Retention.Capacity
import MonitoringAgent.Model.Retention.Change
import MonitoringAgent.Verification.Retention.Changes
import MonitoringAgent.Verification.Series.Stored
import MonitoringAgent.Verification.Store.Spans
import MonitoringAgent.Verification.Store.Pass
import MonitoringAgent.Verification.Store.Disk
import MonitoringAgent.Verification.Store.Invariant
import MonitoringAgent.Verification.Store.Commit
import MonitoringAgent.Verification.Store.Reconcile
import MonitoringAgent.Verification.Store.Clock
import MonitoringAgent.Verification.Store.Handoff
import MonitoringAgent.Verification.Store.Dead
import MonitoringAgent.Model.Hub.Registry
import MonitoringAgent.Model.Hub.Seal
import MonitoringAgent.Model.Hub.Applications
import MonitoringAgent.Model.Hub.Round
import MonitoringAgent.Model.Hub.Presence
import MonitoringAgent.Model.Hub.Database
import MonitoringAgent.Model.Hub.Mail
import MonitoringAgent.Model.Hub.Push
import MonitoringAgent.Model.Hub.Intake
import MonitoringAgent.Model.Hub.Poll
import MonitoringAgent.Verification.Hub.Database
import MonitoringAgent.Verification.Hub.Mail
import MonitoringAgent.Verification.Hub.Overdue
import MonitoringAgent.Verification.Hub.Deletion
import MonitoringAgent.Verification.Hub.Alerts
import MonitoringAgent.Verification.Hub.Pace
import MonitoringAgent.Verification.Hub.Budget
import MonitoringAgent.Library.Bucket
import MonitoringAgent.Model.Hub.TokenBucket
import MonitoringAgent.Verification.Hub.TokenBucket
import MonitoringAgent.Verification.Hub.Rounds
import MonitoringAgent.Verification.Hub.Transports
import MonitoringAgent.Verification.Hub.Fills
import MonitoringAgent.Library.Pieces
import MonitoringAgent.Model.Block.Format
import MonitoringAgent.Verification.Block.Format
import MonitoringAgent.Verification.Block.RoundTrip
import MonitoringAgent.Model.Agent.Alerts
import MonitoringAgent.Verification.Agent.Alerts
import MonitoringAgent.Verification.Agent.Incidents
import MonitoringAgent.Model.Agent.Sourcing
import MonitoringAgent.Verification.Agent.Sourcing
import MonitoringAgent.Model.Agent.Identity
import MonitoringAgent.Model.Agent.Seal
import MonitoringAgent.Verification.Agent.Identity
import MonitoringAgent.Verification.Wire.Seal
import MonitoringAgent.Library.Datum
import MonitoringAgent.Library.Packed
import MonitoringAgent.Model.Agent.Applications
import MonitoringAgent.Model.Agent.Scrape
import MonitoringAgent.Model.Agent.Snapshot
import MonitoringAgent.Model.Agent.Mail
import MonitoringAgent.Model.Agent.Outbox
import MonitoringAgent.Model.Agent.Push
import MonitoringAgent.Library.Lines
import MonitoringAgent.Library.Utf8
import MonitoringAgent.Library.Words
import MonitoringAgent.Model.Agent.Auth
import MonitoringAgent.Verification.Agent.Auth
import MonitoringAgent.Model.Agent.Cgroup
import MonitoringAgent.Verification.Agent.Cgroup
import MonitoringAgent.Verification.Agent.Mounts
import MonitoringAgent.Library.Padded
import MonitoringAgent.Library.Calendar
import MonitoringAgent.Model.Iso8601
import MonitoringAgent.Verification.Iso8601
import MonitoringAgent.Model.Wire.Link
import MonitoringAgent.Model.Agent.MailReport
import MonitoringAgent.Model.Hub.ApplicationWire
import MonitoringAgent.Model.Hub.MailReport
import MonitoringAgent.Verification.Wire.Shapes
import MonitoringAgent.Verification.Wire.Rounds
import MonitoringAgent.Verification.Agent.Mail
import MonitoringAgent.Verification.Agent.MailSamples
import MonitoringAgent.Verification.Agent.MailIncidents
import MonitoringAgent.Verification.Agent.Outbox
import MonitoringAgent.Verification.Agent.Push
import MonitoringAgent.Verification.Agent.Sessions
import MonitoringAgent.Verification.Wire.Throttle
import MonitoringAgent.Verification.Agent.Retries
import MonitoringAgent.Verification.Agent.Rates
import MonitoringAgent.Model.Agent.Packages
import MonitoringAgent.Verification.Agent.Packages
import MonitoringAgent.Verification.Series.CheckedTail
import MonitoringAgent.Model.CheckedLog
import MonitoringAgent.Verification.CheckedLog
import MonitoringAgent.Model.CheckedRollup
import MonitoringAgent.Verification.Series.CheckedRollup
import MonitoringAgent.Model.Store.Scan
import MonitoringAgent.Verification.Store.Scan
import MonitoringAgent.Model.Store.BlockMap
import MonitoringAgent.Model.Store.Catalog
import MonitoringAgent.Verification.Store.BlockMap
import MonitoringAgent.Verification.Store.Catalog
import MonitoringAgent.Verification.Store.LastSpans
import MonitoringAgent.Verification.Store.LookBack
import MonitoringAgent.Model.Hub.PushHub
import MonitoringAgent.Verification.Agent.Reports
import MonitoringAgent.Verification.Hub.PushHub
import MonitoringAgent.Verification.Hub.PushRun
import MonitoringAgent.Verification.Store.Crash
import MonitoringAgent.Verification.Store.Stocked
import MonitoringAgent.Verification.Wire.Mail
