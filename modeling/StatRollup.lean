import StatRollup.Cells.Outage
import StatRollup.Document.Aggregate
import StatRollup.Document.Engine
import StatRollup.Document.Settings
import StatRollup.Engine.Pipeline
import StatRollup.Engine.Report
import StatRollup.Json.Reader
import StatRollup.Json.Writer
import StatRollup.Proofs.Uid.Orderly
import StatRollup.Service.Api
import StatRollup.Service.Options
import StatRollup.Statistic.Building
import StatRollup.Statistic.Masks
import StatRollup.Traffic.Partition
import StatRollup.Uid.Callers
import StatRollup.Uid.Journal
import StatRollup.Uid.Outage
import StatRollup.Proofs.Uid.Desk
import StatRollup.Proofs.Uid.Recall
import StatRollup.Proofs.Uid.Framing
import StatRollup.Proofs.Uid.Replay
import StatRollup.Proofs.Uid.Recovery
import StatRollup.Proofs.Uid.Reopening
import StatRollup.Proofs.Bytes.Checksum
import StatRollup.Proofs.Uid.Damage
import StatRollup.Proofs.Engine.Mapping
import StatRollup.Proofs.Engine.Tally
import StatRollup.Proofs.Key.Codec
import StatRollup.Proofs.Key.Event
import StatRollup.Proofs.Key.Coalescing
import StatRollup.Proofs.Engine.Target
import StatRollup.Proofs.Engine.Cells
import StatRollup.Proofs.Engine.Load
import StatRollup.Proofs.Engine.Turn
import StatRollup.Proofs.Engine.Floor
import StatRollup.Proofs.Engine.Passage
import StatRollup.Proofs.Engine.Relay
import StatRollup.Proofs.Engine.Start
import StatRollup.Proofs.Engine.Scene
import StatRollup.Proofs.Engine.Conservation
import StatRollup.Proofs.Engine.Operations
import StatRollup.Proofs.Key.Coarsening
import StatRollup.Proofs.Key.Widths
import StatRollup.Proofs.Cells.History
import StatRollup.Proofs.Engine.Rounds
import StatRollup.Proofs.Engine.Diary
import StatRollup.Proofs.Engine.Plant
import StatRollup.Proofs.Engine.Ledger
import StatRollup.Proofs.Engine.Lifecycle
import StatRollup.Proofs.Engine.Accounts
import StatRollup.Proofs.Engine.Received
import StatRollup.Proofs.Engine.Stopping
import StatRollup.Proofs.Engine.Forwarding
import StatRollup.Proofs.Engine.Waiting
import StatRollup.Proofs.Engine.PlantOperations
import StatRollup.Proofs.Engine.Deadline
import StatRollup.Proofs.Engine.Chain
import StatRollup.Proofs.Engine.Kinds
import StatRollup.Proofs.Engine.ChainOperations
import StatRollup.Proofs.Engine.Handover
import StatRollup.Proofs.Engine.Passing
import StatRollup.Proofs.Engine.Ingest
import StatRollup.Proofs.Engine.Admission
import StatRollup.Proofs.Engine.Refusal
import StatRollup.Proofs.Engine.ScenePlant
import StatRollup.Proofs.Engine.Marks
import StatRollup.Proofs.Engine.Ownership
import StatRollup.Proofs.Engine.EventKeys
import StatRollup.Proofs.Engine.Sources
import StatRollup.Proofs.Engine.Blame
import StatRollup.Proofs.Engine.Following
import StatRollup.Proofs.Engine.Attribution
import StatRollup.Proofs.Uid.Naming
import StatRollup.Proofs.Engine.Contents
import StatRollup.Proofs.Service.Target
import StatRollup.Proofs.Service.Entries
import StatRollup.Proofs.Service.Listing
import StatRollup.Proofs.Key.Order
import StatRollup.Proofs.Statistic.Registry
import StatRollup.Proofs.Uid.Transparency
import StatRollup.Proofs.Uid.Numbering
import StatRollup.Proofs.Engine.Lookups
import StatRollup.Proofs.Engine.Owners
import StatRollup.Proofs.Aggregate.Grouping
import StatRollup.Proofs.Engine.Undo
import StatRollup.Proofs.Key.Build
import StatRollup.Uid.Opening
import StatRollup.Proofs.Uid.Decoding
import StatRollup.Proofs.Uid.Opening
import StatRollup.Proofs.Uid.Exhaustion
import StatRollup.Proofs.Uid.Fallible
import StatRollup.Proofs.Uid.Interning
import StatRollup.Proofs.Engine.Interning
import StatRollup.Proofs.Statistic.Building
import StatRollup.Proofs.Statistic.Draft
import StatRollup.Proofs.Key.Canonical
import StatRollup.Proofs.Engine.Retention
import StatRollup.Interval.Stepwise
import StatRollup.Traffic.Boxes
import StatRollup.Order.Search
import StatRollup.Uid.Words
import StatRollup.Proofs.Interval.Rounding
import StatRollup.Proofs.Traffic.Split
import StatRollup.Proofs.Text.Order
import StatRollup.Proofs.Statistic.Positions
import StatRollup.Proofs.Uid.Words
