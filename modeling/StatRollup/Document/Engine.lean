import StatRollup.Document.Statistic
import StatRollup.Engine.Pipeline
import StatRollup.Engine.Report
/-!
# The state of an engine as documents

Counters, processors, outcomes of submissions, and cells by name.
-/
namespace StatRollup

/-- The document of counters. -/
def Stats.toJson (s : Stats) : Json :=
  .recordOf [("events_received", .nat s.eventsReceived), ("events_rejected", .nat s.eventsRejected),
    ("flushes", .nat s.flushes), ("keys_flushed", .nat s.keysFlushed),
    ("keys_failed", .nat s.keysFailed), ("rollups_forwarded", .nat s.rollupsForwarded),
    ("cells_purged", .nat s.cellsPurged), ("fatal_errors", .nat s.fatalErrors)]

/-- The summary of a processor. -/
def Processor.toJson (p : Processor) : Json :=
  .recordOf (p.summary.map fun (name, value) => (name, .text value))

/-- The document of an accepted submission. -/
def IngestReport.toJson (r : IngestReport) : Json :=
  .recordOf [("accepted", .nat r.accepted), ("rejected", .nat r.rejected)]

/-- The document of a cell.  How aggregates are written is left to the caller. -/
def NamedCell.toJson (aggregate : Aggregate → Json) (c : NamedCell) : Json :=
  .recordOf [("statistic", .text c.statistic), ("mask", .nat c.mask.bits),
    ("interval", c.interval.toJson), ("time", .int c.time.toInt), ("row", .int c.row.toInt),
    ("tags", .listOf (c.tags.map fun (tag, value) => .listOf [.text tag, .text value])),
    ("aggregate", aggregate c.aggregate)]

end StatRollup
