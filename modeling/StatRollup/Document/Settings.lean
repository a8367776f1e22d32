import StatRollup.Document.Statistic
import StatRollup.Settings
/-!
# Settings as documents

Every setting has a default.  Retention is a table from names of intervals to milliseconds.
-/
namespace StatRollup

/-- The fields of a retry policy. -/
def RetryPolicy.form : Json.Form RetryPolicy :=
  let default : RetryPolicy := {}
  RetryPolicy.mk <$> .optional "max_attempts" default.maxAttempts (Json.asNatBelow (2 ^ 32))
    <*> .optional "initial_backoff_ms" default.initialBackoff Json.asNat
    <*> .optional "max_backoff_ms" default.maxBackoff Json.asNat

/-- The document of a retry policy. -/
def RetryPolicy.toJson (p : RetryPolicy) : Json :=
  .recordOf [("max_attempts", .nat p.maxAttempts), ("initial_backoff_ms", .nat p.initialBackoff),
    ("max_backoff_ms", .nat p.maxBackoff)]

namespace Settings

/-- Reads a retention table; the last entry of an interval counts. -/
def retentionOfJson : Json.Decoder (Interval → Option Nat) := fun j =>
  (Json.asTable Interval.ofTagName? Json.asNat j).map fun entries i => entries.reverse.lookup i

/-- The fields of the settings. -/
def form : Json.Form Settings :=
  let default : Settings := {}
  Settings.mk <$> .optional "uid_width" default.uidWidth Json.asNat
    <*> .optional "min_flush_batch_size" default.minFlushBatchSize Json.asNat
    <*> .optional "max_flush_interval_ms" default.maxFlushInterval Json.asNat
    <*> .optional "max_event_ids" default.maxEventIds Json.asNat
    <*> .optional "flush_retry" default.flushRetry RetryPolicy.form.read
    <*> .optional "dictionary_cache_capacity" default.dictionaryCacheCapacity Json.asNat
    <*> .optional "partitions" default.partitions Json.asNat
    <*> .optional "retention" default.retention retentionOfJson

/-- The document of settings. -/
def toJson (s : Settings) : Json :=
  .recordOf [("uid_width", .nat s.uidWidth), ("min_flush_batch_size", .nat s.minFlushBatchSize),
    ("max_flush_interval_ms", .nat s.maxFlushInterval), ("max_event_ids", .nat s.maxEventIds),
    ("flush_retry", s.flushRetry.toJson),
    ("dictionary_cache_capacity", .nat s.dictionaryCacheCapacity),
    ("partitions", .nat s.partitions),
    ("retention", .recordOf <| Interval.all.filterMap fun i =>
      (s.retention i).map fun millis => (i.tagName, .nat millis))]

end Settings

end StatRollup
