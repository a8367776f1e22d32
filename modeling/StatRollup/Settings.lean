import StatRollup.Fault
import StatRollup.Retry
/-!
# Settings

How wide identifiers are, when windows are flushed, how writes are retried, how many partitions
there are and how long cells are kept.  `Settings.problem?` names the first value that the engine
cannot run with.
-/
namespace StatRollup

/-- Settings of the engine. -/
structure Settings where
  /-- Width of identifiers in bytes, fixed for the life of the data. -/
  uidWidth : Nat := 4
  /-- Entries that make a window full. -/
  minFlushBatchSize : Nat := 10000
  /-- Longest time between flushes, in milliseconds. -/
  maxFlushInterval : Nat := 5000
  /-- Source identifiers kept per aggregate. -/
  maxEventIds : Nat := 100
  /-- How writes are retried. -/
  flushRetry : RetryPolicy := {}
  /-- Mappings remembered per direction. -/
  dictionaryCacheCapacity : Nat := 100000
  /-- Partitions per processor. -/
  partitions : Nat := 4
  /-- How long cells of an interval are kept, in milliseconds; without entry, forever. -/
  retention : Interval → Option Nat := fun _ => none

namespace Settings

instance : Inhabited Settings := ⟨{}⟩

/-- Messages that wait in a partition before senders have to wait. -/
def queueCapacity : Nat := 1024

/-- Shortest time between two purges of an interval, in milliseconds. -/
def purgeInterval : Nat := 60000

/-- A horizon as a signed number of 64 bits. -/
def signedHorizon (millis : Nat) : Int64 := (UInt64.ofNat millis).toInt64

/-- The first size that is zero. -/
def zeroSize? (s : Settings) : Option SizeSetting :=
  ([(.minFlushBatchSize, s.minFlushBatchSize), (.maxFlushInterval, s.maxFlushInterval),
    (.dictionaryCacheCapacity, s.dictionaryCacheCapacity), (.partitions, s.partitions),
    (.maxAttempts, s.flushRetry.maxAttempts)].find? fun entry => entry.2 == 0).map (·.1)

/-- The first retention horizon that is shorter than a row bucket. -/
def shortRetention? (s : Settings) : Option Fault :=
  Interval.all.findSome? fun i =>
    match s.retention i with
    | some horizon =>
      if (signedHorizon horizon).toInt < i.rowMillis then some (.retentionShort horizon i)
      else none
    | none => none

/-- The first thing wrong with settings. -/
def problem? (s : Settings) : Option Fault :=
  if !Uid.isWidth s.uidWidth then some (.settingWidth s.uidWidth)
  else
    match s.zeroSize? with
    | some size => some (.settingZero size)
    | none =>
      if s.flushRetry.maxBackoff < s.flushRetry.initialBackoff then some .backoffOrder
      else s.shortRetention?

/-- Refuses settings that the engine cannot run with. -/
def validate (s : Settings) : Except Fault Unit :=
  match s.problem? with
  | some f => .error f
  | none => .ok ()

end Settings

end StatRollup
