import StatRollup.Interval.Basic
import StatRollup.Mask.Basic
import StatRollup.Statistic.Kind
import StatRollup.Uid.Basic
/-!
# Faults

Everything that can go wrong, by cause.  A fault is of one of fourteen kinds, and the kind alone
decides how it is treated: a *transient* fault is worth another attempt, a *data* fault condemns
the event it arose from, and a *fatal* fault is reported and never retried.  `Fault.message` holds
the whole wording.
-/
namespace StatRollup

/-! ## Kinds -/

/-- The kind of a fault. -/
inductive FaultKind where
  /-- A file could not be read or written. -/
  | io
  /-- An issued identifier has no name. -/
  | dictionaryCorruption
  /-- The identifiers of a width are used up. -/
  | namespaceExhausted
  /-- The store refused to map a name. -/
  | uidConflict
  /-- Stored data does not match its check. -/
  | checksumMismatch
  /-- Data does not have its format. -/
  | invalidFormat
  /-- An event cannot be aggregated. -/
  | invalidEvent
  /-- An event names no registered statistic. -/
  | unknownStatistic
  /-- A count met a value. -/
  | aggregateMismatch
  /-- Settings or definitions are not usable. -/
  | configuration
  /-- The aggregate store failed. -/
  | store
  /-- A message could not be handed over. -/
  | transport
  /-- The operation was abandoned. -/
  | cancelled
  /-- Anything else. -/
  | internal
  deriving DecidableEq, Repr, Inhabited

namespace FaultKind

/-- Every kind. -/
def all : List FaultKind :=
  [io, dictionaryCorruption, namespaceExhausted, uidConflict, checksumMismatch, invalidFormat,
    invalidEvent, unknownStatistic, aggregateMismatch, configuration, store, transport, cancelled,
    internal]

/-- Whether another attempt may succeed. -/
def isTransient : FaultKind → Bool
  | io | uidConflict | store => true
  | _ => false

/-- Whether the fault is reported and never retried. -/
def isFatal : FaultKind → Bool
  | dictionaryCorruption | namespaceExhausted | checksumMismatch => true
  | _ => false

/-- Whether the content of an event is to blame. -/
def isData : FaultKind → Bool
  | invalidEvent | unknownStatistic | aggregateMismatch | invalidFormat => true
  | _ => false

/-- The message of a fault of this kind about a subject. -/
def phrase (subject : String) : FaultKind → String
  | io => s!"IO error: {subject}"
  | dictionaryCorruption => s!"Dictionary corruption: no name mapped to uid {subject}"
  | namespaceExhausted => s!"UID namespace exhausted: {subject}"
  | uidConflict => s!"UID conflict for name {subject}"
  | checksumMismatch => s!"Checksum mismatch: {subject}"
  | invalidFormat => s!"Invalid format: {subject}"
  | invalidEvent => s!"Invalid event: {subject}"
  | unknownStatistic => s!"Unknown statistic: {subject}"
  | aggregateMismatch => s!"Cannot merge {subject}"
  | configuration => s!"Configuration error: {subject}"
  | store => s!"Store error: {subject}"
  | transport => s!"Transport error: {subject}"
  | cancelled => "Operation cancelled"
  | internal => s!"Internal error: {subject}"

end FaultKind

/-! ## Causes -/

/-- The part of a registered definition that a new definition may not change. -/
inductive FixedPart where
  /-- What its events carry. -/
  | kind
  /-- Its precision. -/
  | precision
  /-- Its tag names. -/
  | tags
  deriving DecidableEq, Repr

/-- A settings entry that must not be zero. -/
inductive SizeSetting where
  /-- Entries that make a window full. -/
  | minFlushBatchSize
  /-- Longest time between flushes. -/
  | maxFlushInterval
  /-- Entries per cache direction. -/
  | dictionaryCacheCapacity
  /-- Partitions per processor. -/
  | partitions
  /-- Attempts per key. -/
  | maxAttempts
  deriving DecidableEq, Repr

/-- What went wrong. -/
inductive Fault where
  /-- A failure that an outside component describes in its own words. -/
  | reported (kind : FaultKind) (text : String)
  /-- An issued identifier has no name. -/
  | unnamed (uid : Uid)
  /-- The next identifier is beyond the largest of its width. -/
  | exhausted (next max width : Nat)
  /-- A record does not match its check. -/
  | damaged (expected actual : UInt32)
  /-- A number is too large for an identifier of the width. -/
  | valueTooWide (value width : Nat)
  /-- Mask bits beyond the last position. -/
  | maskBits (bits : Nat)
  /-- Too few octets for a mask. -/
  | maskShort
  /-- No interval has the short name. -/
  | intervalName (name : String)
  /-- No interval has the column length. -/
  | intervalMillis (millis : Int)
  /-- Too few octets for an interval. -/
  | intervalShort
  /-- No key of the width has that many octets. -/
  | keyLength (length width : Nat)
  /-- The tags of a key are out of order. -/
  | tagsUnsorted
  /-- The column of a key is not in its row. -/
  | columnOutsideRow (column row : Int)
  /-- A key has another width than the store. -/
  | keyWidth (held expected : Nat)
  /-- The statistic of an event is disabled. -/
  | disabled (statistic : String)
  /-- An event carries the other kind of reading. -/
  | wrongReading (statistic : String) (declared carried : Statistic.Kind)
  /-- A time has a bucket that is not representable. -/
  | timeOutOfRange (time : Int)
  /-- A tag that the statistic does not declare. -/
  | undeclaredTag (tag statistic : String)
  /-- A tag given twice. -/
  | repeatedTag (tag : String)
  /-- A declared tag that is not given. -/
  | missingTag (tag statistic : String)
  /-- An event reached a processor of another kind or precision. -/
  | misrouted (statistic : String) (kind : Statistic.Kind) (precision : Interval)
      (atKind : Statistic.Kind) (atInterval : Interval)
  /-- No statistic is registered under the name. -/
  | unknownStatistic (name : String)
  /-- Aggregates of two kinds do not merge. -/
  | unlikeAggregates (left right : Statistic.Kind)
  /-- Identifiers have one to eight bytes. -/
  | uidWidth (width : Nat)
  /-- A tag position is beyond the last. -/
  | tagPosition (position : Nat)
  /-- A mask names a tag that the statistic does not declare. -/
  | undefinedTag (tag statistic : String)
  /-- A statistic has a blank name. -/
  | blankName
  /-- A statistic declares too many tags. -/
  | tooManyTags (statistic : String) (count : Nat)
  /-- Custom masks under a policy that does not use them. -/
  | unusedMasks (statistic : String) (policy : Statistic.Policy)
  /-- A custom mask refers to a position without a tag. -/
  | maskBeyondTags (mask : Mask) (statistic : String) (count : Nat)
  /-- A definition changes what stored cells depend on. -/
  | redefined (statistic : String) (part : FixedPart)
  /-- The configured width is not one to eight bytes. -/
  | settingWidth (width : Nat)
  /-- A size is zero. -/
  | settingZero (setting : SizeSetting)
  /-- The first retry delay exceeds the longest. -/
  | backoffOrder
  /-- A retention horizon is shorter than a row bucket. -/
  | retentionShort (horizon : Nat) (interval : Interval)
  /-- A journal holds identifiers of another width. -/
  | journalWidth (journal : String) (held expected : Nat)
  /-- A batch was answered with the wrong number of results. -/
  | incompleteBatch
  /-- There is no such partition. -/
  | partitionRange (partition count : Nat)
  /-- The receiver of a partition is gone. -/
  | partitionClosed (partition : Nat)
  /-- The receiver of rejected events is gone. -/
  | badEventsClosed
  /-- A processor has no queues. -/
  | notRunning (processor : String)
  /-- Some queues of a processor are closed. -/
  | stopping (processor : String)
  /-- Workers of a processor ended in the middle of their work. -/
  | workersDied (count : Nat) (processor : String)
  deriving DecidableEq, Repr

/-- The part in messages. -/
def FixedPart.name : FixedPart → String
  | kind => "type"
  | precision => "precision"
  | tags => "tags"

/-- The entry in messages. -/
def SizeSetting.name : SizeSetting → String
  | minFlushBatchSize => "min_flush_batch_size"
  | maxFlushInterval => "max_flush_interval_ms"
  | dictionaryCacheCapacity => "dictionary_cache_capacity"
  | partitions => "partitions"
  | maxAttempts => "flush_retry.max_attempts"

namespace Fault

/-- The kind of a fault. -/
def kind : Fault → FaultKind
  | reported kind _ => kind
  | unnamed _ => .dictionaryCorruption
  | exhausted .. => .namespaceExhausted
  | damaged .. => .checksumMismatch
  | valueTooWide .. | maskBits _ | maskShort | intervalName _ | intervalMillis _ | intervalShort
  | keyLength .. | tagsUnsorted | columnOutsideRow .. | keyWidth .. => .invalidFormat
  | disabled _ | wrongReading .. | timeOutOfRange _ | undeclaredTag .. | repeatedTag _
  | missingTag .. | misrouted .. => .invalidEvent
  | unknownStatistic _ => .unknownStatistic
  | unlikeAggregates .. => .aggregateMismatch
  | uidWidth _ | tagPosition _ | undefinedTag .. | blankName | tooManyTags .. | unusedMasks ..
  | maskBeyondTags .. | redefined .. | settingWidth _ | settingZero _ | backoffOrder
  | retentionShort .. | journalWidth .. => .configuration
  | incompleteBatch => .store
  | partitionRange .. | partitionClosed _ | badEventsClosed | notRunning _ | stopping _ =>
    .transport
  | workersDied .. => .internal

/-- What the message of a fault says after the words of its kind. -/
def subject : Fault → String
  | reported _ text => text
  | unnamed uid => uid.text
  | exhausted next max width => s!"next id {next} exceeds max {max} for width {width}"
  | damaged expected actual => s!"expected {expected}, got {actual}"
  | valueTooWide value width => s!"Value {value} does not fit a {width} byte uid"
  | maskBits bits =>
    s!"Mask 0x{(Bytes.bigEndian 2 bits).toHex} uses positions beyond {Mask.maxTags}"
  | maskShort => "Mask needs 2 bytes"
  | intervalName name => s!"Unknown interval name: {name}"
  | intervalMillis millis => s!"{millis} is not a valid column interval"
  | intervalShort => "Interval needs 8 bytes"
  | keyLength length width => s!"Key of {length} bytes does not fit uid width {width}"
  | tagsUnsorted => "Key tags are not sorted"
  | columnOutsideRow column row => s!"Column time {column} lies outside row {row}"
  | keyWidth held expected =>
    s!"Key uid width {held} does not match store width {expected}"
  | disabled statistic => s!"Statistic {statistic} is disabled"
  | wrongReading statistic declared carried =>
    s!"Statistic {statistic} is {declared.lowerName} but event carries a {carried.lowerName}"
  | timeOutOfRange time => s!"Timestamp {time} is out of range"
  | undeclaredTag tag statistic => s!"Tag {tag} is not declared on statistic {statistic}"
  | repeatedTag tag => s!"Tag {tag} given more than once"
  | missingTag tag statistic => s!"Missing tag {tag} for statistic {statistic}"
  | misrouted statistic kind precision atKind atInterval =>
    s!"Statistic {statistic} belongs to {kind.lowerName} at {precision.longName}, " ++
    s!"not {atKind.lowerName} at {atInterval.longName}"
  | unknownStatistic name => name
  | unlikeAggregates left right =>
    s!"{left.lowerName} aggregate with {right.lowerName} aggregate"
  | uidWidth width => s!"UID width must be 1..={Uid.maxWidth} bytes, got {width}"
  | tagPosition position => s!"Tag position {position} out of range, max is {Mask.maxTags - 1}"
  | undefinedTag tag statistic => s!"Tag {tag} is not defined on statistic {statistic}"
  | blankName => "Statistic name must not be empty"
  | tooManyTags statistic count =>
    s!"Statistic {statistic} has {count} tags, max is {Mask.maxTags}"
  | unusedMasks statistic policy =>
    s!"Statistic {statistic} has custom masks but rollup type {policy.longName}"
  | maskBeyondTags mask statistic count =>
    s!"Mask {mask.text} on statistic {statistic} refers to a tag position beyond {count}"
  | redefined statistic part =>
    s!"Statistic {statistic} cannot change its {part.name} once registered"
  | settingWidth width => s!"uid_width must be 1..={Uid.maxWidth}, got {width}"
  | settingZero setting => s!"{setting.name} must be greater than zero"
  | backoffOrder => "flush_retry.initial_backoff_ms exceeds max_backoff_ms"
  | retentionShort horizon interval =>
    s!"Retention of {horizon}ms for {interval.longName} is shorter than its row bucket"
  | journalWidth journal held expected =>
    s!"uid log {journal} holds {held}-byte identifiers but uid_width is {expected}"
  | incompleteBatch => "Store returned an incomplete batch result"
  | partitionRange partition count => s!"Partition {partition} out of range 0..{count}"
  | partitionClosed partition => s!"Partition {partition} is closed"
  | badEventsClosed => "Bad event channel closed"
  | notRunning processor => s!"Processor {processor} is not running"
  | stopping processor => s!"Processor {processor} is stopping"
  | workersDied count processor => s!"{count} workers of {processor} ended abnormally"

/-- The whole message of a fault. -/
def message (f : Fault) : String := f.kind.phrase f.subject

/-- Whether faults of a kind say numbers that no subject tells. -/
def saysNumbers (kind : FaultKind) : Bool :=
  kind == .namespaceExhausted || kind == .checksumMismatch

/-- A fault of a kind about a subject.  When its numbers are not known, a driver of the engine is to
blame, and the fault is an internal one. -/
def about (subject : String) (kind : FaultKind) : Fault :=
  if saysNumbers kind then .reported .internal "driver"
  else if kind = .aggregateMismatch then .unlikeAggregates .count .value
  else .reported kind subject

/-- Whether another attempt may succeed. -/
def isTransient (f : Fault) : Bool := f.kind.isTransient

/-- Whether the fault is reported and never retried. -/
def isFatal (f : Fault) : Bool := f.kind.isFatal

/-- Whether the content of an event is to blame. -/
def isData (f : Fault) : Bool := f.kind.isData

end Fault

/-! ## Steps that may be refused -/

/-- A computation in two steps succeeds when both steps do. -/
theorem bind_eq_ok {ε α β : Type} {x : Except ε α} {f : α → Except ε β} {b : β} :
    x >>= f = .ok b ↔ ∃ a, x = .ok a ∧ f a = .ok b := by
  cases x with
  | error e => exact ⟨nofun, fun ⟨a, ha, _⟩ => nomatch ha⟩
  | ok a => exact ⟨fun h => ⟨a, rfl, h⟩, fun ⟨_, ha, h⟩ => by cases ha; exact h⟩

theorem bind_eq_error {ε α β : Type} {x : Except ε α} {f : α → Except ε β} {e : ε} :
    x >>= f = .error e ↔ x = .error e ∨ ∃ a, x = .ok a ∧ f a = .error e := by
  cases x with
  | error e' => simp [bind, Except.bind]
  | ok a => simp [bind, Except.bind]

end StatRollup
