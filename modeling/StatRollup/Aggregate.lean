import StatRollup.Event
import StatRollup.Fault
/-!
# Aggregates

An aggregate is built from one event and merged with others of its kind.  Numbers merge in any
order and grouping; counts stop at the largest 64-bit number.  Identifiers are kept for diagnosis
only: those of the receiver come first, and those beyond the cap are dropped while the numbers
keep accumulating.
-/
namespace StatRollup

/-! ## Numbers -/

/-- The sum of two counts, or the largest count where the sum is larger. -/
def addCounts (a b : UInt64) : UInt64 :=
  if a.toNat + b.toNat < UInt64.size then a + b else UInt64.ofNat (UInt64.size - 1)

theorem toNat_addCounts (a b : UInt64) :
    (addCounts a b).toNat = min (a.toNat + b.toNat) (UInt64.size - 1) := by
  have hs : UInt64.size = 2 ^ 64 := rfl
  unfold addCounts
  split
  · next h =>
    rw [UInt64.toNat_add, ← hs, Nat.mod_eq_of_lt h]
    omega
  · next h =>
    rw [UInt64.toNat_ofNat']
    omega

/-- The lesser of two values; one that is not a number does not count. -/
def leastOf (a b : Float) : Float :=
  if a.isNaN then b else if b.isNaN then a else if b < a then b else a

/-- The greater of two values; one that is not a number does not count. -/
def greatestOf (a b : Float) : Float :=
  if a.isNaN then b else if b.isNaN then a else if a < b then b else a

/-- The identifiers of a receiver with as many more as the cap leaves room for. -/
def appendCapped (cap : Nat) (ids more : List EventId) : List EventId :=
  ids ++ more.take (cap - ids.length)

/-! ## Aggregates -/

/-- What a cell holds. -/
inductive Aggregate where
  /-- A running count. -/
  | count (count : UInt64) (ids : List EventId)
  /-- Sum, number, least and greatest of values. -/
  | value (sum : Float) (count : UInt64) (least greatest : Float) (ids : List EventId)
  deriving Repr, Inhabited

namespace Aggregate

/-- The kind of statistic that an aggregate belongs to. -/
def kind : Aggregate → Statistic.Kind
  | count .. => .count
  | value .. => .value

/-- The reported count of a count aggregate, the number of values of the other. -/
def total : Aggregate → UInt64
  | count n _ => n
  | value _ n _ _ _ => n

/-- The identifiers kept. -/
def ids : Aggregate → List EventId
  | count _ ids => ids
  | value _ _ _ _ ids => ids

/-- Mean of the merged values; zero when there are none. -/
def mean (sum : Float) (count : UInt64) : Float := if count = 0 then 0 else sum / count.toFloat

/-- The aggregate of one event, with at most `cap` of its identifiers. -/
def ofEvent (cap : Nat) (e : Event) : Aggregate :=
  match e.reading with
  | .count n => .count n (e.ids.take cap)
  | .value x => .value x 1 x x (e.ids.take cap)

theorem length_ids_ofEvent (cap : Nat) (e : Event) : (ofEvent cap e).ids.length ≤ cap := by
  rw [ofEvent]
  split <;> exact List.length_take_le _ _

/-- Merges `other` into an aggregate of the same kind. -/
def merge (cap : Nat) : Aggregate → Aggregate → Except Fault Aggregate
  | .count m xs, .count n ys => .ok (.count (addCounts m n) (appendCapped cap xs ys))
  | .value s m lo hi xs, .value t n lo' hi' ys =>
    .ok (.value (s + t) (addCounts m n) (leastOf lo lo') (greatestOf hi hi')
      (appendCapped cap xs ys))
  | a, b => .error (.unlikeAggregates a.kind b.kind)

/-- Merges `other` into a receiver in place: whether that was possible, and what the receiver is
afterwards. -/
def mergeFrom (cap : Nat) (receiver other : Aggregate) : Except Fault Unit × Aggregate :=
  match receiver, other with
  | .count m xs, .count n ys => (.ok (), .count (addCounts m n) (appendCapped cap xs ys))
  | .value s m lo hi xs, .value t n lo' hi' ys =>
    (.ok (), .value (s + t) (addCounts m n) (leastOf lo lo') (greatestOf hi hi')
      (appendCapped cap xs ys))
  | a, b => (.error (.unlikeAggregates a.kind b.kind), a)

/-- Merging gives what merging in place leaves in the receiver. -/
theorem merge_eq_mergeFrom (cap : Nat) (a b : Aggregate) :
    a.merge cap b = (a.mergeFrom cap b).1.map fun _ => (a.mergeFrom cap b).2 := by
  cases a <;> cases b <;> rfl

/-- A receiver that could not be merged into is what it was. -/
theorem mergeFrom_of_error {cap : Nat} {a b : Aggregate} {f : Fault}
    (h : (a.mergeFrom cap b).1 = .error f) : (a.mergeFrom cap b).2 = a := by
  cases a with
  | count =>
    cases b with
    | count => cases h
    | value => rfl
  | value =>
    cases b with
    | count => rfl
    | value => cases h

/-- Aggregates merge exactly when they are of one kind. -/
theorem merge_isOk_iff (cap : Nat) (a b : Aggregate) :
    (∃ c, a.merge cap b = .ok c) ↔ a.kind = b.kind := by
  cases a <;> cases b <;> simp [merge, kind]

theorem kind_merge {cap : Nat} {a b c : Aggregate} (h : a.merge cap b = .ok c) :
    c.kind = a.kind := by
  cases a <;> cases b <;> simp [merge] at h <;> subst h <;> rfl

/-- The totals of merged aggregates add up. -/
theorem total_merge {cap : Nat} {a b c : Aggregate} (h : a.merge cap b = .ok c) :
    c.total = addCounts a.total b.total := by
  cases a <;> cases b <;> simp [merge] at h <;> subst h <;> rfl

/-- The identifiers of the receiver come first. -/
theorem ids_merge {cap : Nat} {a b c : Aggregate} (h : a.merge cap b = .ok c) :
    c.ids = appendCapped cap a.ids b.ids := by
  cases a <;> cases b <;> simp [merge] at h <;> subst h <;> rfl

/-- Nothing but their kinds keeps aggregates from merging. -/
theorem merge_eq_error {cap : Nat} {a b : Aggregate} {f : Fault} (h : a.merge cap b = .error f) :
    f = .unlikeAggregates a.kind b.kind := by
  cases a <;> cases b <;> simp [merge] at h <;> exact h.symm

/-! ## Examples -/

example : (merge 1 (.count 2 [[.number 1]]) (.count 3 [[.number 2]])).toOption.map total
    = some 5 := by decide
/-- A count and a value do not merge. -/
example : (merge 1 (.count 2 []) (.value 0 0 0 0 [])).isOk = false := by decide
example : addCounts 0xFFFFFFFFFFFFFFFF 5 = 0xFFFFFFFFFFFFFFFF := by decide

end Aggregate

end StatRollup
