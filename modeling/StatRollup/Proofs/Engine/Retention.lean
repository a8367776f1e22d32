import StatRollup.Engine.Pipeline
import StatRollup.Proofs.Cells.History

/-!
# Retention

The first worker of a processor removes cells whose row began before a horizon.  A horizon is a
number of 64 bits without a sign and a time is one with a sign, so horizons in the upper half turn
negative.  Settings with such a horizon are refused, because it is then shorter than a row
(`horizon_of_validate`).  What is accepted is the number that was given and at least as long as a
row, and subtracting it from a time after 1970 stays in range (`toInt_cutoff`).

The cutoff is behind the earliest time.  So a row that would begin before the earliest time, and
begins there instead, is judged as if it began where it would (`rowTime_lt_iff`).

Octets that are not read as a key are not removed.  A key whose identifiers all have the width of
the store is read back, and one with tags of another width need not be.  Octets that are read name
one precision and one row, also where they are the octets of several keys (`row_eq_of_toBytes`).
-/

namespace StatRollup

/-! ## Horizons -/

namespace Settings

variable {s : Settings} {i : Interval} {h : UInt64}

/-- A horizon that is not negative is the number that was given. -/
theorem toInt_signedHorizon_of_nonneg (hpos : 0 ≤ (signedHorizon h.toNat).toInt) :
    (signedHorizon h.toNat).toInt = h.toNat := by
  have hlt : h.toNat < 2 ^ 64 := UInt64.toNat_lt h
  rw [signedHorizon, UInt64.ofNat_toNat, toInt_toInt64, Int.bmod] at hpos ⊢
  split at hpos <;> split <;> omega

/-- Settings that are accepted have no horizon that is shorter than a row. -/
theorem shortRetention?_of_validate (hvalid : s.validate = .ok ()) : s.shortRetention? = none := by
  rw [validate] at hvalid
  split at hvalid
  · cases hvalid
  · next hnone =>
    rw [problem?] at hnone
    split at hnone
    · cases hnone
    · split at hnone
      · cases hnone
      · split at hnone
        · cases hnone
        · exact hnone

/-- A horizon that is accepted is kept as it was given, and is at least as long as a row. -/
theorem horizon_of_validate (hvalid : s.validate = .ok ())
    (hretention : s.retention i = some h.toNat) :
    (signedHorizon h.toNat).toInt = h.toNat ∧ i.rowMillis ≤ h.toNat := by
  have hnone := List.findSome?_eq_none_iff.1 (shortRetention?_of_validate hvalid) i
    (by cases i <;> decide)
  rw [hretention] at hnone
  have hlong : i.rowMillis ≤ (signedHorizon h.toNat).toInt := by
    by_contra hshort
    simp [Int.not_le.1 hshort] at hnone
  have hrow := i.rowMillis_pos
  have hgiven := toInt_signedHorizon_of_nonneg (h := h) (by omega)
  exact ⟨hgiven, hgiven ▸ hlong⟩

end Settings

/-- Going back from a time after 1970 by a number that is not negative stays in range. -/
theorem toInt_cutoff {today horizon : Timestamp} (hnow : 0 ≤ today.toInt)
    (hhorizon : 0 ≤ horizon.toInt) :
    (today - horizon).toInt = today.toInt - horizon.toInt := by
  have htoday := Int64.toInt_lt today
  have hlt := Int64.toInt_lt horizon
  rw [Int64.toInt_sub]
  exact Int.bmod_eq_of_le_mul_two (by omega) (by omega)

/-! ## Rows -/

namespace Key

variable {a b k : Key} {cutoff : Timestamp}

/-- Where the row of a key begins, also before the earliest time. -/
def rowBegin (k : Key) : Int := k.columnTime.toInt / k.interval.rowMillis * k.interval.rowMillis

theorem toInt_rowTime (k : Key) : k.rowTime.toInt = max k.rowBegin Interval.earliest :=
  Interval.toInt_floorTo k.interval.rowMillis_pos k.columnTime

/-- Behind the earliest time, a row is judged by where it begins. -/
theorem rowTime_lt_iff (h : Interval.earliest < cutoff.toInt) :
    k.rowTime < cutoff ↔ k.rowBegin < cutoff.toInt := by
  rw [Int64.lt_iff_toInt_lt, toInt_rowTime]
  omega

/-- Keys with the same octets are of one precision and in one row, whatever the widths of their
identifiers. -/
theorem row_eq_of_toBytes (h : a.toBytes = b.toBytes) :
    a.interval = b.interval ∧ a.rowTime = b.rowTime := by
  obtain ⟨restA, hA⟩ := drop_toBytes a
  obtain ⟨restB, hB⟩ := drop_toBytes b
  rw [h, width_eq_of_toBytes h, hB] at hA
  have hlength : b.interval.toBytes.length = a.interval.toBytes.length := by
    rw [Interval.length_toBytes, Interval.length_toBytes]
  obtain ⟨hinterval, hbehind⟩ := List.append_inj hA hlength
  obtain ⟨hrow, _⟩ := List.append_inj hbehind (by rw [length_timeBytes, length_timeBytes])
  constructor
  · have hread := congrArg Interval.ofBytes hinterval
    rw [Interval.ofBytes_toBytes, Interval.ofBytes_toBytes] at hread
    exact (Except.ok.inj hread).symm
  · rw [← readTime_timeBytes a.rowTime, ← hrow, readTime_timeBytes]

end Key

/-! ## Purges -/

namespace Cells

variable {c : Cells} {k k' : Key} {bs : Bytes} {width : Nat} {i : Interval} {cutoff : Timestamp}

/-- Octets expire when they are read as a key that does. -/
theorem isExpired_iff : isExpired width i cutoff bs = true ↔
    ∃ k, Key.ofBytes width bs = .ok k ∧ Expires i cutoff k := by
  rw [isExpired]
  cases Key.ofBytes width bs <;> simp [Expires]

/-- Keys with the same octets expire together. -/
theorem expires_congr (h : k.toBytes = k'.toBytes) : Expires i cutoff k ↔ Expires i cutoff k' := by
  obtain ⟨hinterval, hrow⟩ := Key.row_eq_of_toBytes h
  rw [Expires, Expires, hinterval, hrow]

/-- The octets of a key expire when they are read at all and the key expires, also when they are
read as another key. -/
theorem isExpired_toBytes_iff : isExpired width i cutoff k.toBytes = true ↔
    (∃ read, Key.ofBytes width k.toBytes = .ok read) ∧ Expires i cutoff k := by
  rw [isExpired_iff]
  constructor
  · rintro ⟨read, hread, hexpires⟩
    exact ⟨⟨read, hread⟩, (expires_congr (Key.toBytes_of_ofBytes hread).1).1 hexpires⟩
  · rintro ⟨⟨read, hread⟩, hexpires⟩
    exact ⟨read, hread, (expires_congr (Key.toBytes_of_ofBytes hread).1).2 hexpires⟩

/-- What is under some octets after a purge. -/
theorem getElem?_byKey_purge (c : Cells) (i : Interval) (cutoff : Timestamp) (bs : Bytes) :
    (c.purge i cutoff).2.byKey[bs]? =
      if isExpired c.width i cutoff bs = true then none else c.byKey[bs]? := by
  refine Option.ext fun a => byKey_purge.trans ?_
  cases isExpired c.width i cutoff bs <;> simp

/-- What becomes of the cells when those of an interval are kept for a horizon. -/
structure Retained (i : Interval) (now horizon : Int) (before after : Cells) : Prop where
  /-- What is there was there before. -/
  subset : ∀ (bs : Bytes) (a : Aggregate), after.byKey[bs]? = some a → before.byKey[bs]? = some a
  /-- A cell that goes is of the interval, and its row is over. -/
  ended : ∀ k, before.get? k ≠ none → after.get? k = none →
    k.interval = i ∧ k.rowTime.toInt + i.rowMillis < now
  /-- Of the cells whose octets are read as a key, those go whose row began before the horizon. -/
  readable : ∀ k, (∃ read, Key.ofBytes before.width k.toBytes = .ok read) → after.get? k =
    if k.interval = i ∧ k.rowBegin < now - horizon then none else before.get? k
  /-- What is not read as a key stays. -/
  unreadable : ∀ bs : Bytes, (∀ k, Key.ofBytes before.width bs ≠ .ok k) →
    after.byKey[bs]? = before.byKey[bs]?

/-- A cutoff that lies a row or more back, but not at the earliest time, keeps cells for a
horizon. -/
theorem retained_purge (c : Cells) {now horizon : Int} (hcutoff : cutoff.toInt = now - horizon)
    (hlong : i.rowMillis ≤ horizon) (hlate : Interval.earliest < cutoff.toInt) :
    Retained i now horizon c (c.purge i cutoff).2 where
  subset bs a ha := (byKey_purge.1 ha).1
  ended k hthere hgone := by
    replace hgone := (getElem?_byKey_purge c i cutoff k.toBytes).symm.trans hgone
    split at hgone
    · next hexpired =>
      obtain ⟨-, hinterval, hrow⟩ := isExpired_toBytes_iff.1 hexpired
      rw [Int64.lt_iff_toInt_lt, hcutoff] at hrow
      exact ⟨hinterval, by omega⟩
    · exact absurd hgone hthere
  readable k hread := by
    have hiff : isExpired c.width i cutoff k.toBytes = true ↔
        k.interval = i ∧ k.rowBegin < now - horizon := by
      rw [isExpired_toBytes_iff, and_iff_right hread, Expires, Key.rowTime_lt_iff hlate, hcutoff]
    rw [← if_congr hiff rfl rfl]
    exact getElem?_byKey_purge c i cutoff k.toBytes
  unreadable bs hbs := by
    have hstays : ¬ isExpired c.width i cutoff bs = true := fun hexpired => by
      obtain ⟨k, hread, -⟩ := isExpired_iff.1 hexpired
      exact hbs k hread
    rw [getElem?_byKey_purge, if_neg hstays]

end Cells

namespace Bench

variable {p : Post} {b : Bench} {h : UInt64}

/-- What a worker removes when it is time. -/
theorem cells_purgeIfDue {horizon : Nat} (hdue : b.horizonIfDue? p = some horizon) :
    (b.purgeIfDue p).shared.store.cells = (b.shared.store.cells.purge p.id.processor.interval
      (b.shared.today - Settings.signedHorizon horizon)).2 := by
  rw [purgeIfDue, hdue]
  rfl

/-- Unless it is not time to purge, the horizon is that of the settings. -/
theorem horizonIfDue?_eq (p : Post) (b : Bench) :
    b.horizonIfDue? p = none ∨
      b.horizonIfDue? p = p.settings.retention p.id.processor.interval :=
  (ite_eq_or_eq _ _ _).symm

/-- With settings that are accepted, the horizon of an interval is used as it was given, and the
cutoff is exactly so long before the time of day.  What a worker then removes are cells of its
interval whose rows are over. -/
theorem purges_ended_rows (hvalid : p.settings.validate = .ok ())
    (hretention : p.settings.retention p.id.processor.interval = some h.toNat)
    (hnow : 0 ≤ b.shared.today.toInt) :
    (Settings.signedHorizon h.toNat).toInt = h.toNat ∧
    (b.shared.today - Settings.signedHorizon h.toNat).toInt = b.shared.today.toInt - h.toNat ∧
    (b.horizonIfDue? p ≠ none →
      Cells.Retained p.id.processor.interval b.shared.today.toInt h.toNat
        b.shared.store.cells (b.purgeIfDue p).shared.store.cells) := by
  obtain ⟨hgiven, hlong⟩ := Settings.horizon_of_validate hvalid hretention
  have hhorizon := Int64.toInt_lt (Settings.signedHorizon h.toNat)
  have hcutoff : (b.shared.today - Settings.signedHorizon h.toNat).toInt =
      b.shared.today.toInt - (Settings.signedHorizon h.toNat).toInt :=
    toInt_cutoff hnow (by omega)
  rw [hgiven] at hhorizon hcutoff
  refine ⟨hgiven, hcutoff, fun hdue => ?_⟩
  have hhorizonIfDue := ((horizonIfDue?_eq p b).resolve_left hdue).trans hretention
  rw [cells_purgeIfDue hhorizonIfDue]
  refine Cells.retained_purge _ hcutoff hlong ?_
  rw [hcutoff, Interval.earliest]
  omega

end Bench

/-! ## An hour of orders -/

namespace Orders

open Cells.History

/-- Cells of a second are kept for an hour. -/
def hourly : Settings where
  uidWidth := 5
  retention := fun i => if i = .second then some 3600000 else none

/-- The worker that purges these. -/
def hourlyPost : Post := { id := ⟨⟨.count, .second⟩, 0⟩, settings := hourly, forward := none }

/-- Orders with a tag of another width. -/
def wideTagged : Key := .of orders .zero .second 0 [⟨wideOrders, wideOrders⟩]

/-- Orders of the first hour of 1970, also with that tag, and orders of the third. -/
def hourlyCells : Cells :=
  (run { cells := .empty 5 8 } [.merge (ordersOf orders 0) (.count 1 []),
    .merge (ordersOf orders 7200000) (.count 2 []), .merge wideTagged (.count 3 [])]).cells

/-- The worker in the third hour. -/
def hourlyBench : Bench where
  shared := { Engine.sharedOf hourly .empty 0 8 9000000 with store := { cells := hourlyCells } }
  stats := {}
  worker := .new hourly 0

end Orders

namespace Bench

open Orders Cells.History

/-- Orders of the first hour go, those of the third stay. -/
theorem purges_ended_rows_hourly :
    hourly.validate = .ok () ∧ hourly.retention .second = some (3600000 : UInt64).toNat ∧
      0 ≤ hourlyBench.shared.today.toInt ∧ hourlyBench.horizonIfDue? hourlyPost ≠ none ∧
      Cells.Retained .second 9000000 3600000 hourlyCells
        (hourlyBench.purgeIfDue hourlyPost).shared.store.cells ∧
      (hourlyBench.purgeIfDue hourlyPost).shared.store.cells.get? (ordersOf orders 0) = none ∧
      ((hourlyBench.purgeIfDue hourlyPost).shared.store.cells.get?
        (ordersOf orders 7200000)).isSome = true := by
  have hvalid : hourly.validate = .ok () := by rfl
  have hdue : hourlyBench.horizonIfDue? hourlyPost ≠ none := by decide
  obtain ⟨-, -, hpurges⟩ := purges_ended_rows (p := hourlyPost) (b := hourlyBench)
    (h := 3600000) hvalid (by rfl) (by decide)
  have hretained := hpurges hdue
  have hfirst := hretained.readable (ordersOf orders 0) ⟨_, by rfl⟩
  have hthird := hretained.readable (ordersOf orders 7200000) ⟨_, by rfl⟩
  refine ⟨hvalid, by rfl, by decide, hdue, hretained, hfirst.trans (if_pos (by decide)), ?_⟩
  rw [hthird, if_neg (by decide)]
  decide +kernel

/-- A row that began before the horizon stays when its key has a tag of another width. -/
theorem wideTagged_stays :
    hourly.validate = .ok () ∧ hourly.retention .second = some 3600000 ∧
      0 ≤ hourlyBench.shared.today.toInt ∧ hourlyBench.horizonIfDue? hourlyPost ≠ none ∧
      (hourlyCells.get? wideTagged).isSome = true ∧ wideTagged.interval = .second ∧
      wideTagged.rowTime.toInt < hourlyBench.shared.today.toInt - 3600000 ∧
      ((hourlyBench.purgeIfDue hourlyPost).shared.store.cells.get? wideTagged).isSome = true := by
  refine ⟨by rfl, by rfl, by decide, by decide, by decide +kernel, by decide, by decide,
    by decide +kernel⟩

end Bench

end StatRollup
