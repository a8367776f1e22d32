import StatRollup.Proofs.Key.Event

/-!
# Keys at coarser intervals

A key keeps the start of its column and forgets the rest of its time.  That is enough for every
coarser interval: its columns and rows are made of whole columns of the finer one, so the column and
the row around a time are those around the start of its finer column, also before 1970 and where a
bucket would start before the earliest time (`Key.floorTo_floorTo`).

So the keys of a definition at a coarser precision are those of the definition, coarsened one by one
(`build_withPrecision`), and it does not matter by how many steps a key gets to an interval.
-/

namespace StatRollup

namespace Statistic

variable {s s' : Statistic} {α : Type}

/-- Where things are placed depends on the name and the tags of the definition only. -/
theorem placeAll_congr (hname : s'.name = s.name) (htags : s'.tags = s.tags)
    (slots : List (Option α)) (tagged : List (String × α)) :
    s'.placeAll slots tagged = s.placeAll slots tagged := by
  have hpos : ∀ tag, s'.positionOf? tag = s.positionOf? tag := by
    intro tag
    rw [positionOf?, positionOf?, htags]
  induction tagged generalizing slots with
  | nil => rfl
  | cons x tagged ih =>
    obtain ⟨tag, a⟩ := x
    rw [placeAll, placeAll, hpos, hname]
    simp only [ih]

theorem takeAll_congr (hname : s'.name = s.name) (slots : List (Option α)) (tags : List String) :
    s'.takeAll slots tags = s.takeAll slots tags := by
  induction slots generalizing tags with
  | nil => cases tags <;> rfl
  | cons slot slots ih =>
    cases tags with
    | nil => cases slot <;> rfl
    | cons tag tags =>
      cases slot with
      | none => rw [takeAll, takeAll, hname]
      | some a => rw [takeAll, takeAll, ih]

theorem byPosition_congr (hname : s'.name = s.name) (htags : s'.tags = s.tags)
    (tagged : List (String × α)) : s'.byPosition tagged = s.byPosition tagged := by
  rw [byPosition, byPosition, placeAll_congr hname htags, htags]
  cases s.placeAll (s.tags.toList.map fun _ => none) tagged with
  | error f => rfl
  | ok slots => exact takeAll_congr hname slots _

end Statistic

namespace Key

variable {i j l : Interval}

/-- The row around a time is the row around its finer column. -/
theorem rowStart_columnStart_of_le (h : i.rank ≤ j.rank) (t : Timestamp) :
    j.rowStart (i.columnStart t) = j.rowStart t :=
  floorTo_floorTo i.columnMillis_pos j.rowMillis_pos (Interval.columnMillis_dvd_rowMillis_of_le h) t

/-- A coarsened key is the key of the coarser interval. -/
theorem of_withInterval (h : i.rank ≤ j.rank) (statistic : Uid) (mask : Mask) (t : Timestamp)
    (tags : List TagValue) :
    (of statistic mask i t tags).withInterval j = of statistic mask j t tags := by
  simp only [withInterval, of, columnStart_columnStart h]

theorem withInterval_withInterval (h : i.rank ≤ j.rank) (k : Key) :
    (k.withInterval i).withInterval j = k.withInterval j := by
  simp only [withInterval, columnStart_columnStart h]

/-- At a coarser precision an event has the coarsened keys, and is refused for the same reasons. -/
theorem build_withPrecision {s : Statistic} (h : s.precision.rank ≤ j.rank) (statistic : Uid)
    (t : Timestamp) (tagged : List (String × TagValue)) :
    build { s with precision := j } statistic t tagged =
      (build s statistic t tagged).map fun keys => keys.map (·.withInterval j) := by
  have hplace : ({ s with precision := j } : Statistic).byPosition tagged = s.byPosition tagged :=
    Statistic.byPosition_congr (by rfl) (by rfl) tagged
  rw [build, build, hplace]
  cases s.byPosition tagged with
  | error f => rfl
  | ok tags =>
    have hkeys : (s.requiredMasks.map fun mask => of statistic mask j t (rollUp mask tags)) =
        (s.requiredMasks.map fun mask => of statistic mask s.precision t (rollUp mask tags)).map
          (·.withInterval j) := by
      rw [List.map_map]
      exact List.map_congr_left fun mask _ => (of_withInterval h _ _ _ _).symm
    exact congrArg Except.ok hkeys

/-- A key of a time tells the key of that time at every coarser interval, its column and its row,
and a key that was coarsened tells them still.  So the keys that an event has under a definition, in
the order of their masks, are coarsened to those that it has under the definition with a coarser
precision. -/
theorem coarsened_exactly (hij : i.rank ≤ j.rank) (hjl : j.rank ≤ l.rank) :
    (∀ (statistic : Uid) (mask : Mask) (t : Timestamp) (tags : List TagValue),
      (of statistic mask i t tags).withInterval j = of statistic mask j t tags ∧
      j.rowStart (of statistic mask i t tags).columnTime = j.rowStart t) ∧
    (∀ k : Key, (k.withInterval j).withInterval l = k.withInterval l ∧
      l.rowStart (k.withInterval j).columnTime = l.rowStart k.columnTime) ∧
    (∀ s : Statistic, s.precision = i → ∀ (statistic : Uid) (t : Timestamp)
        (tagged : List (String × TagValue)),
      (∀ keys, build s statistic t tagged = .ok keys → keys.map mask = s.requiredMasks) ∧
      build { s with precision := j } statistic t tagged =
        (build s statistic t tagged).map fun keys => keys.map (·.withInterval j)) := by
  refine ⟨fun statistic mask t tags => ⟨of_withInterval hij _ _ _ _, ?_⟩,
    fun k => ⟨withInterval_withInterval hjl k, ?_⟩,
    fun s hs statistic t tagged => ⟨fun keys h => ?_, ?_⟩⟩
  · exact rowStart_columnStart_of_le hij t
  · exact rowStart_columnStart_of_le hjl k.columnTime
  · rw [build] at h
    obtain ⟨tags, _, h⟩ := bind_eq_ok.1 h
    cases h
    rw [List.map_map]
    exact List.map_id' _
  · subst hs
    exact build_withPrecision hij statistic t tagged

/-! ## Failures by host -/

namespace Failures

/-- Failures per second by host and service, also without the host. -/
def statistic : Statistic :=
  { name := "failures", kind := .count, policy := .custom, precision := .second
    tags := .ofList ["host", "service"], masks := .ofList [Mask.zero.add 0 (by decide)] }

/-- An identifier of eight octets. -/
def id (n : Nat) (h : n < 256 ^ 8) : Uid := ⟨8, n, by decide, by decide, h⟩

/-- The tags of a failure, not in the order of the definition. -/
def tags : List (String × TagValue) :=
  [("service", ⟨id 2 (by decide), id 5 (by decide)⟩),
    ("host", ⟨id 3 (by decide), id 4 (by decide)⟩)]

/-- The masks of keys, and when their columns start. -/
def starts (keys : Except Fault (List Key)) : Option (List (Nat × Interval × Int)) :=
  keys.toOption.map fun keys => keys.map fun k => (k.mask.bits, k.interval, k.columnTime.toInt)

end Failures

/-- A failure shortly before 1970 counts for the day before, through its second or its minute. -/
theorem coarsened_exactly_failure :
    Interval.second.rank ≤ Interval.minute.rank ∧ Interval.minute.rank ≤ Interval.day.rank ∧
    Failures.starts (build { Failures.statistic with precision := .minute }
        (Failures.id 9 (by decide)) (-61001) Failures.tags) =
      some [(0, .minute, -120000), (1, .minute, -120000)] ∧
    Failures.starts (((build Failures.statistic (Failures.id 9 (by decide)) (-61001)
        Failures.tags).map fun keys => keys.map (·.withInterval .minute)).map fun keys =>
          keys.map (·.withInterval .day)) =
      some [(0, .day, -86400000), (1, .day, -86400000)] := by
  have hij : Interval.second.rank ≤ Interval.minute.rank := by decide
  have hjl : Interval.minute.rank ≤ Interval.day.rank := by decide
  obtain ⟨_, _, hbuild⟩ := coarsened_exactly hij hjl
  have hminute := (hbuild Failures.statistic rfl (Failures.id 9 (by decide)) (-61001)
    Failures.tags).2
  refine ⟨hij, hjl, ?_, ?_⟩
  · rw [hminute]
    decide +kernel
  · rw [← hminute]
    decide +kernel

end Key

end StatRollup
