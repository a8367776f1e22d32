import StatRollup.Proofs.Engine.Mapping
import StatRollup.Proofs.Key.Coalescing
import StatRollup.Proofs.Key.Coarsening

/-!
# The keys of an event

Which keys an event has depends on its definition and on the identifiers of its names, so it can be
read off the registry and the identifier tables at any time (`Event.keysIn`).  Mapping gives an
event these very keys (`mapEvent_keys`), and they stay the same while the tables grow
(`Event.keysIn_of_extends`).

An event has a key at a coarser interval, too, when one of its own keys becomes that key there
(`Event.HasKey`).
-/

namespace StatRollup

open Uid (Dictionary Tables)

/-- What is known of keys that are built. -/
theorem Key.of_build {s : Statistic} {statistic : Uid} {time : Timestamp}
    {tagged : List (String × TagValue)} {keys : List Key}
    (h : Key.build s statistic time tagged = .ok keys) {k : Key} (hk : k ∈ keys) :
    k.interval = s.precision ∧ k.statistic = statistic ∧ k.withInterval k.interval = k := by
  obtain ⟨tags, _, h⟩ := bind_eq_ok.1 h
  cases h
  obtain ⟨mask, _, rfl⟩ := List.mem_map.1 hk
  exact ⟨rfl, rfl, Key.of_withInterval (Nat.le_refl _) _ _ _ _⟩

namespace Event

/-- Whether all names of an event have identifiers. -/
def Known (tables : Tables) (e : Event) : Prop := ∀ n ∈ e.mentions, ∃ u, tables.idOf? n = some u

/-- The keys that are built for an event, with the identifiers that its names have.  It has none if
it does not resolve, or if one of its names has no identifier. -/
def keysIn (registry : Registry) (tables : Tables) (e : Event) : List Key :=
  match e.resolve registry, tables.idOf? e.name with
  | .ok s, some statistic =>
    if e.mentions.all fun n => (tables.idOf? n).isSome then
      (e.keys (tables.idOr statistic) s).toOption.getD []
    else []
  | _, _ => []

/-- A key is one of an event when it is of the statistic of the event, and one of the keys that are
built for the event, or such a key coarsened to the interval of the key. -/
structure HasKey (registry : Registry) (tables : Tables) (k : Key) (e : Event) : Prop where
  statistic : tables.idOf? e.name = some k.statistic
  own : ∃ own ∈ e.keysIn registry tables, own.interval.rank ≤ k.interval.rank ∧
    own.withInterval k.interval = k

section

variable {registry : Registry} {tables tables' : Tables} {e : Event} {s : Statistic} {k : Key}
  {ts : List Tag} {ids ids' : String → Uid}

/-- Only the names of an event matter for its keys. -/
theorem keys_congr (hname : s.name = e.name) (h : ∀ n ∈ e.mentions, ids n = ids' n) :
    e.keys ids s = e.keys ids' s := by
  have htags : (e.tags.map fun t => (t.name, t.exchange ids)) =
      e.tags.map fun t => (t.name, t.exchange ids') := by
    refine List.map_congr_left fun t ht => ?_
    obtain ⟨hn, hv⟩ := tag_mem_mentions ht
    rw [Tag.exchange, Tag.exchange, h _ hn, h _ hv]
  rw [keys, keys, hname, h _ e.name_mem_mentions, htags]

variable (hproper : registry.Proper)

theorem keysIn_eq (hs : e.resolve registry = .ok s)
    (hids : ∀ n ∈ e.mentions, tables.idOf? n = some (ids n)) (hname : s.name = e.name) :
    e.keysIn registry tables = (e.keys ids s).toOption.getD [] := by
  have hall : (e.mentions.all fun n => (tables.idOf? n).isSome) = true :=
    List.all_eq_true.2 fun n hn => by rw [hids n hn]; rfl
  rw [keysIn, hs, hids _ e.name_mem_mentions]
  dsimp only
  rw [if_pos hall, keys_congr hname fun n hn => Tables.idOr_eq (hids n hn)]

/-- What is known of an event with a key. -/
theorem of_mem_keysIn (h : k ∈ e.keysIn registry tables) :
    ∃ s ids keys, e.resolve registry = .ok s ∧
      (∀ n ∈ e.mentions, tables.idOf? n = some (ids n)) ∧ e.keys ids s = .ok keys ∧ k ∈ keys := by
  rw [keysIn] at h
  split at h
  · next s statistic hs hstatistic =>
    split at h
    · next hall =>
      cases hkeys : e.keys (tables.idOr statistic) s with
      | error f =>
        rw [hkeys] at h
        cases h
      | ok keys =>
        rw [hkeys] at h
        refine ⟨s, _, keys, hs, fun n hn => ?_, hkeys, h⟩
        obtain ⟨u, hu⟩ := Option.isSome_iff_exists.1 (List.all_eq_true.1 hall n hn)
        rw [Tables.idOr_eq hu, hu]
    · cases h
  · cases h

/-- An event with a key resolves, to a definition with the precision of the key. -/
theorem interval_of_mem_keysIn (h : k ∈ e.keysIn registry tables) :
    ∃ s, e.resolve registry = .ok s ∧ k.interval = s.precision := by
  obtain ⟨s, _, keys, hs, _, hkeys, hk⟩ := of_mem_keysIn h
  exact ⟨s, hs, (Key.of_build hkeys hk).1⟩

include hproper in
theorem hasKey_of_mem (h : k ∈ e.keysIn registry tables) : e.HasKey registry tables k := by
  obtain ⟨s, ids, keys, hs, hids, hkeys, hk⟩ := of_mem_keysIn h
  obtain ⟨_, hstatistic, hself⟩ := Key.of_build hkeys hk
  refine ⟨?_, k, h, Nat.le_refl _, hself⟩
  rw [hids _ e.name_mem_mentions, hstatistic, hproper e.name s (of_resolve hs).1]

/-- A key of an event is one of it at every coarser interval. -/
theorem HasKey.withInterval (h : e.HasKey registry tables k) {i : Interval}
    (hi : k.interval.rank ≤ i.rank) : e.HasKey registry tables (k.withInterval i) := by
  obtain ⟨own, hown, hfine, hk⟩ := h.own
  refine ⟨h.statistic, own, hown, Nat.le_trans hfine hi, ?_⟩
  rw [← hk, Key.withInterval_withInterval hi]
  rfl

/-! ## Tables that grow -/

include hproper

/-- New names do not change the keys of an event whose names have identifiers. -/
theorem keysIn_of_extends (hext : tables.Extends tables') (hknown : e.Known tables) :
    e.keysIn registry tables' = e.keysIn registry tables := by
  cases hs : e.resolve registry with
  | error f => rw [keysIn, keysIn, hs]
  | ok s =>
    have hname : s.name = e.name := hproper e.name s (of_resolve hs).1
    obtain ⟨statistic, _⟩ := hknown _ e.name_mem_mentions
    have hids : ∀ n ∈ e.mentions, tables.idOf? n = some (tables.idOr statistic n) := by
      intro n hn
      obtain ⟨u, hu⟩ := hknown n hn
      rw [Tables.idOr_eq hu, hu]
    rw [keysIn_eq hs hids hname, keysIn_eq hs (fun n hn => hext.keeps (hids n hn)) hname]

theorem mem_keysIn_of_extends (hext : tables.Extends tables')
    (h : k ∈ e.keysIn registry tables) : k ∈ e.keysIn registry tables' := by
  obtain ⟨_, ids, _, _, hids, _, _⟩ := of_mem_keysIn h
  rwa [keysIn_of_extends hproper hext fun n hn => ⟨ids n, hids n hn⟩]

theorem HasKey.mono (h : e.HasKey registry tables k) (hext : tables.Extends tables') :
    e.HasKey registry tables' k := by
  obtain ⟨own, hown, hk⟩ := h.own
  exact ⟨hext.keeps h.statistic, own, mem_keysIn_of_extends hproper hext hown, hk⟩

/-- An event whose names have identifiers has one key for every required mask. -/
theorem keysIn_of_known (hs : e.resolve registry = .ok s) (hts : e.tagsBy s = .ok ts)
    (hids : ∀ n ∈ e.mentions, tables.idOf? n = some (ids n)) :
    e.keysIn registry tables = s.requiredMasks.map (e.keyUnder ids s ts) := by
  rw [keysIn_eq hs hids (hproper e.name s (of_resolve hs).1), keys,
    build_ok hts (ids s.name) (Tag.exchange ids)]
  rfl

end

end Event

/-- An event that resolves at a processor becomes one aggregate for each of its keys. -/
theorem mapEvent_keys {registry : Registry} {d : Dictionary Tables} {names : List String}
    {e : Event} {s : Statistic} {kind : Statistic.Kind} {interval : Interval}
    (hproper : registry.Proper) (h : d.Sound) (room : d.HasRoom names)
    (hs : e.resolveAt registry kind interval = .ok s) (hnames : ∀ n ∈ e.mentions, n ∈ names)
    (cap : Nat) :
    ∃ d' : Dictionary Tables, mapEvent registry d cap kind interval e =
        (.ok ((e.keysIn registry d'.store).map fun k => (k, Aggregate.ofEvent cap e)), d') ∧
      d.Creates names d' ∧ e.Known d'.store := by
  obtain ⟨hresolve, rfl, rfl⟩ := Event.of_resolveAt hs
  obtain ⟨ids, ts, d', hts, hmap, hc, hids⟩ := mapEvent_built hproper h room hresolve hnames cap
  refine ⟨d', ?_, hc, fun n hn => ⟨_, hids n hn⟩⟩
  rw [hmap, Event.keysIn_of_known hproper hresolve hts hids, List.map_map]
  rfl

end StatRollup
