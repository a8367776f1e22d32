import StatRollup.Proofs.Engine.EventKeys
import StatRollup.Proofs.Engine.Ownership

/-!
# Where entries come from

An aggregate is made of events (`Gathered`), and an entry remembers the first of them as its source.
All of them have the key of the entry (`Sourced`): the key is one of theirs when the first worker
maps them, entries merge under one key, and a key that is handed on is one of theirs at the next
interval.  This is a mark that workers keep as long as definitions stay and the dictionary gives
every name an identifier (`kept_sourced`), whatever becomes of the store.
-/

namespace StatRollup

open Uid (Dictionary Tables)

/-- Made of events: one aggregate for each of them, merged in order. -/
inductive Gathered : List Event → Aggregate → Prop where
  /-- One event. -/
  | event (cap : Nat) (e : Event) : Gathered [e] (Aggregate.ofEvent cap e)
  /-- More events after others. -/
  | merge {cap : Nat} {es es' : List Event} {a b c : Aggregate} : Gathered es a → Gathered es' b →
    a.merge cap b = .ok c → Gathered (es ++ es') c

/-- An entry is made of events that were heard and have its key, and its source is the first. -/
def Sourced (heard : Event → Prop) (registry : Registry) (tables : Tables) (k : Key)
    (p : Pending) : Prop :=
  ∃ events, events.head? = some p.source.event ∧ Gathered events p.aggregate ∧
    ∀ e ∈ events, heard e ∧ e.HasKey registry tables k

/-- What workers share has the definitions, and a dictionary that others and themselves only asked
for identifiers of the names of a list. -/
structure Shared.Grown (registry : Registry) (names : List String) (d : Dictionary Tables)
    (s : Shared) : Prop where
  registry : s.registry = registry
  dictionary : d.Creates names s.dictionary
  arranged (entries : List Entry) : (s.arrange entries).Perm entries

section

variable {heard : Event → Prop} {registry : Registry} {tables tables' : Tables} {k : Key}
  {p q r : Pending} {names : List String} {d : Dictionary Tables} {s : Shared}

/-- From here on. -/
theorem Shared.Grown.rebase (h : s.Grown registry names d) :
    s.Grown registry names s.dictionary :=
  ⟨h.registry, .refl h.dictionary.sound h.dictionary.room, h.arranged⟩

/-- The source of an entry is one of the events that it is made of. -/
theorem Sourced.source (h : Sourced heard registry tables k p) :
    heard p.source.event ∧ p.source.event.HasKey registry tables k := by
  obtain ⟨events, hhead, _, hall⟩ := h
  exact hall _ (List.mem_of_mem_head? hhead)

theorem Sourced.mono (h : Sourced heard registry tables k p) (hproper : registry.Proper)
    (hext : tables.Extends tables') : Sourced heard registry tables' k p := by
  obtain ⟨events, hhead, hgathered, hall⟩ := h
  exact ⟨events, hhead, hgathered, fun e he => ⟨(hall e he).1, (hall e he).2.mono hproper hext⟩⟩

/-- The entry that was there first keeps its source. -/
theorem Sourced.merge {cap : Nat} (hp : Sourced heard registry tables k p)
    (hq : Sourced heard registry tables k q) (h : p.merge cap q = .ok r) :
    Sourced heard registry tables k r := by
  obtain ⟨events, hhead, hgathered, hall⟩ := hp
  obtain ⟨events', _, hgathered', hall'⟩ := hq
  obtain ⟨aggregate, haggregate, rfl⟩ := Pending.of_merge h
  refine ⟨events ++ events', ?_, .merge hgathered hgathered' haggregate,
    List.forall_mem_append.2 ⟨hall, hall'⟩⟩
  rw [List.head?_append, hhead]
  rfl

theorem Sourced.withInterval {i : Interval} (h : Sourced heard registry tables k p)
    (hi : k.interval.rank ≤ i.rank) : Sourced heard registry tables (k.withInterval i) p := by
  obtain ⟨events, hhead, hgathered, hall⟩ := h
  exact ⟨events, hhead, hgathered, fun e he => ⟨(hall e he).1, (hall e he).2.withInterval hi⟩⟩

/-- An entry of one event. -/
theorem Sourced.of_mem {e : Event} (hproper : registry.Proper) (he : heard e)
    (hk : k ∈ e.keysIn registry tables) (cap handle : Nat) :
    Sourced heard registry tables k ⟨Aggregate.ofEvent cap e, handle, e⟩ :=
  ⟨[e], rfl, .event cap e, List.forall_mem_singleton.2 ⟨he, Event.hasKey_of_mem hproper hk⟩⟩

theorem ProcessorId.coarser?_rank {id j : ProcessorId} (h : id.coarser? = some j) :
    j.interval.rank = id.interval.rank + 1 := by
  obtain ⟨interval, hcoarser, rfl⟩ := Option.map_eq_some_iff.1 h
  exact Interval.coarser?_rank hcoarser

theorem ProcessorId.rank_of_coarser? {id j : ProcessorId} (h : id.coarser? = some j) :
    id.interval.rank ≤ j.interval.rank := by
  rw [coarser?_rank h]
  exact Nat.le_succ _

/-- What an event leaves of what is shared when it is mapped. -/
theorem Shared.Grown.mapped (h : s.Grown registry names d) (hproper : registry.Proper)
    (id : ProcessorId) {e : Event} (hnames : ∀ n ∈ e.mentions, n ∈ names) :
    (s.mapped id e).Grown registry names d ∧
      s.dictionary.store.Extends (s.mapped id e).dictionary.store := by
  have hregistry : s.registry.Proper := h.registry ▸ hproper
  cases hs : e.resolveAt s.registry id.kind id.interval with
  | error f =>
    have hsame : s.mapped id e = s := by rw [Shared.mapped, mapEvent, hs]
    rw [hsame]
    exact ⟨h, .refl _⟩
  | ok definition =>
    obtain ⟨d', hmap, hc, _⟩ := mapEvent_keys hregistry h.dictionary.sound h.dictionary.room hs
      hnames s.cap
    rw [Shared.mapped, hmap]
    exact ⟨⟨h.registry, h.dictionary.trans hc, h.arranged⟩, hc.extends_⟩

end

/-- The mark of entries that belong to their processor and come from events that have their key. -/
abbrev sourcedMark (heard : Event → Prop) (registry : Registry) : Mark := fun s id k p =>
  Own id k p ∧ Sourced heard registry s.dictionary.store k p

/-- Workers keep the mark while the dictionary serves them. -/
theorem kept_sourced {heard : Event → Prop} {registry : Registry} {names : List String}
    {d : Dictionary Tables} (hproper : registry.Proper)
    (hnames : ∀ e, heard e → ∀ n ∈ e.mentions, n ∈ names) :
    (sourcedMark heard registry).Kept heard (Shared.Grown registry names d) where
  arranged h := h.arranged
  merged {s id cap k a b c} ha hb hc :=
    ⟨(kept_own heard).merged (s := s) ha.1 hb.1 hc, ha.2.merge hb.2 hc⟩
  onward {s id j k p} hj h := by
    refine ⟨(kept_own heard).onward (s := s) hj h.1, h.2.withInterval ?_⟩
    rw [h.1.interval]
    exact ProcessorId.rank_of_coarser? hj
  mapped id h he := by
    obtain ⟨hgrown, hext⟩ := h.mapped hproper id (hnames _ he)
    exact ⟨hgrown, fun hm => ⟨hm.1, hm.2.mono hproper hext⟩⟩
  maps {s event id pairs} h he hpairs x hx handle := by
    refine ⟨(kept_own heard).maps h.arranged he hpairs x hx handle, ?_⟩
    have hregistry : s.registry.Proper := h.registry ▸ hproper
    cases hs : event.resolveAt s.registry id.kind id.interval with
    | error f =>
      rw [mapEvent, hs] at hpairs
      cases hpairs
    | ok definition =>
      obtain ⟨d', hmap, _⟩ := mapEvent_keys hregistry h.dictionary.sound h.dictionary.room hs
        (hnames _ he) s.cap
      rw [hmap] at hpairs
      cases hpairs
      obtain ⟨k, hk, rfl⟩ := List.mem_map.1 hx
      rw [h.registry] at hk
      rw [Shared.mapped, hmap]
      exact .of_mem hproper he hk _ _
  noted _ _ h := ⟨⟨h.registry, h.dictionary, h.arranged⟩, id⟩
  written h _ := ⟨⟨h.registry, h.dictionary, h.arranged⟩, id⟩
  purged _ _ h := ⟨⟨h.registry, h.dictionary, h.arranged⟩, id⟩

end StatRollup
