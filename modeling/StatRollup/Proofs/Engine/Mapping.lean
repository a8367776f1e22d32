import StatRollup.Engine.Mapping
import StatRollup.Proofs.Key.Event
import StatRollup.Proofs.Statistic.Registry
import StatRollup.Proofs.Uid.Creation

/-!
# Mapping an event that was accepted

An event that resolves and whose names find room is mapped.  Its statistic and its tags are
exchanged for the identifiers that they have in the tables afterwards, and there is one aggregate
of the event for every required mask.  `mapEvent_built` says all this at once.
-/

namespace StatRollup

open Uid (Dictionary Tables)

/-- Definitions are kept under their own names. -/
def Registry.Proper (r : Registry) : Prop := ∀ name s, r.get? name = some s → s.name = name

theorem Registry.proper_empty : Registry.empty.Proper := by
  intro name s h
  rw [get?_empty] at h
  cases h

theorem Registry.Proper.insert {r : Registry} (hr : r.Proper) (s : Statistic) :
    Proper ⟨r.byName.insert s.name s⟩ := by
  intro name t ht
  rw [get?_insert] at ht
  split at ht
  · next hname =>
    cases ht
    exact hname
  · exact hr name t ht

/-- Registering keeps definitions under their own names. -/
theorem Registry.Proper.register {r r' : Registry} {s : Statistic} (hr : r.Proper)
    (h : r.register s = .ok r') : r'.Proper := by
  obtain ⟨_, _, rfl⟩ := register_eq_ok.1 h
  exact hr.insert s

namespace Event

variable {registry : Registry} {s : Statistic} {e : Event}

/-- The names of an event that are exchanged for identifiers. -/
def mentions (e : Event) : List String := e.name :: e.tags.flatMap fun t => [t.name, t.value]

theorem name_mem_mentions (e : Event) : e.name ∈ e.mentions := List.mem_cons_self

theorem tag_mem_mentions {t : Tag} (h : t ∈ e.tags) :
    t.name ∈ e.mentions ∧ t.value ∈ e.mentions := by
  constructor
  · exact List.mem_cons_of_mem _ (List.mem_flatMap.2 ⟨t, h, List.mem_cons_self⟩)
  · exact List.mem_cons_of_mem _
      (List.mem_flatMap.2 ⟨t, h, List.mem_cons_of_mem _ List.mem_cons_self⟩)

/-- What is known of an event that resolves. -/
theorem of_resolve (h : e.resolve registry = .ok s) :
    registry.get? e.name = some s ∧ e.reading.kind = s.kind ∧
      s.checkTags (e.tags.map Tag.name) = .ok () := by
  rw [resolve] at h
  split at h
  · cases h
  · next s' hs =>
    simp only [bind, Except.bind, throw, throwThe, MonadExceptOf.throw, pure, Except.pure] at h
    split at h
    · cases h
    · split at h
      · cases h
      · next hkind =>
        split at h
        · cases h
        · obtain ⟨_, htags, h⟩ := bind_eq_ok.1 h
          cases h
          exact ⟨hs, Decidable.not_not.1 hkind, htags⟩

/-- An event at the processor that it was routed to resolves there too. -/
theorem resolveAt_ok (h : e.resolve registry = .ok s) :
    e.resolveAt registry s.kind s.precision = .ok s := by
  rw [resolveAt, h]
  simp [bind, Except.bind, pure, Except.pure]

/-- What is known of an event that resolves at a processor. -/
theorem of_resolveAt {kind : Statistic.Kind} {interval : Interval}
    (h : e.resolveAt registry kind interval = .ok s) :
    e.resolve registry = .ok s ∧ s.kind = kind ∧ s.precision = interval := by
  obtain ⟨s', hresolve, h⟩ := bind_eq_ok.1 h
  by_cases hroute : s'.kind ≠ kind ∨ s'.precision ≠ interval
  · rw [if_pos hroute] at h
    cases h
  · rw [if_neg hroute] at h
    cases h
    rw [not_or] at hroute
    exact ⟨hresolve, Decidable.not_not.1 hroute.1, Decidable.not_not.1 hroute.2⟩

/-- The key of an event under a mask, when names have the given identifiers. -/
def keyUnder (ids : String → Uid) (s : Statistic) (ts : List Tag) (e : Event) (mask : Mask) :
    Key :=
  .of (ids s.name) mask s.precision e.timestamp
    (Key.rollUp mask (ts.map fun t => ⟨ids t.name, ids t.value⟩))

end Event

/-! ## Names for identifiers -/

variable {d : Dictionary Tables} {names : List String} {tags : List Tag}

/-- The identifier of a name, or another one for a name that has none. -/
def Uid.Tables.idOr (t : Tables) (other : Uid) (name : String) : Uid := (t.idOf? name).getD other

theorem Uid.Tables.idOr_eq {t : Tables} {other u : Uid} {n : String} (h : t.idOf? n = some u) :
    t.idOr other n = u := by
  rw [idOr, h]
  rfl

/-- Every tag and value gets the identifier that it has afterwards. -/
theorem internTags_ok (tags : List Tag) (h : d.Sound) (room : d.HasRoom names)
    (htags : ∀ t ∈ tags, t.name ∈ names ∧ t.value ∈ names) (other : Uid) :
    ∃ d' : Dictionary Tables,
      internTags d tags = (.ok (tags.map fun t =>
        (t.name, ⟨d'.store.idOr other t.name, d'.store.idOr other t.value⟩)), d') ∧
      d.Creates names d' ∧
      ∀ t ∈ tags, d'.store.idOf? t.name = some (d'.store.idOr other t.name) ∧
        d'.store.idOf? t.value = some (d'.store.idOr other t.value) := by
  induction tags generalizing d with
  | nil => exact ⟨d, rfl, .refl h room, fun t ht => nomatch ht⟩
  | cons t tags ih =>
    obtain ⟨⟨hname, hvalue⟩, hrest⟩ := List.forall_mem_cons.1 htags
    obtain ⟨u, d₁, hu, hmapped, hc⟩ := Dictionary.create_ok h room hname
    obtain ⟨v, d₂, hv, hmapped', hc'⟩ := Dictionary.create_ok hc.sound hc.room hvalue
    obtain ⟨d', hd', hc'', hall⟩ := ih hc'.sound hc'.room hrest
    have hu' : d'.store.idOf? t.name = some u := hc''.extends_.keeps (hc'.extends_.keeps hmapped)
    have hv' : d'.store.idOf? t.value = some v := hc''.extends_.keeps hmapped'
    refine ⟨d', ?_, hc.trans (hc'.trans hc''), ?_⟩
    · rw [internTags, hu]
      simp only [hv, hd']
      rw [List.map_cons, Tables.idOr_eq hu', Tables.idOr_eq hv']
      rfl
    · intro x hx
      rcases List.mem_cons.1 hx with rfl | hx
      · rw [Tables.idOr_eq hu', Tables.idOr_eq hv']
        exact ⟨hu', hv'⟩
      · exact hall x hx

/-- What holds of a dictionary, and still holds when it is asked for a tag or a value, holds after
tags were exchanged. -/
theorem internTags_induction {P : Dictionary Tables → Prop}
    (hstep : ∀ d, ∀ t ∈ tags, P d → P (d.getOrCreate t.name).2 ∧ P (d.getOrCreate t.value).2)
    (h : P d) : P (internTags d tags).2 := by
  induction tags generalizing d with
  | nil => exact h
  | cons t tags ih =>
    have hname := (hstep d t List.mem_cons_self h).1
    rw [internTags]
    generalize d.getOrCreate t.name = outcome at hname
    obtain ⟨f | name, d₁⟩ := outcome
    · exact hname
    · have hvalue := (hstep d₁ t List.mem_cons_self hname).2
      dsimp only
      generalize d₁.getOrCreate t.value = outcome at hvalue
      obtain ⟨f | value, d₂⟩ := outcome
      · exact hvalue
      · exact ih (fun d x hx => hstep d x (List.mem_cons_of_mem t hx)) hvalue

/-- What holds of a dictionary, and still holds when it is asked for a name of an event, holds after
the event was mapped, whether or not that succeeds. -/
theorem mapEvent_induction {registry : Registry} {e : Event} {kind : Statistic.Kind}
    {interval : Interval} {cap : Nat} {P : Dictionary Tables → Prop} (hproper : registry.Proper)
    (hstep : ∀ d, ∀ n ∈ e.mentions, P d → P (d.getOrCreate n).2) (h : P d) :
    P (mapEvent registry d cap kind interval e).2 := by
  rw [mapEvent]
  split
  · exact h
  · next s hs =>
    have hname : s.name = e.name := hproper e.name s (Event.of_resolve (Event.of_resolveAt hs).1).1
    have hcreated := hstep d e.name e.name_mem_mentions h
    rw [keyedAggregates, hname]
    generalize d.getOrCreate e.name = outcome at hcreated
    obtain ⟨f | statistic, d₁⟩ := outcome
    · exact hcreated
    · have htags : P (internTags d₁ e.tags).2 := internTags_induction (fun d t ht hd =>
        ⟨hstep d t.name (Event.tag_mem_mentions ht).1 hd,
          hstep d t.value (Event.tag_mem_mentions ht).2 hd⟩) hcreated
      dsimp only
      generalize internTags d₁ e.tags = outcome at htags
      obtain ⟨f | tagged, d₂⟩ := outcome <;> exact htags

/-- What a mapped event consists of. -/
theorem of_mapEvent {σ : Type} [Uid.Store σ] {registry : Registry} {e : Event}
    {kind : Statistic.Kind} {interval : Interval} {d : Dictionary σ} {cap : Nat}
    {pairs : List (Key × Aggregate)} (h : (mapEvent registry d cap kind interval e).1 = .ok pairs) :
    ∃ s statistic tagged keys, e.resolveAt registry kind interval = .ok s ∧
      Key.build s statistic e.timestamp tagged = .ok keys ∧
      pairs = keys.map fun k => (k, Aggregate.ofEvent cap e) := by
  rw [mapEvent] at h
  split at h
  · cases h
  · next s hresolve =>
    rw [keyedAggregates] at h
    split at h
    · cases h
    · next statistic _ _ =>
      split at h
      · cases h
      · next tagged _ _ =>
        cases hkeys : Key.build s statistic e.timestamp tagged with
        | error f => simp [hkeys, Except.map] at h
        | ok keys =>
          simp only [hkeys, Except.map, Except.ok.injEq] at h
          exact ⟨s, statistic, tagged, keys, hresolve, hkeys, h.symm⟩

/-- An event that resolves becomes one aggregate for every required mask, with its tags in the order
of the declared ones. -/
theorem mapEvent_built {registry : Registry} {s : Statistic} {e : Event} (hproper : registry.Proper)
    (h : d.Sound) (room : d.HasRoom names) (hs : e.resolve registry = .ok s)
    (hnames : ∀ n ∈ e.mentions, n ∈ names) (cap : Nat) :
    ∃ (ids : String → Uid) (ts : List Tag) (d' : Dictionary Tables), e.tagsBy s = .ok ts ∧
      mapEvent registry d cap s.kind s.precision e =
        (.ok (s.requiredMasks.map fun mask =>
          (e.keyUnder ids s ts mask, Aggregate.ofEvent cap e)), d') ∧
      d.Creates names d' ∧ ∀ n ∈ e.mentions, d'.store.idOf? n = some (ids n) := by
  obtain ⟨hget, _, htags⟩ := Event.of_resolve hs
  have hname : s.name = e.name := hproper e.name s hget
  obtain ⟨ts, hts, _⟩ := Event.tagsBy_ok htags
  obtain ⟨u, d₁, hu, hmapped, hc⟩ :=
    Dictionary.create_ok h room (hnames _ e.name_mem_mentions)
  obtain ⟨d', hd', hc', hall⟩ := internTags_ok e.tags hc.sound hc.room
    (fun t ht => ⟨hnames _ (Event.tag_mem_mentions ht).1, hnames _ (Event.tag_mem_mentions ht).2⟩) u
  have hu' : d'.store.idOf? e.name = some u := hc'.extends_.keeps hmapped
  refine ⟨d'.store.idOr u, ts, d', hts, ?_, hc.trans hc', ?_⟩
  · rw [mapEvent, Event.resolveAt_ok hs]
    simp only [keyedAggregates, hname, hu, hd']
    rw [Event.build_ok hts u fun t => ⟨d'.store.idOr u t.name, d'.store.idOr u t.value⟩]
    simp only [Except.map, List.map_map, Event.keyUnder, hname, Tables.idOr_eq hu']
    rfl
  · intro n hn
    rcases List.mem_cons.1 hn with rfl | hn
    · rw [Tables.idOr_eq hu', hu']
    · obtain ⟨t, ht, hn⟩ := List.mem_flatMap.1 hn
      obtain ⟨hn', hv'⟩ := hall t ht
      rcases List.mem_cons.1 hn with rfl | hn
      · exact hn'
      · rw [List.mem_singleton.1 hn]
        exact hv'

/-- The tags of a mapped event are the declared ones, in their order. -/
theorem mapEvent_ok {registry : Registry} {s : Statistic} {e : Event} (hproper : registry.Proper)
    (h : d.Sound) (room : d.HasRoom names) (hs : e.resolve registry = .ok s)
    (hnames : ∀ n ∈ e.mentions, n ∈ names) (cap : Nat) :
    ∃ (ids : String → Uid) (ts : List Tag) (d' : Dictionary Tables),
      mapEvent registry d cap s.kind s.precision e =
        (.ok (s.requiredMasks.map fun mask =>
          (e.keyUnder ids s ts mask, Aggregate.ofEvent cap e)), d') ∧
      d.Creates names d' ∧ (∀ n ∈ e.mentions, d'.store.idOf? n = some (ids n)) ∧
      ts.map Tag.name = s.tags.toList ∧ ∀ t, t ∈ e.tags ↔ t ∈ ts := by
  obtain ⟨ids, ts, d', hts, hmap, hc, hids⟩ := mapEvent_built hproper h room hs hnames cap
  obtain ⟨_, _, htags⟩ := Event.of_resolve hs
  obtain ⟨ts', hts', hnames', hmem⟩ := Event.tagsBy_ok htags
  cases hts.symm.trans hts'
  exact ⟨ids, ts, d', hmap, hc, hids, hnames', hmem⟩

end StatRollup
