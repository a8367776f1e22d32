import StatRollup.Proofs.Engine.Mapping
import StatRollup.Proofs.Key.Build
import StatRollup.Proofs.Uid.Interning

/-!
# Which names an event creates

An event is judged before any dictionary is asked for anything.  One that does not resolve, or that
was routed to another processor than its own, is refused with the dictionary untouched.  For any
other event the dictionary is asked for the name of the statistic and then for every tag and its
value, in order (`mapEvent_createInOrder`).  The tags were checked as strictly as they are placed,
so the keys can be built then, and nothing but a name can be refused (`mapEvent_interns`).
-/

namespace StatRollup

open Uid (Dictionary Tables Inquiry)

namespace Event

variable {registry : Registry} {kind : Statistic.Kind} {interval : Interval} {s : Statistic}
  {e : Event} {f : Fault}

/-- The names of an event that are exchanged for identifiers under a definition, in order. -/
def namesUnder (s : Statistic) (e : Event) : List String :=
  s.name :: e.tags.flatMap fun t => [t.name, t.value]

/-- Mapping an event ends with a fault, whatever the dictionary, and leaves the dictionary as it
is. -/
def Refused (registry : Registry) (cap : Nat) (kind : Statistic.Kind) (interval : Interval)
    (e : Event) (f : Fault) : Prop :=
  ∀ (σ : Type) [Uid.Store σ] (d : Dictionary σ),
    mapEvent registry d cap kind interval e = (.error f, d)

/-! ## Events that are refused -/

/-- An event that does not resolve names no statistic, or is not valid for it. -/
theorem kind_of_resolve (h : e.resolve registry = .error f) :
    f.kind = .invalidEvent ∨ f.kind = .unknownStatistic := by
  rw [resolve] at h
  split at h
  · cases h
    exact .inr rfl
  · left
    simp only [bind, Except.bind, throw, throwThe, MonadExceptOf.throw, pure, Except.pure] at h
    split at h
    · cases h
      rfl
    · split at h
      · cases h
        rfl
      · split at h
        · cases h
          rfl
        · rcases bind_eq_error.1 h with h | ⟨_, _, h⟩
          · exact Statistic.kind_of_checkTags h
          · cases h

theorem refused_of_resolve (h : e.resolve registry = .error f) (cap : Nat)
    (kind : Statistic.Kind) (interval : Interval) : Refused registry cap kind interval e f := by
  intro σ _ d
  rw [mapEvent, resolveAt, h]
  rfl

theorem refused_elsewhere (h : e.resolve registry = .ok s) (cap : Nat)
    (hroute : s.kind ≠ kind ∨ s.precision ≠ interval) :
    Refused registry cap kind interval e
      (.misrouted s.name s.kind s.precision kind interval) := by
  intro σ _ d
  rw [mapEvent, resolveAt, h]
  simp only [bind, Except.bind, if_pos hroute]
  rfl

end Event

/-! ## Events that are mapped -/

/-- Of two computations that come to the same, both fail with one fault or both succeed. -/
theorem error_or_ok_of_map_eq {α β γ : Type} {x : Except Fault α} {y : Except Fault β} {g : α → γ}
    {h : β → γ} (heq : x.map g = y.map h) :
    (∃ f, x = .error f ∧ y = .error f) ∨ ∃ a b, x = .ok a ∧ y = .ok b ∧ g a = h b := by
  cases x with
  | error f =>
    cases y with
    | error f' =>
      cases heq
      exact .inl ⟨f, rfl, rfl⟩
    | ok b => cases heq
  | ok a =>
    cases y with
    | error f => cases heq
    | ok b => exact .inr ⟨a, b, rfl, rfl, Except.ok.inj heq⟩

section

variable {σ : Type} [Uid.Store σ] {registry : Registry} {s : Statistic} {e : Event}

/-- Tags are exchanged by creating their names and values in order. -/
theorem internTags_createInOrder (d : Dictionary σ) (tags : List Tag) :
    (internTags d tags).2 = (d.createInOrder (tags.flatMap fun t => [t.name, t.value])).2 ∧
    (internTags d tags).1.map (List.map Prod.fst) =
      (d.createInOrder (tags.flatMap fun t => [t.name, t.value])).1.map
        fun _ => tags.map Tag.name := by
  induction tags generalizing d with
  | nil => exact ⟨rfl, rfl⟩
  | cons t tags ih =>
    rw [internTags, List.flatMap_cons, List.cons_append, Dictionary.createInOrder]
    rcases d.getOrCreate t.name with ⟨f | name, d₁⟩
    · exact ⟨rfl, rfl⟩
    · dsimp only
      rw [List.cons_append, List.nil_append, Dictionary.createInOrder]
      rcases d₁.getOrCreate t.value with ⟨f | value, d₂⟩
      · exact ⟨rfl, rfl⟩
      · obtain ⟨hd, hnames⟩ := ih d₂
        dsimp only
        rw [← hd]
        rcases error_or_ok_of_map_eq hnames with ⟨f, hf, hf'⟩ | ⟨rest, us, hrest, hus, hnames⟩
        · rw [hf, hf']
          exact ⟨rfl, rfl⟩
        · rw [hrest, hus]
          refine ⟨rfl, ?_⟩
          show Except.ok (t.name :: rest.map Prod.fst) = .ok (t.name :: tags.map Tag.name)
          rw [hnames]

/-- Under tags that were checked, the keys are built once all names are created. -/
theorem keyedAggregates_createInOrder (hs : s.checkTags (e.tags.map Tag.name) = .ok ()) (cap : Nat)
    (d : Dictionary σ) :
    (keyedAggregates d cap s e).2 = (d.createInOrder (e.namesUnder s)).2 ∧
    (keyedAggregates d cap s e).1.map (List.map fun x => (x.1.mask, x.2)) =
      (d.createInOrder (e.namesUnder s)).1.map
        fun _ => s.requiredMasks.map fun m => (m, Aggregate.ofEvent cap e) := by
  rw [keyedAggregates, Event.namesUnder, Dictionary.createInOrder]
  rcases d.getOrCreate s.name with ⟨f | statistic, d₁⟩
  · exact ⟨rfl, rfl⟩
  · obtain ⟨hd, hnames⟩ := internTags_createInOrder d₁ e.tags
    dsimp only
    rw [← hd]
    generalize internTags d₁ e.tags = exchanged at hnames
    obtain ⟨exchanged, d₂⟩ := exchanged
    rcases error_or_ok_of_map_eq hnames with ⟨f, rfl, hf⟩ | ⟨tagged, us, rfl, hus, htagged⟩
    · rw [hf]
      exact ⟨rfl, rfl⟩
    · -- The names were checked, so the tags find their places.
      obtain ⟨ts, hts⟩ := Statistic.byPosition_isOk_iff.2
        (htagged ▸ Statistic.checkTags_eq_ok.1 hs)
      have hbuild : Key.build s statistic e.timestamp tagged = .ok _ :=
        Key.build_eq_ok.2 ⟨ts, hts, rfl⟩
      obtain ⟨hmasks, -⟩ := Key.fits_of_build hbuild
      dsimp only
      rw [hbuild, hus]
      refine ⟨rfl, ?_⟩
      show Except.ok _ = Except.ok _
      rw [← hmasks]
      simp only [List.map_map]
      rfl

/-- An event at its own processor is mapped by creating its names in order, and becomes one
aggregate for every required mask. -/
theorem mapEvent_createInOrder (hs : e.resolve registry = .ok s) (cap : Nat) (d : Dictionary σ) :
    (mapEvent registry d cap s.kind s.precision e).2 = (d.createInOrder (e.namesUnder s)).2 ∧
    (mapEvent registry d cap s.kind s.precision e).1.map (List.map fun x => (x.1.mask, x.2)) =
      (d.createInOrder (e.namesUnder s)).1.map
        fun _ => s.requiredMasks.map fun m => (m, Aggregate.ofEvent cap e) := by
  obtain ⟨_, _, htags⟩ := Event.of_resolve hs
  rw [mapEvent, Event.resolveAt_ok hs]
  exact keyedAggregates_createInOrder htags cap d

/-- What becomes of such an event. -/
theorem error_or_ok_of_mapEvent (hs : e.resolve registry = .ok s) (cap : Nat) (d : Dictionary σ) :
    (∃ f, (mapEvent registry d cap s.kind s.precision e).1 = .error f ∧
      (d.createInOrder (e.namesUnder s)).1 = .error f) ∨
    ∃ pairs us, (mapEvent registry d cap s.kind s.precision e).1 = .ok pairs ∧
      (d.createInOrder (e.namesUnder s)).1 = .ok us ∧
      pairs.map (fun x => (x.1.mask, x.2)) =
        s.requiredMasks.map fun m => (m, Aggregate.ofEvent cap e) :=
  error_or_ok_of_map_eq (mapEvent_createInOrder hs cap d).2

end

/-! ## All events -/

/-- An event that does not resolve, or that belongs to another processor, is refused for what it is
and no dictionary is asked for anything.  Any other event is refused only with one of its names,
after those before it were created.  When it is mapped, it is one aggregate under every required
mask, and the tables of a dictionary have grown by those of its names that they did not map. -/
theorem mapEvent_interns (registry : Registry) (cap : Nat) (kind : Statistic.Kind)
    (interval : Interval) (e : Event) :
    (∀ f, e.resolve registry = .error f →
      (f.kind = .invalidEvent ∨ f.kind = .unknownStatistic) ∧
        e.Refused registry cap kind interval f) ∧
    (∀ s, e.resolve registry = .ok s → s.kind ≠ kind ∨ s.precision ≠ interval →
      ∃ f, f.kind = .invalidEvent ∧ e.Refused registry cap kind interval f) ∧
    ∀ s, e.resolve registry = .ok s → s.kind = kind → s.precision = interval →
      (∀ (σ : Type) [Uid.Store σ] (d : Dictionary σ),
        let mapped := mapEvent registry d cap kind interval e
        mapped.2 = (d.createInOrder (e.namesUnder s)).2 ∧
        (∀ f, mapped.1 = .error f → ∃ before n after, e.namesUnder s = before ++ n :: after ∧
          (∃ us, (d.createInOrder before).1 = .ok us) ∧
          ((d.createInOrder before).2.getOrCreate n).1 = .error f) ∧
        ∀ pairs, mapped.1 = .ok pairs → pairs.map (fun x => (x.1.mask, x.2)) =
          s.requiredMasks.map fun m => (m, Aggregate.ofEvent cap e)) ∧
      ∀ width sequence capacity policy inquiries pairs,
        let start := Dictionary.new (Tables.empty width sequence) capacity policy
        let d := (start.replies inquiries).2
        let mapped := mapEvent registry d cap kind interval e
        mapped.1 = .ok pairs → d.store.Extends mapped.2.store ∧
          (mapped.2.store.pairs.map Prod.fst).Perm (d.store.pairs.map Prod.fst ++
            (e.namesUnder s).dedup.filter fun n => (d.store.idOf? n).isNone) := by
  refine ⟨fun f hf => ⟨Event.kind_of_resolve hf, Event.refused_of_resolve hf cap kind interval⟩,
    fun s hs hroute => ⟨_, rfl, Event.refused_elsewhere hs cap hroute⟩, ?_⟩
  rintro s hs rfl rfl
  constructor
  · intro σ _ d mapped
    refine ⟨(mapEvent_createInOrder hs cap d).1, fun f hf => ?_, fun pairs hok => ?_⟩
    · rcases error_or_ok_of_mapEvent hs cap d with ⟨f', hf', hnames⟩ | ⟨pairs, us, hok, -⟩
      · cases hf.symm.trans hf'
        exact Dictionary.exists_of_createInOrder hnames
      · cases hf.symm.trans hok
    · rcases error_or_ok_of_mapEvent hs cap d with ⟨f, hf, -⟩ | ⟨pairs', us, hok', -, hpairs⟩
      · cases hok.symm.trans hf
      · cases hok.symm.trans hok'
        exact hpairs
  · intro width sequence capacity policy inquiries pairs start d mapped hok
    have hd : d.Backed := (Dictionary.backed_new width sequence capacity policy).replies inquiries
    rcases error_or_ok_of_mapEvent hs cap d with ⟨f, hf, -⟩ | ⟨-, us, -, hus, -⟩
    · cases hok.symm.trans hf
    · have hgains := hd.createInOrder (e.namesUnder s) hus
      rw [← (mapEvent_createInOrder hs cap d).1] at hgains
      exact ⟨hgains.extends_, hgains.perm⟩

/-- A registry of orders alone. -/
def Event.Orders.registry : Registry := ⟨Registry.empty.byName.insert "orders" statistic⟩

/-- An order that has its system twice. -/
def Event.Orders.doubled : Event := { first with tags := first.tags ++ [⟨"system", "mail"⟩] }

/-- What a dictionary was asked that has seen the first order. -/
def Event.Orders.history : List Inquiry := (first.namesUnder statistic).map .getOrCreate

/-- A dictionary that has seen the first order. -/
def Event.Orders.seen : Dictionary Tables :=
  ((Dictionary.new (Tables.empty 4 0) 64 {}).replies history).2

/-- What the second order is mapped to then. -/
def Event.Orders.mapped : Except Fault (List (Key × Aggregate)) × Dictionary Tables :=
  mapEvent registry seen 10 .count .second second

/-- The second order brings only the name of its system, and one with a tag too many nothing. -/
theorem mapEvent_interns_orders :
    (∃ pairs, Event.Orders.mapped.1 = .ok pairs ∧ pairs.map (fun x => (x.1.mask, x.2)) =
      Event.Orders.statistic.requiredMasks.map
        fun m => (m, Aggregate.ofEvent 10 Event.Orders.second)) ∧
    (Event.Orders.mapped.2.store.pairs.map Prod.fst).Perm
      (Event.Orders.seen.store.pairs.map Prod.fst ++ ["mail"]) ∧
    Event.Orders.doubled.Refused Event.Orders.registry 10 .count .second
      (.repeatedTag "system") := by
  have hcount : Event.Orders.mapped.1.toOption.map List.length = some 2 := by decide +kernel
  have hnew : ((Event.Orders.second.namesUnder Event.Orders.statistic).dedup.filter
      fun n => (Event.Orders.seen.store.idOf? n).isNone) = ["mail"] := by decide +kernel
  obtain ⟨-, -, hmapped⟩ :=
    mapEvent_interns Event.Orders.registry 10 .count .second Event.Orders.second
  obtain ⟨hpairs, hgrown⟩ := hmapped Event.Orders.statistic (by decide) rfl rfl
  obtain ⟨hdoubled, -, -⟩ :=
    mapEvent_interns Event.Orders.registry 10 .count .second Event.Orders.doubled
  obtain ⟨-, hrefused⟩ := hdoubled (.repeatedTag "system") (by decide)
  obtain ⟨pairs, hok⟩ : ∃ pairs, Event.Orders.mapped.1 = .ok pairs := by
    cases hok : Event.Orders.mapped.1 with
    | error f =>
      rw [hok] at hcount
      cases hcount
    | ok pairs => exact ⟨pairs, rfl⟩
  have hperm : (Event.Orders.mapped.2.store.pairs.map Prod.fst).Perm
      (Event.Orders.seen.store.pairs.map Prod.fst ++
        (Event.Orders.second.namesUnder Event.Orders.statistic).dedup.filter
          fun n => (Event.Orders.seen.store.idOf? n).isNone) :=
    (hgrown 4 0 64 {} Event.Orders.history pairs hok).2
  rw [hnew] at hperm
  exact ⟨⟨pairs, hok, (hpairs Tables Event.Orders.seen).2.2 pairs hok⟩, hperm, hrefused⟩

end StatRollup
