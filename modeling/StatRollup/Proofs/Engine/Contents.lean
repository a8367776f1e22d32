import StatRollup.Proofs.Cells.History
import StatRollup.Proofs.Engine.Sources
import StatRollup.Proofs.Engine.Turn
import StatRollup.Proofs.Uid.Naming

/-!
# What cells are made of

Every cell is made of events that were heard and lie in it: one of the keys of the event, at the
precision of its definition or a coarser one, is the key of the cell (`Event.LiesIn`).  That does
not depend on what else was registered since, as a definition keeps its kind, its precision and its
tags (`Registry.Grows`), nor on the names that got identifiers since.

So it is a mark of entries (`kept_filled`), and what is shared fits as long as all cells are made of
such events.  Definitions may be registered and the dictionary may be asked for anything in the
meantime (`Shared.Visits`), and the store may fail in any way.
-/

namespace StatRollup

open Uid (Dictionary Tables)

/-! ## Definitions that grow -/

/-- Every definition is kept, but for what no stored cell depends on. -/
structure Registry.Grows (r r' : Registry) : Prop where
  proper : r'.Proper
  keeps {name : String} {s : Statistic} : r.get? name = some s →
    ∃ s', r'.get? name = some s' ∧ s'.kind = s.kind ∧ s'.precision = s.precision ∧
      s'.tags = s.tags

theorem Registry.Proper.refl {r : Registry} (h : r.Proper) : r.Grows r :=
  ⟨h, fun hs => ⟨_, hs, rfl, rfl, rfl⟩⟩

/-- Registering keeps all definitions. -/
theorem Registry.Proper.grows {r r' : Registry} {s : Statistic} (hr : r.Proper)
    (h : r.register s = .ok r') : r.Grows r' := by
  refine ⟨hr.register h, fun {name old} hold => ?_⟩
  obtain ⟨_, halike, rfl⟩ := register_eq_ok.1 h
  by_cases hname : s.name = name
  · subst hname
    obtain ⟨hkind, hprecision, htags⟩ := halike old hold
    exact ⟨s, by rw [get?_insert, if_pos rfl], hkind, hprecision, htags⟩
  · exact ⟨old, by rw [get?_insert, if_neg hname, hold], rfl, rfl, rfl⟩

theorem Registry.Grows.trans {r r' r'' : Registry} (h : r.Grows r') (h' : r'.Grows r'') :
    r.Grows r'' := by
  refine ⟨h'.proper, fun {name s} hs => ?_⟩
  obtain ⟨s', hs', hkind, hprecision, htags⟩ := h.keeps hs
  obtain ⟨s'', hs'', hkind', hprecision', htags'⟩ := h'.keeps hs'
  exact ⟨s'', hs'', hkind'.trans hkind, hprecision'.trans hprecision, htags'.trans htags⟩

/-! ## Events in cells -/

/-- An event lies in the cell of a key when this is one of its keys, at the precision of its
definition or a coarser one. -/
inductive Event.LiesIn (registry : Registry) (tables : Tables) (e : Event) : Key → Prop where
  /-- Under a mask. -/
  | under {s : Statistic} {ts : List Tag} {ids : String → Uid} (mask : Mask) (interval : Interval) :
      registry.get? e.name = some s → s.precision.rank ≤ interval.rank →
      ts.map Tag.name = s.tags.toList → (∀ t, t ∈ e.tags ↔ t ∈ ts) →
      (∀ n ∈ e.mentions, tables.idOf? n = some (ids n)) →
      LiesIn registry tables e ((e.keyUnder ids s ts mask).withInterval interval)

/-- Made of events that were heard and lie in the cell of a key. -/
def Filled (heard : Event → Prop) (registry : Registry) (tables : Tables) (k : Key)
    (a : Aggregate) : Prop :=
  ∃ events, Gathered events a ∧ ∀ e ∈ events, heard e ∧ e.LiesIn registry tables k

section

variable {heard : Event → Prop} {registry registry' : Registry} {tables tables' : Tables}
  {d : Dictionary Tables} {e : Event} {k : Key} {a b c : Aggregate} {i : Interval} {cap : Nat}

/-- Nothing is made of no event. -/
theorem Gathered.ne_nil {events : List Event} (h : Gathered events a) : events ≠ [] := by
  induction h with
  | event cap e => exact List.cons_ne_nil _ _
  | merge _ _ _ ih _ => exact List.append_ne_nil_of_left_ne_nil ih _

namespace Event.LiesIn

/-- An event lies in a cell of its definition. -/
theorem belongs (h : e.LiesIn registry d.store k) (hd : d.Sound) (hproper : registry.Proper) :
    ∃ kind, k.Belongs registry d.store kind := by
  obtain ⟨mask, interval, hs, _, _, hmem, hids⟩ := h
  exact ⟨_, (Target.belongs_keyUnder hd hproper hs hids hmem).withInterval interval⟩

theorem withInterval (h : e.LiesIn registry tables k) (hi : k.interval.rank ≤ i.rank) :
    e.LiesIn registry tables (k.withInterval i) := by
  obtain ⟨mask, interval, hs, hfine, hts, hmem, hids⟩ := h
  have hi : interval.rank ≤ i.rank := hi
  rw [Key.withInterval_withInterval hi]
  exact .under mask i hs (Nat.le_trans hfine hi) hts hmem hids

theorem grows (h : e.LiesIn registry tables k) (hproper : registry.Proper)
    (hgrows : registry.Grows registry') (hext : tables.Extends tables') :
    e.LiesIn registry' tables' k := by
  obtain @⟨s, ts, ids, mask, interval, hs, hfine, hts, hmem, hids⟩ := h
  obtain ⟨s', hs', _, hprecision, htags⟩ := hgrows.keeps hs
  have hname : s'.name = s.name := (hgrows.proper _ _ hs').trans (hproper _ _ hs).symm
  have hkey : e.keyUnder ids s ts mask = e.keyUnder ids s' ts mask := by
    rw [keyUnder, keyUnder, hname, hprecision]
  rw [hkey]
  exact .under mask interval hs' (hprecision ▸ hfine) (htags ▸ hts) hmem
    fun n hn => hext.keeps (hids n hn)

end Event.LiesIn

namespace Filled

theorem merge (ha : Filled heard registry tables k a) (hb : Filled heard registry tables k b)
    (h : a.merge cap b = .ok c) : Filled heard registry tables k c := by
  obtain ⟨events, hgathered, hall⟩ := ha
  obtain ⟨events', hgathered', hall'⟩ := hb
  exact ⟨events ++ events', .merge hgathered hgathered' h, List.forall_mem_append.2 ⟨hall, hall'⟩⟩

theorem withInterval (h : Filled heard registry tables k a) (hi : k.interval.rank ≤ i.rank) :
    Filled heard registry tables (k.withInterval i) a := by
  obtain ⟨events, hgathered, hall⟩ := h
  exact ⟨events, hgathered, fun e he => ⟨(hall e he).1, (hall e he).2.withInterval hi⟩⟩

theorem grows (h : Filled heard registry tables k a) (hproper : registry.Proper)
    (hgrows : registry.Grows registry') (hext : tables.Extends tables') :
    Filled heard registry' tables' k a := by
  obtain ⟨events, hgathered, hall⟩ := h
  exact ⟨events, hgathered,
    fun e he => ⟨(hall e he).1, (hall e he).2.grows hproper hgrows hext⟩⟩

/-- All identifiers of a key in use have the width of the tables. -/
theorem uniform (h : Filled heard registry d.store k a) (hd : d.Sound)
    (hproper : registry.Proper) : k.Uniform d.store.width := by
  obtain ⟨events, hgathered, hall⟩ := h
  obtain ⟨e, he⟩ := List.exists_mem_of_ne_nil _ hgathered.ne_nil
  obtain ⟨_, hbelongs⟩ := (hall e he).2.belongs hd hproper
  exact hbelongs.uniform hd

end Filled

end

/-! ## Cells -/

namespace Cells

variable {heard : Event → Prop} {registry registry' : Registry} {tables tables' : Tables}
  {d : Dictionary Tables} {k : Key} {a : Aggregate} {c c' : Cells}

/-- Every cell is made of events that lie in it. -/
structure Traced (heard : Event → Prop) (registry : Registry) (tables : Tables) (c : Cells) :
    Prop where
  /-- Keys have the width of the tables. -/
  width : c.width = tables.width
  /-- Every cell has its key. -/
  held {bs : Bytes} {a : Aggregate} : c.byKey[bs]? = some a →
    ∃ k : Key, Filled heard registry tables k a ∧ k.toBytes = bs

namespace Traced

theorem grows (h : c.Traced heard registry tables) (hproper : registry.Proper)
    (hgrows : registry.Grows registry') (hext : tables.Extends tables') :
    c.Traced heard registry' tables' := by
  refine ⟨h.width.trans hext.width.symm, fun hbs => ?_⟩
  obtain ⟨k, hk, hbytes⟩ := h.held hbs
  exact ⟨k, hk.grows hproper hgrows hext, hbytes⟩

theorem legible (h : c.Traced heard registry d.store) (hd : d.Sound) (hproper : registry.Proper) :
    c.Legible := by
  intro bs a hbs
  obtain ⟨k, hk, hbytes⟩ := h.held hbs
  exact ⟨k, h.width ▸ hk.uniform hd hproper, hbytes⟩

/-- The aggregate of a cell is made of events that lie in it. -/
theorem filled (h : c.Traced heard registry d.store) (hd : d.Sound) (hproper : registry.Proper)
    (hk : k.Uniform c.width) (ha : c.get? k = some a) : Filled heard registry d.store k a := by
  obtain ⟨k', hfilled, hbytes⟩ := h.held ha
  obtain rfl := Key.toBytes_inj (h.width ▸ hfilled.uniform hd hproper) hk hbytes
  exact hfilled

/-- What is written is merged with what is there. -/
theorem merge (h : c.Traced heard registry d.store) (hd : d.Sound) (hproper : registry.Proper)
    (ha : Filled heard registry d.store k a) : (c.merge k a).2.Traced heard registry d.store := by
  obtain ⟨_, _, hsame⟩ | ⟨_, _, b, hcombine, hmerged⟩ := merge_cases c k a
  · rw [hsame]
    exact h
  · refine ⟨hmerged.width.trans h.width, fun hx => ?_⟩
    rcases hmerged.of_byKey hx with hx | ⟨hbytes, rfl⟩
    · exact h.held hx
    · refine ⟨k, ?_, hbytes⟩
      cases hheld : c.get? k with
      | none =>
        rw [hheld] at hcombine
        cases hcombine
        exact ha
      | some held =>
        rw [hheld] at hcombine
        exact (h.filled hd hproper (h.width ▸ ha.uniform hd hproper) hheld).merge ha hcombine

/-- What is not purged stays. -/
theorem purge (h : c.Traced heard registry tables) (interval : Interval) (cutoff : Timestamp) :
    (c.purge interval cutoff).2.Traced heard registry tables :=
  ⟨h.width, fun ha => h.held (byKey_purge.1 ha).1⟩

end Traced

namespace Unsteady

variable {u : Unsteady} {batch : List (Key × Aggregate)} {P : Cells → Prop}

end Unsteady

end Cells

/-! ## What workers share -/

/-- Cells can be read by names: the dictionary is truthful and of the width of the store, and every
cell is made of events that lie in it. -/
structure Shared.Readable (heard : Event → Prop) (names : List String) (s : Shared) : Prop where
  registry : s.registry.Proper
  dictionary : s.dictionary.Truthful
  room : s.dictionary.HasRoom names
  cells : s.store.cells.Traced heard s.registry s.tables
  arranged (entries : List Entry) : (s.arrange entries).Perm entries

/-- What others do to what workers share: they register definitions and ask the dictionary, time
passes, and bad events are taken. -/
inductive Shared.Visits (names : List String) (s : Shared) : Shared → Prop where
  /-- A definition is registered. -/
  | registers {definition : Statistic} {registry : Registry} :
      s.registry.register definition = .ok registry → Visits names s { s with registry }
  /-- The dictionary is asked for something. -/
  | asks {g : Uid.Goal} (q : Uid.Question g) : (∀ n ∈ q.creates, n ∈ names) →
      Visits names s { s with dictionary := (s.dictionary.ask q).2 }
  /-- Something else. -/
  | passes (now : Nat) (today : Timestamp) (badEvents : BadEvents)
      (arrange : List Entry → List Entry) : (∀ entries, (arrange entries).Perm entries) →
      Visits names s { s with now, today, badEvents, arrange }

/-- The mark of entries that belong to their processor and are made of events that lie in the cell
of their key. -/
abbrev filledMark (heard : Event → Prop) : Mark := fun s id k p =>
  Own id k p ∧ Filled heard s.registry s.tables k p.aggregate

section

variable {heard : Event → Prop} {names : List String} {s s' : Shared}

/-- From what workers share to more of it. -/
theorem Shared.Readable.grows (h : s.Readable heard names)
    (hregistry : s.registry.Grows s'.registry)
    (hdictionary : s.dictionary.Grows names s'.dictionary) (hstore : s'.store = s.store)
    (harranged : ∀ entries, (s'.arrange entries).Perm entries) :
    (filledMark heard).Passes (Shared.Readable heard names) s s' where
  fits := by
    refine ⟨hregistry.proper, hdictionary.truthful, hdictionary.creates.room, ?_, harranged⟩
    rw [hstore]
    exact h.cells.grows h.registry hregistry hdictionary.creates.extends_
  carries hmark :=
    ⟨hmark.1, hmark.2.grows h.registry hregistry hdictionary.creates.extends_⟩

/-- Others leave cells readable. -/
theorem Shared.Visits.readable (h : s.Visits names s') (hs : s.Readable heard names) :
    (filledMark heard).Passes (Shared.Readable heard names) s s' := by
  have hsame := hs.dictionary.grows hs.room
  cases h with
  | registers hregister => exact hs.grows (hs.registry.grows hregister) hsame rfl hs.arranged
  | asks q hq => exact hs.grows hs.registry.refl (hs.dictionary.ask hs.room q hq) rfl hs.arranged
  | passes now today badEvents arrange harranged =>
    exact hs.grows hs.registry.refl hsame rfl harranged

/-- Mapping an event asks the dictionary for its names. -/
theorem Shared.Readable.mapped (h : s.Readable heard names) (id : ProcessorId) {e : Event}
    (hnames : ∀ n ∈ e.mentions, n ∈ names) :
    s.dictionary.Grows names (s.mapped id e).dictionary :=
  mapEvent_induction h.registry (fun _ n hn hd =>
    hd.trans (hd.truthful.create hd.creates.room (hnames n hn))) (h.dictionary.grows h.room)

end

end StatRollup
