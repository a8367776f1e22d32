import Mathlib.Algebra.BigOperators.Group.List.Basic
import Mathlib.Algebra.Ring.Nat
import Mathlib.Data.List.Nodup
import StatRollup.Engine.Pipeline
import StatRollup.Proofs.Engine.Mapping
import StatRollup.Proofs.Key.Coalescing
import StatRollup.Proofs.Key.Coarsening
import StatRollup.Proofs.Traffic.Partition

/-!
# Cells by name

A `Target` names a cell without identifiers: by a definition, a mask, an interval, a time in its
bucket and the values of the tags that the mask does not roll up.  It says which events belong to
the cell (`Covers`), and through the identifier tables which keys lead to it: a key leads to a
target when the target's cell is what the key becomes at the target's interval (`Takes`).

Two facts carry everything that follows.  An event that is mapped has exactly one key that leads to
a target that covers it, and none for any other target (`takes_keyUnder`).  And tables that grow do
not change which of the keys in use lead where (`takes_iff_of_extends`).
-/

namespace StatRollup

open Uid (Dictionary Tables)

/-- The cell of a definition, a mask and an interval around a time, with values for the tags that
are not rolled up. -/
structure Target where
  /-- The definition. -/
  statistic : Statistic
  /-- Which tag positions are rolled up. -/
  mask : Mask
  /-- The precision. -/
  interval : Interval
  /-- A time in the column bucket. -/
  time : Timestamp
  /-- The value of each tag that is not rolled up. -/
  values : String → String

/-- What an event adds to the cells it belongs to. -/
def Event.amount (e : Event) : Nat :=
  match e.reading with
  | .count n => n.toNat
  | .value _ => 1

theorem Event.total_ofEvent (cap : Nat) (e : Event) :
    (Aggregate.ofEvent cap e).total.toNat = e.amount := by
  rw [Aggregate.ofEvent, amount]
  cases e.reading <;> rfl

namespace Target

/-- Whether an event belongs to the cell. -/
def Covers (t : Target) (e : Event) : Prop :=
  e.name = t.statistic.name ∧
    t.interval.columnStart e.timestamp = t.interval.columnStart t.time ∧
    ∀ x ∈ t.statistic.tags.toList.zipIdx,
      t.mask.isRolledUp x.2 = true ∨ (⟨x.1, t.values x.1⟩ : Tag) ∈ e.tags

instance (t : Target) (e : Event) : Decidable (t.Covers e) := by
  unfold Covers
  infer_instance

/-- The tags of the cell from a position on, if all their names have identifiers. -/
def tagsFrom? (tables : Tables) (t : Target) : Nat → List String → Option (List TagValue)
  | _, [] => some []
  | p, tag :: tags =>
    (tables.idOf? tag).bind fun id =>
      (if t.mask.isRolledUp p then some id.rolledUp else tables.idOf? (t.values tag)).bind
        fun value => (t.tagsFrom? tables (p + 1) tags).map fun rest => ⟨id, value⟩ :: rest

/-- The key of the cell, if all its names have identifiers. -/
def key? (tables : Tables) (t : Target) : Option Key :=
  (tables.idOf? t.statistic.name).bind fun statistic =>
    (t.tagsFrom? tables 0 t.statistic.tags.toList).map
      fun tags => .of statistic t.mask t.interval t.time tags

/-- Whether a key, at the interval of the cell, is the key of the cell. -/
def Takes (tables : Tables) (t : Target) (k : Key) : Prop :=
  k.interval.rank ≤ t.interval.rank ∧ t.key? tables = some (k.withInterval t.interval)

instance (tables : Tables) (t : Target) (k : Key) : Decidable (t.Takes tables k) := by
  unfold Takes
  infer_instance

/-- What an event contributes. -/
def ofEvent (t : Target) (e : Event) : Nat := if t.Covers e then e.amount else 0

/-- What an entry contributes. -/
def ofEntry (tables : Tables) (t : Target) (entry : Entry) : Nat :=
  if t.Takes tables entry.1 then entry.2.aggregate.total.toNat else 0

/-- What an entry still contributes once it is written, when a cell of its own interval has it. -/
def ofWritten (tables : Tables) (t : Target) (entry : Entry) : Nat :=
  if entry.1.interval = t.interval then 0 else t.ofEntry tables entry

end Target

/-! ## Keys in use -/

/-- An identifier that was issued does not stand for a rolled-up value. -/
theorem Uid.Tables.Issued.ne_rolledUp {t : Tables} {u : Uid} (h : t.Issued u) (v : Uid) :
    u ≠ v.rolledUp := by
  intro heq
  have hself : u = u.rolledUp := heq.trans (rolledUp_congr (congrArg Uid.width heq).symm)
  have hroll := h.isRolledUp
  rw [Uid.isRolledUp, ← hself] at hroll
  simp at hroll

/-- The identifiers of a tag stand for names, but for a value that may be rolled up. -/
structure TagValue.Known (tables : Tables) (x : TagValue) : Prop where
  tag : ∃ n, tables.idOf? n = some x.tag
  value : x.value = x.tag.rolledUp ∨ ∃ n, tables.idOf? n = some x.value

/-- A key that stands for a cell of some definition of a kind. -/
structure Key.Belongs (registry : Registry) (tables : Tables) (kind : Statistic.Kind) (k : Key) :
    Prop where
  /-- The definition. -/
  statistic : ∃ name s, registry.get? name = some s ∧ s.kind = kind ∧
    tables.idOf? name = some k.statistic
  /-- The tags. -/
  tags : ∀ x ∈ k.tags, x.Known tables
  /-- The time is the start of a column. -/
  column : k.interval.columnStart k.columnTime = k.columnTime

namespace Key

variable {registry : Registry} {tables tables' : Tables} {kind kind' : Statistic.Kind} {k : Key}

theorem Belongs.mono (h : k.Belongs registry tables kind) (hext : tables.Extends tables') :
    k.Belongs registry tables' kind := by
  obtain ⟨⟨name, s, hs, hkind, hid⟩, htags, hcolumn⟩ := h
  refine ⟨⟨name, s, hs, hkind, hext.keeps hid⟩, fun x hx => ?_, hcolumn⟩
  obtain ⟨⟨n, hn⟩, hvalue⟩ := htags x hx
  refine ⟨⟨n, hext.keeps hn⟩, ?_⟩
  rcases hvalue with hroll | ⟨m, hm⟩
  · exact .inl hroll
  · exact .inr ⟨m, hext.keeps hm⟩

theorem Belongs.withInterval (h : k.Belongs registry tables kind) (i : Interval) :
    (k.withInterval i).Belongs registry tables kind :=
  ⟨h.statistic, h.tags, columnStart_columnStart (Nat.le_refl _) k.columnTime⟩

/-- A key that belongs to a definition is at its own interval already. -/
theorem Belongs.withInterval_self (h : k.Belongs registry tables kind) :
    k.withInterval k.interval = k := by
  rw [Key.withInterval, h.column]

end Key

/-! ## Tables that grow -/

namespace Target

variable {registry : Registry} {tables tables' : Tables} {kind : Statistic.Kind} {t : Target}
  {k : Key} {l : List TagValue} {p : Nat} {names : List String}

theorem tagsFrom?_cons {tag : String} {tags : List String}
    (h : t.tagsFrom? tables p (tag :: tags) = some l) :
    ∃ id value rest, l = ⟨id, value⟩ :: rest ∧ tables.idOf? tag = some id ∧
      (if t.mask.isRolledUp p then some id.rolledUp else tables.idOf? (t.values tag)) =
        some value ∧ t.tagsFrom? tables (p + 1) tags = some rest := by
  rw [tagsFrom?] at h
  obtain ⟨id, hid, h⟩ := Option.bind_eq_some_iff.1 h
  obtain ⟨value, hvalue, h⟩ := Option.bind_eq_some_iff.1 h
  obtain ⟨rest, hrest, h⟩ := Option.map_eq_some_iff.1 h
  exact ⟨id, value, rest, h.symm, hid, hvalue, hrest⟩

/-- Every tag of the cell is the identifier of its name. -/
theorem map_tag_tagsFrom? (h : t.tagsFrom? tables p names = some l) :
    l.map (fun x => some x.tag) = names.map tables.idOf? := by
  induction names generalizing p l with
  | nil =>
    cases h
    rfl
  | cons tag tags ih =>
    obtain ⟨id, value, rest, rfl, hid, _, hrest⟩ := tagsFrom?_cons h
    rw [List.map_cons, List.map_cons, hid, ih hrest]

theorem tagsFrom?_mono (hext : tables.Extends tables')
    (h : t.tagsFrom? tables p names = some l) : t.tagsFrom? tables' p names = some l := by
  induction names generalizing p l with
  | nil => exact h
  | cons tag tags ih =>
    obtain ⟨id, value, rest, rfl, hid, hvalue, hrest⟩ := tagsFrom?_cons h
    have hvalue' : (if t.mask.isRolledUp p then some id.rolledUp
        else tables'.idOf? (t.values tag)) = some value := by
      split at hvalue
      · next hroll => rwa [if_pos hroll]
      · next hroll => rw [if_neg hroll, hext.keeps hvalue]
    rw [tagsFrom?, hext.keeps hid, Option.bind_some, hvalue', Option.bind_some, ih hrest]
    rfl

/-- Identifiers that stand for names in the first tables were found there already. -/
theorem tagsFrom?_of_known {d : Dictionary Tables} (hd : d.Sound)
    (hext : tables.Extends d.store) (hl : ∀ x ∈ l, x.Known tables)
    (h : t.tagsFrom? d.store p names = some l) : t.tagsFrom? tables p names = some l := by
  have back : ∀ {n u}, d.store.idOf? n = some u → (∃ m, tables.idOf? m = some u) →
      tables.idOf? n = some u := by
    rintro n u hn ⟨m, hm⟩
    rw [hd.injective hn (hext.keeps hm)]
    exact hm
  induction names generalizing p l with
  | nil => exact h
  | cons tag tags ih =>
    obtain ⟨id, value, rest, rfl, hid, hvalue, hrest⟩ := tagsFrom?_cons h
    obtain ⟨⟨hknown, hknown'⟩, hall⟩ := List.forall_mem_cons.1 hl
    have hvalue' : (if t.mask.isRolledUp p then some id.rolledUp
        else tables.idOf? (t.values tag)) = some value := by
      split at hvalue
      · next hroll => rwa [if_pos hroll]
      · next hroll =>
        rw [if_neg hroll]
        exact back hvalue (hknown'.resolve_left ((hd.issued hvalue).ne_rolledUp id))
    rw [tagsFrom?, back hid hknown, Option.bind_some, hvalue', Option.bind_some, ih hall hrest]
    rfl

theorem key?_eq_some : t.key? tables = some k ↔
    ∃ u l, tables.idOf? t.statistic.name = some u ∧
      t.tagsFrom? tables 0 t.statistic.tags.toList = some l ∧
      k = .of u t.mask t.interval t.time l := by
  rw [key?]
  constructor
  · intro h
    obtain ⟨u, hu, h⟩ := Option.bind_eq_some_iff.1 h
    obtain ⟨l, hl, h⟩ := Option.map_eq_some_iff.1 h
    exact ⟨u, l, hu, hl, h.symm⟩
  · rintro ⟨u, l, hu, hl, rfl⟩
    rw [hu, Option.bind_some, hl, Option.map_some]

theorem key?_mono (hext : tables.Extends tables') (h : t.key? tables = some k) :
    t.key? tables' = some k := by
  obtain ⟨u, l, hu, hl, heq⟩ := key?_eq_some.1 h
  exact key?_eq_some.2 ⟨u, l, hext.keeps hu, tagsFrom?_mono hext hl, heq⟩

/-- Whether a key in use is the key of a target does not change when tables grow. -/
theorem key?_iff_of_extends {d : Dictionary Tables} (hd : d.Sound)
    (hext : tables.Extends d.store) (hk : k.Belongs registry tables kind) :
    t.key? d.store = some k ↔ t.key? tables = some k := by
  refine ⟨fun h => ?_, key?_mono hext⟩
  obtain ⟨u, l, hu, hl, heq⟩ := key?_eq_some.1 h
  obtain ⟨name, _, _, _, hname⟩ := hk.statistic
  have hstat : k.statistic = u := congrArg Key.statistic heq
  have htags : k.tags = insertionSort l := congrArg Key.tags heq
  refine key?_eq_some.2
    ⟨u, l, ?_, tagsFrom?_of_known hd hext (fun x hx => hk.tags x ?_) hl, heq⟩
  · rw [hd.injective hu (hext.keeps (hstat ▸ hname)), ← hstat]
    exact hname
  · rw [htags]
    exact (perm_insertionSort l).mem_iff.2 hx

/-- Which of the keys in use lead to a target does not change when tables grow. -/
theorem takes_iff_of_extends {d : Dictionary Tables} (hd : d.Sound)
    (hext : tables.Extends d.store) (hk : k.Belongs registry tables kind) :
    t.Takes d.store k ↔ t.Takes tables k :=
  and_congr_right fun _ => key?_iff_of_extends hd hext (hk.withInterval t.interval)

/-! ## The keys of an event -/

section

variable {d : Dictionary Tables} {s : Statistic} {e : Event} {ids : String → Uid} {ts : List Tag}
  {mask : Mask}

/-- The tags of an event, rolled up from a position on, are those of the cell exactly when the
values at the other positions are. -/
theorem tagsFrom?_exchange (hd : d.Sound)
    (hts : ∀ x ∈ ts, d.store.idOf? x.name = some (ids x.name) ∧
      d.store.idOf? x.value = some (ids x.value)) (p : Nat) :
    t.tagsFrom? d.store p (ts.map Tag.name) = some ((ts.map (Tag.exchange ids)).mapIdx
        fun q x => if t.mask.isRolledUp (p + q) then x.rolledUp else x) ↔
      ∀ x ∈ ts.zipIdx p, t.mask.isRolledUp x.2 = true ∨ x.1.value = t.values x.1.name := by
  induction ts generalizing p with
  | nil => simp [tagsFrom?]
  | cons x ts ih =>
    obtain ⟨⟨hname, hvalue⟩, hrest⟩ := List.forall_mem_cons.1 hts
    have hshift : (fun (q : Nat) (y : TagValue) =>
          if t.mask.isRolledUp (p + (q + 1)) then y.rolledUp else y) =
        fun q y => if t.mask.isRolledUp (p + 1 + q) then y.rolledUp else y := by
      funext q y
      rw [show p + (q + 1) = p + 1 + q by omega]
    rw [List.map_cons, List.map_cons, List.mapIdx_cons, hshift, List.zipIdx_cons,
      List.forall_mem_cons, ← ih hrest, tagsFrom?, hname, Option.bind_some]
    by_cases hroll : t.mask.isRolledUp p
    · have hw : (ids x.name).rolledUp = (ids x.value).rolledUp :=
        Uid.rolledUp_congr ((hd.issued hname).width.trans (hd.issued hvalue).width.symm)
      simp only [Nat.add_zero, hroll, if_true, Option.bind_some, Option.map_eq_some_iff,
        Tag.exchange, TagValue.rolledUp, hw, List.cons.injEq, true_and, true_or, exists_eq_right]
    · have hiff : d.store.idOf? (t.values x.name) = some (ids x.value) ↔
          x.value = t.values x.name := by
        constructor
        · exact fun h => hd.injective hvalue h
        · exact fun h => h ▸ hvalue
      simp only [Nat.add_zero, hroll, Bool.false_eq_true, if_false, Option.bind_eq_some_iff,
        Option.map_eq_some_iff, Tag.exchange, List.cons.injEq, TagValue.mk.injEq, true_and,
        false_or, ← hiff]
      constructor
      · rintro ⟨v, hv, rest, hrest', rfl, rfl⟩
        exact ⟨hv, hrest'⟩
      · rintro ⟨hv, hrest'⟩
        exact ⟨_, hv, _, hrest', rfl, rfl⟩

/-- Different tags of an event have different identifiers. -/
theorem nodup_exchange (hd : d.Sound) (hts : ts.map Tag.name = s.tags.toList)
    (hids : ∀ x ∈ ts, d.store.idOf? x.name = some (ids x.name) ∧
      d.store.idOf? x.value = some (ids x.value)) : (ts.map fun x => ids x.name).Nodup := by
  have hnodup : (ts.map Tag.name).Nodup := hts ▸ s.tags.nodup
  refine List.Nodup.map_on (fun x hx y hy h => ?_) hnodup.of_map
  refine List.inj_on_of_nodup_map hnodup hx hy (hd.injective (hids x hx).1 ?_)
  rw [h]
  exact (hids y hy).1

/-- The values of the cell are those of the event, tag by tag. -/
theorem covers_tags (hts : ts.map Tag.name = s.tags.toList) (hmem : ∀ x, x ∈ e.tags ↔ x ∈ ts) :
    (∀ x ∈ s.tags.toList.zipIdx,
        t.mask.isRolledUp x.2 = true ∨ (⟨x.1, t.values x.1⟩ : Tag) ∈ e.tags) ↔
      ∀ x ∈ ts.zipIdx, t.mask.isRolledUp x.2 = true ∨ x.1.value = t.values x.1.name := by
  have hnodup : (ts.map Tag.name).Nodup := hts ▸ s.tags.nodup
  rw [← hts, List.zipIdx_map, List.forall_mem_map]
  refine forall₂_congr fun x hx => or_congr_right ?_
  have hx' : x.1 ∈ ts := List.fst_mem_of_mem_zipIdx hx
  show (⟨x.1.name, t.values x.1.name⟩ : Tag) ∈ e.tags ↔ _
  rw [hmem]
  constructor
  · intro h
    have heq : x.1 = ⟨x.1.name, t.values x.1.name⟩ := List.inj_on_of_nodup_map hnodup hx' h rfl
    exact congrArg Tag.value heq
  · intro h
    rw [← h]
    exact hx'

/-- A key of an event leads to a target exactly when it is under the mask of the target, and the
target covers the event. -/
theorem takes_keyUnder (hd : d.Sound) (hproper : registry.Proper)
    (hs : registry.get? e.name = some s)
    (ht : registry.get? t.statistic.name = some t.statistic)
    (hfine : t.statistic.precision.rank ≤ t.interval.rank)
    (hids : ∀ n ∈ e.mentions, d.store.idOf? n = some (ids n))
    (hts : ts.map Tag.name = s.tags.toList) (hmem : ∀ x, x ∈ e.tags ↔ x ∈ ts) :
    t.Takes d.store (e.keyUnder ids s ts mask) ↔ mask = t.mask ∧ t.Covers e := by
  have hname : s.name = e.name := hproper e.name s hs
  have hid : d.store.idOf? s.name = some (ids s.name) :=
    hids _ (hname ▸ e.name_mem_mentions)
  have htags : ∀ x ∈ ts, d.store.idOf? x.name = some (ids x.name) ∧
      d.store.idOf? x.value = some (ids x.value) := by
    intro x hx
    obtain ⟨hn, hv⟩ := Event.tag_mem_mentions ((hmem x).2 hx)
    exact ⟨hids _ hn, hids _ hv⟩
  -- Both sides say that the event is of the definition of the target.
  by_cases hsame : e.name = t.statistic.name
  · obtain rfl : s = t.statistic := by
      rw [hsame, ht] at hs
      cases hs
      rfl
    rw [Takes, key?_eq_some, Covers, covers_tags hts hmem,
      ← tagsFrom?_exchange (t := t) hd htags 0, hts, Event.keyUnder]
    simp only [Nat.zero_add, Key.withInterval, Key.of, Key.columnStart_columnStart hfine,
      Key.mk.injEq]
    constructor
    · rintro ⟨_, u, l, hu, hl, _, rfl, _, htime, hsort⟩
      have hmap : l.map TagValue.tag = ts.map fun x => ids x.name := by
        have hl' := map_tag_tagsFrom? hl
        have hids' : ts.map (d.store.idOf? ∘ Tag.name) = ts.map fun x => some (ids x.name) :=
          List.map_congr_left fun x hx => (htags x hx).1
        rw [← hts, List.map_map, hids'] at hl'
        refine List.map_injective_iff.2 (fun _ _ => Option.some.inj) ?_
        rw [List.map_map, List.map_map]
        exact hl'
      have heq : l = Key.rollUp t.mask (ts.map (Tag.exchange ids)) := by
        refine Key.eq_of_insertionSort_eq hsort.symm ?_ (hmap ▸ nodup_exchange hd hts htags)
        rw [Key.map_tag_rollUp, hmap, List.map_map]
        rfl
      rw [heq] at hl
      exact ⟨rfl, hsame, htime, hl⟩
    · rintro ⟨rfl, _, htime, hl⟩
      exact ⟨hfine, _, _, hid, hl, rfl, rfl, trivial, htime, rfl⟩
  · constructor
    · rintro ⟨_, hkey⟩
      obtain ⟨u, l, hu, _, heq⟩ := key?_eq_some.1 hkey
      have hstat : ids s.name = u := congrArg Key.statistic heq
      rw [← hstat] at hu
      exact absurd (hname.symm.trans (hd.injective hid hu)) hsame
    · rintro ⟨_, hcovers, _⟩
      exact absurd hcovers hsame

/-- An event contributes through one of its keys what it contributes itself. -/
theorem sum_ofEntry_keys (hd : d.Sound) (hproper : registry.Proper)
    (hs : registry.get? e.name = some s)
    (ht : registry.get? t.statistic.name = some t.statistic)
    (hmask : t.mask ∈ t.statistic.requiredMasks)
    (hfine : t.statistic.precision.rank ≤ t.interval.rank)
    (hids : ∀ n ∈ e.mentions, d.store.idOf? n = some (ids n))
    (hts : ts.map Tag.name = s.tags.toList) (hmem : ∀ x, x ∈ e.tags ↔ x ∈ ts)
    {entry : Pending} {cap : Nat} (hentry : entry.aggregate = .ofEvent cap e) :
    (s.requiredMasks.map fun mask => t.ofEntry d.store (e.keyUnder ids s ts mask, entry)).sum =
      t.ofEvent e := by
  have hone : ∀ mask, t.ofEntry d.store (e.keyUnder ids s ts mask, entry) =
      if mask = t.mask ∧ t.Covers e then e.amount else 0 := by
    intro mask
    rw [ofEntry, hentry, Event.total_ofEvent]
    exact if_congr (takes_keyUnder hd hproper hs ht hfine hids hts hmem) rfl rfl
  rw [List.map_congr_left fun mask _ => hone mask, ofEvent]
  split
  · next hcovers =>
    obtain rfl : s = t.statistic := by
      rw [hcovers.1, ht] at hs
      cases hs
      rfl
    rw [List.sum_map_eq_nsmul_single t.mask _ fun mask hne _ => if_neg fun h => hne h.1,
      List.count_eq_one_of_mem t.statistic.nodup_requiredMasks hmask, one_nsmul,
      if_pos ⟨rfl, hcovers⟩]
  · next hnot =>
    rw [List.map_congr_left fun mask _ => if_neg fun h => hnot h.2]
    simp

/-- The keys of an event belong to its definition. -/
theorem belongs_keyUnder (hd : d.Sound) (hproper : registry.Proper)
    (hs : registry.get? e.name = some s)
    (hids : ∀ n ∈ e.mentions, d.store.idOf? n = some (ids n))
    (hmem : ∀ x, x ∈ e.tags ↔ x ∈ ts) :
    (e.keyUnder ids s ts mask).Belongs registry d.store s.kind := by
  have hname : s.name = e.name := hproper e.name s hs
  refine ⟨⟨e.name, s, hs, rfl, ?_⟩, fun x hx => ?_, ?_⟩
  · show d.store.idOf? e.name = some (ids s.name)
    rw [hname]
    exact hids _ e.name_mem_mentions
  · have hx' := (perm_insertionSort _).mem_iff.1 hx
    obtain ⟨p, hp, rfl⟩ := List.mem_mapIdx.1 hx'
    rw [List.length_map] at hp
    obtain ⟨hn, hv⟩ := Event.tag_mem_mentions ((hmem _).2 (List.getElem_mem hp))
    rw [List.getElem_map]
    split
    · refine ⟨⟨_, hids _ hn⟩, .inl (Uid.rolledUp_congr ?_)⟩
      exact (hd.issued (hids _ hv)).width.trans (hd.issued (hids _ hn)).width.symm
    · exact ⟨⟨_, hids _ hn⟩, .inr ⟨_, hids _ hv⟩⟩
  · exact Key.columnStart_columnStart (Nat.le_refl _) _

end

/-! ## Entries on their way -/

variable {p : Pending} {i : Interval}

theorem ofEntry_of_extends {d : Dictionary Tables} (hd : d.Sound) (hext : tables.Extends d.store)
    (hk : k.Belongs registry tables kind) :
    t.ofEntry d.store (k, p) = t.ofEntry tables (k, p) :=
  if_congr (takes_iff_of_extends hd hext hk) rfl rfl

theorem ofWritten_of_extends {d : Dictionary Tables} (hd : d.Sound)
    (hext : tables.Extends d.store) (hk : k.Belongs registry tables kind) :
    t.ofWritten d.store (k, p) = t.ofWritten tables (k, p) := by
  rw [ofWritten, ofWritten, ofEntry_of_extends hd hext hk]

theorem rank_inj {i j : Interval} (h : i.rank = j.rank) : i = j := by
  cases i <;> cases j <;> cases h <;> rfl

/-- A key that moves on to the next interval leads to the same coarser targets. -/
theorem takes_withInterval (h : k.interval.coarser? = some i) :
    t.Takes tables (k.withInterval i) ↔ k.interval ≠ t.interval ∧ t.Takes tables k := by
  have hrank := Interval.coarser?_rank h
  constructor
  · rintro ⟨hle, hkey⟩
    have hle' : i.rank ≤ t.interval.rank := hle
    rw [Key.withInterval_withInterval hle'] at hkey
    refine ⟨fun heq => ?_, by omega, hkey⟩
    rw [heq] at hrank
    omega
  · rintro ⟨hne, hle, hkey⟩
    have hne' : k.interval.rank ≠ t.interval.rank := fun heq => hne (rank_inj heq)
    have hle' : i.rank ≤ t.interval.rank := by omega
    refine ⟨hle', ?_⟩
    rw [Key.withInterval_withInterval hle']
    exact hkey

/-- What is handed on contributes what the written entry still does. -/
theorem ofEntry_withInterval (h : k.interval.coarser? = some i) :
    t.ofEntry tables (k.withInterval i, p) = t.ofWritten tables (k, p) := by
  rw [ofWritten, ofEntry, if_congr (takes_withInterval h) rfl rfl]
  by_cases heq : k.interval = t.interval
  · rw [if_pos heq, if_neg fun htakes => htakes.1 heq]
  · rw [if_neg heq, ofEntry, if_congr (and_iff_right heq) rfl rfl]

/-- An entry of the coarsest interval contributes nothing once it is written. -/
theorem ofWritten_of_coarsest (h : k.interval.coarser? = none) :
    t.ofWritten tables (k, p) = 0 := by
  rw [ofWritten]
  split
  · rfl
  · next hne =>
    refine if_neg fun htakes => hne ?_
    obtain ⟨hle, _⟩ := htakes
    revert h hle
    show k.interval.coarser? = none → k.interval.rank ≤ t.interval.rank → k.interval = t.interval
    cases k.interval <;> cases t.interval <;> simp [Interval.coarser?, Interval.rank]

end Target

end StatRollup
