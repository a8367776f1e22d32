import StatRollup.Proofs.Cells.History
import StatRollup.Proofs.Engine.Tally
import StatRollup.Proofs.Engine.Target
import StatRollup.Proofs.Key.Codec

/-!
# Writing to cells

Cells that were only written for registered definitions take every entry of a registered definition:
the key has the width of the store, it shares its octets with no other key in use, and the cell
holds an aggregate of its kind.  A write changes what the cell of its key holds and nothing else
(`merge_ok`).  A store without outages then writes whole batches (`mergeBatch_ok`).
-/

namespace StatRollup

open Uid (Dictionary Tables)

variable {registry : Registry} {d : Dictionary Tables} {kind kind' : Statistic.Kind} {k k' : Key}
  {t : Target}

namespace Key

/-- All identifiers of a key in use have the width of the tables. -/
theorem Belongs.uniform (hd : d.Sound) (h : k.Belongs registry d.store kind) :
    k.Uniform d.store.width := by
  obtain ⟨⟨name, s, _, _, hid⟩, htags, _⟩ := h
  refine ⟨(hd.issued hid).width, fun x hx => ?_⟩
  obtain ⟨⟨n, hn⟩, hvalue⟩ := htags x hx
  have hw : x.tag.width = d.store.width := (hd.issued hn).width
  refine ⟨hw, ?_⟩
  rcases hvalue with hroll | ⟨m, hm⟩
  · rw [hroll]
    exact hw
  · exact (hd.issued hm).width

/-- A key belongs to definitions of one kind. -/
theorem Belongs.kind_eq (hd : d.Sound) (h : k.Belongs registry d.store kind)
    (h' : k.Belongs registry d.store kind') : kind = kind' := by
  obtain ⟨name, s, hs, hkind, hid⟩ := h.statistic
  obtain ⟨name', s', hs', hkind', hid'⟩ := h'.statistic
  rw [hd.injective hid hid', hs'] at hs
  cases hs
  exact hkind.symm.trans hkind'

end Key

namespace Target

theorem uniform_tagsFrom? (hd : d.Sound) {p : Nat} {names : List String} {l : List TagValue}
    (h : t.tagsFrom? d.store p names = some l) : Key.TagsUniform d.store.width l := by
  induction names generalizing p l with
  | nil =>
    cases h
    exact fun x hx => nomatch hx
  | cons tag tags ih =>
    obtain ⟨id, value, rest, rfl, hid, hvalue, hrest⟩ := tagsFrom?_cons h
    have hw : id.width = d.store.width := (hd.issued hid).width
    refine List.forall_mem_cons.2 ⟨⟨hw, ?_⟩, ih hrest⟩
    split at hvalue
    · cases hvalue
      exact hw
    · exact (hd.issued hvalue).width

/-- All identifiers of the key of a target have the width of the tables. -/
theorem uniform_key? (hd : d.Sound) (h : t.key? d.store = some k) :
    k.Uniform d.store.width := by
  obtain ⟨u, l, hu, hl, rfl⟩ := key?_eq_some.1 h
  refine ⟨(hd.issued hu).width, fun x hx => uniform_tagsFrom? hd hl x ?_⟩
  exact (perm_insertionSort l).mem_iff.1 hx

/-- The count that the cell of a target holds. -/
def held (tables : Tables) (c : Cells) (t : Target) : Nat :=
  (((t.key? tables).bind c.get?).map fun a => a.total.toNat).getD 0

theorem held_empty (tables : Tables) (t : Target) (width cap : Nat) :
    t.held tables (.empty width cap) = 0 := by
  rw [held]
  cases t.key? tables with
  | none => rfl
  | some k => simp [Cells.get?, Cells.empty]

/-- A cell holds no more than the largest count. -/
theorem held_le {tables : Tables} {c : Cells} : t.held tables c ≤ ceiling := by
  rw [held]
  cases (t.key? tables).bind c.get? with
  | none => exact Nat.zero_le _
  | some a => exact Nat.le_pred_of_lt a.total.toNat_lt

/-- What a written entry adds to the cell of a target. -/
def ofWrite (tables : Tables) (t : Target) (k : Key) (a : Aggregate) : Nat :=
  if t.key? tables = some k then a.total.toNat else 0

/-- An entry contributes to the cell that it is written to, and from then on to coarser ones. -/
theorem ofEntry_eq {tables : Tables} (hk : k.Belongs registry tables kind) (p : Pending) :
    t.ofEntry tables (k, p) = t.ofWrite tables k p.aggregate + t.ofWritten tables (k, p) := by
  rw [ofWritten, ofWrite]
  by_cases heq : k.interval = t.interval
  · have htakes : t.Takes tables k ↔ t.key? tables = some k := by
      rw [Takes, ← heq, hk.withInterval_self]
      exact and_iff_right (Nat.le_refl _)
    rw [if_pos heq, ofEntry, Nat.add_zero]
    exact if_congr htakes rfl rfl
  · rw [if_neg heq, if_neg, Nat.zero_add]
    intro hkey
    obtain ⟨u, l, _, _, rfl⟩ := key?_eq_some.1 hkey
    exact heq rfl

end Target

namespace Cells

/-- Every cell was written for a definition of the kind of what it holds. -/
structure Orderly (registry : Registry) (tables : Tables) (c : Cells) : Prop where
  /-- Keys have the width of the tables. -/
  width : c.width = tables.width
  /-- Every cell has its key. -/
  held {bs : Bytes} {a : Aggregate} : c.byKey[bs]? = some a →
    ∃ k : Key, k.Belongs registry tables a.kind ∧ k.toBytes = bs

variable {c : Cells} {a : Aggregate}

theorem orderly_empty (registry : Registry) (tables : Tables) (cap : Nat) :
    (empty tables.width cap).Orderly registry tables := by
  refine ⟨rfl, fun h => ?_⟩
  simp [empty] at h

theorem Orderly.mono {tables tables' : Tables} (h : c.Orderly registry tables)
    (hext : tables.Extends tables') : c.Orderly registry tables' := by
  refine ⟨h.width.trans hext.width.symm, fun hbs => ?_⟩
  obtain ⟨k, hk, hbytes⟩ := h.held hbs
  exact ⟨k, hk.mono hext, hbytes⟩

/-- What a cell holds is of the kind of its key. -/
theorem Orderly.kind_eq (hd : d.Sound) (hc : c.Orderly registry d.store)
    (hk : k.Belongs registry d.store kind) (h : c.get? k = some a) : a.kind = kind := by
  obtain ⟨k', hk', hbytes⟩ := hc.held h
  have heq := Key.toBytes_inj (hk'.uniform hd) (hk.uniform hd) hbytes
  subst heq
  exact hk'.kind_eq hd hk

/-- The cells of a target hold the same when tables grow. -/
theorem Orderly.held_of_extends {tables : Tables} (hd : d.Sound) (hext : tables.Extends d.store)
    (hc : c.Orderly registry tables) : t.held d.store c = t.held tables c := by
  suffices h : (t.key? d.store).bind c.get? = (t.key? tables).bind c.get? by
    rw [Target.held, h, Target.held]
  -- A cell that is found was written for a key in use, so the target had its key before.
  refine Option.ext fun a => ?_
  simp only [Option.bind_eq_some_iff]
  constructor
  · rintro ⟨k, hkey, ha⟩
    obtain ⟨k', hk', hbytes⟩ := hc.held ha
    have heq := Key.toBytes_inj ((hk'.mono hext).uniform hd) (Target.uniform_key? hd hkey) hbytes
    subst heq
    exact ⟨k', (Target.key?_iff_of_extends hd hext hk').1 hkey, ha⟩
  · rintro ⟨k, hkey, ha⟩
    exact ⟨k, Target.key?_mono hext hkey, ha⟩

/-- A write is made, and adds to the cell of its key alone. -/
theorem merge_ok (hd : d.Sound) (hc : c.Orderly registry d.store)
    (hk : k.Belongs registry d.store kind) (ha : a.kind = kind) :
    ∃ c', c.merge k a = (.ok (), c') ∧ c'.Orderly registry d.store ∧
      ∀ t : Target, Tallies (t.held d.store c') (t.held d.store c + t.ofWrite d.store k a) := by
  have hcombine : ∃ b, combine c.cap (c.get? k) a = .ok b ∧ b.kind = kind ∧
      Tallies b.total.toNat
        (((c.get? k).map fun held => held.total.toNat).getD 0 + a.total.toNat) := by
    cases hheld : c.get? k with
    | none => exact ⟨a, rfl, ha, .of_eq (Nat.zero_add _).symm⟩
    | some held =>
      have hkind := hc.kind_eq hd hk hheld
      obtain ⟨b, hb⟩ := (Aggregate.merge_isOk_iff c.cap held a).2 (hkind.trans ha.symm)
      refine ⟨b, hb, (Aggregate.kind_merge hb).trans hkind, ?_⟩
      rw [Aggregate.total_merge hb]
      exact .of_addCounts _ _
  obtain ⟨b, hb, hkind, htally⟩ := hcombine
  have huniform := hk.uniform hd
  have hwidth : k.statistic.width = c.width := huniform.statistic.trans hc.width.symm
  obtain ⟨hmade, hmerged⟩ := merged_of_combine hwidth hb
  refine ⟨(c.merge k a).2, Prod.ext hmade rfl, ⟨hmerged.width.trans hc.width, fun hx => ?_⟩,
    fun t => ?_⟩
  · rcases hmerged.of_byKey hx with hx | ⟨hbytes, rfl⟩
    · exact hc.held hx
    · exact ⟨k, hkind ▸ hk, hbytes⟩
  · rw [Target.held, Target.held, Target.ofWrite]
    cases hkey : t.key? d.store with
    | none => exact .refl 0
    | some k' =>
      have hjudged : Judged c.width k' := .inl (hc.width ▸ Target.uniform_key? hd hkey)
      simp only [Option.bind_some, hmerged.get? (hc.width ▸ huniform) hjudged, Option.some.injEq]
      by_cases heq : k = k'
      · subst heq
        rw [if_pos rfl, if_pos rfl]
        exact htally
      · rw [if_neg heq, if_neg (Ne.symm heq)]
        exact .refl _

namespace Unsteady

variable {u : Unsteady}

/-- Nothing is going to fail. -/
structure Steady (u : Unsteady) : Prop where
  outages : u.outages = []
  lostBatches : u.lostBatches = 0

theorem mergeEach_ok (hd : d.Sound) (hu : u.Steady) (hc : u.cells.Orderly registry d.store)
    (batch : List (Key × Aggregate))
    (hbatch : ∀ x ∈ batch, x.1.Belongs registry d.store x.2.kind) :
    ∃ u', u.mergeEach batch = (some (batch.map fun _ => .ok ()), u') ∧ u'.Steady ∧
      u'.cells.Orderly registry d.store ∧
      ∀ t : Target, Tallies (t.held d.store u'.cells)
        (t.held d.store u.cells + (batch.map fun x => t.ofWrite d.store x.1 x.2).sum) := by
  induction batch generalizing u with
  | nil => exact ⟨u, rfl, hu, hc, fun t => .of_eq (by simp)⟩
  | cons x batch ih =>
    obtain ⟨hx, hrest⟩ := List.forall_mem_cons.1 hbatch
    obtain ⟨c, hmerge, hc', htally⟩ := merge_ok hd hc hx rfl
    obtain ⟨u', hu', hsteady, horderly, htally'⟩ :=
      ih (u := { u with attempts := u.attempts + 1, cells := c }) ⟨hu.outages, hu.lostBatches⟩
        hc' hrest
    refine ⟨u', ?_, hsteady, horderly, fun t => (htally' t).trans ?_⟩
    · have hone : u.merge x.1 x.2 =
          (some (.ok ()), { u with attempts := u.attempts + 1, cells := c }) := by
        simp only [merge, hu.outages, takeOutage, hmerge]
      rw [mergeEach, hone]
      simp only [hu']
      rfl
    · rw [List.map_cons, List.sum_cons, ← Nat.add_assoc]
      exact (htally t).add_right _

/-- A store without outages writes every entry of a batch. -/
theorem mergeBatch_ok (hd : d.Sound) (hu : u.Steady) (hc : u.cells.Orderly registry d.store)
    (batch : List (Key × Aggregate))
    (hbatch : ∀ x ∈ batch, x.1.Belongs registry d.store x.2.kind) :
    ∃ u', u.mergeBatch batch = (some (batch.map fun _ => .ok ()), u') ∧ u'.Steady ∧
      u'.cells.Orderly registry d.store ∧
      ∀ t : Target, Tallies (t.held d.store u'.cells)
        (t.held d.store u.cells + (batch.map fun x => t.ofWrite d.store x.1 x.2).sum) := by
  rw [mergeBatch, hu.lostBatches]
  exact mergeEach_ok hd hu hc batch hbatch

end Unsteady

end Cells

end StatRollup
