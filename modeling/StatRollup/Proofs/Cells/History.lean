import StatRollup.Cells.Basic
import StatRollup.Proofs.Aggregate.Grouping
import StatRollup.Proofs.Key.Widths

/-!
# Cells after any history

A store is asked to merge aggregates under keys and to purge expired cells, in any order.  Whatever
it was asked, it is a map from keys to merged aggregates (`map_of_requests`): a cell holds the
aggregates that were merged under its key since the last purge that removed it, folded from the
left.

The store knows octets and no keys.  Every cell lies under the octets of a key of the store's width
(`Legible`), and such octets are those of no other key, also of no key whose statistic has another
width (`toBytes_eq_iff`).  That is all that lookups, purges and scans rest on.
-/

namespace StatRollup

namespace Bytes

variable {start x y : Bytes}

/-! ## Octets with a beginning lie together -/

/-- Octets are not before their own beginning. -/
theorem compare_of_prefix (h : start <+: x) : compare x start ≠ .lt := by
  obtain ⟨rest, rfl⟩ := h
  induction start with
  | nil => cases rest <;> simp
  | cons b start ih =>
    rw [List.compare_eq_compareLex] at ih ⊢
    have hsame : compare b b = .eq := Std.ReflCmp.compare_self
    rw [List.cons_append, List.compareLex_cons_cons, hsame, Ordering.then]
    exact ih

/-- Octets that are behind a beginning and do not have it are behind all that have it. -/
theorem lt_of_prefix (hx : compare x start ≠ .lt) (hnot : ¬ start <+: x) (hy : start <+: y) :
    compare y x = .lt := by
  obtain ⟨rest, rfl⟩ := hy
  induction start generalizing x with
  | nil => exact absurd List.nil_prefix hnot
  | cons b start ih =>
    cases x with
    | nil => simp at hx
    | cons c x =>
      rw [List.compare_eq_compareLex] at ih hx ⊢
      rw [List.compareLex_cons_cons] at hx
      rw [List.cons_append, List.compareLex_cons_cons]
      cases hcb : compare c b with
      | lt => simp [hcb] at hx
      | gt =>
        have hbc : compare b c = .lt := Std.OrientedCmp.lt_of_gt hcb
        rw [hbc]
        rfl
      | eq =>
        obtain rfl := Std.LawfulEqCmp.eq_of_compare hcb
        rw [hcb, Ordering.then] at hx
        rw [hcb, Ordering.then]
        exact ih hx fun h => hnot (List.cons_prefix_cons.2 ⟨rfl, h⟩)

/-- In the order of octets, those with a beginning are the ones from it on up to the first that does
not have it. -/
theorem filter_prefix_eq_range {α : Type} {l : List (Bytes × α)}
    (hsorted : l.Pairwise fun a b => compare a.1 b.1 = .lt) (start : Bytes) :
    l.filter (fun a => start.isPrefixOf a.1) =
      (l.dropWhile fun a => compare a.1 start == .lt).takeWhile fun a => start.isPrefixOf a.1 := by
  induction l with
  | nil => rfl
  | cons a l ih =>
    obtain ⟨hfirst, hrest⟩ := List.pairwise_cons.1 hsorted
    by_cases hbefore : compare a.1 start = .lt
    · have hnot : ¬ start.isPrefixOf a.1 = true := fun h =>
        compare_of_prefix (List.isPrefixOf_iff_prefix.1 h) hbefore
      rw [List.filter_cons, if_neg hnot, ih hrest,
        List.dropWhile_cons_of_pos (by simpa using hbefore)]
    · -- From here on nothing is dropped.
      have hbehind : l.dropWhile (fun a => compare a.1 start == .lt) = l := by
        cases l with
        | nil => rfl
        | cons b l =>
          refine List.dropWhile_cons_of_neg fun hlt => hbefore ?_
          exact Std.TransCmp.lt_trans (hfirst b List.mem_cons_self) (by simpa using hlt)
      rw [List.dropWhile_cons_of_neg (by simpa using hbefore)]
      by_cases hhas : start.isPrefixOf a.1 = true
      · rw [List.filter_cons, if_pos hhas, List.takeWhile_cons, if_pos hhas, ih hrest, hbehind]
      · rw [List.filter_cons, if_neg hhas, List.takeWhile_cons, if_neg hhas, List.filter_eq_nil_iff]
        intro b hb hprefix
        have hlt := lt_of_prefix hbefore (fun h => hhas (List.isPrefixOf_iff_prefix.2 h))
          (List.isPrefixOf_iff_prefix.1 hprefix)
        have hgt := Std.OrientedCmp.gt_of_lt (hfirst b hb)
        rw [hlt] at hgt
        cases hgt

end Bytes

namespace Trees

variable {α β : Type} [Ord α] [Std.LawfulEqOrd α] {k : α} {v : β}

/-! ## Trees changed in place -/

theorem impl_modify_held {t : Std.DTreeMap.Internal.Impl α fun _ => β}
    (h : Std.DTreeMap.Internal.Impl.Const.get? t k = some v) :
    Std.DTreeMap.Internal.Impl.Const.modify k (fun _ => v) t = t := by
  induction t with
  | leaf => rfl
  | inner size k' v' l r ihl ihr =>
    rw [Std.DTreeMap.Internal.Impl.Const.get?] at h
    rw [Std.DTreeMap.Internal.Impl.Const.modify]
    split at h
    · next heq => simp only [heq, ihl h]
    · next heq => simp only [heq, ihr h]
    · next heq =>
      cases h
      simp only [heq]
      rw [Std.LawfulEqCmp.eq_of_compare heq]

/-- Writing what a key holds leaves the tree as it is. -/
theorem modify_held {t : Std.TreeMap α β} (h : t[k]? = some v) : t.modify k (fun _ => v) = t := by
  obtain ⟨⟨t, wf⟩⟩ := t
  have hheld : Std.DTreeMap.Internal.Impl.Const.get? t k = some v := h
  simp only [Std.TreeMap.modify, Std.DTreeMap.Const.modify, impl_modify_held hheld]

end Trees

namespace Cells

/-! ## Requests -/

/-- Something that the store is asked to do. -/
inductive Request where
  /-- To merge an aggregate into the cell of a key. -/
  | merge (k : Key) (a : Aggregate)
  /-- To remove the cells of an interval whose row is before a time. -/
  | purge (interval : Interval) (cutoff : Timestamp)

/-- What the store answers. -/
inductive Answer where
  /-- Whether the aggregate was merged. -/
  | merged (result : Except Fault Unit)
  /-- How many cells were removed. -/
  | purged (count : Nat)

/-- Does as a request says. -/
def perform (c : Cells) : Request → Answer × Cells
  | .merge k a => (.merged (c.merge k a).1, (c.merge k a).2)
  | .purge interval cutoff => (.purged (c.purge interval cutoff).1, (c.purge interval cutoff).2)

/-- A store and what happened to it. -/
structure History where
  /-- The store. -/
  cells : Cells
  /-- Requests with their answers, in order. -/
  log : List (Request × Answer) := []

namespace History

/-- One more request. -/
def step (s : History) (r : Request) : History where
  cells := (s.cells.perform r).2
  log := s.log ++ [(r, (s.cells.perform r).1)]

/-- Requests one after another. -/
def run (s : History) (requests : List Request) : History := requests.foldl step s

end History

/-! ## What a key has gathered -/

/-- Whether an aggregate was merged. -/
def isMade : Request × Answer → Bool
  | (.merge .., .merged (.ok ())) => true
  | _ => false

/-- Whether a purge removes the cell of a key. -/
def Expires (interval : Interval) (cutoff : Timestamp) (k : Key) : Prop :=
  k.interval = interval ∧ k.rowTime < cutoff

instance (interval : Interval) (cutoff : Timestamp) (k : Key) :
    Decidable (Expires interval cutoff k) := inferInstanceAs (Decidable (_ ∧ _))

/-- What a key has gathered when one more request was answered. -/
def gather (k : Key) (gathered : List Aggregate) : Request × Answer → List Aggregate
  | (.merge k' a, .merged (.ok ())) => if k' = k then gathered ++ [a] else gathered
  | (.purge interval cutoff, _) => if Expires interval cutoff k then [] else gathered
  | _ => gathered

/-- The aggregates that were merged under a key since the last purge that removed it, in order. -/
def gathered (k : Key) (log : List (Request × Answer)) : List Aggregate := log.foldl (gather k) []

/-- What a cell holds after a write: the new aggregate, merged into the old one if there is one. -/
def combine (cap : Nat) (held? : Option Aggregate) (a : Aggregate) : Except Fault Aggregate :=
  match held? with
  | none => .ok a
  | some held => held.merge cap a

/-- Aggregates merged from the left, each into what came out before. -/
def mergeAll (cap : Nat) : List Aggregate → Except Fault (Option Aggregate)
  | [] => .ok none
  | a :: as => (as.foldlM (Aggregate.merge cap) a).map some

theorem mergeAll_concat {cap : Nat} {as : List Aggregate} {held? : Option Aggregate}
    (h : mergeAll cap as = .ok held?) (a : Aggregate) :
    mergeAll cap (as ++ [a]) = (combine cap held? a).map some := by
  have hsome : ∀ as, mergeAll cap as = mergedFromLeft (Aggregate.merge cap) as := fun as => by
    cases as <;> rfl
  rw [hsome] at h ⊢
  rw [mergedFromLeft_concat h]
  cases held? <;> rfl

/-! ## Octets and keys -/

/-- A key that the store takes, because all of its identifiers have the width of the store, or that
it refuses, because its statistic has another width. -/
def Judged (width : Nat) (k : Key) : Prop := k.Uniform width ∨ k.statistic.width ≠ width

/-- Every cell lies under the octets of a key of the store's width. -/
def Legible (c : Cells) : Prop :=
  ∀ bs a, c.byKey[bs]? = some a → ∃ k : Key, k.Uniform c.width ∧ k.toBytes = bs

variable {c c' : Cells} {k k' : Key} {a b : Aggregate} {f : Fault} {width : Nat}

/-- The octets of a key of the store's width are those of no other key. -/
theorem toBytes_eq_iff (hk : k.Uniform width) (hk' : Judged width k') :
    k.toBytes = k'.toBytes ↔ k = k' := by
  refine ⟨fun h => ?_, congrArg Key.toBytes⟩
  cases hk' with
  | inl huniform => exact Key.toBytes_inj hk huniform h
  | inr hother => exact absurd ((Key.width_eq_of_toBytes h).symm.trans hk.statistic) hother

/-- A cell that is found by a key was written under it. -/
theorem Legible.uniform (hc : c.Legible) (hk : Judged c.width k) (h : c.get? k = some a) :
    k.Uniform c.width := by
  obtain ⟨k', hk', hbytes⟩ := hc _ _ h
  exact (toBytes_eq_iff hk' hk).1 hbytes ▸ hk'

/-- The cells of a store are those of its keys. -/
theorem Legible.mem_toList (hc : c.Legible) {x : Bytes × Aggregate} :
    x ∈ c.byKey.toList ↔ ∃ k : Key, k.Uniform c.width ∧ k.toBytes = x.1 ∧ c.get? k = some x.2 := by
  obtain ⟨bs, a⟩ := x
  rw [Std.TreeMap.mem_toList_iff_getElem?_eq_some]
  constructor
  · intro h
    obtain ⟨k, hk, rfl⟩ := hc bs a h
    exact ⟨k, hk, rfl, h⟩
  · rintro ⟨k, _, rfl, h⟩
    exact h

/-! ## Merging -/

/-- A merge that is made changes the cell of its key alone, and is counted. -/
structure Merged (c : Cells) (k : Key) (b : Aggregate) (c' : Cells) : Prop where
  width : c'.width = c.width
  cap : c'.cap = c.cap
  merges : c'.merges = c.merges + 1
  byKey (bs : Bytes) : c'.byKey[bs]? = if k.toBytes = bs then some b else c.byKey[bs]?

/-- A merge is made when its key has the width of the store and its cell takes the aggregate. -/
theorem merged_of_combine (hwidth : k.statistic.width = c.width)
    (hb : combine c.cap (c.get? k) a = .ok b) :
    (c.merge k a).1 = .ok () ∧ c.Merged k b (c.merge k a).2 := by
  rw [merge, if_neg (not_not_intro hwidth)]
  cases hheld : c.get? k with
  | none =>
    rw [hheld] at hb
    cases hb
    refine ⟨rfl, rfl, rfl, rfl, fun bs => ?_⟩
    rw [Std.TreeMap.getElem?_insert]
    simp only [Std.LawfulEqCmp.compare_eq_iff_eq]
  | some held =>
    rw [hheld, combine, Aggregate.merge_eq_mergeFrom] at hb
    dsimp only
    cases hresult : (held.mergeFrom c.cap a).1 with
    | error f =>
      rw [hresult] at hb
      cases hb
    | ok =>
      rw [hresult] at hb
      cases hb
      refine ⟨rfl, rfl, rfl, rfl, fun bs => ?_⟩
      have hcell : c.byKey[k.toBytes]? = some held := hheld
      rw [Std.TreeMap.getElem?_modify, hcell]
      simp only [Std.LawfulEqCmp.compare_eq_iff_eq, Option.map_some]

/-- A merge that is refused leaves the cells as they are. -/
theorem merge_of_error (h : (c.merge k a).1 = .error f) : (c.merge k a).2 = c := by
  rw [merge] at h ⊢
  split at h
  · next hwidth => rw [if_pos hwidth]
  · next hwidth =>
    rw [if_neg hwidth]
    cases hheld : c.get? k with
    | none =>
      rw [hheld] at h
      cases h
    | some held =>
      rw [hheld] at h
      dsimp only at h ⊢
      cases hresult : (held.mergeFrom c.cap a).1 with
      | ok =>
        rw [hresult] at h
        cases h
      | error f' =>
        have hcell : c.byKey[k.toBytes]? = some held := hheld
        dsimp only
        rw [Aggregate.mergeFrom_of_error hresult, Trees.modify_held hcell]

/-- When a merge is refused, and why. -/
theorem merge_eq_error_iff : (c.merge k a).1 = .error f ↔
    (k.statistic.width ≠ c.width ∧ f = .keyWidth k.statistic.width c.width) ∨
      (k.statistic.width = c.width ∧ ∃ held, c.get? k = some held ∧ held.kind ≠ a.kind ∧
        f = .unlikeAggregates held.kind a.kind) := by
  by_cases hwidth : k.statistic.width = c.width
  · rw [merge, if_neg (not_not_intro hwidth)]
    cases hheld : c.get? k with
    | none => simp [hwidth]
    | some held =>
      cases held <;> cases a <;>
        simp [hwidth, Aggregate.mergeFrom, Aggregate.kind, eq_comm]
  · rw [merge, if_pos hwidth]
    simp [hwidth, eq_comm]

/-- A merge is refused or made, and what it leaves. -/
theorem merge_cases (c : Cells) (k : Key) (a : Aggregate) :
    (∃ f, (c.merge k a).1 = .error f ∧ (c.merge k a).2 = c) ∨
      ((c.merge k a).1 = .ok () ∧ k.statistic.width = c.width ∧
        ∃ b, combine c.cap (c.get? k) a = .ok b ∧ c.Merged k b (c.merge k a).2) := by
  by_cases hwidth : k.statistic.width = c.width
  · cases hcombine : combine c.cap (c.get? k) a with
    | ok b =>
      obtain ⟨hmade, hmerged⟩ := merged_of_combine hwidth hcombine
      exact .inr ⟨hmade, hwidth, b, rfl, hmerged⟩
    | error f =>
      cases hheld : c.get? k with
      | none =>
        rw [hheld] at hcombine
        cases hcombine
      | some held =>
        rw [hheld] at hcombine
        have hkind : held.kind ≠ a.kind := fun heq => by
          obtain ⟨b, hb⟩ := (Aggregate.merge_isOk_iff c.cap held a).2 heq
          rw [combine, hb] at hcombine
          cases hcombine
        have hrefused := merge_eq_error_iff.2 (.inr ⟨hwidth, held, hheld, hkind, rfl⟩)
        exact .inl ⟨_, hrefused, merge_of_error hrefused⟩
  · have hrefused : (c.merge k a).1 = .error (.keyWidth k.statistic.width c.width) :=
      merge_eq_error_iff.2 (.inl ⟨hwidth, rfl⟩)
    exact .inl ⟨_, hrefused, merge_of_error hrefused⟩

theorem width_merge (c : Cells) (k : Key) (a : Aggregate) : (c.merge k a).2.width = c.width := by
  obtain ⟨_, _, hsame⟩ | ⟨_, _, _, _, hmerged⟩ := merge_cases c k a
  · rw [hsame]
  · exact hmerged.width

/-- Whatever is there after a merge was there before, or was merged. -/
theorem Merged.of_byKey {bs : Bytes} {x : Aggregate} (h : c.Merged k b c')
    (hx : c'.byKey[bs]? = some x) : c.byKey[bs]? = some x ∨ (k.toBytes = bs ∧ b = x) := by
  rw [h.byKey] at hx
  split at hx
  · next hbytes => exact .inr ⟨hbytes, Option.some.inj hx⟩
  · exact .inl hx

/-- A merge changes the cell of its key alone. -/
theorem Merged.get? (h : c.Merged k b c') (hk : k.Uniform c.width) (hk' : Judged c.width k') :
    c'.get? k' = if k = k' then some b else c.get? k' := by
  refine (h.byKey k'.toBytes).trans ?_
  simp only [toBytes_eq_iff hk hk']
  rfl

/-! ## Purging -/

variable {interval : Interval} {cutoff : Timestamp}

theorem isExpired_toBytes (hk : k.Uniform width) :
    isExpired width interval cutoff k.toBytes = decide (Expires interval cutoff k) := by
  rw [isExpired, Key.ofBytes_toBytes hk, Bool.eq_iff_iff, decide_eq_true_iff]
  simp [Expires]

/-- What is there after a purge is all that was there and has not expired. -/
theorem byKey_purge {bs : Bytes} : (c.purge interval cutoff).2.byKey[bs]? = some a ↔
    c.byKey[bs]? = some a ∧ isExpired c.width interval cutoff bs = false := by
  show (c.byKey.filter _)[bs]? = some a ↔ _
  rw [← Std.TreeMap.mem_toList_iff_getElem?_eq_some, Std.TreeMap.toList_filter, List.mem_filter,
    Std.TreeMap.mem_toList_iff_getElem?_eq_some]
  simp

theorem get?_purge (hc : c.Legible) (hk : Judged c.width k) :
    (c.purge interval cutoff).2.get? k =
      if Expires interval cutoff k then none else c.get? k := by
  refine Option.ext fun a => byKey_purge.trans ?_
  show c.get? k = some a ∧ _ ↔ _
  constructor
  · rintro ⟨hget, hstays⟩
    rw [isExpired_toBytes (hc.uniform hk hget)] at hstays
    rw [if_neg (of_decide_eq_false hstays), hget]
  · intro h
    split at h
    · cases h
    · next hstays =>
      refine ⟨h, ?_⟩
      rw [isExpired_toBytes (hc.uniform hk h)]
      exact decide_eq_false hstays

/-! ## Reading keys back -/

/-- Cells of a store are read as those of its keys. -/
theorem readKeys_ok (width : Nat) {l : List (Bytes × Aggregate)}
    (h : ∀ x ∈ l, ∃ k : Key, k.Uniform width ∧ k.toBytes = x.1) :
    ∃ cells, readKeys width l = .ok cells ∧ (∀ x ∈ cells, x.1.Uniform width) ∧
      cells.map (fun x => (x.1.toBytes, x.2)) = l := by
  induction l with
  | nil => exact ⟨[], rfl, fun x hx => absurd hx List.not_mem_nil, rfl⟩
  | cons x l ih =>
    obtain ⟨⟨k, hk, hbytes⟩, hrest⟩ := List.forall_mem_cons.1 h
    obtain ⟨cells, hread, huniform, hmap⟩ := ih hrest
    obtain ⟨bs, a⟩ := x
    obtain rfl : k.toBytes = bs := hbytes
    refine ⟨(k, a) :: cells, ?_, List.forall_mem_cons.2 ⟨hk, huniform⟩, ?_⟩
    · rw [readKeys, Key.ofBytes_toBytes hk, hread]
      rfl
    · rw [List.map_cons, hmap]

/-- The cells of a store whose octets pass a test, with their keys. -/
theorem Legible.select (hc : c.Legible) (p : Bytes → Bool) :
    ∃ cells, readKeys c.width (c.byKey.toList.filter fun x => p x.1) = .ok cells ∧
      cells.map (fun x => (x.1.toBytes, x.2)) = c.byKey.toList.filter (fun x => p x.1) ∧
      (∀ k a, (k, a) ∈ cells ↔
        k.Uniform c.width ∧ p k.toBytes = true ∧ c.get? k = some a) ∧
      cells.Pairwise fun x y => compare x.1.toBytes y.1.toBytes = .lt := by
  obtain ⟨cells, hread, huniform, hmap⟩ := readKeys_ok c.width
    (l := c.byKey.toList.filter fun x => p x.1) fun x hx => by
      obtain ⟨k, hk, hbytes, _⟩ := hc.mem_toList.1 (List.mem_filter.1 hx).1
      exact ⟨k, hk, hbytes⟩
  refine ⟨cells, hread, hmap, fun k a => ⟨fun h => ?_, ?_⟩, ?_⟩
  · have hmem : (k.toBytes, a) ∈ c.byKey.toList.filter fun x => p x.1 :=
      hmap ▸ List.mem_map_of_mem (f := fun x : Key × Aggregate => (x.1.toBytes, x.2)) h
    obtain ⟨hcell, hp⟩ := List.mem_filter.1 hmem
    exact ⟨huniform _ h, hp, Std.TreeMap.mem_toList_iff_getElem?_eq_some.1 hcell⟩
  · rintro ⟨hk, hp, hget⟩
    have hmem : (k.toBytes, a) ∈ cells.map fun x => (x.1.toBytes, x.2) := by
      rw [hmap]
      exact List.mem_filter.2 ⟨Std.TreeMap.mem_toList_iff_getElem?_eq_some.2 hget, hp⟩
    obtain ⟨⟨k', a'⟩, hx, heq⟩ := List.mem_map.1 hmem
    obtain ⟨hbytes, rfl⟩ := Prod.mk.injEq .. ▸ heq
    exact Key.toBytes_inj (huniform _ hx) hk hbytes ▸ hx
  · have hsorted := Std.TreeMap.ordered_keys_toList (t := c.byKey)
    have hkept := hsorted.filter fun x => p x.1
    rw [← hmap] at hkept
    exact List.pairwise_map.1 hkept

/-- Octets begin with a statistic and a mask when they are those of a key with both. -/
theorem isPrefixOf_toBytes {statistic : Uid} {mask : Mask} (hk : k.Uniform width)
    (hwidth : statistic.width = width) :
    (statistic.toBytes ++ mask.toBytes).isPrefixOf k.toBytes = true ↔
      k.statistic = statistic ∧ k.mask = mask := by
  have hstatistic : k.statistic.toBytes.length = statistic.toBytes.length := by
    rw [Uid.length_toBytes, Uid.length_toBytes, hk.statistic, hwidth]
  have hmask : k.mask.toBytes.length = mask.toBytes.length := by
    rw [Mask.toBytes, Mask.toBytes, Bytes.length_bigEndian, Bytes.length_bigEndian]
  obtain ⟨rest, hbytes⟩ : ∃ rest, k.toBytes = k.statistic.toBytes ++ k.mask.toBytes ++ rest :=
    ⟨k.interval.toBytes ++ Key.timeBytes k.rowTime ++ Key.tagBytes k.tags ++ k.columnQualifier, by
      rw [Key.toBytes, Key.rowKey]
      simp only [List.append_assoc]⟩
  rw [List.isPrefixOf_iff_prefix, hbytes]
  constructor
  · intro h
    have heq := (List.prefix_iff_eq_take.1 h).trans (List.take_left' (by
      rw [List.length_append, List.length_append, hstatistic, hmask]))
    obtain ⟨hs, hm⟩ := List.append_inj heq hstatistic.symm
    refine ⟨(Uid.toBytes_inj hs).symm, ?_⟩
    have hread := Mask.ofBytes_toBytes mask
    rw [hm, Mask.ofBytes_toBytes] at hread
    exact Except.ok.inj hread
  · rintro ⟨rfl, rfl⟩
    exact List.prefix_append _ _

/-- A scan gives the cells of a statistic and a mask, in the order of octets. -/
theorem Legible.scanned (hc : c.Legible) {statistic : Uid} (mask : Mask)
    (hwidth : statistic.width = c.width) :
    ∃ cells, c.scan statistic mask = .ok cells ∧
      cells.map (fun x => (x.1.toBytes, x.2)) = (c.byKey.toList.filter fun x =>
        (statistic.toBytes ++ mask.toBytes).isPrefixOf x.1) ∧
      (∀ k a, (k, a) ∈ cells ↔ k.Uniform c.width ∧ k.statistic = statistic ∧
        k.mask = mask ∧ c.get? k = some a) ∧
      cells.Pairwise fun x y => compare x.1.toBytes y.1.toBytes = .lt := by
  obtain ⟨cells, hread, hmap, hmem, hsorted⟩ :=
    hc.select ((statistic.toBytes ++ mask.toBytes).isPrefixOf ·)
  refine ⟨cells, hread, hmap, fun k a => (hmem k a).trans ?_, hsorted⟩
  refine and_congr_right fun huniform => ?_
  rw [isPrefixOf_toBytes huniform hwidth, and_assoc]

/-! ## Histories -/

namespace History

variable {s : History}

/-- A store that is a map from keys to merged aggregates. -/
structure IsMap (s : History) : Prop where
  /-- A cell holds what its key has gathered, merged from the left. -/
  held {k : Key} : Judged s.cells.width k →
    mergeAll s.cells.cap (gathered k s.log) = .ok (s.cells.get? k)
  /-- Merges that were made are counted, and no others. -/
  counted : s.cells.merges = s.log.countP isMade
  /-- A merge is refused for the width of its statistic, or because the cell holds an aggregate of
  another kind, and for nothing else.  Then nothing changes. -/
  refused {k : Key} {a : Aggregate} {f : Fault} :
    (s.cells.perform (.merge k a)).1 = .merged (.error f) ↔
      (k.statistic.width ≠ s.cells.width ∧ f = .keyWidth k.statistic.width s.cells.width) ∨
        (k.statistic.width = s.cells.width ∧ ∃ held, s.cells.get? k = some held ∧
          held.kind ≠ a.kind ∧ f = .unlikeAggregates held.kind a.kind)
  unchanged {k : Key} {a : Aggregate} {f : Fault} :
    (s.cells.perform (.merge k a)).1 = .merged (.error f) →
      (s.cells.perform (.merge k a)).2 = s.cells
  /-- A purge removes the cells of an interval whose row is before a time, answers how many there
  were, and changes no other cell. -/
  purged (interval : Interval) (cutoff : Timestamp) : ∃ keys : List Key, keys.Nodup ∧
    (∀ k, k ∈ keys ↔ k.Uniform s.cells.width ∧ (s.cells.get? k).isSome = true ∧
      Expires interval cutoff k) ∧
    (s.cells.perform (.purge interval cutoff)).1 = .purged keys.length ∧
    ∀ k, Judged s.cells.width k → (s.cells.perform (.purge interval cutoff)).2.get? k =
      if Expires interval cutoff k then none else s.cells.get? k
  /-- A scan gives the cells of a statistic and a mask, each once, in the order of octets.  They lie
  together: they are the ones from the octets of the statistic and the mask on, up to the first
  that does not begin with them. -/
  scanned (statistic : Uid) (mask : Mask) : statistic.width = s.cells.width →
    ∃ cells, s.cells.scan statistic mask = .ok cells ∧
      (∀ k a, (k, a) ∈ cells ↔ k.Uniform s.cells.width ∧ k.statistic = statistic ∧
        k.mask = mask ∧ s.cells.get? k = some a) ∧
      (cells.Pairwise fun x y => compare x.1.toBytes y.1.toBytes = .lt) ∧
      cells.map (fun x => (x.1.toBytes, x.2)) = (s.cells.byKey.toList.dropWhile fun x =>
        compare x.1 (statistic.toBytes ++ mask.toBytes) == .lt).takeWhile fun x =>
          (statistic.toBytes ++ mask.toBytes).isPrefixOf x.1

/-- What every request keeps. -/
structure Faithful (s : History) : Prop where
  legible : s.cells.Legible
  held {k : Key} : Judged s.cells.width k →
    mergeAll s.cells.cap (gathered k s.log) = .ok (s.cells.get? k)
  counted : s.cells.merges = s.log.countP isMade

theorem faithful_empty (width cap : Nat) : Faithful { cells := .empty width cap } where
  legible bs a h := by simp [empty] at h
  held {k} _ := by
    show Except.ok none = .ok ((∅ : Std.TreeMap Bytes Aggregate)[k.toBytes]?)
    simp
  counted := rfl

theorem gathered_concat (k : Key) (log : List (Request × Answer)) (x : Request × Answer) :
    gathered k (log ++ [x]) = gather k (gathered k log) x := by
  rw [gathered, List.foldl_append]
  rfl

/-- A request keeps its store faithful to its history. -/
theorem Faithful.step (h : s.Faithful) {r : Request}
    (hr : ∀ k a, r = .merge k a → Judged s.cells.width k) : (s.step r).Faithful := by
  cases r with
  | merge k a =>
    rw [History.step, perform]
    obtain ⟨f, hrefused, hsame⟩ | ⟨hmade, hwidth, b, hcombine, hmerged⟩ := merge_cases s.cells k a
    · rw [hrefused, hsame]
      refine ⟨h.legible, fun {k'} hk' => ?_, ?_⟩
      · rw [gathered_concat]
        exact h.held hk'
      · rw [List.countP_append]
        exact h.counted
    · have hk : k.Uniform s.cells.width := (hr k a rfl).resolve_right (not_not_intro hwidth)
      rw [hmade]
      refine ⟨fun bs x hx => ?_, fun {k'} hk' => ?_, ?_⟩
      · rw [hmerged.width]
        rcases hmerged.of_byKey hx with hx | ⟨hbytes, _⟩
        · exact h.legible bs x hx
        · exact ⟨k, hk, hbytes⟩
      · rw [hmerged.width] at hk'
        have hold := h.held hk'
        rw [gathered_concat, hmerged.cap, hmerged.get? hk hk']
        by_cases heq : k = k'
        · subst heq
          rw [gather, if_pos rfl, if_pos rfl, mergeAll_concat hold, hcombine]
          rfl
        · rw [gather, if_neg heq, if_neg heq]
          exact hold
      · rw [List.countP_append, hmerged.merges, h.counted]
        rfl
  | purge interval cutoff =>
    rw [History.step, perform]
    refine ⟨fun bs x hx => ?_, fun {k} hk => ?_, ?_⟩
    · exact h.legible bs x (byKey_purge.1 hx).1
    · rw [gathered_concat, gather]
      show _ = Except.ok ((s.cells.purge interval cutoff).2.get? k)
      rw [get?_purge h.legible hk]
      by_cases hexpires : Expires interval cutoff k
      · rw [if_pos hexpires, if_pos hexpires]
        rfl
      · rw [if_neg hexpires, if_neg hexpires]
        exact h.held hk
    · rw [List.countP_append]
      exact h.counted

theorem width_step (s : History) (r : Request) : (s.step r).cells.width = s.cells.width := by
  cases r with
  | purge interval cutoff => rfl
  | merge k a =>
    exact width_merge s.cells k a

theorem Faithful.run (h : s.Faithful) {requests : List Request}
    (hr : ∀ k a, .merge k a ∈ requests → Judged s.cells.width k) : (s.run requests).Faithful := by
  induction requests generalizing s with
  | nil => exact h
  | cons r requests ih =>
    refine ih (h.step fun k a heq => hr k a (heq ▸ List.mem_cons_self)) fun k a hmem => ?_
    rw [width_step]
    exact hr k a (List.mem_cons_of_mem r hmem)

/-- A purge answers how many cells it removes. -/
theorem Faithful.purged (h : s.Faithful) (interval : Interval) (cutoff : Timestamp) :
    ∃ keys : List Key, keys.Nodup ∧
      (∀ k, k ∈ keys ↔ k.Uniform s.cells.width ∧ (s.cells.get? k).isSome = true ∧
        Expires interval cutoff k) ∧
      (s.cells.purge interval cutoff).1 = keys.length := by
  obtain ⟨cells, _, hmap, hmem, hsorted⟩ :=
    h.legible.select (isExpired s.cells.width interval cutoff)
  refine ⟨cells.map Prod.fst, ?_, fun k => ⟨fun hk => ?_, ?_⟩, ?_⟩
  · rw [List.nodup_iff_pairwise_ne, List.pairwise_map]
    refine hsorted.imp fun {x y} hlt heq => ?_
    have hsame : compare y.1.toBytes y.1.toBytes = .eq := Std.ReflCmp.compare_self
    rw [heq, hsame] at hlt
    cases hlt
  · obtain ⟨⟨k', a⟩, hx, rfl⟩ := List.mem_map.1 hk
    obtain ⟨huniform, hexpired, hget⟩ := (hmem k' a).1 hx
    rw [isExpired_toBytes huniform] at hexpired
    exact ⟨huniform, by rw [hget]; rfl, of_decide_eq_true hexpired⟩
  · rintro ⟨huniform, hsome, hexpires⟩
    obtain ⟨a, hget⟩ := Option.isSome_iff_exists.1 hsome
    have hx := (hmem k a).2 ⟨huniform, by
      rw [isExpired_toBytes huniform]
      exact decide_eq_true hexpires, hget⟩
    exact List.mem_map_of_mem (f := Prod.fst) hx
  · -- What is removed and what stays are all cells.
    have hlength := congrArg List.length hmap
    rw [List.length_map] at hlength
    rw [List.length_map, hlength, purge]
    show s.cells.byKey.size - (s.cells.byKey.filter _).size = _
    rw [← Std.TreeMap.length_toList, ← Std.TreeMap.length_toList, Std.TreeMap.toList_filter,
      List.length_eq_countP_add_countP fun x : Bytes × Aggregate =>
        isExpired s.cells.width interval cutoff x.1, List.countP_eq_length_filter,
      List.countP_eq_length_filter]
    simp

/-- Whatever it is asked, with keys that it takes or must refuse, a store is a map from keys to
merged aggregates. -/
theorem map_of_requests (width cap : Nat) (requests : List Request)
    (hkeys : ∀ k a, .merge k a ∈ requests → Judged width k) :
    (run { cells := .empty width cap } requests).IsMap := by
  have h := (faithful_empty width cap).run hkeys
  revert h
  generalize run { cells := .empty width cap } requests = s
  intro h
  refine ⟨h.held, h.counted, ?_, ?_, fun interval cutoff => ?_, fun statistic mask hwidth => ?_⟩
  · intro k a f
    rw [← merge_eq_error_iff, perform, Answer.merged.injEq]
  · intro k a f hrefused
    exact merge_of_error (Answer.merged.inj hrefused)
  · obtain ⟨keys, hnodup, hmem, hcount⟩ := h.purged interval cutoff
    exact ⟨keys, hnodup, hmem, congrArg Answer.purged hcount, fun k hk => get?_purge h.legible hk⟩
  · obtain ⟨cells, hscan, hmap, hmem, hsorted⟩ := h.legible.scanned mask hwidth
    refine ⟨cells, hscan, hmem, hsorted, hmap.trans ?_⟩
    exact Bytes.filter_prefix_eq_range Std.TreeMap.ordered_keys_toList _

/-- The orders of a statistic in a second. -/
def ordersOf (statistic : Uid) (time : Timestamp) : Key := .of statistic .zero .second time []

/-- A statistic of the width of the store. -/
def orders : Uid := ⟨5, 7, by decide, by decide, by decide⟩

/-- A statistic of another width. -/
def wideOrders : Uid := ⟨6, 7, by decide, by decide, by decide⟩

/-- A kind and a width that are refused, and a purge between two merges of one key. -/
def orderRequests : List Request :=
  [.merge (ordersOf orders 0) (.count 2 []), .merge (ordersOf orders 0) (.value 1 1 1 1 []),
    .merge (ordersOf wideOrders 0) (.count 9 []), .merge (ordersOf orders 0) (.count 3 []),
    .merge (ordersOf orders 7200000) (.count 5 []), .purge .second 3600000,
    .merge (ordersOf orders 0) (.count 4 [])]

theorem map_of_orderRequests :
    let s := run { cells := .empty 5 8 } orderRequests
    s.IsMap ∧ s.cells.merges = 4 ∧ (s.cells.get? (ordersOf orders 0)).map Aggregate.total = some 4 ∧
      (s.cells.get? (ordersOf orders 7200000)).map Aggregate.total = some 5 := by
  have hkeys : ∀ k a, .merge k a ∈ orderRequests → Judged 5 k := by
    intro k a h
    simp only [orderRequests, List.mem_cons, Request.merge.injEq, List.not_mem_nil] at h
    rcases h with ⟨rfl, _⟩ | ⟨rfl, _⟩ | ⟨rfl, _⟩ | ⟨rfl, _⟩ | ⟨rfl, _⟩ | h | ⟨rfl, _⟩ | h
    case inr.inr.inl => exact .inr (by decide)
    all_goals first | cases h | exact .inl ⟨rfl, fun t ht => absurd ht List.not_mem_nil⟩
  exact ⟨map_of_requests 5 8 orderRequests hkeys, by decide +kernel, by decide +kernel,
    by decide +kernel⟩

end History

end Cells

end StatRollup
