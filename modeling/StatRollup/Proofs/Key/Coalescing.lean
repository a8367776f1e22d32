import Mathlib.Data.List.Nodup
import StatRollup.Proofs.Statistic.Masks

/-!
# Which events share a cell

A mask speaks of positions in the order of the tag names, and the tags of a key are in the order of
their identifiers.  Sorting by identifier forgets the positions, but not which value belongs to
which tag, since different tags have different identifiers (`eq_of_insertionSort_eq`).  So a key
tells the values of all tags that its mask does not roll up, and of the time no more than the
column: two events have a key in common exactly when they agree on these (`same_key_iff`).
-/

namespace StatRollup

/-! ## Labels and identifiers -/

/-- Two lists of the same elements with the same distinct labels in the same order are the same. -/
theorem eq_of_perm_of_map {α β : Type} (f : α → β) {l l' : List α} (hp : l.Perm l')
    (hm : l.map f = l'.map f) (hn : (l.map f).Nodup) : l = l' := by
  induction l generalizing l' with
  | nil => exact hp.nil_eq
  | cons a l ih =>
    cases l' with
    | nil => exact hp.eq_nil
    | cons b l' =>
      obtain ⟨hab, hrest⟩ := List.cons.inj hm
      obtain ⟨hnot, hn'⟩ := List.nodup_cons.1 hn
      have heq : a = b := by
        rcases List.mem_cons.1 (hp.mem_iff.1 List.mem_cons_self) with h | h
        · exact h
        · refine absurd ?_ hnot
          rw [hrest]
          exact List.mem_map_of_mem h
      subst heq
      rw [ih hp.cons_inv hrest hn']

theorem Uid.rolledUp_congr {u v : Uid} (h : u.width = v.width) : u.rolledUp = v.rolledUp :=
  ext_value h (congrArg (256 ^ · - 1) h)

namespace Key

theorem map_tag_rollUp (mask : Mask) (l : List TagValue) :
    (rollUp mask l).map TagValue.tag = l.map TagValue.tag := by
  refine List.ext_getElem? fun p => ?_
  simp only [rollUp, List.getElem?_map, List.getElem?_mapIdx]
  cases l[p]? with
  | none => rfl
  | some x =>
    simp only [Option.map_some]
    split <;> rfl

/-- Lists with the same tags, all different, are the same before they are sorted if they are
afterwards. -/
theorem eq_of_insertionSort_eq {l l' : List TagValue} (h : insertionSort l = insertionSort l')
    (htags : l.map TagValue.tag = l'.map TagValue.tag) (hnodup : (l.map TagValue.tag).Nodup) :
    l = l' :=
  eq_of_perm_of_map TagValue.tag
    ((perm_insertionSort l).symm.trans (h ▸ perm_insertionSort l')) htags hnodup

end Key

/-! ## Names for identifiers -/

/-- Different names have different identifiers, all of one width. -/
structure Assigns (ids : String → Uid) (w : Nat) (names : List String) : Prop where
  width : ∀ n ∈ names, (ids n).width = w
  injective : ∀ m ∈ names, ∀ n ∈ names, ids m = ids n → m = n

/-- The identifiers of a tag. -/
def Tag.exchange (ids : String → Uid) (t : Tag) : TagValue := ⟨ids t.name, ids t.value⟩

namespace Event

variable {s : Statistic} {e e' : Event} {ids : String → Uid} {w p : Nat} {names : List String}
  {ts ts' : List Tag} {mask : Mask} {tag : String}

/-- An event with the declared tags in any order, and names that may be exchanged. -/
structure Gives (s : Statistic) (names : List String) (e : Event) : Prop where
  declared : (e.tags.map Tag.name).Perm s.tags.toList
  named : ∀ t ∈ e.tags, t.name ∈ names ∧ t.value ∈ names

/-- The keys of an event when names have the given identifiers. -/
def keys (ids : String → Uid) (s : Statistic) (e : Event) : Except Fault (List Key) :=
  Key.build s (ids s.name) e.timestamp (e.tags.map fun t => (t.name, t.exchange ids))

/-- The value of a tag. -/
def value? (e : Event) (tag : String) : Option String :=
  (e.tags.find? (·.name = tag)).map Tag.value

/-- Whether events have the same value for every tag that a mask does not roll up. -/
def Agrees (s : Statistic) (mask : Mask) (e e' : Event) : Prop :=
  ∀ x ∈ s.tags.toList.zipIdx, mask.isRolledUp x.2 = true ∨ e.value? x.1 = e'.value? x.1

instance (s : Statistic) (mask : Mask) (e e' : Event) : Decidable (Agrees s mask e e') := by
  unfold Agrees
  infer_instance

/-! ## Values by position -/

/-- The value of a tag is the one at its position. -/
theorem value?_eq (hts : ts.map Tag.name = s.tags.toList) (hmem : ∀ t, t ∈ e.tags ↔ t ∈ ts)
    (hp : s.tags.toList[p]? = some tag) : e.value? tag = (ts.map Tag.value)[p]? := by
  have hnodup : (ts.map Tag.name).Nodup := hts ▸ s.tags.nodup
  rw [← hts, List.getElem?_map] at hp
  obtain ⟨t, ht, rfl⟩ := Option.map_eq_some_iff.1 hp
  have hin : t ∈ ts := List.mem_of_getElem? ht
  have hfind : e.tags.find? (·.name = t.name) = some t := by
    cases hx : e.tags.find? (·.name = t.name) with
    | none => exact absurd (List.find?_eq_none.1 hx t ((hmem t).2 hin)) (by simp)
    | some x =>
      have hname : x.name = t.name := by simpa using List.find?_some hx
      have hxin : x ∈ ts := (hmem x).1 (List.mem_of_find?_eq_some hx)
      rw [List.inj_on_of_nodup_map hnodup hxin hin hname]
  rw [value?, hfind, List.getElem?_map, ht]

/-- Events agree when their values do, position by position. -/
theorem agrees_iff (hts : ts.map Tag.name = s.tags.toList) (hmem : ∀ t, t ∈ e.tags ↔ t ∈ ts)
    (hts' : ts'.map Tag.name = s.tags.toList) (hmem' : ∀ t, t ∈ e'.tags ↔ t ∈ ts') :
    Agrees s mask e e' ↔
      ∀ p : Nat, mask.isRolledUp p = true ∨ (ts.map Tag.value)[p]? = (ts'.map Tag.value)[p]? := by
  constructor
  · intro h p
    cases hp : s.tags.toList[p]? with
    | none =>
      have hout : ∀ {l : List Tag}, l.map Tag.name = s.tags.toList →
          (l.map Tag.value)[p]? = none := by
        intro l hl
        rw [← hl, List.getElem?_map, Option.map_eq_none_iff] at hp
        rw [List.getElem?_map, hp]
        rfl
      exact .inr ((hout hts).trans (hout hts').symm)
    | some tag =>
      rw [← value?_eq hts hmem hp, ← value?_eq hts' hmem' hp]
      exact h (tag, p) (List.mem_zipIdx_iff_getElem?.2 hp)
  · rintro h ⟨tag, p⟩ hx
    have hp : s.tags.toList[p]? = some tag := List.mem_zipIdx_iff_getElem?.1 hx
    rw [value?_eq hts hmem hp, value?_eq hts' hmem' hp]
    exact h p

/-- Tags with the same names are the same when rolled up, if the values at the other positions
are. -/
theorem rollUp_exchange_eq_iff (hids : Assigns ids w names)
    (hnames : ts.map Tag.name = ts'.map Tag.name) (hts : ∀ t ∈ ts, t.value ∈ names)
    (hts' : ∀ t ∈ ts', t.value ∈ names) :
    Key.rollUp mask (ts.map (Tag.exchange ids)) = Key.rollUp mask (ts'.map (Tag.exchange ids)) ↔
      ∀ p : Nat, mask.isRolledUp p = true ∨ (ts.map Tag.value)[p]? = (ts'.map Tag.value)[p]? := by
  rw [List.ext_getElem?_iff]
  refine forall_congr' fun p => ?_
  have hname := congrArg (·[p]?) hnames
  simp only [List.getElem?_map] at hname
  simp only [Key.rollUp, List.getElem?_mapIdx, List.getElem?_map]
  cases ht : ts[p]? with
  | none =>
    rw [ht, Option.map_none, eq_comm, Option.map_eq_none_iff] at hname
    simp only [hname, Option.map_none, or_true]
  | some t =>
    rw [ht, Option.map_some, eq_comm] at hname
    obtain ⟨t', ht', hname⟩ := Option.map_eq_some_iff.1 hname
    have hv := hts t (List.mem_of_getElem? ht)
    have hv' := hts' t' (List.mem_of_getElem? ht')
    simp only [ht', Option.map_some, Option.some.injEq]
    by_cases hroll : mask.isRolledUp p = true
    · have hwidth : (ids t.value).rolledUp = (ids t'.value).rolledUp :=
        Uid.rolledUp_congr ((hids.width _ hv).trans (hids.width _ hv').symm)
      simp only [hroll, if_true, Tag.exchange, TagValue.rolledUp, hname, hwidth, true_or]
    · have hiff : ids t.value = ids t'.value ↔ t.value = t'.value :=
        ⟨hids.injective _ hv _ hv', congrArg ids⟩
      simp only [hroll, Bool.false_eq_true, if_false, false_or, Tag.exchange, TagValue.mk.injEq,
        hname, true_and, hiff]

/-! ## Keys in common -/

/-- Keys under one mask are the same when the column is, and the values that the mask leaves. -/
theorem of_rollUp_eq_iff (hids : Assigns ids w names) (he : Gives s names e)
    (he' : Gives s names e') (hts : ts.map Tag.name = s.tags.toList)
    (hmem : ∀ t, t ∈ e.tags ↔ t ∈ ts) (hts' : ts'.map Tag.name = s.tags.toList)
    (hmem' : ∀ t, t ∈ e'.tags ↔ t ∈ ts') (u : Uid) :
    Key.of u mask s.precision e.timestamp (Key.rollUp mask (ts.map (Tag.exchange ids))) =
        Key.of u mask s.precision e'.timestamp (Key.rollUp mask (ts'.map (Tag.exchange ids))) ↔
      s.precision.columnStart e.timestamp = s.precision.columnStart e'.timestamp ∧
        Agrees s mask e e' := by
  have hnames : ts.map Tag.name = ts'.map Tag.name := hts.trans hts'.symm
  have htags : ∀ l : List Tag, (Key.rollUp mask (l.map (Tag.exchange ids))).map TagValue.tag =
      (l.map Tag.name).map ids := by
    intro l
    rw [Key.map_tag_rollUp, List.map_map, List.map_map]
    rfl
  have hin : ∀ n ∈ ts.map Tag.name, n ∈ names := List.forall_mem_map.2 fun t ht =>
    (he.named t ((hmem t).2 ht)).1
  have hnodup : ((ts.map Tag.name).map ids).Nodup := List.Nodup.map_on
    (fun m hm n hn => hids.injective m (hin m hm) n (hin n hn)) (hts ▸ s.tags.nodup)
  rw [agrees_iff hts hmem hts' hmem', ← rollUp_exchange_eq_iff hids hnames
    (fun t ht => (he.named t ((hmem t).2 ht)).2) (fun t ht => (he'.named t ((hmem' t).2 ht)).2)]
  simp only [Key.of, Key.mk.injEq, true_and]
  refine and_congr_right fun _ => ⟨fun h => ?_, congrArg insertionSort⟩
  exact Key.eq_of_insertionSort_eq h (by rw [htags, htags, hnames]) (by rw [htags]; exact hnodup)

/-- Two events with the declared tags have one key for each required mask.  Two of their keys are
the same exactly when they are under one mask, the times are in one column and the events agree on
every value that the mask leaves. -/
theorem same_key_iff (hids : Assigns ids w names) (he : Gives s names e)
    (he' : Gives s names e') :
    ∃ ks ks' : List Key, e.keys ids s = .ok ks ∧ e'.keys ids s = .ok ks' ∧
      ks.map Key.mask = s.requiredMasks ∧ ks'.map Key.mask = s.requiredMasks ∧
      s.requiredMasks.Nodup ∧
      ∀ k ∈ ks, ∀ k' ∈ ks', k = k' ↔ k.mask = k'.mask ∧
        s.precision.columnStart e.timestamp = s.precision.columnStart e'.timestamp ∧
        Agrees s k.mask e e' := by
  obtain ⟨ts, hby, hts, hmem⟩ := tagsBy_ok (Statistic.checkTags_ok he.declared)
  obtain ⟨ts', hby', hts', hmem'⟩ := tagsBy_ok (Statistic.checkTags_ok he'.declared)
  have hmasks : ∀ f : Mask → Key, (∀ m, (f m).mask = m) →
      (s.requiredMasks.map f).map Key.mask = s.requiredMasks := by
    intro f hf
    rw [List.map_map]
    exact (List.map_congr_left fun m _ => hf m).trans (List.map_id' _)
  refine ⟨_, _, build_ok hby (ids s.name) (Tag.exchange ids),
    build_ok hby' (ids s.name) (Tag.exchange ids), hmasks _ fun _ => rfl, hmasks _ fun _ => rfl,
    s.nodup_requiredMasks, fun k hk k' hk' => ?_⟩
  obtain ⟨m, _, rfl⟩ := List.mem_map.1 hk
  obtain ⟨m', _, rfl⟩ := List.mem_map.1 hk'
  constructor
  · intro h
    obtain rfl : m = m' := congrArg Key.mask h
    exact ⟨rfl, (of_rollUp_eq_iff hids he he' hts hmem hts' hmem' _).1 h⟩
  · rintro ⟨hmask, h⟩
    obtain rfl : m = m' := hmask
    exact (of_rollUp_eq_iff hids he he' hts hmem hts' hmem' _).2 h

/-! ## Orders of two systems -/

namespace Orders

/-- Orders by environment and system, written under the masks that roll up nothing or the system. -/
def statistic : Statistic :=
  { name := "orders", kind := .count, policy := .custom, precision := .second
    tags := .ofList ["system", "env"], masks := .ofList [Mask.zero.add 1 (by decide)] }

/-- An order, its tags by name. -/
def first : Event :=
  { name := "orders", timestamp := 60000, reading := .count 1
    tags := [⟨"env", "prod"⟩, ⟨"system", "web"⟩] }

/-- An order of another system in the same second, its tags the other way round. -/
def second : Event :=
  { name := "orders", timestamp := 60999, reading := .count 1
    tags := [⟨"system", "mail"⟩, ⟨"env", "prod"⟩] }

/-- All names of the two orders. -/
def known : List String := ["system", "env", "prod", "web", "mail"]

/-- The place among all names, so the tags come in the other order than their names. -/
def place (name : String) : Uid :=
  ⟨3, known.idxOf name, by decide, by decide, Nat.lt_of_le_of_lt List.idxOf_le_length (by decide)⟩

end Orders

theorem same_key_iff_orders :
    ∃ ks ks' : List Key, Orders.first.keys Orders.place Orders.statistic = .ok ks ∧
      Orders.second.keys Orders.place Orders.statistic = .ok ks' ∧
      (ks.map Key.mask).map Mask.bits = [0, 2] ∧
      ∀ k ∈ ks, ∀ k' ∈ ks', k = k' ↔ k.mask = k'.mask ∧ k.mask.isZero = false := by
  have hids : Assigns Orders.place 3 Orders.known := ⟨by decide, by decide⟩
  have hfirst : Gives Orders.statistic Orders.known Orders.first := ⟨by decide, by decide⟩
  have hsecond : Gives Orders.statistic Orders.known Orders.second := ⟨by decide, by decide⟩
  obtain ⟨ks, ks', hks, hks', hmasks, _, _, hiff⟩ := same_key_iff hids hfirst hsecond
  have hagrees : ∀ m ∈ Orders.statistic.requiredMasks,
      Agrees Orders.statistic m Orders.first Orders.second ↔ m.isZero = false := by decide
  refine ⟨ks, ks', hks, hks', by rw [hmasks]; decide, fun k hk k' hk' => ?_⟩
  rw [hiff k hk k' hk', hagrees k.mask (hmasks ▸ List.mem_map_of_mem hk)]
  exact and_congr_right fun _ => and_iff_right (by decide)

end Event

end StatRollup
