import StatRollup.Proofs.Traffic.Partition
import StatRollup.Traffic.Boxes

/-!
# Splitting is a stable partition

A grouping by place has its groups in the order of their places, none of them empty, each with all
things of its place in their order, and everything in some group (`Splits`).  There is only one such
grouping (`Splits.eq`).  The one that is made place by place is it (`splits_spread`), and so is the
one that is made thing by thing, with boxes (`sortInto?_eq`): after some things every box holds
those of its place among them, which is what putting one more thing away preserves (`put?_boxesOf`).
-/

namespace StatRollup

namespace Partitioner

variable {α : Type} {route : α → Nat} {as done : List α} {parts parts' : List (Nat × List α)}
  {part : Nat × List α} {a : α} {count : Nat} {keep : α → Bool}

/-! ## The one grouping by place -/

/-- The parts are the things grouped by place. -/
structure Splits (route : α → Nat) (as : List α) (parts : List (Nat × List α)) : Prop where
  ascending : parts.Pairwise fun p q => p.1 < q.1
  nonempty : ∀ part ∈ parts, part.2 ≠ []
  inOrder : ∀ part ∈ parts, part.2 = as.filter (route · == part.1)
  complete : ∀ a ∈ as, ∃ part ∈ parts, a ∈ part.2

namespace Splits

/-- What is in a part is of its place. -/
theorem mem_part (h : Splits route as parts) (hpart : part ∈ parts) :
    a ∈ part.2 ↔ a ∈ as ∧ route a = part.1 := by
  rw [h.inOrder part hpart, List.mem_filter, beq_iff_eq]

/-- There are parts for the places of things, and no others. -/
theorem mem_places (h : Splits route as parts) {i : Nat} :
    i ∈ parts.map Prod.fst ↔ ∃ a ∈ as, route a = i := by
  constructor
  · intro hi
    obtain ⟨part, hpart, rfl⟩ := List.mem_map.1 hi
    obtain ⟨a, ha⟩ := List.exists_mem_of_ne_nil _ (h.nonempty part hpart)
    exact ⟨a, (h.mem_part hpart).1 ha⟩
  · rintro ⟨a, ha, rfl⟩
    obtain ⟨part, hpart, hmem⟩ := h.complete a ha
    rw [((h.mem_part hpart).1 hmem).2]
    exact List.mem_map_of_mem hpart

theorem ascending_places (h : Splits route as parts) : (parts.map Prod.fst).Pairwise (· < ·) :=
  List.pairwise_map.2 h.ascending

theorem eq_map_places (h : Splits route as parts) :
    parts = (parts.map Prod.fst).map fun i => (i, as.filter (route · == i)) := by
  rw [List.map_map]
  refine (List.map_id parts).symm.trans (List.map_congr_left fun part hpart => ?_)
  exact Prod.ext rfl (h.inOrder part hpart)

/-- Things are grouped by place in one way. -/
theorem eq (h : Splits route as parts) (h' : Splits route as parts') : parts = parts' := by
  have hplaces : parts.map Prod.fst = parts'.map Prod.fst := by
    refine congrArg Ascending.toList (Ascending.ext_mem
      (s := ⟨_, h.ascending_places.imp Nat.compare_eq_lt.2⟩)
      (t := ⟨_, h'.ascending_places.imp Nat.compare_eq_lt.2⟩) fun i => ?_)
    rw [h.mem_places, h'.mem_places]
  rw [h.eq_map_places, hplaces, ← h'.eq_map_places]

end Splits

theorem splits_spread (route : α → Nat) (as : List α) : Splits route as (spread route as) where
  ascending := by
    have hsorted := (Ascending.ofList ((as.map fun a => (route a, a)).map Prod.fst)).sorted
    rw [spread, group, List.map_map, List.pairwise_map]
    exact hsorted.imp Nat.compare_eq_lt.1
  nonempty := by
    intro part hpart hempty
    obtain ⟨⟨a, ha, hroute⟩, _⟩ := mem_spread hpart
    rw [eq_filter_of_mem_spread hpart, List.filter_eq_nil_iff] at hempty
    exact hempty a ha (beq_iff_eq.2 hroute)
  inOrder := fun part hpart => eq_filter_of_mem_spread hpart
  complete := by
    intro a ha
    exact List.mem_flatMap.1 ((perm_spread route as).mem_iff.2 ha)

/-! ## Boxes -/

/-- The boxes after things have been put away. -/
def boxesOf (count : Nat) (route : α → Nat) (done : List α) : List (List α) :=
  (List.range count).map fun i => done.filter (route · == i)

@[simp] theorem length_boxesOf : (boxesOf count route done).length = count := by simp [boxesOf]

/-- Putting one more thing away. -/
theorem put?_boxesOf (h : route a < count) :
    put? route (boxesOf count route done) a = some (boxesOf count route (done ++ [a])) := by
  rw [put?, length_boxesOf, if_pos h]
  congr 1
  apply List.ext_getElem
  · simp
  · intro i hi _
    rw [List.getElem_modify]
    by_cases hroute : route a = i <;> simp [boxesOf, hroute]

/-- Putting things away one after another. -/
theorem foldlM_put? (h : ∀ a ∈ as, route a < count) :
    as.foldlM (put? route) (boxesOf count route done) =
      some (boxesOf count route (done ++ as)) := by
  induction as generalizing done with
  | nil => simp
  | cons a as ih =>
    obtain ⟨ha, hrest⟩ := List.forall_mem_cons.1 h
    rw [List.foldlM_cons, put?_boxesOf ha]
    show as.foldlM (put? route) _ = _
    rw [ih hrest, List.append_assoc, List.singleton_append]

theorem mem_filled {boxes : List (List α)} {i : Nat} {box : List α} :
    (i, box) ∈ filled boxes ↔ boxes[i]? = some box ∧ box ≠ [] := by
  simp [filled, List.mem_zipIdx_iff_getElem?]

theorem mem_filled_boxesOf {i : Nat} {box : List α} : (i, box) ∈ filled (boxesOf count route as) ↔
    i < count ∧ box = as.filter (route · == i) ∧ box ≠ [] := by
  rw [mem_filled, boxesOf, List.getElem?_map, Option.map_eq_some_iff]
  constructor
  · rintro ⟨⟨j, hj, rfl⟩, hbox⟩
    obtain ⟨hlt, hi⟩ := List.getElem?_eq_some_iff.1 hj
    rw [List.getElem_range] at hi
    rw [List.length_range] at hlt
    exact ⟨hlt, by rw [hi], hbox⟩
  · rintro ⟨hlt, rfl, hbox⟩
    exact ⟨⟨i, List.getElem?_range hlt, rfl⟩, hbox⟩

/-- The boxes that hold something are the groups. -/
theorem splits_filled (h : ∀ a ∈ as, route a < count) :
    Splits route as (filled (boxesOf count route as)) where
  ascending := by
    have hplaces : ((boxesOf count route as).zipIdx.map Prod.snd).Pairwise (· < ·) := by
      rw [List.zipIdx_map_snd]
      exact List.pairwise_lt_range'
    rw [filled, List.pairwise_map]
    exact (List.pairwise_map.1 hplaces).filter _
  nonempty := fun ⟨i, box⟩ hpart => (mem_filled_boxesOf.1 hpart).2.2
  inOrder := fun ⟨i, box⟩ hpart => (mem_filled_boxesOf.1 hpart).2.1
  complete := by
    intro a ha
    have hmem : a ∈ as.filter (route · == route a) := List.mem_filter.2 ⟨ha, beq_self_eq_true _⟩
    exact ⟨(route a, _), mem_filled_boxesOf.2 ⟨h a ha, rfl, List.ne_nil_of_mem hmem⟩, hmem⟩

/-- Sorting into enough boxes makes the same groups. -/
theorem sortInto?_eq (h : ∀ a ∈ as, route a < count) :
    sortInto? count route as = some (spread route as) := by
  have hempty : List.replicate count [] = boxesOf count route [] := by simp [boxesOf]
  rw [sortInto?, hempty, foldlM_put? h, List.nil_append]
  exact congrArg some ((splits_filled h).eq (splits_spread route as))

/-! ## What is in order in the parts put together -/

/-- Things that all belong into one part are, in the parts put together, in the order that they have
there. -/
theorem filter_flatMap_of_mem (hplaces : (parts.map Prod.fst).Nodup) (hpart : part ∈ parts)
    (hother : ∀ other ∈ parts, other.1 ≠ part.1 → ∀ a ∈ other.2, keep a = false) :
    (parts.flatMap Prod.snd).filter keep = part.2.filter keep := by
  obtain ⟨before, after, rfl⟩ := List.append_of_mem hpart
  rw [List.map_append, List.map_cons, List.nodup_middle, List.nodup_cons] at hplaces
  have hnone : ∀ others : List (Nat × List α), (∀ other ∈ others,
      other ∈ before ++ part :: after ∧ other.1 ∈ before.map Prod.fst ++ after.map Prod.fst) →
      (others.flatMap Prod.snd).filter keep = [] := by
    intro others hothers
    rw [List.filter_eq_nil_iff]
    intro a ha
    obtain ⟨other, hin, hmem⟩ := List.mem_flatMap.1 ha
    obtain ⟨hin, hplace⟩ := hothers other hin
    rw [hother other hin (fun hsame => hplaces.1 (hsame ▸ hplace)) a hmem]
    exact Bool.false_ne_true
  rw [List.flatMap_append, List.flatMap_cons, List.filter_append, List.filter_append,
    hnone before fun other hin => ⟨by simp [hin], by simp [List.mem_map_of_mem hin]⟩,
    hnone after fun other hin => ⟨by simp [hin], by simp [List.mem_map_of_mem hin]⟩,
    List.nil_append, List.append_nil]

/-- Things of one place keep their order when the parts are put together. -/
theorem Splits.filter_flatMap (h : Splits route as parts) {i : Nat}
    (hkeep : ∀ a ∈ as, keep a = true → route a = i) :
    (parts.flatMap Prod.snd).filter keep = as.filter keep := by
  by_cases hi : i ∈ parts.map Prod.fst
  · obtain ⟨part, hpart, rfl⟩ := List.mem_map.1 hi
    have hnodup := h.ascending_places.imp Nat.ne_of_lt
    rw [filter_flatMap_of_mem hnodup hpart, h.inOrder part hpart, List.filter_filter]
    · refine List.filter_congr fun a ha => ?_
      cases hk : keep a with
      | false => rfl
      | true => simp [hkeep a ha hk]
    · intro other hin hne a ha
      obtain ⟨ha, hroute⟩ := (h.mem_part hin).1 ha
      exact Bool.eq_false_iff.2 fun hk => hne (hroute.symm.trans (hkeep a ha hk))
  · have hnone : ∀ a ∈ as, ¬ keep a = true := fun a ha hk =>
      hi (h.mem_places.2 ⟨a, ha, hkeep a ha hk⟩)
    rw [List.filter_eq_nil_iff.2 hnone, List.filter_eq_nil_iff]
    intro a ha
    obtain ⟨part, hpart, hmem⟩ := List.mem_flatMap.1 ha
    exact hnone a ((h.mem_part hpart).1 hmem).1

/-! ## Splitting events -/

/-- Events are split into parts that are not empty, in strictly ascending order of partitions that
there are.  A part has the events of its partition in the order in which they came, and every event
is in the part of the partition of its name and in no other.  The parts put together are the events
again, those of one name in their order.  Sorting the events into a box for every partition finds
each box and gives the same parts.  -/
theorem split_stable (p : Partitioner) (events : List Event) :
    ((p.split events).Pairwise fun x y => x.1 < y.1) ∧
    (∀ part ∈ p.split events, part.1 < max p.requested 1 ∧ part.2 ≠ [] ∧
      part.2 = events.filter fun e => p.partitionOf (Bytes.ofText e.name) == part.1) ∧
    (∀ e ∈ events, ∃ part ∈ p.split events, part.1 = p.partitionOf (Bytes.ofText e.name) ∧
      ∀ other ∈ p.split events, e ∈ other.2 ↔ other = part) ∧
    ((p.split events).flatMap Prod.snd).Perm events ∧
    (∀ name, ((p.split events).flatMap Prod.snd).filter (·.name == name) =
      events.filter (·.name == name)) ∧
    sortInto? (max p.requested 1) p.partitionOfEvent events = some (p.split events) := by
  have hsplits : Splits p.partitionOfEvent events (p.split events) := splits_spread _ _
  have hlt : ∀ e ∈ events, p.partitionOfEvent e < p.count := fun e _ => p.partitionOf_lt _
  refine ⟨hsplits.ascending, fun part hpart => ⟨?_, hsplits.nonempty part hpart,
    hsplits.inOrder part hpart⟩, fun e he => ?_, perm_spread _ _, fun name => ?_, sortInto?_eq hlt⟩
  · obtain ⟨e, he, hroute⟩ := hsplits.mem_places.1 (List.mem_map_of_mem hpart)
    rw [← hroute]
    exact hlt e he
  · obtain ⟨part, hpart, hmem⟩ := hsplits.complete e he
    refine ⟨part, hpart, ((hsplits.mem_part hpart).1 hmem).2.symm, fun other hother => ⟨?_, ?_⟩⟩
    · intro hin
      have hplace : other.1 = part.1 :=
        ((hsplits.mem_part hother).1 hin).2.symm.trans ((hsplits.mem_part hpart).1 hmem).2
      refine Prod.ext hplace ?_
      rw [hsplits.inOrder other hother, hsplits.inOrder part hpart, hplace]
    · rintro rfl
      exact hmem
  · refine hsplits.filter_flatMap (i := p.partitionOf (Bytes.ofText name)) fun e _ hname => ?_
    rw [partitionOfEvent, beq_iff_eq.1 hname]

/-- An order at a time. -/
def order (time : Timestamp) : Event := { name := "orders", timestamp := time, reading := .count 1 }

/-- Two orders with a login between them. -/
def visits : List Event := [order 1, { order 2 with name := "logins" }, order 3]

/-- Both orders are in one of three parts, and the first comes first.  No partition at all counts as
one. -/
theorem split_stable_orders :
    (∃ part ∈ (Partitioner.mk 3).split visits, order 1 ∈ part.2 ∧ order 3 ∈ part.2) ∧
    (((Partitioner.mk 3).split visits).flatMap Prod.snd).filter (·.name == "orders") =
      [order 1, order 3] ∧
    ∀ part ∈ (Partitioner.mk 0).split visits, part.1 = 0 ∧ part.2.length ≤ 3 := by
  obtain ⟨-, hparts, hone, -, hnames, -⟩ := split_stable ⟨3⟩ visits
  obtain ⟨part, hpart, hplace, -⟩ := hone (order 1) (by simp [visits])
  refine ⟨⟨part, hpart, ?_, ?_⟩, hnames "orders", fun part hpart => ?_⟩
  · rw [(hparts part hpart).2.2]
    exact List.mem_filter.2 ⟨by simp [visits], beq_iff_eq.2 hplace.symm⟩
  · rw [(hparts part hpart).2.2]
    exact List.mem_filter.2 ⟨by simp [visits], beq_iff_eq.2 hplace.symm⟩
  · obtain ⟨hlt, -, hevents⟩ := (split_stable ⟨0⟩ visits).2.1 part hpart
    refine ⟨by simpa using hlt, ?_⟩
    rw [hevents]
    exact List.length_filter_le _ _

end Partitioner

end StatRollup
