import Mathlib.Algebra.BigOperators.Group.List.Basic
import Mathlib.Algebra.Ring.Nat
import Mathlib.Data.List.Nodup
import StatRollup.Engine.Processor

/-!
# Groups lose nothing

Grouping things by where they go keeps every one of them, in the group of its place and in no
other.  So a measure that is added up over the groups is the same as over the things.
-/

namespace StatRollup

namespace Partitioner

variable {α : Type} {route : α → Nat} {as : List α}

theorem mem_group {g : Nat × List α} (hg : g ∈ group route as) :
    (∃ a ∈ as, route a = g.1) ∧ ∀ a ∈ g.2, a ∈ as := by
  obtain ⟨i, hi, rfl⟩ := List.mem_map.1 hg
  obtain ⟨a, ha, rfl⟩ := List.mem_map.1 (Ascending.mem_ofList.1 hi)
  exact ⟨⟨a, ha, rfl⟩, fun x hx => (List.mem_filter.1 hx).1⟩

theorem sum_filter_route (f : α → Nat) {places : List Nat} (hnodup : places.Nodup)
    (hall : ∀ a ∈ as, route a ∈ places) :
    (places.map fun i => ((as.filter (route · == i)).map f).sum).sum = (as.map f).sum := by
  induction as with
  | nil => simp
  | cons a as ih =>
    obtain ⟨ha, hrest⟩ := List.forall_mem_cons.1 hall
    have hsplit : ∀ i ∈ places, (((a :: as).filter (route · == i)).map f).sum =
        (if i = route a then f a else 0) + ((as.filter (route · == i)).map f).sum := by
      intro i _
      by_cases hi : i = route a
      · rw [if_pos hi, List.filter_cons_of_pos (by simp [hi]), List.map_cons, List.sum_cons]
      · rw [if_neg hi, List.filter_cons_of_neg (by simpa using Ne.symm hi), Nat.zero_add]
    rw [List.map_congr_left hsplit, List.sum_map_add, ih hrest,
      List.sum_map_eq_nsmul_single (route a) _ fun i hne _ => if_neg hne,
      List.count_eq_one_of_mem hnodup ha, one_nsmul, if_pos rfl, List.map_cons, List.sum_cons]

/-- A measure adds up to the same over groups. -/
theorem sum_group (route : α → Nat) (as : List α) (f : α → Nat) :
    ((group route as).map fun g => (g.2.map f).sum).sum = (as.map f).sum := by
  rw [group, List.map_map]
  exact sum_filter_route f (Ascending.nodup _) fun a ha =>
    Ascending.mem_ofList.2 (List.mem_map_of_mem ha)

/-- Things that are grouped with their places, which are then left out. -/
def spread (route : α → Nat) (as : List α) : List (Nat × List α) :=
  (group Prod.fst (as.map fun a => (route a, a))).map fun g => (g.1, g.2.map Prod.snd)

theorem mem_spread {g : Nat × List α} (hg : g ∈ spread route as) :
    (∃ a ∈ as, route a = g.1) ∧ ∀ a ∈ g.2, a ∈ as := by
  obtain ⟨h, hh, rfl⟩ := List.mem_map.1 hg
  obtain ⟨⟨x, hx, hroute⟩, hmem⟩ := mem_group hh
  obtain ⟨a, ha, rfl⟩ := List.mem_map.1 hx
  refine ⟨⟨a, ha, hroute⟩, fun b hb => ?_⟩
  obtain ⟨y, hy, rfl⟩ := List.mem_map.1 hb
  obtain ⟨z, hz, rfl⟩ := List.mem_map.1 (hmem y hy)
  exact hz

theorem sum_spread (route : α → Nat) (as : List α) (f : α → Nat) :
    ((spread route as).map fun g => (g.2.map f).sum).sum = (as.map f).sum := by
  have hsum := sum_group Prod.fst (as.map fun a => (route a, a)) fun x => f x.2
  rw [List.map_map] at hsum
  rw [spread, List.map_map]
  refine Eq.trans (congrArg List.sum (List.map_congr_left fun g _ => ?_)) hsum
  rw [Function.comp_apply, List.map_map]
  rfl

/-- Things are in the group of their place. -/
theorem route_of_mem_spread {g : Nat × List α} (hg : g ∈ spread route as) :
    ∀ a ∈ g.2, route a = g.1 := by
  intro a ha
  obtain ⟨h, hh, rfl⟩ := List.mem_map.1 hg
  obtain ⟨i, _, rfl⟩ := List.mem_map.1 hh
  obtain ⟨x, hx, rfl⟩ := List.mem_map.1 ha
  obtain ⟨hmem, hroute⟩ := List.mem_filter.1 hx
  obtain ⟨b, _, rfl⟩ := List.mem_map.1 hmem
  simpa using hroute

/-- The group of a place has all things of the place, in order. -/
theorem eq_filter_of_mem_spread {g : Nat × List α} (hg : g ∈ spread route as) :
    g.2 = as.filter (route · == g.1) := by
  obtain ⟨h, hh, rfl⟩ := List.mem_map.1 hg
  obtain ⟨i, _, rfl⟩ := List.mem_map.1 hh
  dsimp only
  rw [List.filter_map, List.map_map]
  exact List.map_id _

/-- Everything is in one of the groups, and once. -/
theorem perm_spread (route : α → Nat) (as : List α) :
    ((spread route as).flatMap Prod.snd).Perm as := by
  classical
  refine List.perm_iff_count.2 fun a => ?_
  have hcount : ∀ l : List α, (l.map fun b => if b = a then 1 else 0).sum = l.count a := by
    intro l
    induction l with
    | nil => rfl
    | cons b l ih => simp [List.count_cons, ih, Nat.add_comm]
  have hsum := sum_spread route as fun b => if b = a then 1 else 0
  simp only [hcount] at hsum
  rw [List.count_flatMap, ← hsum]
  rfl

variable (p : Partitioner) (events : List Event)

theorem split_eq : p.split events = spread p.partitionOfEvent events := rfl

/-- Every event of a list is in one of its parts. -/
theorem sum_length_split :
    ((p.split events).map fun part => part.2.length).sum = events.length := by
  have hsum := sum_spread p.partitionOfEvent events fun _ => 1
  simpa only [split_eq, List.map_const', List.sum_replicate_nat, Nat.mul_one] using hsum

end Partitioner

namespace Processor

variable (p : Processor) (entries : List Entry)

theorem groupRollups_eq : p.groupRollups entries =
    Partitioner.spread (fun x => p.partitioner.partitionOf x.1.statistic.toBytes) entries := rfl

/-- Entries go to partitions that there are. -/
theorem lt_of_mem_groupRollups {g : Nat × List Entry} (hg : g ∈ p.groupRollups entries) :
    g.1 < p.partitioner.count := by
  rw [groupRollups_eq] at hg
  obtain ⟨⟨x, _, hroute⟩, _⟩ := Partitioner.mem_spread hg
  rw [← hroute]
  exact Partitioner.partitionOf_lt _ _

end Processor

end StatRollup
