import Mathlib.Algebra.BigOperators.Group.List.Basic
import Mathlib.Algebra.Ring.Nat
import StatRollup.Aggregate

/-!
# Merging in any grouping

Aggregates that belong together meet in windows, in mailboxes and in the store, so they are merged
two by two in a grouping that nobody chooses.  What a merge makes of two lists of aggregates says
only what the lists add up to (`Sums.merge`): the totals up to the largest count, and the first
identifiers up to the cap.  Both survive being cut off early.  A sum that stopped at the largest
count stays there, and identifiers beyond the cap of a part are beyond the cap of the whole.  So
any grouping of the same aggregates gives the same numbers (`merged_in_any_grouping`).
-/

namespace StatRollup

/-- The first identifiers of two lists of which only the first were kept. -/
theorem appendCapped_take (cap : Nat) (xs ys : List EventId) :
    appendCapped cap (xs.take cap) (ys.take cap) = (xs ++ ys).take cap := by
  rw [appendCapped, List.take_append, List.take_take, List.length_take]
  congr 2
  omega

/-! ## From the left -/

section

variable {α : Type} {merge : α → α → Except Fault α} {as : List α} {held? : Option α}

/-- What is held after a value comes: the value, or the held one with the value merged into it. -/
def mergeInto (merge : α → α → Except Fault α) (held? : Option α) (a : α) : Except Fault α :=
  match held? with
  | none => .ok a
  | some held => merge held a

/-- Values merged from the left, each into what came out before. -/
def mergedFromLeft (merge : α → α → Except Fault α) : List α → Except Fault (Option α)
  | [] => .ok none
  | a :: as => (as.foldlM merge a).map some

/-- A value that comes last is merged into what the others make. -/
theorem mergedFromLeft_concat (h : mergedFromLeft merge as = .ok held?) (a : α) :
    mergedFromLeft merge (as ++ [a]) = (mergeInto merge held? a).map some := by
  cases as with
  | nil =>
    cases h
    rfl
  | cons x as =>
    rw [mergedFromLeft] at h
    rw [List.cons_append, mergedFromLeft, List.foldlM_append]
    cases hfold : as.foldlM merge x with
    | error f =>
      rw [hfold] at h
      cases h
    | ok held =>
      rw [hfold] at h
      cases h
      show Except.map some (List.foldlM merge held [a]) = _
      rw [List.foldlM_cons, mergeInto]
      cases merge held a <;> rfl

end

namespace Aggregate

/-! ## What aggregates add up to -/

/-- An aggregate is what aggregates of its kind add up to. -/
structure Sums (cap : Nat) (as : List Aggregate) (c : Aggregate) : Prop where
  kind : ∀ a ∈ as, a.kind = c.kind
  total : c.total.toNat = min (UInt64.size - 1) (as.map fun a => a.total.toNat).sum
  ids : c.ids = (as.flatMap ids).take cap

namespace Sums

variable {cap : Nat} {as bs : List Aggregate} {a b c : Aggregate}

theorem single (h : a.ids.length ≤ cap) : Sums cap [a] a where
  kind x hx := by simp_all
  total := by
    have hlt : a.total.toNat < UInt64.size := a.total.toNat_lt_size
    simp only [List.map_cons, List.map_nil, List.sum_cons, List.sum_nil]
    omega
  ids := by simp [List.take_of_length_le h]

/-- Merging adds up. -/
theorem merge (ha : Sums cap as a) (hb : Sums cap bs b) (hc : a.merge cap b = .ok c) :
    Sums cap (as ++ bs) c := by
  have hkind : a.kind = b.kind := (merge_isOk_iff cap a b).1 ⟨c, hc⟩
  constructor
  · intro x hx
    rw [kind_merge hc]
    rcases List.mem_append.1 hx with hx | hx
    · exact ha.kind x hx
    · exact (hb.kind x hx).trans hkind.symm
  · rw [total_merge hc, toNat_addCounts, ha.total, hb.total, List.map_append, List.sum_append]
    omega
  · rw [ids_merge hc, ha.ids, hb.ids, appendCapped_take, List.flatMap_append]

end Sums

/-! ## Groupings -/

/-- How aggregates are merged two by two. -/
inductive Grouping where
  /-- One aggregate as it is. -/
  | one (a : Aggregate)
  /-- What comes of one grouping, with what comes of another merged into it. -/
  | both (receiver other : Grouping)

namespace Grouping

/-- The aggregates of a grouping, in order. -/
def leaves : Grouping → List Aggregate
  | one a => [a]
  | both receiver other => receiver.leaves ++ other.leaves

/-- Merges as grouped.  The first merge that fails is the answer. -/
def merged (cap : Nat) : Grouping → Except Fault Aggregate
  | one a => .ok a
  | both receiver other => do (← receiver.merged cap).merge cap (← other.merged cap)

variable {cap : Nat} {t : Grouping} {kind : Statistic.Kind} {c : Aggregate} {f : Fault}

/-- Aggregates of one kind can be merged in any grouping. -/
theorem merged_ok (hkind : ∀ a ∈ t.leaves, a.kind = kind)
    (hids : ∀ a ∈ t.leaves, a.ids.length ≤ cap) :
    ∃ c, t.merged cap = .ok c ∧ c.kind = kind ∧ Sums cap t.leaves c := by
  induction t with
  | one a =>
    simp only [leaves, List.mem_singleton, forall_eq] at hkind hids
    exact ⟨a, rfl, hkind, .single hids⟩
  | both receiver other ihr iho =>
    simp only [leaves, List.mem_append, or_imp, forall_and] at hkind hids
    obtain ⟨a, ha, hakind, hasums⟩ := ihr hkind.1 hids.1
    obtain ⟨b, hb, hbkind, hbsums⟩ := iho hkind.2 hids.2
    obtain ⟨c, hc⟩ := (merge_isOk_iff cap a b).2 (hakind.trans hbkind.symm)
    refine ⟨c, ?_, (kind_merge hc).trans hakind, hasums.merge hbsums hc⟩
    simp only [merged, ha, hb]
    exact hc

/-- What was merged is of one kind. -/
theorem kind_of_merged (h : t.merged cap = .ok c) : ∀ a ∈ t.leaves, a.kind = c.kind := by
  induction t generalizing c with
  | one a =>
    cases h
    simp [leaves]
  | both receiver other ihr iho =>
    obtain ⟨a, ha, h⟩ := bind_eq_ok.1 h
    obtain ⟨b, hb, h⟩ := bind_eq_ok.1 h
    have hkind : a.kind = b.kind := (merge_isOk_iff cap a b).1 ⟨c, h⟩
    intro x hx
    rw [kind_merge h]
    rcases List.mem_append.1 hx with hx | hx
    · exact ihr ha x hx
    · exact (iho hb x hx).trans hkind.symm

/-- A merge that fails in a grouping is one of two kinds. -/
theorem kind_of_merged_error (h : t.merged cap = .error f) : f.kind = .aggregateMismatch := by
  induction t with
  | one a => cases h
  | both receiver other ihr iho =>
    rcases bind_eq_error.1 h with h | ⟨a, _, h⟩
    · exact ihr h
    rcases bind_eq_error.1 h with h | ⟨b, _, h⟩
    · exact iho h
    · rw [merge_eq_error h]
      rfl

/-- Counts and values do not go together in any grouping. -/
theorem merged_mixed (hcount : ∃ a ∈ t.leaves, a.kind = .count)
    (hvalue : ∃ a ∈ t.leaves, a.kind = .value) :
    ∃ f, t.merged cap = .error f ∧ f.kind = .aggregateMismatch := by
  cases h : t.merged cap with
  | error f => exact ⟨f, rfl, kind_of_merged_error h⟩
  | ok c =>
    obtain ⟨a, ha, hakind⟩ := hcount
    obtain ⟨b, hb, hbkind⟩ := hvalue
    have heq := (kind_of_merged h a ha).trans (kind_of_merged h b hb).symm
    rw [hakind, hbkind] at heq
    cases heq

/-- Aggregates of one kind, with no more identifiers than the cap, merge in any order and grouping
into the same numbers: the exact sum of their totals, up to the largest count, and as many
identifiers as the cap allows, in the order of the grouping.  A count and a value among them make
some merge fail, and a receiver that could not be merged into is what it was.  Aggregates of events
have no more identifiers than the cap. -/
theorem merged_in_any_grouping (cap : Nat) (as : List Aggregate) (t : Grouping)
    (hleaves : t.leaves.Perm as) :
    (∀ kind, (∀ a ∈ as, a.kind = kind) → (∀ a ∈ as, a.ids.length ≤ cap) →
      ∃ c, t.merged cap = .ok c ∧ c.kind = kind ∧
        c.total.toNat = min (2 ^ 64 - 1) (as.map fun a => a.total.toNat).sum ∧
        c.ids = (t.leaves.flatMap ids).take cap ∧
        c.ids.length = min cap (as.map fun a => a.ids.length).sum ∧
        ((as.map fun a => a.ids.length).sum ≤ cap → c.ids.Perm (as.flatMap ids))) ∧
    ((∃ a ∈ as, a.kind = .count) → (∃ a ∈ as, a.kind = .value) →
      ∃ f, t.merged cap = .error f ∧ f.kind = .aggregateMismatch) ∧
    (∀ a b f, (mergeFrom cap a b).1 = .error f → (mergeFrom cap a b).2 = a) ∧
    ∀ e, (ofEvent cap e).ids.length ≤ cap := by
  refine ⟨fun kind hkind hids => ?_, fun hcount hvalue => ?_, fun a b f => mergeFrom_of_error,
    length_ids_ofEvent cap⟩
  · obtain ⟨c, hc, hckind, hsums⟩ := merged_ok (fun a ha => hkind a (hleaves.mem_iff.1 ha))
      (fun a ha => hids a (hleaves.mem_iff.1 ha))
    have hperm : (t.leaves.flatMap ids).Perm (as.flatMap ids) := hleaves.flatMap_right ids
    have hlength : (as.flatMap ids).length = (as.map fun a => a.ids.length).sum :=
      List.length_flatMap
    refine ⟨c, hc, hckind, ?_, hsums.ids, ?_, fun hfits => ?_⟩
    · rw [hsums.total, (hleaves.map _).sum_eq]
    · rw [hsums.ids, List.length_take, hperm.length_eq, hlength]
    · rw [hsums.ids, List.take_of_length_le (by rw [hperm.length_eq, hlength]; exact hfits)]
      exact hperm
  · refine merged_mixed ?_ ?_
    · obtain ⟨a, ha, hkind⟩ := hcount
      exact ⟨a, hleaves.mem_iff.2 ha, hkind⟩
    · obtain ⟨a, ha, hkind⟩ := hvalue
      exact ⟨a, hleaves.mem_iff.2 ha, hkind⟩

/-- A count that is almost the largest, and two small ones. -/
def countsOfThree : List Aggregate :=
  [.count 1 [[.number 1]], .count 0xFFFFFFFFFFFFFFFE [[.number 2], [.number 3]],
    .count 5 [[.number 4]]]

/-- The last one first, and the other two merged before they are merged into it. -/
def lastFirst : Grouping :=
  .both (.one (.count 5 [[.number 4]]))
    (.both (.one (.count 0xFFFFFFFFFFFFFFFE [[.number 2], [.number 3]]))
      (.one (.count 1 [[.number 1]])))

theorem merged_in_any_grouping_lastFirst :
    (∃ c, lastFirst.merged 2 = .ok c ∧ c.total.toNat = 2 ^ 64 - 1 ∧
      c.ids = [[.number 4], [.number 2]]) ∧
    ∃ f, (Grouping.both (.one (.value 0 1 0 0 [])) (.one (.count 1 []))).merged 2 = .error f ∧
      f.kind = .aggregateMismatch := by
  have hperm : lastFirst.leaves.Perm countsOfThree := List.reverse_perm countsOfThree
  obtain ⟨counts, -, -⟩ := merged_in_any_grouping 2 countsOfThree lastFirst hperm
  obtain ⟨c, hc, -, htotal, hids, -⟩ := counts .count (by simp [countsOfThree, Aggregate.kind])
    (by simp [countsOfThree, Aggregate.ids])
  obtain ⟨-, mixed, -⟩ := merged_in_any_grouping 2 [.value 0 1 0 0 [], .count 1 []]
    (.both (.one (.value 0 1 0 0 [])) (.one (.count 1 []))) (.refl _)
  refine ⟨⟨c, hc, htotal.trans (by decide), hids.trans rfl⟩, mixed ?_ ?_⟩
  · exact ⟨.count 1 [], by simp, rfl⟩
  · exact ⟨.value 0 1 0 0 [], by simp, rfl⟩

end Grouping

end Aggregate

end StatRollup
