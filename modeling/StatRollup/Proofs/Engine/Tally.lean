import Mathlib.Algebra.BigOperators.Group.List.Basic
import Mathlib.Algebra.Ring.Nat
import StatRollup.Engine.Worker

/-!
# Counts that are collected in parts

A count stops at the largest 64-bit number, so a sum that is collected part by part may come out
smaller than the sum of all amounts.  `Tallies` is what remains true: nothing is counted twice, and
nothing is missing as long as the sum is a 64-bit number.  Parts may be merged in any order, and
other parts may be added on both sides.

The second half weighs windows.  Holding a value for a key changes the weight of a window by the
weight of that value alone, and adding a list of values adds up their weights.
-/

namespace StatRollup

/-- The largest count. -/
def ceiling : Nat := UInt64.size - 1

/-- A count is a sum of amounts, but for parts that stopped at the largest count. -/
structure Tallies (held total : Nat) : Prop where
  /-- Nothing is counted twice. -/
  le : held ≤ total
  /-- Nothing is missing below the largest count. -/
  capped : min ceiling held = min ceiling total

namespace Tallies

variable {a b c d : Nat}

theorem refl (a : Nat) : Tallies a a := ⟨Nat.le_refl a, rfl⟩

theorem of_eq (h : a = b) : Tallies a b := by
  subst h
  exact refl a

theorem trans (hab : Tallies a b) (hbc : Tallies b c) : Tallies a c :=
  ⟨Nat.le_trans hab.le hbc.le, hab.capped.trans hbc.capped⟩

theorem add (hab : Tallies a b) (hcd : Tallies c d) : Tallies (a + c) (b + d) := by
  obtain ⟨hle, hcap⟩ := hab
  obtain ⟨hle', hcap'⟩ := hcd
  refine ⟨by omega, ?_⟩
  omega

theorem add_right (h : Tallies a b) (c : Nat) : Tallies (a + c) (b + c) := h.add (refl c)

theorem add_left (c : Nat) (h : Tallies a b) : Tallies (c + a) (c + b) := (refl c).add h

/-- Two merged counts. -/
theorem of_addCounts (m n : UInt64) : Tallies (addCounts m n).toNat (m.toNat + n.toNat) := by
  rw [toNat_addCounts]
  constructor
  · exact Nat.min_le_left _ _
  · unfold ceiling
    omega

/-- A sum that fits is collected exactly. -/
theorem eq (h : Tallies a b) (hfit : b ≤ ceiling) : a = b := by
  obtain ⟨hle, hcap⟩ := h
  omega

/-- A single count is the sum up to the largest count. -/
theorem eq_min (h : Tallies a b) (hfit : a ≤ ceiling) : a = min ceiling b := by
  obtain ⟨hle, hcap⟩ := h
  omega

end Tallies

/-! ## The weight of a window -/

namespace Window

variable {κ α : Type} [Ord κ]

/-- The weights of all entries, added up. -/
def weight (f : κ × α → Nat) (w : Window κ α) : Nat := (w.entries.toList.map f).sum

/-- Every entry satisfies a condition. -/
def All (ok : κ → α → Prop) (w : Window κ α) : Prop := ∀ k a, w.get? k = some a → ok k a

variable [Std.TransOrd κ] [Std.LawfulEqOrd κ] {ok : κ → α → Prop} {f : κ × α → Nat}
  {merge : α → α → Except Fault α} {w w' : Window κ α} {k : κ} {a held : α}

omit [Std.LawfulEqOrd κ] in
theorem all_of_empty (h : w.entries = {}) : w.All ok := by
  intro k a hk
  simp [get?, h, Std.TreeMap.get?_eq_getElem?] at hk

theorem mem_toList (h : (k, a) ∈ w.entries.toList) : w.get? k = some a :=
  Std.TreeMap.mem_toList_iff_getElem?_eq_some.1 h

theorem all_put (hw : w.All ok) (h : ok k a) : (w.put k a).All ok := by
  intro j b hb
  simp only [get?, put, Std.TreeMap.get?_eq_getElem?, Std.TreeMap.getElem?_insert] at hb
  split at hb
  · next hk =>
    cases Std.LawfulEqCmp.eq_of_compare hk
    cases hb
    exact h
  · exact hw j b hb

/-- Holding a value takes the place of the value held before, and the rest stays. -/
theorem weight_put [DecidableEq κ] (w : Window κ α) (k : κ) :
    ∃ rest, w.weight f = rest + ((w.get? k).map fun held => f (k, held)).getD 0 ∧
      ∀ a, (w.put k a).weight f = rest + f (k, a) := by
  have put : ∀ a, (w.put k a).weight f =
      ((w.entries.toList.filter (¬k == ·.1)).map f).sum + f (k, a) := by
    intro a
    have perm := Std.TreeMap.toList_insert_perm (t := w.entries) (k := k) (v := a)
    rw [weight, put, (perm.map f).sum_eq, Nat.add_comm]
    rfl
  refine ⟨_, ?_, put⟩
  cases hk : w.get? k with
  | none =>
    have hall : w.entries.toList.filter (¬k == ·.1) = w.entries.toList := by
      rw [List.filter_eq_self]
      intro e he
      have hne : k ≠ e.1 := by
        intro heq
        rw [heq, mem_toList (a := e.2) he] at hk
        cases hk
      simpa using hne
    rw [hall]
    rfl
  | some held =>
    -- Putting the held value back gives the window itself.
    have same : (w.entries.insert k held).toList = w.entries.toList := by
      refine (Std.TreeMap.Equiv.of_forall_constGet?_eq fun j => ?_).toList_eq
      rw [Std.TreeMap.getElem?_insert]
      split
      · next hj =>
        cases Std.LawfulEqCmp.eq_of_compare hj
        exact hk.symm
      · rfl
    calc w.weight f = (w.put k held).weight f := by simp only [weight, Window.put, same]
      _ = _ := put held

/-! ## Adding -/

variable {ι : Type} {weights : ι → κ × α → Nat}

/-- Values of a condition merge, into a value of the condition that weighs as much as both, by any
of several weights. -/
structure Merges (merge : α → α → Except Fault α) (ok : κ → α → Prop)
    (weights : ι → κ × α → Nat) : Prop where
  merged {k : κ} {a b : α} (ha : ok k a) (hb : ok k b) :
    ∃ c, merge a b = .ok c ∧ ok k c ∧
      ∀ i, Tallies (weights i (k, c)) (weights i (k, a) + weights i (k, b))

section

variable [DecidableEq κ] (m : Merges merge ok weights)
include m

theorem add_ok (hw : w.All ok) (h : ok k a) :
    ∃ w', w.add merge k a = .ok w' ∧ w'.All ok ∧
      ∀ i, Tallies (w'.weight (weights i)) (w.weight (weights i) + weights i (k, a)) := by
  rw [add]
  cases hk : w.get? k with
  | none =>
    refine ⟨w.put k a, rfl, all_put hw h, fun i => .of_eq ?_⟩
    obtain ⟨rest, hrest, hput⟩ := weight_put (f := weights i) w k
    rw [hput, hrest, hk]
    rfl
  | some held =>
    obtain ⟨c, hc, hok, htally⟩ := m.merged (hw k held hk) h
    refine ⟨w.put k c, by simp [hc, Except.map], all_put hw hok, fun i => ?_⟩
    obtain ⟨rest, hrest, hput⟩ := weight_put (f := weights i) w k
    rw [hput, hrest, hk, Nat.add_assoc]
    exact (htally i).add_left rest

/-- Values of a condition can all be added, and their weights add up. -/
theorem addAll_ok (hw : w.All ok) (l : List (κ × α)) (hl : ∀ e ∈ l, ok e.1 e.2) :
    ∃ w', w.addAll merge l = .ok w' ∧ w'.All ok ∧
      ∀ i, Tallies (w'.weight (weights i)) (w.weight (weights i) + (l.map (weights i)).sum) := by
  induction l generalizing w with
  | nil => exact ⟨w, rfl, hw, fun i => .of_eq (by simp)⟩
  | cons e l ih =>
    obtain ⟨he, hrest⟩ := List.forall_mem_cons.1 hl
    obtain ⟨v, hv, hall, htally⟩ := add_ok m hw he
    obtain ⟨w', hw', hall', htally'⟩ := ih hall hrest
    refine ⟨w', ?_, hall', fun i => (htally' i).trans ?_⟩
    · rw [addAll, hv]
      exact hw'
    · rw [List.map_cons, List.sum_cons, ← Nat.add_assoc]
      exact (htally i).add_right _

end

omit [Std.TransOrd κ] [Std.LawfulEqOrd κ] in
/-- When nothing is refused, adding each value is adding all of them. -/
theorem addEach_of_addAll {l : List (κ × α)} (h : w.addAll merge l = .ok w') :
    w.addEach merge l = w' := by
  induction l generalizing w with
  | nil =>
    cases h
    rfl
  | cons e l ih =>
    obtain ⟨k, a⟩ := e
    rw [addAll] at h
    rw [addEach]
    cases hadd : w.add merge k a with
    | error f =>
      rw [hadd] at h
      cases h
    | ok v =>
      rw [hadd] at h
      exact ih h

end Window

end StatRollup
