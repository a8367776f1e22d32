import StatRollup.Engine.Undo
import StatRollup.Proofs.Aggregate.Grouping

/-!
# Windows that add all values or none

A window is changed in place, by a merge that may fail but then keeps the value it was given.  What
a key holds is the left fold of the merge over the values that were added for it since the window
was last drained, and additions that failed left no trace (`folds_or_restores`).

Two facts carry this.  As far as adding in place succeeds it is the addition of `Window.add` and
`Window.addAll` (`addAll_outcome`), so the folds are followed there.  And where it fails, replaying
the log backwards undoes one change after another: what the log restores stays the same while
values are added and logged (`alike_restore`).
-/

namespace StatRollup

namespace MergeInPlace

/-- The merge of waiting aggregates, in place and as a function. -/
theorem outcome_mergeFrom (cap : Nat) : outcome (Pending.mergeFrom cap) = Pending.merge cap := by
  funext held next
  rw [outcome, Pending.mergeFrom, Pending.merge, Aggregate.merge_eq_mergeFrom]
  cases (held.aggregate.mergeFrom cap next.aggregate).1 <;> rfl

theorem keepsOnFailure_mergeFrom (cap : Nat) : KeepsOnFailure (Pending.mergeFrom cap) := by
  intro held next e h
  simp only [Pending.mergeFrom] at h ⊢
  rw [Aggregate.mergeFrom_of_error h]

end MergeInPlace

/-- A change in place, read as a function, succeeds when the change does. -/
theorem map_snd_eq_ok {β : Type} {x : Except Fault Unit × β} {b : β} :
    (x.1.map fun _ => x.2) = .ok b ↔ x = (.ok (), b) := by
  obtain ⟨result, b'⟩ := x
  cases result with
  | error e => simp [Except.map]
  | ok _ => simp [Except.map]

namespace Window

variable {κ α : Type} [Ord κ] {f : MergeInPlace α} {merge : α → α → Except Fault α}
  {w w' v : Window κ α} {k : κ} {a : α} {e : Fault} {l given : List (κ × α)}
  {log : List (κ × Option α)}

/-! ## In place and as a function -/

theorem add_outcome (f : MergeInPlace α) (w : Window κ α) (k : κ) (a : α) :
    w.add f.outcome k a = (w.addInPlace f k a).1.map fun _ => (w.addInPlace f k a).2 := by
  rw [add, addInPlace]
  cases w.get? k with
  | none => rfl
  | some held =>
    simp only [MergeInPlace.outcome]
    cases (f held a).1 <;> rfl

/-- Whatever the log, additions in place succeed together when they succeed as a function, and
make the same window. -/
theorem addAllLogged_outcome (f : MergeInPlace α) (w : Window κ α) (log : List (κ × Option α))
    (l : List (κ × α)) :
    w.addAll f.outcome l = (w.addAllLogged f log l).1.map fun _ => (w.addAllLogged f log l).2 := by
  induction l generalizing w log with
  | nil => rfl
  | cons x l ih =>
    obtain ⟨k, a⟩ := x
    rw [addAll, add_outcome, addAllLogged]
    cases hadd : w.addInPlace f k a with
    | mk result next =>
      cases result with
      | error e => rfl
      | ok _ => exact ih next ((k, w.get? k) :: log)

/-- Adding all values in place is adding them all, as far as it succeeds. -/
theorem addAll_outcome (f : MergeInPlace α) (w : Window κ α) (l : List (κ × α)) :
    w.addAll f.outcome l = (w.addAllInPlace f l).1.map fun _ => (w.addAllInPlace f l).2 :=
  addAllLogged_outcome f w [] l

theorem addInPlace_eq_ok : w.addInPlace f k a = (.ok (), w') ↔ w.add f.outcome k a = .ok w' := by
  rw [add_outcome, map_snd_eq_ok]

theorem addAllInPlace_eq_ok :
    w.addAllInPlace f l = (.ok (), w') ↔ w.addAll f.outcome l = .ok w' := by
  rw [addAll_outcome, map_snd_eq_ok]

/-! ## Undoing -/

/-- Windows with the same thresholds that hold the same values. -/
structure Alike (w w' : Window κ α) : Prop where
  frame : w' = { w with entries := w'.entries }
  held : ∀ k, w'.get? k = w.get? k

theorem Alike.trans (h : w.Alike w') (h' : w'.Alike v) : w.Alike v := by
  refine ⟨?_, fun k => (h'.held k).trans (h.held k)⟩
  rw [h'.frame, h.frame]

theorem frame_putBack (w : Window κ α) (k : κ) (before : Option α) :
    w.putBack k before = { w with entries := (w.putBack k before).entries } := by
  cases before <;> rfl

/-- An addition changes the value of its key alone, also when it fails. -/
theorem addInPlace_snd (f : MergeInPlace α) (w : Window κ α) (k : κ) (a : α) :
    ∃ b, (w.addInPlace f k a).2 = w.put k b := by
  rw [addInPlace]
  cases w.get? k with
  | none => exact ⟨a, rfl⟩
  | some held => exact ⟨(f held a).2, rfl⟩

section

variable [Std.TransOrd κ]

theorem get?_put (w : Window κ α) (k j : κ) (a : α) :
    (w.put k a).get? j = if compare k j = .eq then some a else w.get? j := by
  simp [get?, put, Std.TreeMap.get?_eq_getElem?, Std.TreeMap.getElem?_insert]

theorem get?_putBack (w : Window κ α) (k j : κ) (before : Option α) :
    (w.putBack k before).get? j = if compare k j = .eq then before else w.get? j := by
  cases before with
  | some a => exact get?_put w k j a
  | none => simp [get?, putBack, Std.TreeMap.get?_eq_getElem?, Std.TreeMap.getElem?_erase]

theorem Alike.putBack (h : w.Alike w') (k : κ) (before : Option α) :
    (w.putBack k before).Alike (w'.putBack k before) := by
  constructor
  · rw [frame_putBack w, frame_putBack w', h.frame]
  · intro j
    rw [get?_putBack, get?_putBack, h.held]

/-- A log restores the same values in windows that hold the same values. -/
theorem Alike.restore (h : w.Alike w') (log : List (κ × Option α)) :
    (w.restore log).Alike (w'.restore log) := by
  induction log generalizing w w' with
  | nil => exact h
  | cons x log ih => exact ih (h.putBack x.1 x.2)

variable [Std.LawfulEqOrd κ]

theorem Alike.toList_eq (h : w.Alike w') : w'.entries.toList = w.entries.toList :=
  (Std.TreeMap.Equiv.of_forall_constGet?_eq h.held).toList_eq

/-- Putting back what a key held undoes a change of its value. -/
theorem alike_put_putBack (w : Window κ α) (k : κ) (a : α) :
    w.Alike ((w.put k a).putBack k (w.get? k)) := by
  constructor
  · rw [frame_putBack]
    rfl
  · intro j
    rw [get?_putBack, get?_put]
    split
    · next hkj => rw [Std.LawfulEqCmp.eq_of_compare hkj]
    · rfl

/-- An addition that fails changes no value. -/
theorem alike_addInPlace (hf : f.KeepsOnFailure) (h : (w.addInPlace f k a).1 = .error e) :
    w.Alike (w.addInPlace f k a).2 := by
  rw [addInPlace] at h ⊢
  cases hk : w.get? k with
  | none =>
    rw [hk] at h
    cases h
  | some held =>
    rw [hk] at h
    simp only [hf held a e h]
    refine ⟨rfl, fun j => ?_⟩
    rw [get?_put]
    split
    · next hkj => rw [← Std.LawfulEqCmp.eq_of_compare hkj, hk]
    · rfl

/-- Additions that fail leave what the log restores. -/
theorem alike_restore (hf : f.KeepsOnFailure) (h : (w.addAllLogged f log l).1 = .error e) :
    (w.restore log).Alike (w.addAllLogged f log l).2 := by
  induction l generalizing w log with
  | nil => cases h
  | cons x l ih =>
    obtain ⟨k, a⟩ := x
    obtain ⟨b, hb⟩ := addInPlace_snd f w k a
    rw [addAllLogged] at h ⊢
    cases hadd : w.addInPlace f k a with
    | mk result next =>
      rw [hadd] at h hb
      obtain rfl : next = w.put k b := hb
      cases result with
      | error e' =>
        have hkept : w.Alike (w.addInPlace f k a).2 := alike_addInPlace hf (by rw [hadd])
        rw [hadd] at hkept
        exact hkept.restore log
      | ok _ => exact ((alike_put_putBack w k b).restore log).trans (ih h)

theorem alike_addAllInPlace (hf : f.KeepsOnFailure) (h : (w.addAllInPlace f l).1 = .error e) :
    w.Alike (w.addAllInPlace f l).2 := by
  have hrestored : (w.restore []).Alike (w.addAllLogged f [] l).2 := alike_restore hf h
  exact hrestored

end

/-- Entries that a worker adds to its window at once may be added in place: the outcome is the same,
and a window that they do not fit is as before. -/
theorem addAll_pending (cap : Nat) (w : Window Key Pending) (l : List (Key × Pending)) :
    w.addAll (Pending.merge cap) l =
        (w.addAllInPlace (Pending.mergeFrom cap) l).1.map
          (fun _ => (w.addAllInPlace (Pending.mergeFrom cap) l).2) ∧
      ∀ e, (w.addAllInPlace (Pending.mergeFrom cap) l).1 = .error e →
        w.Alike (w.addAllInPlace (Pending.mergeFrom cap) l).2 := by
  constructor
  · rw [← MergeInPlace.outcome_mergeFrom]
    exact addAll_outcome _ w l
  · intro e
    exact alike_addAllInPlace (MergeInPlace.keepsOnFailure_mergeFrom cap)

/-! ## Requests -/

/-- Something that a window is asked to do. -/
inductive Request (κ α : Type) where
  /-- To add a value for a key. -/
  | add (k : κ) (a : α)
  /-- To add all values of a list, or none. -/
  | addAll (entries : List (κ × α))
  /-- To give away what it holds. -/
  | drain (now : Nat)

/-- What a window answers. -/
inductive Answer (κ α : Type) where
  /-- Whether everything was added. -/
  | added (result : Except Fault Unit)
  /-- What the window held. -/
  | drained (entries : List (κ × α))

/-- Does as a request says. -/
def perform (f : MergeInPlace α) (w : Window κ α) : Request κ α → Answer κ α × Window κ α
  | .add k a => (.added (w.addInPlace f k a).1, (w.addInPlace f k a).2)
  | .addAll entries => (.added (w.addAllInPlace f entries).1, (w.addAllInPlace f entries).2)
  | .drain now => (.drained (w.drain now).1, (w.drain now).2)

/-- Does as requests say, one after another. -/
def run (f : MergeInPlace α) (w : Window κ α) : List (Request κ α) → List (Answer κ α) × Window κ α
  | [] => ([], w)
  | r :: rest =>
    let (answer, next) := w.perform f r
    let (answers, last) := next.run f rest
    (answer :: answers, last)

/-- Values that are added together are those that are added one by one. -/
theorem addAllInPlace_eq_ok_iff_run {entries : List (κ × α)} :
    w.addAllInPlace f entries = (.ok (), w') ↔
      w.run f (entries.map fun x => .add x.1 x.2) = (entries.map fun _ => .added (.ok ()), w') := by
  rw [addAllInPlace_eq_ok]
  induction entries generalizing w with
  | nil => simp [addAll, run]
  | cons x entries ih =>
    simp only [addAll, add_outcome, List.map_cons, run, perform]
    cases hadd : w.addInPlace f x.1 x.2 with
    | mk result next =>
      cases result with
      | error e => simp [Except.map, bind, Except.bind]
      | ok _ => simp [Except.map, bind, Except.bind, ih, Prod.ext_iff]

/-! ## Folds -/

/-- The values for a key in a list, in order. -/
def valuesOf (k : κ) (l : List (κ × α)) : List α :=
  l.filterMap fun x => if compare x.1 k = .eq then some x.2 else none

/-- Every key holds what the values that were given for it make from the left. -/
def Folds (merge : α → α → Except Fault α) (given : List (κ × α)) (w : Window κ α) : Prop :=
  ∀ k, mergedFromLeft merge (valuesOf k given) = .ok (w.get? k)

theorem Folds.alike (hw : Folds merge given w) (h : w.Alike w') : Folds merge given w' := by
  intro k
  rw [h.held]
  exact hw k

variable [Std.TransOrd κ]

theorem folds_of_empty (h : w.entries = {}) : Folds merge [] w := by
  intro k
  simp [valuesOf, mergedFromLeft, get?, h, Std.TreeMap.get?_eq_getElem?]

variable [Std.LawfulEqOrd κ]

theorem Folds.add (hw : Folds merge given w) (h : w.add merge k a = .ok w') :
    Folds merge (given ++ [(k, a)]) w' := by
  obtain ⟨b, hb, rfl⟩ : ∃ b, mergeInto merge (w.get? k) a = .ok b ∧ w' = w.put k b := by
    rcases add_eq_ok.1 h with ⟨hk, rfl⟩ | ⟨held, b, hk, hb, rfl⟩
    · exact ⟨a, by rw [hk]; rfl, rfl⟩
    · exact ⟨b, by rw [hk]; exact hb, rfl⟩
  intro j
  rw [valuesOf, List.filterMap_append, get?_put]
  by_cases hkj : compare k j = .eq
  · obtain rfl : k = j := Std.LawfulEqCmp.eq_of_compare hkj
    have hlast := mergedFromLeft_concat (hw k) a
    rw [hb] at hlast
    simpa [valuesOf, Except.map] using hlast
  · simpa [hkj, valuesOf] using hw j

theorem Folds.addAll (hw : Folds merge given w) (h : w.addAll merge l = .ok w') :
    Folds merge (given ++ l) w' := by
  induction l generalizing w given with
  | nil =>
    cases h
    simpa using hw
  | cons x l ih =>
    obtain ⟨next, hadd, h⟩ := bind_eq_ok.1 h
    rw [List.append_cons]
    exact ih (hw.add hadd) h

/-- The values that were added since the last drain, after one more request was answered. -/
def take (given : List (κ × α)) : Request κ α × Answer κ α → List (κ × α)
  | (.add k a, .added (.ok _)) => given ++ [(k, a)]
  | (.addAll entries, .added (.ok _)) => given ++ entries
  | (.drain _, _) => []
  | _ => given

/-- The values of successful additions since the last drain, in order. -/
def sinceDrain (log : List (Request κ α × Answer κ α)) : List (κ × α) := log.foldl take []

theorem Folds.perform (hf : f.KeepsOnFailure) (hw : Folds f.outcome given w) (r : Request κ α) :
    Folds f.outcome (take given (r, (w.perform f r).1)) (w.perform f r).2 := by
  cases r with
  | add k a =>
    rw [Window.perform]
    cases hadd : w.addInPlace f k a with
    | mk result next =>
      cases result with
      | ok _ => exact hw.add (addInPlace_eq_ok.1 hadd)
      | error e =>
        have hkept : w.Alike (w.addInPlace f k a).2 := alike_addInPlace hf (by rw [hadd])
        rw [hadd] at hkept
        exact hw.alike hkept
  | addAll entries =>
    rw [Window.perform]
    cases hadd : w.addAllInPlace f entries with
    | mk result next =>
      cases result with
      | ok _ => exact hw.addAll (addAllInPlace_eq_ok.1 hadd)
      | error e =>
        have hkept : w.Alike (w.addAllInPlace f entries).2 :=
          alike_addAllInPlace hf (by rw [hadd])
        rw [hadd] at hkept
        exact hw.alike hkept
  | drain now => exact folds_of_empty rfl

theorem Folds.run (hf : f.KeepsOnFailure) (hw : Folds f.outcome given w)
    (requests : List (Request κ α)) :
    Folds f.outcome ((requests.zip (w.run f requests).1).foldl take given)
      (w.run f requests).2 := by
  induction requests generalizing w given with
  | nil => exact hw
  | cons r requests ih => exact ih (hw.perform hf r)

/-! ## All or none -/

/-- What a drain gives away, key by key, and what it leaves. -/
theorem drain_spec (w : Window κ α) (now : Nat) :
    ((w.drain now).1.map Prod.fst).Nodup ∧
    (∀ k a, (k, a) ∈ (w.drain now).1 ↔ w.get? k = some a) ∧
    ∀ k, (w.drain now).2.get? k = none := by
  refine ⟨?_, fun k a => ?_, fun k => ?_⟩
  · rw [drain, Std.TreeMap.map_fst_toList_eq_keys]
    exact Std.TreeMap.nodup_keys
  · rw [drain, get?, Std.TreeMap.get?_eq_getElem?]
    exact Std.TreeMap.mem_toList_iff_getElem?_eq_some
  · simp [drain, clear, get?, Std.TreeMap.get?_eq_getElem?]

/-- A window whose merge keeps the held value when it fails holds, for every key, what the values
that were added for it since the last drain make from the left.  Values to be added together are
all added, as one by one, or change nothing; and a drain gives away every key once, with the value
that it holds, and leaves nothing. -/
theorem folds_or_restores (hf : f.KeepsOnFailure) (minBatch maxInterval opened : Nat)
    (requests : List (Request κ α)) {answers : List (Answer κ α)} {w : Window κ α}
    (hrun : (empty minBatch maxInterval opened).run f requests = (answers, w)) :
    (∀ k, mergedFromLeft f.outcome (valuesOf k (sinceDrain (requests.zip answers)))
      = .ok (w.get? k)) ∧
    (∀ entries e, (w.addAllInPlace f entries).1 = .error e →
      w.Alike (w.addAllInPlace f entries).2 ∧
        (w.addAllInPlace f entries).2.entries.toList = w.entries.toList) ∧
    (∀ entries w', w.addAllInPlace f entries = (.ok (), w') ↔
      w.run f (entries.map fun x => .add x.1 x.2)
        = (entries.map fun _ => .added (.ok ()), w')) ∧
    ∀ now, ((w.drain now).1.map Prod.fst).Nodup ∧
      (∀ k a, (k, a) ∈ (w.drain now).1 ↔ w.get? k = some a) ∧
      ∀ k, (w.drain now).2.get? k = none := by
  refine ⟨?_, fun entries e h => ?_, fun _ _ => addAllInPlace_eq_ok_iff_run, w.drain_spec⟩
  · have hempty : Folds f.outcome [] (empty minBatch maxInterval opened : Window κ α) :=
      folds_of_empty rfl
    have hfolds := hempty.run hf requests
    rw [hrun] at hfolds
    exact hfolds
  · have hkept := alike_addAllInPlace hf h
    exact ⟨hkept, hkept.toList_eq⟩

/-- Counts for two keys; several values together, of which the last is no count; and counts once
more. -/
def countsAndValue : List (Request Nat Aggregate) :=
  [.add 1 (.count 2 []), .addAll [(1, .count 3 []), (2, .count 4 []), (1, .value 0 1 0 0 [])],
    .addAll [(2, .count 5 []), (2, .count 6 [])]]

theorem folds_or_restores_countsAndValue :
    ∃ w : Window Nat Aggregate, (w.get? 1).map Aggregate.total = some 2 ∧
      (w.get? 2).map Aggregate.total = some 11 ∧
      w.Alike (w.addAllInPlace (Aggregate.mergeFrom 1)
        [(2, .count 1 []), (3, .count 1 []), (3, .value 0 1 0 0 [])]).2 := by
  have hkeeps : MergeInPlace.KeepsOnFailure (Aggregate.mergeFrom 1) := fun _ _ _ =>
    Aggregate.mergeFrom_of_error
  obtain ⟨hfold, hall, -⟩ := folds_or_restores hkeeps 10 1000 0 countsAndValue rfl
  refine ⟨_, ?_, ?_, (hall _ _ rfl).1⟩
  · rw [← Except.ok.inj (hfold 1)]
    rfl
  · rw [← Except.ok.inj (hfold 2)]
    rfl

end Window

end StatRollup
