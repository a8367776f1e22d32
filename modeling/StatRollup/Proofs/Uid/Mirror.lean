import StatRollup.Proofs.Uid.Creation

/-!
# Memory and tables that agree

A dictionary is mirrored when an identifier has a name exactly if the name is mapped to it, and
whatever is remembered, under names or under identifiers, is mapped.  Then it makes no difference
whether an answer comes from the memory or from the tables, so every answer is the one of the tables
(`get_eq`, `getName_eq`, `warm_eq`).

This asks nothing of the width, and of the sequence only that the next number is not that of an
identifier which is mapped (`Mirrored.created`).
-/

namespace StatRollup.Uid

namespace Dictionary

variable {d d' : Dictionary Tables} {n : String} {u : Uid} {m : Memory}

/-- Both tables say the same, and so does all that is remembered. -/
structure Mirrored (d : Dictionary Tables) : Prop where
  /-- An identifier has a name when the name is mapped to it. -/
  named {n : String} {u : Uid} : d.store.idOf? n = some u ↔ d.store.nameOf? u = some n
  /-- What is remembered under a name is mapped. -/
  remembered : d.memory.All fun n u => d.store.idOf? n = some u
  /-- What is remembered under an identifier is mapped. -/
  recalled {n : String} {u : Uid} : (u, n) ∈ d.memory.byId.entries → d.store.idOf? n = some u

/-- From one dictionary to another with the same tables. -/
structure Recalls (d d' : Dictionary Tables) : Prop where
  store : d'.store = d.store
  mirrored : d'.Mirrored

/-- A dictionary that never was asked anything is mirrored. -/
theorem mirrored_new (width : Nat) (sequence : UInt64) (capacity : Nat) (policy : RetryPolicy) :
    (new (.empty width sequence) capacity policy).Mirrored where
  named := by simp [new]
  remembered := by
    refine ⟨fun h => ?_, ?_⟩
    · simp [new, Memory.empty, Recent.empty] at h
    · simp only [new, Memory.empty, Recent.empty]
      omega
  recalled h := by simp [new, Memory.empty, Recent.empty] at h

namespace Mirrored

theorem refl (h : d.Mirrored) : d.Recalls d := ⟨rfl, h⟩

/-! ## What is remembered -/

/-- Remembering what is mapped. -/
theorem remember (h : d.Mirrored) (hu : d.store.idOf? n = some u) :
    d.Recalls { d with memory := d.memory.remember n u } := by
  refine ⟨rfl, h.named, h.remembered.remember hu, fun hmem => ?_⟩
  rcases Recent.mem_put hmem with heq | hold
  · cases heq
    exact hu
  · exact h.recalled hold

theorem idOf {found : Option Uid} (h : d.Mirrored) (hm : d.memory.idOf n = (found, m)) :
    d.Recalls { d with memory := m } ∧ ∀ u, found = some u → d.store.idOf? n = some u := by
  obtain ⟨hall, hfound⟩ := h.remembered.idOf hm
  refine ⟨⟨rfl, h.named, hall, fun hmem => h.recalled ?_⟩, hfound⟩
  cases hm
  exact hmem

theorem nameOf {found : Option String} (h : d.Mirrored) (hm : d.memory.nameOf u = (found, m)) :
    d.Recalls { d with memory := m } ∧ ∀ n, found = some n → d.store.idOf? n = some u := by
  refine ⟨⟨rfl, h.named, h.remembered.nameOf hm, fun hmem => h.recalled ?_⟩, fun n hn => ?_⟩
  · cases hm
    exact Recent.mem_use hmem
  · cases hm
    exact h.recalled (Recent.mem_of_use hn)

end Mirrored

/-- What is not remembered leaves the memory as it is. -/
theorem nameOf_of_none (h : (m.nameOf u).1 = none) : m.nameOf u = (none, m) := by
  simp only [Memory.nameOf, Recent.use] at h ⊢
  split at h
  · cases h
  · rfl

/-! ## Asking for names and identifiers -/

/-- The identifier of a name, if it has one. -/
theorem get_eq (h : d.Mirrored) (n : String) :
    ∃ d', d.get n = (.ok (d.store.idOf? n), d') ∧ d.Recalls d' := by
  obtain ⟨k, hk⟩ : ∃ k, d.budget = k + 6 := ⟨d.budget - 6, by unfold budget; omega⟩
  cases hm : d.memory.idOf n with
  | mk found memory =>
    obtain ⟨hreads, hfound⟩ := h.idOf hm
    cases found with
    | some u =>
      refine ⟨_, ?_, hreads⟩
      rw [get, Dialogue.findName, hm, complete_done, hfound u rfl]
    | none =>
      have hmiss := idOf_of_none (congrArg Prod.fst hm)
      cases hu : d.store.idOf? n with
      | some u =>
        refine ⟨_, ?_, h.remember hu⟩
        rw [get, Dialogue.findName, hmiss, complete, hk]
        simp [play, step, Store.perform, Tables.perform, hu, Dialogue.resume, Dialogue.answered]
      | none =>
        refine ⟨_, ?_, h.refl⟩
        rw [get, Dialogue.findName, hmiss, complete, hk]
        simp [play, step, Store.perform, Tables.perform, hu, Dialogue.resume, Dialogue.answered]

/-- The rolled-up identifier has a name of its own. -/
theorem getName_rolledUp (d : Dictionary Tables) (hu : u.isRolledUp = true) :
    d.getName u = (.ok rolledUpName, d) := by
  rw [getName, Dialogue.findId, if_pos hu, complete_done]

/-- Any other identifier has the name in the tables, and it is corrupt if there is none. -/
theorem getName_eq (h : d.Mirrored) (hu : u.isRolledUp = false) :
    ∃ d', d.getName u = ((d.store.nameOf? u).elim (.error (.unnamed u)) .ok, d') ∧
      d.Recalls d' := by
  obtain ⟨k, hk⟩ : ∃ k, d.budget = k + 6 := ⟨d.budget - 6, by unfold budget; omega⟩
  have hroll : ¬ u.isRolledUp = true := by simp [hu]
  cases hm : d.memory.nameOf u with
  | mk found memory =>
    obtain ⟨hreads, hfound⟩ := h.nameOf hm
    cases found with
    | some n =>
      refine ⟨_, ?_, hreads⟩
      rw [getName, Dialogue.findId, if_neg hroll, hm, complete_done, h.named.1 (hfound n rfl)]
      rfl
    | none =>
      have hmiss := nameOf_of_none (congrArg Prod.fst hm)
      cases hn : d.store.nameOf? u with
      | some n =>
        refine ⟨_, ?_, h.remember (h.named.2 hn)⟩
        rw [getName, Dialogue.findId, if_neg hroll, hmiss, complete, hk]
        simp [play, step, Store.perform, Tables.perform, hn, Dialogue.resume, Dialogue.answered]
      | none =>
        refine ⟨_, ?_, h.refl⟩
        rw [getName, Dialogue.findId, if_neg hroll, hmiss, complete, hk]
        simp [play, step, Store.perform, Tables.perform, hn, Dialogue.resume, Dialogue.answered]

/-- Remembering every mapping. -/
theorem warm_eq (h : d.Mirrored) :
    ∃ d', d.warm = (.ok d.store.pairs.length, d') ∧ d.Recalls d' := by
  obtain ⟨k, hk⟩ : ∃ k, d.budget = k + 6 := ⟨d.budget - 6, by unfold budget; omega⟩
  have hfold : ∀ (pairs : List (String × Uid)) (m : Memory), d.Recalls { d with memory := m } →
      (∀ x ∈ pairs, d.store.idOf? x.1 = some x.2) →
      d.Recalls { d with memory := pairs.foldl (fun m x => m.remember x.1 x.2) m } := by
    intro pairs
    induction pairs with
    | nil => exact fun _ hm _ => hm
    | cons x pairs ih =>
      intro m hm hall
      obtain ⟨hx, hall⟩ := List.forall_mem_cons.1 hall
      exact ih _ ⟨rfl, (hm.mirrored.remember hx).mirrored⟩ hall
  refine ⟨_, ?_, hfold d.store.pairs d.memory h.refl fun x hx => Tables.mem_pairs.1 hx⟩
  rw [warm, Dialogue.warm, complete, hk]
  simp [play, step, Store.perform, Tables.perform, Dialogue.resume, Dialogue.answered]

/-! ## Creating names -/

theorem nameOf?_created {v : Uid} :
    (created d.store n u).nameOf? v = if u = v then some n else d.store.nameOf? v := by
  rw [created, Tables.nameOf?_mapName, Tables.nameOf?_putName]
  rfl

/-- A new name is written to both tables, under an identifier that no other name has. -/
theorem Mirrored.created (h : d.Mirrored) (hnew : d.store.idOf? n = none)
    (hfresh : ∀ m, d.store.idOf? m ≠ some u) :
    Mirrored { d with
      store := Dictionary.created d.store n u, memory := d.memory.remember n u } := by
  refine ⟨fun {m v} => ?_, remembered_created hnew h.remembered u, fun {m v} hmem => ?_⟩
  · rw [idOf?_created hnew, nameOf?_created]
    by_cases hm : n = m
    · subst hm
      rw [if_pos rfl]
      split
      · next huv => exact ⟨fun _ => rfl, fun _ => congrArg some huv⟩
      · next huv =>
        refine ⟨fun heq => absurd (Option.some.inj heq) huv, fun heq => ?_⟩
        rw [← h.named, hnew] at heq
        cases heq
    · rw [if_neg hm]
      split
      · next huv =>
        subst huv
        exact ⟨fun heq => absurd heq (hfresh m), fun heq => absurd (Option.some.inj heq) hm⟩
      · exact h.named
  · rcases Recent.mem_put hmem with heq | hold
    · cases heq
      exact idOf?_created_self hnew u
    · exact (extends_created hnew u).keeps (h.recalled hold)

/-- A number that is lost changes no mapping. -/
theorem Mirrored.skip (h : d.Mirrored) (sequence : UInt64) :
    Mirrored { d with store := { d.store with sequence } } :=
  ⟨h.named, h.remembered, h.recalled⟩

end Dictionary

end StatRollup.Uid
