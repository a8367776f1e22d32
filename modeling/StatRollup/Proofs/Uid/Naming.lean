import StatRollup.Proofs.Uid.Commons
import StatRollup.Proofs.Uid.Mirror

/-!
# The names of identifiers

A dictionary over tables in memory is truthful when its identifiers are issued, one for each name,
and memory and tables agree (`Sound` and `Mirrored`).  Then it answers both ways: the name of the
identifier of a name is that name (`getName_ok`).

No question that is put to a dictionary changes that (`Truthful.ask`).  Only the creation of a name
writes to the tables, and it writes both of them.
-/

namespace StatRollup.Uid

namespace Dictionary

variable {d d' : Dictionary Tables} {names : List String} {n : String} {u : Uid} {m : Memory}

/-- Identifiers are issued, one for each name, and memory and tables agree. -/
structure Truthful (d : Dictionary Tables) : Prop where
  sound : d.Sound
  mirrored : d.Mirrored

/-- From one dictionary to a truthful one with the same tables. -/
structure Rereads (d d' : Dictionary Tables) : Prop where
  recalls : d.Recalls d'
  sound : d'.Sound

theorem Rereads.store (h : d.Rereads d') : d'.store = d.store := h.recalls.store

theorem Rereads.truthful (h : d.Rereads d') : d'.Truthful := ⟨h.sound, h.recalls.mirrored⟩

theorem Truthful.refl (h : d.Truthful) : d.Rereads d := ⟨h.mirrored.refl, h.sound⟩

/-- A memory that agrees with the tables is all that another dictionary with them needs. -/
theorem Truthful.rereads (h : d.Truthful) (hd : d.Recalls d') : d.Rereads d' := by
  refine ⟨hd, ?_, ?_, ?_, hd.mirrored.remembered⟩
  · rw [hd.store]
    exact h.sound.width
  · rw [hd.store]
    exact h.sound.injective
  · rw [hd.store]
    exact h.sound.issued

theorem Rereads.trans {d'' : Dictionary Tables} (h : d.Rereads d') (h' : d'.Rereads d'') :
    d.Rereads d'' :=
  ⟨⟨h'.store.trans h.store, h'.recalls.mirrored⟩, h'.sound⟩

/-- The identifier of a name, if it has one. -/
theorem get_ok (h : d.Truthful) (n : String) :
    ∃ d', d.get n = (.ok (d.store.idOf? n), d') ∧ d.Rereads d' := by
  obtain ⟨d', heq, hrecalls⟩ := get_eq h.mirrored n
  exact ⟨d', heq, h.rereads hrecalls⟩

/-- Remembering every mapping. -/
theorem warm_ok (h : d.Truthful) :
    ∃ d', d.warm = (.ok d.store.pairs.length, d') ∧ d.Rereads d' := by
  obtain ⟨d', heq, hrecalls⟩ := warm_eq h.mirrored
  exact ⟨d', heq, h.rereads hrecalls⟩

/-! ## Creating names -/

/-- From a dictionary to a truthful one in which names of a list were created. -/
structure Grows (names : List String) (d d' : Dictionary Tables) : Prop where
  creates : d.Creates names d'
  truthful : d'.Truthful

theorem Truthful.grows (h : d.Truthful) (room : d.HasRoom names) : d.Grows names d :=
  ⟨.refl h.sound room, h⟩

theorem Grows.trans {d'' : Dictionary Tables} (h : d.Grows names d') (h' : d'.Grows names d'') :
    d.Grows names d'' := ⟨h.creates.trans h'.creates, h'.truthful⟩

theorem Rereads.grows (h : d.Rereads d') (room : d.HasRoom names) : d.Grows names d' := by
  refine ⟨⟨h.truthful.sound, ?_, ?_⟩, h.truthful⟩
  · rw [HasRoom, h.store]
    exact room
  · rw [h.store]
    exact .refl _

/-- A new name is written to both tables. -/
theorem Truthful.created (h : d.Truthful) (room : d.HasRoom names) (hn : n ∈ names)
    (hnew : d.store.idOf? n = none)
    (hu : Dialogue.candidate d.store.width (d.store.sequence + 1) = .ok u) :
    Truthful { d with
      store := Dictionary.created d.store n u, memory := d.memory.remember n u } := by
  have hcreates := creates_created h.sound room hn hnew hu
  have hfresh : ∀ {m}, d.store.idOf? m ≠ some u := by
    rintro m hm
    obtain rfl : m = n := hcreates.sound.injective (hcreates.extends_.keeps hm)
      (idOf?_created_self hnew u)
    rw [hnew] at hm
    cases hm
  exact ⟨hcreates.sound, h.mirrored.created hnew fun m => hfresh⟩

theorem Truthful.create (h : d.Truthful) (room : d.HasRoom names) (hn : n ∈ names) :
    d.Grows names (d.getOrCreate n).2 := by
  obtain ⟨u, d', heq, hobtains⟩ := getOrCreate_ok h.sound room hn
  rw [heq]
  cases hobtains with
  | remembered hm => exact (h.rereads (h.mirrored.idOf hm).1).grows room
  | mapped hu => exact (h.rereads (h.mirrored.remember hu)).grows room
  | created hnew hu => exact ⟨creates_created h.sound room hn hnew hu, h.created room hn hnew hu⟩

end Dictionary

/-! ## Asking for anything -/

/-- The names that a question may create. -/
def Question.creates {g : Goal} : Question g → List String
  | .create n => [n]
  | _ => []

/-- Puts a question to a dictionary. -/
def Dictionary.ask {σ : Type} [Store σ] {g : Goal} (d : Dictionary σ) (q : Question g) :
    Except Fault g.Result × Dictionary σ := d.complete (q.begin d.memory)

/-- Questions leave a dictionary truthful. -/
theorem Dictionary.Truthful.ask {d : Dictionary Tables} {names : List String} {g : Goal}
    (h : d.Truthful) (room : d.HasRoom names) (q : Question g)
    (hq : ∀ n ∈ q.creates, n ∈ names) : d.Grows names (d.ask q).2 := by
  cases q with
  | find n =>
    obtain ⟨d', heq, hreads⟩ := get_ok h n
    rw [show d.ask (.find n) = _ from heq]
    exact hreads.grows room
  | create n => exact h.create room (hq n List.mem_cons_self)
  | nameOf u =>
    cases hu : u.isRolledUp with
    | true =>
      rw [show d.ask (.nameOf u) = _ from getName_rolledUp d hu]
      exact h.grows room
    | false =>
      obtain ⟨d', heq, hrecalls⟩ := getName_eq h.mirrored hu
      rw [show d.ask (.nameOf u) = _ from heq]
      exact (h.rereads hrecalls).grows room
  | warm =>
    obtain ⟨d', heq, hreads⟩ := warm_ok h
    rw [show d.ask .warm = _ from heq]
    exact hreads.grows room

end StatRollup.Uid
