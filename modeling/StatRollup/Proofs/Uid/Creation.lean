import StatRollup.Proofs.Uid.Recall

/-!
# Creating names undisturbed

A dictionary over tables in memory that nobody else talks to gives every name its identifier, and
keeps the identifiers of all other names.  It needs a number for every name that has none yet:
`HasRoom` counts the names of a list that are not mapped and asks the sequence to have as many
numbers left.  `create_ok` says that such a dictionary never refuses one of those names, and that
it has room for the others afterwards.
-/

namespace StatRollup.Uid

/-! ## Tables that grow -/

/-- Every mapping of the first tables is one of the second. -/
structure Tables.Extends (t t' : Tables) : Prop where
  width : t'.width = t.width
  keeps {n : String} {u : Uid} : t.idOf? n = some u → t'.idOf? n = some u

namespace Tables.Extends

variable {t t' t'' : Tables}

theorem refl (t : Tables) : t.Extends t := ⟨rfl, id⟩

theorem trans (h : t.Extends t') (h' : t'.Extends t'') : t.Extends t'' :=
  ⟨h'.width.trans h.width, fun hu => h'.keeps (h.keeps hu)⟩

end Tables.Extends

namespace Dictionary

variable {d d' : Dictionary Tables} {names : List String} {n m : String} {u : Uid}

/-! ## The invariant -/

/-- No two names share an identifier, every identifier was issued, and what is remembered is
mapped. -/
structure Sound (d : Dictionary Tables) : Prop where
  /-- The width is one. -/
  width : isWidth d.store.width = true
  /-- No two names share an identifier. -/
  injective {n m : String} {u : Uid} : d.store.idOf? n = some u → d.store.idOf? m = some u → n = m
  /-- Every identifier of a name was issued. -/
  issued {n : String} {u : Uid} : d.store.idOf? n = some u → d.store.Issued u
  /-- What is remembered is mapped. -/
  remembered : d.memory.All fun n u => d.store.idOf? n = some u

/-- Number of names of a list that have no identifier yet. -/
def unmapped (t : Tables) (names : List String) : Nat :=
  names.countP fun n => (t.idOf? n).isNone

/-- There is a number left for every name of a list that has no identifier yet. -/
def HasRoom (d : Dictionary Tables) (names : List String) : Prop :=
  d.store.sequence.toNat + unmapped d.store names ≤ maxIssuable d.store.width

/-- A dictionary that never was asked anything is sound. -/
theorem sound_new {width : Nat} (h : isWidth width = true) (sequence : UInt64) (capacity : Nat)
    (policy : RetryPolicy) : (new (.empty width sequence) capacity policy).Sound where
  width := h
  injective h := by simp [new] at h
  issued h := by simp [new] at h
  remembered := by
    refine ⟨fun h => ?_, ?_⟩
    · simp [new, Memory.empty, Recent.empty] at h
    · simp only [new, Memory.empty, Recent.empty]
      omega

/-- What a dictionary is like after names of a list were created. -/
structure Creates (names : List String) (d d' : Dictionary Tables) : Prop where
  sound : d'.Sound
  room : d'.HasRoom names
  extends_ : d.store.Extends d'.store

theorem Creates.refl (h : d.Sound) (room : d.HasRoom names) : Creates names d d :=
  ⟨h, room, .refl _⟩

theorem Creates.trans {d'' : Dictionary Tables} (h : Creates names d d')
    (h' : Creates names d' d'') : Creates names d d'' :=
  ⟨h'.sound, h'.room, h.extends_.trans h'.extends_⟩

/-! ## One name -/

theorem unmapped_mapName (hn : n ∈ names) (hnew : d.store.idOf? n = none) {t : Tables}
    (ht : t.idOf? n = some u) (hkeep : ∀ m, m ≠ n → t.idOf? m = d.store.idOf? m) :
    unmapped t names < unmapped d.store names := by
  have heq : unmapped t names =
      ((names.filter fun m => (d.store.idOf? m).isNone).filter fun m => m ≠ n).length := by
    rw [unmapped, List.countP_eq_length_filter, List.filter_filter]
    congr 1
    refine List.filter_congr fun m _ => ?_
    by_cases hm : m = n
    · simp [hm, ht]
    · simp [hm, hkeep m hm]
  rw [heq, unmapped, List.countP_eq_length_filter, List.length_filter_lt_length_iff_exists]
  exact ⟨n, List.mem_filter.2 ⟨hn, by simp [hnew]⟩, by simp⟩

/-- The tables after a name was created. -/
def created (t : Tables) (n : String) (u : Uid) : Tables :=
  ({ t with sequence := t.sequence + 1 }.putName u n).mapName n u

theorem idOf?_created (hnew : d.store.idOf? n = none) :
    (created d.store n u).idOf? m = if n = m then some u else d.store.idOf? m := by
  have hmapped : (created d.store n u).idOf? m =
      if n = m ∧ d.store.idOf? n = none then some u else d.store.idOf? m := Tables.idOf?_mapName
  rw [hmapped]
  simp [hnew]

/-- The next number makes an identifier when there is room for a new name. -/
theorem candidate_ok (h : d.Sound) (room : d.HasRoom names) (hn : n ∈ names)
    (hnew : d.store.idOf? n = none) :
    ∃ u, Dialogue.candidate d.store.width (d.store.sequence + 1) = .ok u ∧
      (d.store.sequence + 1).toNat = d.store.sequence.toNat + 1 := by
  have hw := isWidth_iff.1 h.width
  have hmax : maxIssuable d.store.width + 2 = 256 ^ d.store.width := by
    have hpow : 256 ^ 1 ≤ 256 ^ d.store.width := Nat.pow_le_pow_right (by decide) hw.1
    rw [maxIssuable, allOnes_eq hw.2]
    omega
  have htop : 256 ^ d.store.width ≤ 256 ^ 8 := Nat.pow_le_pow_right (by decide) hw.2
  have hpos : 0 < unmapped d.store names := by
    rw [unmapped, List.countP_pos_iff]
    exact ⟨n, hn, by simp [hnew]⟩
  rw [HasRoom] at room
  have hnext := Tables.toNat_sequence_add_one (t := d.store) (by omega)
  rw [Dialogue.candidate, if_neg (by omega), ofNat, if_pos h.width, ofNat?, dif_pos hw,
    dif_pos (by omega)]
  exact ⟨_, rfl, hnext⟩

section

variable (h : d.Sound) (hnew : d.store.idOf? n = none)
  (hu : Dialogue.candidate d.store.width (d.store.sequence + 1) = .ok u)
  (hnext : (d.store.sequence + 1).toNat = d.store.sequence.toNat + 1)

include hnew

theorem idOf?_created_self (u : Uid) : (created d.store n u).idOf? n = some u := by
  rw [idOf?_created hnew, if_pos rfl]

theorem extends_created (u : Uid) : d.store.Extends (created d.store n u) := by
  refine ⟨rfl, fun {m v} hv => ?_⟩
  rw [idOf?_created hnew, if_neg, hv]
  rintro rfl
  rw [hnew] at hv
  cases hv

/-- What was remembered stays mapped, and so is what is remembered of the creation. -/
theorem remembered_created (hm : d.memory.All fun n u => d.store.idOf? n = some u) (u : Uid) :
    (d.memory.remember n u).All fun m v => (created d.store n u).idOf? m = some v :=
  Memory.All.remember ⟨fun hp => (extends_created hnew u).keeps (hm.pairs hp), hm.room⟩
    (idOf?_created_self hnew u)

include h hu hnext

/-- A new identifier has a new number, so it is that of no other name. -/
theorem sound_created :
    Sound { d with store := created d.store n u, memory := d.memory.remember n u } := by
  obtain ⟨hwidth, hvalue, hle⟩ := Dialogue.candidate_eq_ok hu
  have hfresh : ∀ {m v}, d.store.idOf? m = some v → v ≠ u := by
    rintro m v hv rfl
    have := (h.issued hv).le_sequence
    omega
  refine ⟨h.width, fun {a b v} ha hb => ?_, fun {a v} ha => ?_,
    remembered_created hnew h.remembered u⟩
  · rw [idOf?_created hnew] at ha hb
    split at ha <;> split at hb
    · next h1 h2 => exact h1.symm.trans h2
    · cases ha
      exact absurd rfl (hfresh hb)
    · cases hb
      exact absurd rfl (hfresh ha)
    · exact h.injective ha hb
  · rw [idOf?_created hnew] at ha
    split at ha
    · cases ha
      refine ⟨hwidth, by omega, ?_, Nat.le_of_eq hvalue⟩
      rw [hvalue]
      exact hle
    · exact (h.issued ha).mono rfl (by
        show d.store.sequence.toNat ≤ (d.store.sequence + 1).toNat
        omega)

end

/-- A name without identifier is given the next number. -/
theorem creates_created (h : d.Sound) (room : d.HasRoom names) (hn : n ∈ names)
    (hnew : d.store.idOf? n = none)
    (hu : Dialogue.candidate d.store.width (d.store.sequence + 1) = .ok u) :
    Creates names d { d with store := created d.store n u, memory := d.memory.remember n u } := by
  obtain ⟨_, _, hnext⟩ := candidate_ok h room hn hnew
  refine ⟨sound_created h hnew hu hnext, ?_, extends_created hnew u⟩
  have hless : unmapped (created d.store n u) names < unmapped d.store names := by
    refine unmapped_mapName hn hnew (idOf?_created_self hnew u) fun m hne => ?_
    rw [idOf?_created hnew, if_neg (Ne.symm hne)]
  rw [HasRoom] at room
  show (d.store.sequence + 1).toNat + unmapped (created d.store n u) names ≤
    maxIssuable d.store.width
  omega

/-! ## The whole dialogue -/

/-- What is not remembered leaves the memory as it is. -/
theorem idOf_of_none {m : Memory} (h : (m.idOf n).1 = none) : m.idOf n = (none, m) := by
  simp only [Memory.idOf, Recent.use] at h ⊢
  split at h
  · cases h
  · rfl

theorem width_eq (d : Dictionary Tables) : d.width = d.store.width := rfl

/-- A dialogue that is over before it asks anything changes no more than the memory. -/
@[simp] theorem complete_done {g : Goal} (result : Except Fault g.Result) (memory : Memory) :
    d.complete (.done result, memory) = (result, { d with memory }) := by
  rw [complete]
  cases budget d <;> rfl

/-- How a dictionary comes by the identifier of a name, and what it is like afterwards. -/
inductive Obtains (d : Dictionary Tables) (n : String) : Uid → Dictionary Tables → Prop where
  /-- The name is remembered. -/
  | remembered {u : Uid} {memory : Memory} : d.memory.idOf n = (some u, memory) →
      Obtains d n u { d with memory }
  /-- The name is mapped. -/
  | mapped {u : Uid} : d.store.idOf? n = some u →
      Obtains d n u { d with memory := d.memory.remember n u }
  /-- The name is new. -/
  | created {u : Uid} : d.store.idOf? n = none →
      Dialogue.candidate d.store.width (d.store.sequence + 1) = .ok u →
      Obtains d n u { d with store := created d.store n u, memory := d.memory.remember n u }

/-- A dictionary comes by the identifier of a name, unless the number drawn for a new one makes
none.  That number is lost. -/
theorem getOrCreate_cases (d : Dictionary Tables) (n : String) :
    (∃ u d', d.getOrCreate n = (.ok u, d') ∧ d.Obtains n u d') ∨
    (∃ f, d.getOrCreate n =
        (.error f, { d with store := { d.store with sequence := d.store.sequence + 1 } }) ∧
      d.store.idOf? n = none ∧
      Dialogue.candidate d.store.width (d.store.sequence + 1) = .error f) := by
  obtain ⟨k, hk⟩ : ∃ k, d.budget = k + 6 := ⟨d.budget - 6, by unfold budget; omega⟩
  cases hm : d.memory.idOf n with
  | mk found memory =>
    cases found with
    | some u =>
      refine .inl ⟨u, _, ?_, .remembered hm⟩
      rw [getOrCreate, Dialogue.createName, hm, complete_done]
    | none =>
      have hmiss := idOf_of_none (congrArg Prod.fst hm)
      cases hu : d.store.idOf? n with
      | some u =>
        refine .inl ⟨u, _, ?_, .mapped hu⟩
        rw [getOrCreate, Dialogue.createName, hmiss, complete, hk]
        simp [play, step, Store.perform, Tables.perform, hu, Dialogue.resume, Dialogue.answered]
      | none =>
        cases hcand : Dialogue.candidate d.store.width (d.store.sequence + 1) with
        | ok u =>
          have hlook :
              ({ d.store with sequence := d.store.sequence + 1 }.putName u n).idOf? n = none := hu
          refine .inl ⟨u, _, ?_, .created hu hcand⟩
          rw [getOrCreate, Dialogue.createName, hmiss, complete, hk]
          simp [play, step, Store.perform, Tables.perform, hu, Dialogue.resume, width_eq,
            Dialogue.answered, Dialogue.lookAgain, hmiss, hcand, hlook, Dictionary.created]
        | error f =>
          refine .inr ⟨f, ?_, rfl, rfl⟩
          rw [getOrCreate, Dialogue.createName, hmiss, complete, hk]
          simp [play, step, Store.perform, Tables.perform, hu, Dialogue.resume, width_eq,
            Dialogue.answered, Dialogue.lookAgain, hmiss, hcand]

/-- A dictionary with room for a name comes by its identifier. -/
theorem getOrCreate_ok (h : d.Sound) (room : d.HasRoom names) (hn : n ∈ names) :
    ∃ u d', d.getOrCreate n = (.ok u, d') ∧ d.Obtains n u d' := by
  rcases getOrCreate_cases d n with hobtains | ⟨f, _, hnew, hrefused⟩
  · exact hobtains
  · obtain ⟨u, hcand, _⟩ := candidate_ok h room hn hnew
    rw [hrefused] at hcand
    cases hcand

/-- Creating a name gives its identifier, and only the identifier of that name is new. -/
theorem create_ok (h : d.Sound) (room : d.HasRoom names) (hn : n ∈ names) :
    ∃ u d', d.getOrCreate n = (.ok u, d') ∧ d'.store.idOf? n = some u ∧ Creates names d d' := by
  obtain ⟨u, d', heq, hobtains⟩ := getOrCreate_ok h room hn
  refine ⟨u, d', heq, ?_⟩
  cases hobtains with
  | remembered hm =>
    obtain ⟨hall, hfound⟩ := h.remembered.idOf hm
    exact ⟨hfound u rfl, ⟨h.width, h.injective, h.issued, hall⟩, room, .refl _⟩
  | mapped hu =>
    exact ⟨hu, ⟨h.width, h.injective, h.issued, h.remembered.remember hu⟩, room, .refl _⟩
  | created hnew hu =>
    exact ⟨idOf?_created_self hnew u, creates_created h room hn hnew hu⟩

end Dictionary

end StatRollup.Uid
