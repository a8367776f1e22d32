import Mathlib.Data.List.Dedup
import Mathlib.Data.List.Perm.Basic
import StatRollup.Proofs.Uid.Naming
import StatRollup.Proofs.Uid.Transparency

/-!
# Names that are created one after another

`createInOrder` asks a dictionary for the identifiers of a list of names and stops at the first
name that is refused.  When none is, tables in memory have grown by the names of the list that they
did not map (`Backed.createInOrder`), and have each of them once (`Gains.perm`).

This holds of a dictionary that is *backed*: what it remembers under a name is mapped, and so is
the name of every identifier.  Any history leaves it backed (`Backed.replies`), also one in which
the sequence passes its end and comes back to numbers that were drawn before.
-/

namespace StatRollup.Uid

/-! ## Tables -/

namespace Tables

variable {t t' t'' : Tables} {names names' : List String} {n m : String}

/-- From one table to another that maps the names of a list as well, and keeps what was mapped. -/
structure Gains (names : List String) (t t' : Tables) : Prop where
  extends_ : t.Extends t'
  isSome_iff {n : String} : (t'.idOf? n).isSome ↔ (t.idOf? n).isSome ∨ n ∈ names

theorem Gains.nil (t : Tables) : t.Gains [] t := ⟨.refl t, by simp⟩

theorem Gains.append (h : t.Gains names t') (h' : t'.Gains names' t'') :
    t.Gains (names ++ names') t'' := by
  refine ⟨h.extends_.trans h'.extends_, fun {n} => ?_⟩
  rw [h'.isSome_iff, h.isSome_iff, List.mem_append, or_assoc]

/-- A name that is mapped adds nothing. -/
theorem gains_of_mapped (h : (t.idOf? n).isSome) : t.Gains [n] t := by
  refine ⟨.refl t, fun {m} => ⟨.inl, fun hm => hm.elim id fun hm => ?_⟩⟩
  rwa [List.mem_singleton.1 hm]

theorem nodup_names (t : Tables) : (t.pairs.map Prod.fst).Nodup := by
  have hkeys : (t.pairs.map Prod.fst).Perm t.forward.keys := by
    rw [← Std.TreeMap.map_fst_toList_eq_keys]
    exact (perm_pairs t).map Prod.fst
  exact hkeys.nodup_iff.2 Std.TreeMap.nodup_keys

theorem mem_names : n ∈ t.pairs.map Prod.fst ↔ (t.idOf? n).isSome := by
  rw [Option.isSome_iff_exists, List.mem_map]
  constructor
  · rintro ⟨⟨n, u⟩, hu, rfl⟩
    exact ⟨u, mem_pairs.1 hu⟩
  · rintro ⟨u, hu⟩
    exact ⟨(n, u), mem_pairs.2 hu, rfl⟩

/-- The names that are mapped are those that were, and the new ones of the list, each once. -/
theorem Gains.perm (h : t.Gains names t') :
    (t'.pairs.map Prod.fst).Perm
      (t.pairs.map Prod.fst ++ names.dedup.filter fun n => (t.idOf? n).isNone) := by
  have hdisjoint : List.Disjoint (t.pairs.map Prod.fst)
      (names.dedup.filter fun n => (t.idOf? n).isNone) := by
    intro n hn hnew
    have hmapped := mem_names.1 hn
    have hnone := (List.mem_filter.1 hnew).2
    rw [Option.isNone_iff_eq_none] at hnone
    rw [hnone] at hmapped
    cases hmapped
  have hnodup := t.nodup_names.append (names.nodup_dedup.filter _) hdisjoint
  refine (List.perm_ext_iff_of_nodup t'.nodup_names hnodup).2 fun n => ?_
  rw [mem_names, h.isSome_iff, List.mem_append, mem_names, List.mem_filter, List.mem_dedup]
  cases t.idOf? n <;> simp

end Tables

namespace Dictionary

/-! ## Names in order -/

section

variable {σ : Type} [Store σ]

/-- Creates names one after another, up to the first one that is refused. -/
def createInOrder (d : Dictionary σ) : List String → Except Fault (List Uid) × Dictionary σ
  | [] => (.ok [], d)
  | n :: names =>
    match d.getOrCreate n with
    | (.error f, d) => (.error f, d)
    | (.ok u, d) =>
      let (rest, d) := d.createInOrder names
      (rest.map (u :: ·), d)

/-- When names are refused, one of them is, after those before it were created. -/
theorem exists_of_createInOrder {d : Dictionary σ} {names : List String} {f : Fault}
    (h : (d.createInOrder names).1 = .error f) :
    ∃ before n after, names = before ++ n :: after ∧
      (∃ us, (d.createInOrder before).1 = .ok us) ∧
      ((d.createInOrder before).2.getOrCreate n).1 = .error f := by
  induction names generalizing d with
  | nil => cases h
  | cons n names ih =>
    rw [createInOrder] at h
    rcases hn : d.getOrCreate n with ⟨f' | u, d'⟩
    · rw [hn] at h
      cases h
      exact ⟨[], n, names, rfl, ⟨[], rfl⟩, congrArg Prod.fst hn⟩
    · rw [hn] at h
      have hrest : (d'.createInOrder names).1 = .error f := by
        cases hrest : (d'.createInOrder names).1 with
        | error f' =>
          simp only [hrest] at h
          exact h
        | ok us =>
          simp only [hrest] at h
          cases h
      obtain ⟨before, m, after, rfl, ⟨us, hus⟩, hm⟩ := ih hrest
      refine ⟨n :: before, m, after, rfl, ⟨u :: us, ?_⟩, ?_⟩
      · simp only [createInOrder, hn, hus]
        rfl
      · simp only [createInOrder, hn]
        exact hm

end

/-! ## What is remembered -/

variable {d : Dictionary Tables} {names : List String} {n : String} {u : Uid}

/-- What is remembered under a name is mapped, and so is the name of an identifier. -/
structure Backed (d : Dictionary Tables) : Prop where
  named {n : String} {u : Uid} : d.store.nameOf? u = some n → d.store.idOf? n = some u
  remembered : d.memory.All fun n u => d.store.idOf? n = some u

theorem backed_new (width : Nat) (sequence : UInt64) (capacity : Nat) (policy : RetryPolicy) :
    (new (.empty width sequence) capacity policy).Backed :=
  have h := mirrored_new width sequence capacity policy
  ⟨h.named.2, h.remembered⟩

/-! ## Questions that create nothing -/

section

variable {g : Goal} (hg : g ≠ .create) (stage : Stage g)

include hg

theorem perform_of_ne_create (t : Tables) : (t.perform stage.request).2 = t := by
  cases stage with
  | find | nameOf | listAll => rfl
  | _ => exact absurd rfl hg

theorem answered_of_ne_create (width : Nat) (m : Memory) (a : stage.request.Answer) :
    ∃ result, (Dialogue.answered width m stage a).1 = .done result := by
  cases stage with
  | find | nameOf => cases a <;> exact ⟨_, rfl⟩
  | listAll => exact ⟨_, rfl⟩
  | _ => exact absurd rfl hg

/-- What is learned from an answer is mapped. -/
theorem Backed.learned (h : d.Backed) :
    ∀ n u, (n, u) ∈ stage.learned (d.store.perform stage.request).1 → d.store.idOf? n = some u := by
  intro n u hmem
  cases stage with
  | find name =>
    obtain ⟨v, hv, heq⟩ := Option.map_eq_some_iff.1 (Option.mem_toList.1 hmem)
    cases heq
    exact hv
  | nameOf id =>
    obtain ⟨name, hname, heq⟩ := Option.map_eq_some_iff.1 (Option.mem_toList.1 hmem)
    cases heq
    exact h.named hname
  | listAll => exact Tables.mem_pairs.1 hmem
  | _ => exact absurd rfl hg

end

/-- A question that creates nothing leaves the tables as they are. -/
theorem Backed.ask (h : d.Backed) {g : Goal} (hg : g ≠ .create) (q : Question g) :
    (d.ask q).2.store = d.store ∧ (d.ask q).2.Backed := by
  obtain ⟨k, hk⟩ : ∃ k, d.budget = k + 2 := ⟨d.budget - 2, by unfold budget; omega⟩
  obtain ⟨hbegin, -⟩ := all_begin h.remembered q
  rw [Dictionary.ask]
  generalize q.begin d.memory = start at hbegin
  obtain ⟨result | ⟨stage, attempt⟩, m⟩ := start
  · rw [complete_done]
    exact ⟨rfl, h.named, hbegin⟩
  · let answer := (d.store.perform stage.request).1
    obtain ⟨hmemory, -⟩ := all_answered hbegin d.store.width stage answer (h.learned hg stage)
    obtain ⟨result, hdone⟩ := answered_of_ne_create hg stage d.store.width m answer
    let after : Dictionary Tables :=
      { d with memory := (Dialogue.answered d.store.width m stage answer).2 }
    have hstep : ({ d with memory := m } : Dictionary Tables).step ⟨stage, attempt⟩ =
        (.done result, after) := by
      show ((Dialogue.answered d.store.width m stage answer).1, { after with
        store := (d.store.perform stage.request).2 }) = _
      rw [hdone, perform_of_ne_create hg]
    have hend : d.complete (.ask ⟨stage, attempt⟩, m) = (result, after) := by
      rw [complete, hk, play, hstep]
      rfl
    rw [hend]
    exact ⟨rfl, h.named, hmemory⟩

/-! ## Creations -/

theorem gains_created (hnew : d.store.idOf? n = none) (u : Uid) :
    d.store.Gains [n] (created d.store n u) := by
  refine ⟨extends_created hnew u, fun {m} => ?_⟩
  rw [idOf?_created hnew, List.mem_singleton]
  by_cases hm : n = m
  · simp [hm]
  · simp [hm, Ne.symm hm]

theorem Backed.created (h : d.Backed) (hnew : d.store.idOf? n = none) :
    Backed { d with
      store := Dictionary.created d.store n u, memory := d.memory.remember n u } := by
  refine ⟨fun {m v} hname => ?_, remembered_created hnew h.remembered u⟩
  -- The name of an identifier may be written anew, and the new one is mapped.
  rw [nameOf?_created] at hname
  split at hname
  · next huv =>
    cases hname
    exact huv ▸ idOf?_created_self hnew u
  · exact (extends_created hnew u).keeps (h.named hname)

/-- A name that is created is mapped afterwards, and no other name is new. -/
theorem Backed.getOrCreate (h : d.Backed) (n : String) :
    (d.getOrCreate n).2.Backed ∧
      ∀ u, (d.getOrCreate n).1 = .ok u → d.store.Gains [n] (d.getOrCreate n).2.store := by
  have hgains {u : Uid} (hu : d.store.idOf? n = some u) : d.store.Gains [n] d.store :=
    Tables.gains_of_mapped (by rw [hu]; rfl)
  rcases getOrCreate_cases d n with ⟨u, d', heq, hobtains⟩ | ⟨f, heq, _, _⟩
  · rw [heq]
    cases hobtains with
    | remembered hm =>
      obtain ⟨hall, hfound⟩ := h.remembered.idOf hm
      exact ⟨⟨h.named, hall⟩, fun _ _ => hgains (hfound u rfl)⟩
    | mapped hu => exact ⟨⟨h.named, h.remembered.remember hu⟩, fun _ _ => hgains hu⟩
    | created hnew _ => exact ⟨h.created hnew, fun _ _ => gains_created hnew u⟩
  · rw [heq]
    exact ⟨⟨h.named, h.remembered⟩, fun _ hu => nomatch hu⟩

/-- Tables grow by the names of a list that were not mapped, when none is refused. -/
theorem Backed.createInOrder (h : d.Backed) (names : List String) {us : List Uid}
    (hus : (d.createInOrder names).1 = .ok us) :
    d.store.Gains names (d.createInOrder names).2.store := by
  induction names generalizing d us with
  | nil => exact .nil _
  | cons n names ih =>
    obtain ⟨hbacked, hgains⟩ := h.getOrCreate n
    rw [Dictionary.createInOrder] at hus ⊢
    rcases hn : d.getOrCreate n with ⟨f | u, d'⟩
    · rw [hn] at hus
      cases hus
    · rw [hn] at hus hbacked hgains
      cases hrest : (d'.createInOrder names).1 with
      | error f =>
        simp only [hrest] at hus
        cases hus
      | ok us' => exact (hgains u rfl).append (ih hbacked hrest)

/-! ## Any history -/

theorem Backed.reply (h : d.Backed) (inquiry : Inquiry) : (d.reply inquiry).2.Backed := by
  cases inquiry with
  | get n => exact (h.ask (by decide) (.find n)).2
  | getOrCreate n => exact (h.getOrCreate n).1
  | resolve mode n =>
    cases mode with
    | find => exact (h.ask (by decide) (.find n)).2
    | create => exact (h.getOrCreate n).1
  | getName u => exact (h.ask (by decide) (.nameOf u)).2
  | warm => exact (h.ask (by decide) .warm).2

/-- Whatever a dictionary was asked, it is backed. -/
theorem Backed.replies (h : d.Backed) (inquiries : List Inquiry) :
    (d.replies inquiries).2.Backed := by
  induction inquiries generalizing d with
  | nil => exact h
  | cons inquiry rest ih => exact ih (h.reply inquiry)

end Dictionary

end StatRollup.Uid
