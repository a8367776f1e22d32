import StatRollup.Statistic.Registry

/-!
# Definitions that stay compatible

A registry is asked to register definitions and to remove names, in any order.  A registration is
accepted when the definition is valid and, if the name is taken, means the same for stored keys and
cells as the definition that is there (`accepts_iff`).  So all definitions that a name ever had
since it was last removed are of one kind, one precision and the same tags, which gives every bit of
a mask one tag to stand for (`definitions_compatible`).
-/

namespace StatRollup

/-! ## Definitions that mean the same -/

/-- What stored keys and cells depend on is the same in two definitions. -/
structure Statistic.Alike (s t : Statistic) : Prop where
  kind : t.kind = s.kind
  precision : t.precision = s.precision
  tags : t.tags = s.tags

namespace Statistic

variable {s t u : Statistic}

theorem Alike.refl (s : Statistic) : s.Alike s := ⟨rfl, rfl, rfl⟩

theorem Alike.symm (h : s.Alike t) : t.Alike s := ⟨h.kind.symm, h.precision.symm, h.tags.symm⟩

theorem Alike.trans (h : s.Alike t) (h' : t.Alike u) : s.Alike u :=
  ⟨h'.kind.trans h.kind, h'.precision.trans h.precision, h'.tags.trans h.tags⟩

/-- Bits of masks stand for the same tags. -/
theorem Alike.positionOf? (h : s.Alike t) (tag : String) :
    t.positionOf? tag = s.positionOf? tag := by
  rw [Statistic.positionOf?, Statistic.positionOf?, h.tags]

end Statistic

namespace Registry

open Statistic (Alike)

variable {r r' : Registry} {s t old : Statistic} {name : String}

/-! ## Single requests -/

theorem get?_empty (name : String) : empty.get? name = none := by
  simp [get?, empty, Std.TreeMap.get?_eq_getElem?]

theorem get?_insert {r : Registry} {s : Statistic} {name : String} :
    get? ⟨r.byName.insert s.name s⟩ name = if s.name = name then some s else r.get? name := by
  simp only [get?, Std.TreeMap.get?_eq_getElem?, Std.TreeMap.getElem?_insert,
    Std.LawfulEqCmp.compare_eq_iff_eq]

theorem get?_remove {removed : String} :
    (r.remove removed).get? name = if removed = name then none else r.get? name := by
  simp only [remove, get?, Std.TreeMap.get?_eq_getElem?, Std.TreeMap.getElem?_erase,
    Std.LawfulEqCmp.compare_eq_iff_eq]

/-- What may be registered under a name that is taken. -/
theorem changedPart?_eq_none {old new : Statistic} :
    changedPart? old new = none ↔ old.Alike new := by
  constructor
  · intro h
    rw [changedPart?] at h
    split at h
    · cases h
    · next hkind =>
      split at h
      · cases h
      · next hprecision =>
        split at h
        · cases h
        · next htags =>
          exact ⟨(Decidable.not_not.1 hkind).symm, (Decidable.not_not.1 hprecision).symm,
            (Decidable.not_not.1 htags).symm⟩
  · rintro ⟨hkind, hprecision, htags⟩
    simp [changedPart?, hkind, hprecision, htags]

theorem checkRedefinition_eq_ok {old new : Statistic} :
    checkRedefinition old new = .ok () ↔ old.Alike new := by
  rw [← changedPart?_eq_none, checkRedefinition]
  cases changedPart? old new <;> simp

/-- All that a registration checks. -/
def check (r : Registry) (s : Statistic) : Except Fault Unit := do
  s.validate
  (r.get? s.name).forM fun old => checkRedefinition old s

theorem check_eq_ok :
    r.check s = .ok () ↔ s.Valid ∧ ∀ old, r.get? s.name = some old → old.Alike s := by
  have hold : ((r.get? s.name).forM fun old => checkRedefinition old s) = .ok () ↔
      ∀ old, r.get? s.name = some old → old.Alike s := by
    cases r.get? s.name with
    | none => simp [Option.forM, pure, Except.pure]
    | some old => simp [Option.forM, checkRedefinition_eq_ok]
  rw [check, bind_eq_ok, ← Statistic.validate_eq_ok, ← hold]
  exact ⟨fun ⟨_, hvalid, hrest⟩ => ⟨hvalid, hrest⟩, fun ⟨hvalid, hrest⟩ => ⟨(), hvalid, hrest⟩⟩

/-- A registration writes after all of its checks, so that a refused one leaves the registry as it
was. -/
theorem registerInPlace_eq (r : Registry) (s : Statistic) :
    r.registerInPlace s = (r.check s, match r.check s with
      | .ok () => ⟨r.byName.insert s.name s⟩
      | .error _ => r) := by
  rw [registerInPlace, enter, check]
  cases s.validate with
  | error f => rfl
  | ok =>
    show ((do
      (r.get? s.name).forM fun old => checkRedefinition old s
      modify fun r => ⟨r.byName.insert s.name s⟩ : ExceptT Fault (StateM Registry) Unit).run r) =
        ((r.get? s.name).forM fun old => checkRedefinition old s, _)
    cases r.get? s.name with
    | none => rfl
    | some old =>
      simp only [Option.forM]
      cases checkRedefinition old s <;> rfl

/-- All that a registration checks and does. -/
theorem register_eq_ok : r.register s = .ok r' ↔
    s.Valid ∧ (∀ old, r.get? s.name = some old → old.Alike s) ∧
      r' = ⟨r.byName.insert s.name s⟩ := by
  rw [← and_assoc, ← check_eq_ok, register, registerInPlace_eq]
  cases r.check s with
  | error f => simp [Except.map]
  | ok => simp [Except.map, eq_comm]

/-- Whether a definition is accepted. -/
def Accepts (r : Registry) (s : Statistic) : Prop := (r.registerInPlace s).1 = .ok ()

instance (r : Registry) (s : Statistic) : Decidable (r.Accepts s) :=
  match h : (r.registerInPlace s).1 with
  | .ok () => isTrue h
  | .error _ => isFalse fun h' => nomatch h.symm.trans h'

theorem accepts_iff :
    r.Accepts s ↔ s.Valid ∧ ∀ old, r.get? s.name = some old → old.Alike s := by
  rw [Accepts, registerInPlace_eq, check_eq_ok]

/-! ## Any requests -/

/-- Something that a registry is asked to do. -/
inductive Request where
  /-- To register a definition. -/
  | register (s : Statistic)
  /-- To remove a name. -/
  | remove (name : String)
  deriving DecidableEq

/-- Does as a request says. -/
def perform (r : Registry) : Request → Registry
  | .register s => (r.registerInPlace s).2
  | .remove name => r.remove name

/-- Does as requests say, in order. -/
def run (r : Registry) (requests : List Request) : Registry := requests.foldl perform r

@[simp] theorem run_nil (r : Registry) : r.run [] = r := rfl

@[simp] theorem run_cons (r : Registry) (request : Request) (rest : List Request) :
    r.run (request :: rest) = (r.perform request).run rest := rfl

theorem run_append (r : Registry) (before after : List Request) :
    r.run (before ++ after) = (r.run before).run after := List.foldl_append

theorem perform_of_refused (h : ¬ r.Accepts s) : r.perform (.register s) = r := by
  have hcheck : r.check s ≠ .ok () := by rwa [Accepts, registerInPlace_eq] at h
  rw [perform, registerInPlace_eq]
  cases hresult : r.check s with
  | ok => exact absurd hresult hcheck
  | error f => rfl

/-- An accepted definition is there, and all other names have what they had. -/
theorem get?_perform_of_accepts (h : r.Accepts s) :
    (r.perform (.register s)).get? name = if s.name = name then some s else r.get? name := by
  have hcheck : r.check s = .ok () := by rwa [Accepts, registerInPlace_eq] at h
  rw [perform, registerInPlace_eq, hcheck, get?_insert]

/-- What every definition in a registry is like. -/
def WellKept (r : Registry) : Prop := ∀ name s, r.get? name = some s → s.Valid ∧ s.name = name

theorem wellKept_empty : empty.WellKept := by
  intro name s hs
  rw [get?_empty] at hs
  cases hs

theorem WellKept.perform (h : r.WellKept) (request : Request) : (r.perform request).WellKept := by
  intro name t ht
  cases request with
  | register s =>
    by_cases haccepts : r.Accepts s
    · rw [get?_perform_of_accepts haccepts] at ht
      split at ht
      · next hname =>
        cases ht
        exact ⟨(accepts_iff.1 haccepts).1, hname⟩
      · exact h name t ht
    · rw [perform_of_refused haccepts] at ht
      exact h name t ht
  | remove removed =>
    rw [Registry.perform, get?_remove] at ht
    split at ht
    · cases ht
    · exact h name t ht

theorem WellKept.run (h : r.WellKept) (requests : List Request) : (r.run requests).WellKept := by
  induction requests generalizing r with
  | nil => exact h
  | cons request rest ih => exact ih (h.perform request)

/-- A name has a definition that is like another one. -/
def Keeps (r : Registry) (name : String) (s : Statistic) : Prop :=
  ∃ t, r.get? name = some t ∧ s.Alike t

theorem Keeps.perform {request : Request} (h : r.Keeps name s) (hremove : request ≠ .remove name) :
    (r.perform request).Keeps name s := by
  obtain ⟨old, hold, halike⟩ := h
  cases request with
  | register t =>
    by_cases haccepts : r.Accepts t
    · by_cases hname : t.name = name
      · subst hname
        refine ⟨t, ?_, halike.trans ((accepts_iff.1 haccepts).2 old hold)⟩
        rw [get?_perform_of_accepts haccepts, if_pos rfl]
      · refine ⟨old, ?_, halike⟩
        rw [get?_perform_of_accepts haccepts, if_neg hname, hold]
    · rw [perform_of_refused haccepts]
      exact ⟨old, hold, halike⟩
  | remove removed =>
    have hother : removed ≠ name := fun heq => hremove (congrArg Request.remove heq)
    exact ⟨old, by rw [Registry.perform, get?_remove, if_neg hother, hold], halike⟩

/-- As long as a name is not removed, its definitions are like those before. -/
theorem Keeps.run {requests : List Request} (h : r.Keeps name s)
    (hremove : .remove name ∉ requests) : (r.run requests).Keeps name s := by
  induction requests generalizing r with
  | nil => exact h
  | cons request rest ih =>
    obtain ⟨hfirst, hrest⟩ := List.ne_and_not_mem_of_not_mem_cons hremove
    exact ih (h.perform hfirst.symm) hrest

/-- Whatever a registry is asked, its definitions are valid and under their own names, and what it
refuses leaves it as it was.  Two definitions that it accepts for a name which is not removed in
between have the same kind, precision and tags, and a bit of a mask stands for the same tag in
both. -/
theorem definitions_compatible :
    (∀ requests name s, (empty.run requests).get? name = some s → s.Valid ∧ s.name = name) ∧
    (∀ before s, ¬ (empty.run before).Accepts s →
      empty.run (before ++ [.register s]) = empty.run before) ∧
    (∀ before s between t, (empty.run before).Accepts s →
      (empty.run (before ++ .register s :: between)).Accepts t →
      t.name = s.name → .remove s.name ∉ between →
        t.kind = s.kind ∧ t.precision = s.precision ∧ t.tags = s.tags ∧
          ∀ tag, t.positionOf? tag = s.positionOf? tag) := by
  refine ⟨fun requests => wellKept_empty.run requests, fun before s hrefused => ?_,
    fun before s between t hs ht hname hremove => ?_⟩
  · rw [run_append, run_cons, run_nil, perform_of_refused hrefused]
  · have hkeeps : (empty.run (before ++ .register s :: between)).Keeps s.name s := by
      rw [run_append, run_cons]
      refine Keeps.run ⟨s, ?_, .refl s⟩ hremove
      rw [get?_perform_of_accepts hs, if_pos rfl]
    obtain ⟨old, hold, halike⟩ := hkeeps
    have hsame : s.Alike t := halike.trans ((accepts_iff.1 ht).2 old (hname ▸ hold))
    exact ⟨hsame.kind, hsame.precision, hsame.tags, hsame.positionOf?⟩

/-- A definition with tags that are not in order and one that is given again. -/
def visits : Statistic :=
  .withTags { name := "visits", kind := .count, policy := .all, precision := .hour }
    ["user", "city", "user"]

/-- The same statistic under another policy, with its tags the other way round. -/
def plainVisits : Statistic := .withTags { visits with policy := .none } ["city", "user"]

/-- The same name at another precision. -/
def dailyVisits : Statistic := { visits with precision := .day }

/-- Another precision is refused, and another policy is accepted also when other names are removed
in between. -/
theorem definitions_compatible_visits :
    (visits.Valid ∧ visits.name = "visits") ∧
    empty.run [.register visits, .register dailyVisits] = empty.run [.register visits] ∧
    ∀ tag, plainVisits.positionOf? tag = visits.positionOf? tag := by
  obtain ⟨hkept, hrefused, hsame⟩ := definitions_compatible
  refine ⟨hkept [.register visits] "visits" visits (by decide +kernel),
    hrefused [.register visits] dailyVisits (by decide +kernel), ?_⟩
  obtain ⟨-, -, -, hpositions⟩ := hsame [] visits [.register dailyVisits, .remove "orders"]
    plainVisits (by decide +kernel) (by decide +kernel) rfl (by decide +kernel)
  exact hpositions

end Registry

end StatRollup
