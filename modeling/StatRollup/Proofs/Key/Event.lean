import StatRollup.Event
import StatRollup.Key.Event

/-!
# Tags in their positions

Putting tagged things in the order of the declared tags loses nothing and makes nothing up: what
stands at the position of a tag is what was given for the tag (`mem_iff_of_byPosition`).  It works
for the declared tags in any order (`byPosition_ok`), whatever the things are, since they are only
moved (`byPosition_map`).
-/

namespace StatRollup

namespace Statistic

variable {s : Statistic} {α β : Type} {slots slots' : List (Option α)} {tagged : List (String × α)}
  {tag : String} {a : α} {p : Nat}

/-- The thing at the position of a tag. -/
def Holds (s : Statistic) (slots : List (Option α)) (tag : String) (a : α) : Prop :=
  ∃ p : Nat, s.tags.toList[p]? = some tag ∧ slots[p]? = some (some a)

theorem getElem?_of_positionOf? (h : s.positionOf? tag = some p) :
    s.tags.toList[p]? = some tag := by
  rw [positionOf?, List.idxOf?_eq_some_iff] at h
  obtain ⟨hlt, heq, _⟩ := h
  rw [List.getElem?_eq_getElem hlt, heq]

/-- Filling an empty slot adds the thing and nothing else. -/
theorem holds_set (hp : s.tags.toList[p]? = some tag) (hfree : ∀ b, slots[p]? ≠ some (some b))
    (hlen : p < slots.length) (tag' : String) (b : α) :
    s.Holds (slots.set p (some a)) tag' b ↔ (tag' = tag ∧ b = a) ∨ s.Holds slots tag' b := by
  constructor
  · rintro ⟨q, hq, hb⟩
    by_cases hpq : p = q
    · subst hpq
      rw [List.getElem?_set_self hlen] at hb
      rw [hp] at hq
      cases hq
      cases hb
      exact .inl ⟨rfl, rfl⟩
    · rw [List.getElem?_set_ne hpq] at hb
      exact .inr ⟨q, hq, hb⟩
  · rintro (⟨rfl, rfl⟩ | ⟨q, hq, hb⟩)
    · exact ⟨p, hp, List.getElem?_set_self hlen⟩
    · have hpq : p ≠ q := by
        rintro rfl
        exact hfree b hb
      exact ⟨q, hq, (List.getElem?_set_ne hpq).trans hb⟩

theorem holds_placeAll (hlen : slots.length = s.tags.toList.length)
    (h : s.placeAll slots tagged = .ok slots') :
    slots'.length = s.tags.toList.length ∧
      ∀ tag a, s.Holds slots' tag a ↔ (tag, a) ∈ tagged ∨ s.Holds slots tag a := by
  induction tagged generalizing slots with
  | nil =>
    cases h
    exact ⟨hlen, by simp⟩
  | cons x tagged ih =>
    obtain ⟨tag, a⟩ := x
    rw [placeAll] at h
    split at h
    · cases h
    · next p hpos =>
      have hp := getElem?_of_positionOf? hpos
      have hlt : p < slots.length := by
        rw [hlen]
        exact (List.getElem?_eq_some_iff.1 hp).1
      split at h
      · cases h
      · next hfree =>
        obtain ⟨hlen', hiff⟩ := ih (by rw [List.length_set, hlen]) h
        refine ⟨hlen', fun tag' b => ?_⟩
        rw [hiff, holds_set hp hfree hlt, List.mem_cons, Prod.mk.injEq, ← or_assoc,
          or_comm (a := (tag', b) ∈ tagged)]

theorem eq_of_takeAll {as : List α} {tags : List String} (hlen : slots.length = tags.length)
    (h : s.takeAll slots tags = .ok as) : slots = as.map some := by
  induction slots generalizing tags as with
  | nil =>
    cases h
    rfl
  | cons slot slots ih =>
    cases tags with
    | nil => cases hlen
    | cons tag tags =>
      cases slot with
      | none => cases h
      | some a =>
        rw [takeAll] at h
        cases hrest : s.takeAll slots tags with
        | error f =>
          rw [hrest] at h
          cases h
        | ok rest =>
          rw [hrest] at h
          cases h
          rw [ih (Nat.succ.inj hlen) hrest, List.map_cons]

/-- What stands at the position of a tag is what was given for the tag. -/
theorem mem_iff_of_byPosition {as : List α} (h : s.byPosition tagged = .ok as) :
    as.length = s.tags.toList.length ∧
      ∀ tag a, (tag, a) ∈ tagged ↔ ∃ p : Nat, s.tags.toList[p]? = some tag ∧ as[p]? = some a := by
  rw [byPosition] at h
  obtain ⟨slots, hslots, h⟩ := bind_eq_ok.1 h
  obtain ⟨hlen, hiff⟩ := holds_placeAll (by simp) hslots
  have heq := eq_of_takeAll hlen h
  subst heq
  refine ⟨by simpa using hlen, fun tag a => ?_⟩
  have hnone : ¬ s.Holds (s.tags.toList.map fun _ => (none : Option α)) tag a := by
    rintro ⟨p, _, hp⟩
    rw [List.getElem?_map] at hp
    obtain ⟨_, _, hp⟩ := Option.map_eq_some_iff.mp hp
    cases hp
  have := hiff tag a
  simp only [hnone, or_false] at this
  rw [← this, Holds]
  simp

/-! ## Every declared tag once -/

theorem positionOf?_of_mem (h : tag ∈ s.tags.toList) : ∃ p, s.positionOf? tag = some p := by
  cases hp : s.positionOf? tag with
  | none => exact absurd h (List.idxOf?_eq_none_iff.1 hp)
  | some p => exact ⟨p, rfl⟩

/-- Different tags whose slots are empty are placed. -/
theorem placeAll_ok (hnodup : (tagged.map Prod.fst).Nodup)
    (hfree : ∀ x ∈ tagged, ∃ p, s.positionOf? x.1 = some p ∧ slots[p]? = some none) :
    ∃ slots', s.placeAll slots tagged = .ok slots' := by
  induction tagged generalizing slots with
  | nil => exact ⟨slots, rfl⟩
  | cons x tagged ih =>
    obtain ⟨tag, a⟩ := x
    obtain ⟨⟨p, hp, hslot⟩, hrest⟩ := List.forall_mem_cons.1 hfree
    obtain ⟨hnot, hnodup⟩ := List.nodup_cons.1 hnodup
    -- The other tags have other positions.
    have hfree' : ∀ x ∈ tagged, ∃ q, s.positionOf? x.1 = some q ∧
        (slots.set p (some a))[q]? = some none := by
      intro x hx
      obtain ⟨q, hq, hslot'⟩ := hrest x hx
      have hpq : p ≠ q := by
        rintro rfl
        have htag := (getElem?_of_positionOf? hp).symm.trans (getElem?_of_positionOf? hq)
        exact hnot (Option.some.inj htag ▸ List.mem_map_of_mem hx)
      exact ⟨q, hq, (List.getElem?_set_ne hpq).trans hslot'⟩
    obtain ⟨slots', h⟩ := ih hnodup hfree'
    refine ⟨slots', ?_⟩
    rw [placeAll]
    simp only [hp, hslot]
    exact h

/-- Slots that are all filled are taken. -/
theorem takeAll_ok (s : Statistic) (slots : List (Option α)) (tags : List String)
    (hfull : ∀ p < tags.length, slots[p]? ≠ some none) :
    ∃ as, s.takeAll slots tags = .ok as := by
  induction slots generalizing tags with
  | nil => exact ⟨[], by rw [takeAll] <;> exact nofun⟩
  | cons slot slots ih =>
    cases tags with
    | nil => exact ⟨[], by cases slot <;> rfl⟩
    | cons tag tags =>
      cases slot with
      | none => exact absurd rfl (hfull 0 (Nat.succ_pos _))
      | some a =>
        obtain ⟨as, h⟩ := ih tags fun p hp => hfull (p + 1) (Nat.succ_lt_succ hp)
        exact ⟨a :: as, by rw [takeAll, h]; rfl⟩

/-- Things for the declared tags, each once, are put in their positions. -/
theorem byPosition_ok (h : (tagged.map Prod.fst).Perm s.tags.toList) :
    ∃ as, s.byPosition tagged = .ok as := by
  have hempty : ∀ x ∈ tagged, ∃ p, s.positionOf? x.1 = some p ∧
      (s.tags.toList.map fun _ => (none : Option α))[p]? = some none := by
    intro x hx
    obtain ⟨p, hp⟩ := positionOf?_of_mem (h.mem_iff.1 (List.mem_map_of_mem hx))
    exact ⟨p, hp, by rw [List.getElem?_map, getElem?_of_positionOf? hp]; rfl⟩
  obtain ⟨slots, hslots⟩ := placeAll_ok (h.nodup_iff.2 s.tags.nodup) hempty
  obtain ⟨_, hiff⟩ := holds_placeAll (by simp) hslots
  have hfull : ∀ p < s.tags.toList.length, slots[p]? ≠ some none := by
    intro p hp hslot
    obtain ⟨x, hx, hname⟩ := List.mem_map.1 (h.mem_iff.2 (List.getElem_mem hp))
    obtain ⟨q, hq, hslot'⟩ := (hiff x.1 x.2).2 (.inl hx)
    rw [hname] at hq
    obtain rfl :=
      (List.getElem?_inj hp s.tags.nodup).1 ((List.getElem?_eq_getElem hp).trans hq.symm)
    rw [hslot] at hslot'
    cases hslot'
  obtain ⟨as, has⟩ := s.takeAll_ok slots s.tags.toList hfull
  refine ⟨as, ?_⟩
  rw [byPosition, hslots]
  exact has

/-- The declared tags in any order are accepted. -/
theorem checkTags_ok {names : List String} (h : names.Perm s.tags.toList) :
    s.checkTags names = .ok () := by
  have hnames : (names.map fun name => (name, ())).map Prod.fst = names := by
    rw [List.map_map]
    exact List.map_id _
  obtain ⟨as, has⟩ := byPosition_ok (hnames.symm ▸ h)
  rw [checkTags, has]
  rfl

/-! ## Moving things only -/

theorem placeAll_map (f : α → β) (slots : List (Option α)) (tagged : List (String × α)) :
    s.placeAll (slots.map (Option.map f)) (tagged.map fun x => (x.1, f x.2)) =
      (s.placeAll slots tagged).map (List.map (Option.map f)) := by
  induction tagged generalizing slots with
  | nil => rfl
  | cons x tagged ih =>
    obtain ⟨tag, a⟩ := x
    rw [List.map_cons, placeAll, placeAll]
    cases s.positionOf? tag with
    | none => rfl
    | some p =>
      have hset : (slots.map (Option.map f)).set p (some (f a)) =
          (slots.set p (some a)).map (Option.map f) := by
        rw [List.map_set, Option.map_some]
      simp only [List.getElem?_map, hset, ih]
      cases slots[p]? with
      | none => rfl
      | some slot => cases slot <;> rfl

theorem takeAll_map (f : α → β) (slots : List (Option α)) (tags : List String) :
    s.takeAll (slots.map (Option.map f)) tags = (s.takeAll slots tags).map (List.map f) := by
  induction slots generalizing tags with
  | nil => cases tags <;> rfl
  | cons slot slots ih =>
    cases tags with
    | nil => cases slot <;> rfl
    | cons tag tags =>
      cases slot with
      | none => rfl
      | some a =>
        rw [List.map_cons, Option.map_some, takeAll, takeAll, ih]
        cases s.takeAll slots tags <;> rfl

/-- Changing the things before or after is the same. -/
theorem byPosition_map (f : α → β) (tagged : List (String × α)) :
    s.byPosition (tagged.map fun x => (x.1, f x.2)) = (s.byPosition tagged).map (List.map f) := by
  have hempty : (s.tags.toList.map fun _ => (none : Option β)) =
      (s.tags.toList.map fun _ => (none : Option α)).map (Option.map f) := by simp
  rw [byPosition, byPosition, hempty, placeAll_map]
  cases s.placeAll (s.tags.toList.map fun _ => none) tagged with
  | error f => rfl
  | ok slots => exact takeAll_map f slots _

end Statistic

/-! ## The tags of an event -/

namespace Event

variable {s : Statistic} {e : Event}

/-- The tags of an event in the order of the declared ones. -/
def tagsBy (s : Statistic) (e : Event) : Except Fault (List Tag) :=
  s.byPosition (e.tags.map fun t => (t.name, t))

/-- An event with the declared tags has one tag for each of them. -/
theorem tagsBy_ok (h : s.checkTags (e.tags.map Tag.name) = .ok ()) :
    ∃ ts, e.tagsBy s = .ok ts ∧ ts.map Tag.name = s.tags.toList ∧ ∀ t, t ∈ e.tags ↔ t ∈ ts := by
  have hmap := s.byPosition_map (fun _ => ()) (e.tags.map fun t => (t.name, t))
  rw [List.map_map] at hmap
  rw [Statistic.checkTags, List.map_map] at h
  cases hts : e.tagsBy s with
  | error f =>
    rw [tagsBy] at hts
    rw [hts] at hmap
    rw [show s.byPosition (e.tags.map ((fun name => (name, ())) ∘ Tag.name)) = _ from hmap] at h
    cases h
  | ok ts =>
    obtain ⟨hlen, hiff⟩ := Statistic.mem_iff_of_byPosition hts
    have hname : ∀ (p : Nat) (t : Tag), ts[p]? = some t → s.tags.toList[p]? = some t.name := by
      intro p t ht
      have hp : p < s.tags.toList.length := hlen ▸ (List.getElem?_eq_some_iff.1 ht).1
      have hmem := (hiff s.tags.toList[p] t).2 ⟨p, List.getElem?_eq_getElem hp, ht⟩
      obtain ⟨t', _, heq⟩ := List.mem_map.1 hmem
      obtain ⟨htag, rfl⟩ := Prod.mk.inj heq
      rw [List.getElem?_eq_getElem hp, htag]
    refine ⟨ts, rfl, List.ext_getElem? fun p => ?_, fun t => ?_⟩
    · rw [List.getElem?_map]
      cases ht : ts[p]? with
      | none =>
        rw [List.getElem?_eq_none_iff] at ht
        exact (List.getElem?_eq_none (by omega)).symm
      | some t => exact (hname p t ht).symm
    · constructor
      · intro ht
        obtain ⟨p, _, hp⟩ := (hiff t.name t).1 (List.mem_map.2 ⟨t, ht, rfl⟩)
        exact List.mem_of_getElem? hp
      · intro ht
        obtain ⟨p, hp⟩ := List.mem_iff_getElem?.1 ht
        have hmem := (hiff t.name t).2 ⟨p, hname p t hp, hp⟩
        obtain ⟨t', ht', heq⟩ := List.mem_map.1 hmem
        obtain ⟨_, rfl⟩ := Prod.mk.inj heq
        exact ht'

/-- The keys of an event whose tags were exchanged for identifiers. -/
theorem build_ok {ts : List Tag} (h : e.tagsBy s = .ok ts) (statistic : Uid)
    (f : Tag → TagValue) :
    Key.build s statistic e.timestamp (e.tags.map fun t => (t.name, f t)) =
      .ok (s.requiredMasks.map fun mask =>
        Key.of statistic mask s.precision e.timestamp (Key.rollUp mask (ts.map f))) := by
  have hmap := s.byPosition_map f (e.tags.map fun t => (t.name, t))
  rw [List.map_map] at hmap
  rw [tagsBy] at h
  rw [h] at hmap
  rw [Key.build, show s.byPosition (e.tags.map fun t => (t.name, f t)) = _ from hmap]
  rfl

end Event

end StatRollup
