import Mathlib.Data.List.Dedup
import Mathlib.Data.String.Basic
import StatRollup.Document.Statistic
import StatRollup.Proofs.Statistic.Building
import StatRollup.Proofs.Statistic.Registry

/-!
# Definitions in documents

A document lists tag names and masks in any order and with repetitions.  It is accepted when the
definition is consistent (`Consistent`), and what is accepted depends on the sets that the lists
stand for and on nothing else: the tags are the distinct names in order, and the masks are those
that roll up the listed sets of tags (`Draft.finish_exactly`).

Masks are looked up before the number of tags is judged.  With too many tags a mask may be refused
for a position beyond the last, which changes what the refusal says and not that there is one.
-/

namespace StatRollup

namespace Statistic

variable {s t : Statistic} {names names' : List String} {masks masks' : List (List String)}
  {f : Fault}

/-! ## Validity -/

/-- What a valid definition is like. -/
theorem valid_iff : s.Valid ↔
    Text.allBlank s.name = false ∧ s.tags.size ≤ 15 ∧
      (s.policy = .custom ∨ s.masks.toList = []) ∧
      ∀ m ∈ s.masks.toList, ∀ p, m.isRolledUp p = true → p < s.tags.size := by
  rw [Valid, problem?]
  split
  · next hblank => simp [hblank]
  split
  · next hmany =>
    have : ¬ s.tags.size ≤ 15 := Nat.not_le_of_lt hmany
    simp [this]
  split
  · next hunused => simp [hunused.1, hunused.2]
  · next hblank hmany hused =>
    have hsize : s.tags.size ≤ 15 := Nat.le_of_not_lt hmany
    have hused : s.policy = .custom ∨ s.masks.toList = [] := by
      rwa [not_and_or, not_not, not_not] at hused
    simp [hblank, hsize, hused]

/-- What is wrong with a definition is a matter of configuration. -/
theorem kind_of_problem? (h : s.problem? = some f) : f.kind = .configuration := by
  rw [problem?] at h
  split at h
  · cases h
    rfl
  split at h
  · cases h
    rfl
  split at h
  · cases h
    rfl
  · obtain ⟨m, _, rfl⟩ := Option.map_eq_some_iff.1 h
    rfl

/-! ## Masks by names -/

/-- Which mask names mark is a matter of the set of names. -/
theorem Given.Marks.congr {tags : Ascending String} {m : Mask}
    (hsame : ∀ tag, tag ∈ names ↔ tag ∈ names') (h : Given.Marks ⟨tags, names⟩ m) :
    Given.Marks ⟨tags, names'⟩ m where
  declared tag htag := h.declared tag ((hsame tag).2 htag)
  positions p := by simp [h.positions, hsame]

/-- With few enough tags, all declared names mark a mask. -/
theorem exists_marks (hsize : s.tags.size ≤ 15) (h : ∀ tag ∈ names, tag ∈ s.tags.toList) :
    ∃ m, Given.Marks ⟨s.tags, names⟩ m := by
  obtain ⟨ps, m, hps, hm⟩ := exists_ofPositions h fun p tag _ hp =>
    Nat.lt_of_lt_of_le (List.getElem?_eq_some_iff.1 hp).1 hsize
  exact ⟨m, marks_of_ofPositions hps hm⟩

/-- A mask that names mark is the only one over the declared tags with these names. -/
theorem marks_iff {m : Mask} : Given.Marks ⟨s.tags, names⟩ m ↔
    (∀ p, m.isRolledUp p = true → p < s.tags.size) ∧ s.Names m names := by
  constructor
  · intro h
    refine ⟨fun p hp => ?_, h.names_of_kept fun _ _ => rfl⟩
    obtain ⟨tag, _, htag⟩ := (h.positions p).1 hp
    exact (List.getElem?_eq_some_iff.1 htag).1
  · rintro ⟨hwithin, hnames⟩
    refine ⟨fun tag htag => ?_, fun p => ⟨fun hp => ?_, ?_⟩⟩
    · obtain ⟨p, _, hp⟩ := mem_rolledUpNames.1 ((hnames tag).2 htag)
      exact List.mem_of_getElem? hp
    · have htag := List.getElem?_eq_getElem (hwithin p hp)
      exact ⟨_, (hnames _).1 (mem_rolledUpNames.2 ⟨p, hp, htag⟩), htag⟩
    · rintro ⟨tag, htag, hp⟩
      obtain ⟨q, hq, hq'⟩ := mem_rolledUpNames.1 ((hnames tag).2 htag)
      rw [← positionOf?_eq_some] at hp hq'
      rw [hp, Option.some.injEq] at hq'
      exact hq' ▸ hq

/-- Adding masks adds those that the names mark, and is refused when some mark none. -/
theorem withMasks_eq_ok : s.withMasks masks = .ok t ↔
    (∀ names ∈ masks, ∃ m, Given.Marks ⟨s.tags, names⟩ m) ∧ t = { s with masks := t.masks } ∧
      ∀ m, m ∈ t.masks.toList ↔
        m ∈ s.masks.toList ∨ ∃ names ∈ masks, Given.Marks ⟨s.tags, names⟩ m := by
  induction masks generalizing s with
  | nil =>
    rw [withMasks]
    constructor
    · intro h
      cases h
      simp
    · rintro ⟨-, hrest, hmem⟩
      have hmasks : t.masks = s.masks := Ascending.ext_mem (by simpa using hmem)
      rw [hrest, hmasks]
  | cons names masks ih =>
    have hinsert : ∀ {m}, Given.Marks ⟨s.tags, names⟩ m → ∀ m',
        (m' ∈ (s.masks.insert m).toList ∨ ∃ n ∈ masks, Given.Marks ⟨s.tags, n⟩ m') ↔
          (m' ∈ s.masks.toList ∨ ∃ n ∈ names :: masks, Given.Marks ⟨s.tags, n⟩ m') := by
      intro m hm m'
      simp [Ascending.mem_insert, hm.iff_eq, or_assoc, or_left_comm]
    rw [withMasks, bind_eq_ok]
    simp only [withMask_eq_ok]
    constructor
    · rintro ⟨_, ⟨m, hm, rfl⟩, h⟩
      obtain ⟨hmarks, hrest, hmem⟩ := ih.1 h
      refine ⟨List.forall_mem_cons.2 ⟨⟨m, hm⟩, hmarks⟩, hrest, fun m' => ?_⟩
      exact (hmem m').trans (hinsert hm m')
    · rintro ⟨hmarks, hrest, hmem⟩
      obtain ⟨⟨m, hm⟩, hmarks⟩ := List.forall_mem_cons.1 hmarks
      refine ⟨_, ⟨m, hm, rfl⟩, ih.2 ⟨hmarks, hrest, fun m' => ?_⟩⟩
      exact (hmem m').trans (hinsert hm m').symm

theorem exists_withMasks (h : ∀ names ∈ masks, ∃ m, Given.Marks ⟨s.tags, names⟩ m) :
    ∃ t, s.withMasks masks = .ok t := by
  induction masks generalizing s with
  | nil => exact ⟨s, rfl⟩
  | cons names masks ih =>
    obtain ⟨⟨m, hm⟩, hrest⟩ := List.forall_mem_cons.1 h
    obtain ⟨t, ht⟩ := ih (s := { s with masks := s.masks.insert m }) hrest
    exact ⟨t, bind_eq_ok.2 ⟨_, withMask_eq_ok.2 ⟨m, hm, rfl⟩, ht⟩⟩

/-! ## Refusals -/

theorem kind_of_positionsOf (h : s.positionsOf names = .error f) : f.kind = .configuration := by
  induction names with
  | nil => cases h
  | cons tag names ih =>
    rw [positionsOf] at h
    cases hp : s.positionOf? tag with
    | none =>
      rw [hp] at h
      cases h
      rfl
    | some p =>
      cases hrest : s.positionsOf names with
      | error f' =>
        simp only [hp, hrest] at h
        cases h
        exact ih hrest
      | ok ps =>
        simp only [hp, hrest] at h
        cases h

theorem kind_of_addAll {m : Mask} {ps : List Nat} (h : m.addAll ps = .error f) :
    f.kind = .configuration := by
  induction ps generalizing m with
  | nil => cases h
  | cons p ps ih =>
    rw [Mask.addAll] at h
    split at h
    · exact ih h
    · cases h
      rfl

theorem kind_of_withMasks (h : s.withMasks masks = .error f) : f.kind = .configuration := by
  induction masks generalizing s with
  | nil => cases h
  | cons names masks ih =>
    rw [withMasks, bind_eq_error] at h
    rcases h with h | ⟨t, _, h⟩
    · rw [withMask, bind_eq_error] at h
      rcases h with h | ⟨ps, _, h⟩
      · exact kind_of_positionsOf h
      · rcases bind_eq_error.1 h with h | ⟨m, _, h⟩
        · exact kind_of_addAll h
        · cases h
    · exact ih h

/-! ## Accepted definitions -/

/-- A set of names has as many members as there are distinct names. -/
theorem perm_ofList (names : List String) :
    (Ascending.ofList names).toList.Perm names.dedup := by
  rw [List.perm_ext_iff_of_nodup (Ascending.nodup _) names.nodup_dedup]
  simp [Ascending.mem_ofList]

theorem size_ofList (names : List String) :
    (Ascending.ofList names).size = names.dedup.length := (perm_ofList names).length_eq

/-- A definition in a document is consistent: it has a name, few enough tags, masks of declared tags
only, and none of these unless its policy uses them. -/
structure Consistent (name : String) (policy : Policy) (tags : List String)
    (masks : List (List String)) : Prop where
  named : Text.allBlank name = false
  few : tags.dedup.length ≤ 15
  declared : ∀ names ∈ masks, ∀ tag ∈ names, tag ∈ tags
  used : policy = .custom ∨ masks = []

theorem SameSets.symm (h : SameSets masks masks') : SameSets masks' masks := by
  refine ⟨fun names hin => ?_, fun names hin => ?_⟩
  · obtain ⟨names', hin', hsame⟩ := h.2 names hin
    exact ⟨names', hin', fun tag => (hsame tag).symm⟩
  · obtain ⟨names', hin', hsame⟩ := h.1 names hin
    exact ⟨names', hin', fun tag => (hsame tag).symm⟩

/-- Consistency is a matter of the sets that the lists stand for. -/
theorem Consistent.congr {name : String} {policy : Policy} {tags tags' : List String}
    (htags : ∀ tag, tag ∈ tags ↔ tag ∈ tags') (hmasks : SameSets masks masks')
    (h : Consistent name policy tags masks) : Consistent name policy tags' masks' where
  named := h.named
  few := by
    have hperm : tags'.dedup.Perm tags.dedup := by
      rw [List.perm_ext_iff_of_nodup tags'.nodup_dedup tags.nodup_dedup]
      simp [htags]
    rw [hperm.length_eq]
    exact h.few
  declared := by
    intro names' hin' tag htag
    obtain ⟨names, hin, hsame⟩ := hmasks.2 names' hin'
    exact (htags tag).1 (h.declared names hin tag ((hsame tag).2 htag))
  used := by
    refine h.used.imp_right fun hnone => List.eq_nil_iff_forall_not_mem.2 fun names' hin' => ?_
    obtain ⟨names, hin, _⟩ := hmasks.2 names' hin'
    rw [hnone] at hin
    cases hin

namespace Draft

variable (uuid : Option Uuid) (name description : String) (kind : Kind) (policy : Policy)
  (precision : Interval) (enabled : Bool) (tags tags' : List String)
  (masks masks' : List (List String))

/-- A consistent draft is finished as the definition with the masks of the listed names. -/
theorem finish_eq_ok :
    (of uuid name description kind policy precision enabled tags masks).finish = .ok s ↔
      Consistent name policy tags masks ∧
      s = { uuid, name, description, kind, policy, precision, enabled
            tags := .ofList tags, masks := s.masks } ∧
      ∀ m, m ∈ s.masks.toList ↔ ∃ names ∈ masks, Given.Marks ⟨.ofList tags, names⟩ m := by
  have hsize := size_ofList tags
  have hvalid : (of uuid name description kind policy precision enabled tags masks).finish = .ok s ↔
      (of uuid name description kind policy precision enabled tags masks).base.withMasks masks =
        .ok s ∧ s.Valid := by
    rw [finish, bind_eq_ok]
    constructor
    · rintro ⟨t, hmasks, h⟩
      obtain ⟨_, hvalidate, h⟩ := bind_eq_ok.1 h
      cases h
      exact ⟨hmasks, validate_eq_ok.1 hvalidate⟩
    · rintro ⟨hmasks, hvalid⟩
      exact ⟨s, hmasks, bind_eq_ok.2 ⟨(), validate_eq_ok.2 hvalid, rfl⟩⟩
  rw [hvalid, withMasks_eq_ok, valid_iff]
  simp only [of, withTags, Ascending.empty, List.not_mem_nil, false_or]
  constructor
  · rintro ⟨⟨hmarks, hrest, hmem⟩, hnamed, hfew, hused, -⟩
    refine ⟨⟨?_, ?_, fun names hin tag htag => ?_, ?_⟩, hrest, hmem⟩
    · rw [hrest] at hnamed
      exact hnamed
    · rw [hrest] at hfew
      exact hsize ▸ hfew
    · obtain ⟨m, hm⟩ := hmarks names hin
      exact Ascending.mem_ofList.1 (hm.declared tag htag)
    · rw [hrest] at hused
      refine hused.imp_right fun hnone => List.eq_nil_iff_forall_not_mem.2 fun names hin => ?_
      obtain ⟨m, hm⟩ := hmarks names hin
      have hmask : m ∈ s.masks.toList := (hmem m).2 ⟨names, hin, hm⟩
      rw [show s.masks.toList = [] from hnone] at hmask
      cases hmask
  · rintro ⟨h, hrest, hmem⟩
    have hfew : (Ascending.ofList tags).size ≤ 15 := hsize ▸ h.few
    have htags : s.tags = .ofList tags := by rw [hrest]
    refine ⟨⟨fun names hin => ?_, hrest, hmem⟩, ?_, ?_, ?_, fun m hm p hp => ?_⟩
    · rw [← htags]
      refine exists_marks (htags ▸ hfew) fun tag htag => ?_
      rw [htags, Ascending.mem_ofList]
      exact h.declared names hin tag htag
    · rw [hrest]
      exact h.named
    · rw [htags]
      exact hfew
    · rw [hrest]
      refine h.used.imp_right fun hnone => List.eq_nil_iff_forall_not_mem.2 fun m hm => ?_
      obtain ⟨names, hin, _⟩ := (hmem m).1 hm
      rw [hnone] at hin
      cases hin
    · obtain ⟨names, _, hmarks⟩ := (hmem m).1 hm
      rw [← htags] at hmarks
      exact (marks_iff.1 hmarks).1 p hp

variable {uuid name description kind policy precision enabled tags tags' masks masks'}

/-- Consistent drafts can be finished. -/
theorem exists_finish (h : Consistent name policy tags masks) :
    ∃ s, (of uuid name description kind policy precision enabled tags masks).finish = .ok s := by
  have hfew : (Ascending.ofList tags).size ≤ 15 := size_ofList tags ▸ h.few
  have hmarks : ∀ names ∈ masks, ∃ m, Given.Marks
      ⟨(of uuid name description kind policy precision enabled tags masks).base.tags, names⟩ m :=
    fun names hin => exists_marks hfew fun tag htag =>
      Ascending.mem_ofList.2 (h.declared names hin tag htag)
  obtain ⟨s, hs⟩ := exists_withMasks hmarks
  obtain ⟨-, hrest, hmem⟩ := withMasks_eq_ok.1 hs
  refine ⟨s, (finish_eq_ok ..).2 ⟨h, hrest, fun m => ?_⟩⟩
  simpa [of, withTags, Ascending.empty] using hmem m

theorem kind_of_finish
    (h : (of uuid name description kind policy precision enabled tags masks).finish = .error f) :
    f.kind = .configuration := by
  rw [finish, bind_eq_error] at h
  rcases h with h | ⟨s, _, h⟩
  · exact kind_of_withMasks h
  · rcases bind_eq_error.1 h with h | ⟨_, _, h⟩
    · rw [validate] at h
      split at h
      · next hproblem =>
        cases h
        exact kind_of_problem? hproblem
      · cases h
    · cases h

/-- What is finished is a matter of the sets that the lists stand for. -/
theorem finish_congr (htags : ∀ tag, tag ∈ tags ↔ tag ∈ tags') (hmasks : SameSets masks masks')
    (h : (of uuid name description kind policy precision enabled tags masks).finish = .ok s) :
    (of uuid name description kind policy precision enabled tags' masks').finish = .ok s := by
  obtain ⟨hconsistent, hrest, hmem⟩ := (finish_eq_ok ..).1 h
  have hsame : Ascending.ofList tags = Ascending.ofList tags' :=
    Ascending.ext_mem fun tag => by rw [Ascending.mem_ofList, Ascending.mem_ofList, htags]
  rw [hsame] at hrest hmem
  refine (finish_eq_ok ..).2 ⟨hconsistent.congr htags hmasks, hrest, fun m => (hmem m).trans ?_⟩
  constructor
  · rintro ⟨names, hin, hmarks⟩
    obtain ⟨names', hin', hnames⟩ := hmasks.1 names hin
    exact ⟨names', hin', hmarks.congr hnames⟩
  · rintro ⟨names', hin', hmarks⟩
    obtain ⟨names, hin, hnames⟩ := hmasks.2 names' hin'
    exact ⟨names, hin, hmarks.congr fun tag => (hnames tag).symm⟩

variable (uuid name description kind policy precision enabled tags masks)

/-- A definition in a document is accepted exactly when it is consistent, and refused for its
configuration otherwise.  An accepted one has the distinct tag names in order, and its masks are
those over these tags that roll up the listed sets.  Neither the order of tag names, masks and names
in a mask nor repetitions of them make another definition. -/
theorem finish_exactly :
    ((∃ s, (of uuid name description kind policy precision enabled tags masks).finish = .ok s) ↔
      Consistent name policy tags masks) ∧
    (∀ f, (of uuid name description kind policy precision enabled tags masks).finish = .error f →
      f.kind = .configuration) ∧
    (∀ s, (of uuid name description kind policy precision enabled tags masks).finish = .ok s →
      s = { uuid, name, description, kind, policy, precision, enabled
            tags := s.tags, masks := s.masks } ∧
      s.tags.toList.Pairwise (· < ·) ∧ s.tags.toList.Perm tags.dedup ∧
      SameSets s.rolledUpSets masks ∧
      ∀ m, m ∈ s.masks.toList ↔ (∀ p, m.isRolledUp p = true → p < s.tags.size) ∧
        ∃ names ∈ masks, s.Names m names) ∧
    (∀ tags' masks', (∀ tag, tag ∈ tags ↔ tag ∈ tags') → SameSets masks masks' →
      ∀ s, (of uuid name description kind policy precision enabled tags masks).finish = .ok s ↔
        (of uuid name description kind policy precision enabled tags' masks').finish = .ok s) := by
  refine ⟨⟨?_, exists_finish⟩, fun f => kind_of_finish, fun s h => ?_,
    fun tags' masks' htags hmasks s => ⟨finish_congr htags hmasks, ?_⟩⟩
  · rintro ⟨s, h⟩
    exact ((finish_eq_ok ..).1 h).1
  · obtain ⟨hconsistent, hrest, hmem⟩ := (finish_eq_ok ..).1 h
    have htags : s.tags = .ofList tags := by rw [hrest]
    have hsize : s.tags.size ≤ 15 := by
      rw [htags, size_ofList]
      exact hconsistent.few
    rw [← htags] at hmem
    refine ⟨by rw [hrest], s.tags.sorted.imp compare_lt_iff_lt.1, ?_, ?_, fun m => ?_⟩
    · rw [htags]
      exact perm_ofList tags
    · have hsets : SameSets s.rolledUpSets
          ((masks.map fun names => Given.mk s.tags names).map Given.names) := by
        refine sameSets_rolledUpSets (by simpa using hmem) ?_ ?_
        · rw [List.forall_mem_map]
          intro names hin
          refine exists_marks hsize fun tag htag => ?_
          rw [htags, Ascending.mem_ofList]
          exact hconsistent.declared names hin tag htag
        · rw [List.forall_mem_map]
          intro names _ m hmarks
          exact (marks_iff.1 hmarks).2
      simpa [Function.comp_def] using hsets
    · rw [hmem]
      constructor
      · rintro ⟨names, hin, hmarks⟩
        obtain ⟨hwithin, hnames⟩ := marks_iff.1 hmarks
        exact ⟨hwithin, names, hin, hnames⟩
      · rintro ⟨hwithin, names, hin, hnames⟩
        exact ⟨names, hin, marks_iff.2 ⟨hwithin, hnames⟩⟩
  · exact finish_congr (fun tag => (htags tag).symm) hmasks.symm

/-- A draft that lists a tag and a mask twice. -/
def load (tags : List String) (masks : List (List String)) : Draft :=
  .of none "cpu" "" .value .custom .minute true tags masks

/-- The listed tags and masks in another order, with other repetitions. -/
theorem finish_exactly_load :
    (∃ s, (load ["host", "env", "host"] [["host"], ["env", "host"], ["host"]]).finish = .ok s) ∧
    (∃ f, (load ["host"] [["host"], ["zone"]]).finish = .error f ∧ f.kind = .configuration) ∧
    (load ["env", "host"] [["host", "env", "host"], ["host"]]).finish =
      (load ["host", "env", "host"] [["host"], ["env", "host"], ["host"]]).finish := by
  obtain ⟨haccepted, -, -, hcongr⟩ := finish_exactly none "cpu" "" .value .custom .minute true
    ["host", "env", "host"] [["host"], ["env", "host"], ["host"]]
  obtain ⟨-, hkind, -⟩ := finish_exactly none "cpu" "" .value .custom .minute true
    ["host"] [["host"], ["zone"]]
  have hconsistent : Consistent "cpu" .custom ["host", "env", "host"]
      [["host"], ["env", "host"], ["host"]] :=
    ⟨by decide, by decide, by decide, .inl rfl⟩
  obtain ⟨s, hs⟩ := haccepted.2 hconsistent
  refine ⟨⟨s, hs⟩, ⟨.undefinedTag "zone" "cpu", by rfl, hkind _ (by rfl)⟩, ?_⟩
  have hsame := hcongr ["env", "host"] [["host", "env", "host"], ["host"]] (by simp) ?_ s
  · exact (hsame.1 hs).trans hs.symm
  · simp [SameSets]

end Draft

end Statistic

end StatRollup
