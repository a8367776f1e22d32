import StatRollup.Proofs.Key.Event

/-!
# Masks and the tags they name

Under a valid definition a required mask rolls up positions of declared tags only
(`Valid.lt_of_isRolledUp`), and a tag has one position.  So the mask is as good as the set of names
at its positions, and asking by names is asking for the mask of their positions.  `supports` builds
this mask alone and asks the policy about it.  Its answer is the same as if all required masks were
searched for one with these names (`supports_iff_names`).
-/

namespace StatRollup

/-! ## Masks in order -/

namespace Mask

variable {m top : Mask} {bits count p : Nat} {ps : List Nat}

theorem ofBits?_eq_some : ofBits? bits = some m ↔ m.bits = bits := by
  simp only [ofBits?, Option.dite_none_right_eq_some, Option.some.injEq]
  constructor
  · rintro ⟨_, rfl⟩
    rfl
  · rintro rfl
    exact ⟨m.bits_lt, rfl⟩

theorem mem_upTo : m ∈ top.upTo ↔ m.bits ≤ top.bits := by
  simp only [upTo, List.mem_filterMap, List.mem_range, ofBits?_eq_some, Nat.lt_succ_iff,
    exists_eq_right']

theorem sorted_upTo (top : Mask) : top.upTo.Pairwise fun a b => a.bits < b.bits := by
  rw [upTo, List.pairwise_filterMap]
  refine List.pairwise_lt_range.imp fun hlt a ha b hb => ?_
  rw [ofBits?_eq_some.1 ha, ofBits?_eq_some.1 hb]
  exact hlt

/-- The masks over some positions are those that roll up none but these. -/
theorem mem_allOver : m ∈ allOver count ↔ ∀ p, m.isRolledUp p = true → p < count := by
  have htop : (allRolledUp count).bits = 2 ^ min count maxTags - 1 := rfl
  have hpos : 0 < 2 ^ min count maxTags := Nat.two_pow_pos _
  rw [allOver, mem_upTo, htop]
  constructor
  · intro hle p hp
    refine Decidable.byContradiction fun hge => ?_
    have hlt : m.bits < 2 ^ p := calc
      m.bits < 2 ^ min count maxTags := by omega
      _ ≤ 2 ^ p := Nat.pow_le_pow_right (by decide) (by omega)
    rw [isRolledUp, Nat.testBit_lt_two_pow hlt] at hp
    cases hp
  · intro h
    have hlt : m.bits < 2 ^ min count maxTags := by
      refine Nat.lt_pow_two_of_testBit _ fun p hge => ?_
      rw [← Bool.not_eq_true]
      intro hp
      have hcount : p < count := h p hp
      have hmax : p < maxTags := isRolledUp_lt hp
      omega
    omega

theorem isZero_iff : m.isZero = true ↔ m = zero := by
  cases m with | mk bits h =>
  simp [isZero, zero]

/-- Positions that are in range have a mask. -/
theorem ofPositions_ok (h : ∀ p ∈ ps, p < 15) : ∃ m, ofPositions ps = .ok m := by
  have go : ∀ m : Mask, ∃ n, m.addAll ps = .ok n := by
    induction ps with
    | nil => exact fun m => ⟨m, rfl⟩
    | cons p ps ih =>
      intro m
      rw [List.forall_mem_cons] at h
      obtain ⟨n, hn⟩ := ih h.2 (m.add p h.1)
      exact ⟨n, by rw [addAll, dif_pos h.1, hn]⟩
  exact go zero

theorem isRolledUp_ofPositions (h : ofPositions ps = .ok m) :
    m.isRolledUp p = true ↔ p ∈ ps := by
  rw [isRolledUp_addAll h]
  simp

end Mask

/-! ## Required masks -/

namespace Statistic

variable {s : Statistic} {m m' : Mask} {names : List String} {tag : String} {ps : List Nat}
  {p : Nat}

/-- The required masks are ascending. -/
theorem sorted_requiredMasks (s : Statistic) :
    s.requiredMasks.Pairwise fun a b => a.bits < b.bits := by
  rw [requiredMasks]
  cases s.policy with
  | none => exact List.pairwise_singleton _ _
  | all => exact Mask.sorted_upTo _
  | custom => exact (s.masks.insert .zero).sorted.imp Nat.compare_eq_lt.1

/-- No mask is required twice. -/
theorem nodup_requiredMasks (s : Statistic) : s.requiredMasks.Nodup :=
  s.sorted_requiredMasks.imp fun hlt h => Nat.ne_of_lt hlt (congrArg Mask.bits h)

theorem Valid.masks_lt (h : s.Valid) (hm : m ∈ s.masks.toList) (hp : m.isRolledUp p = true) :
    p < s.tags.size := by
  rw [Valid, problem?] at h
  split at h
  · cases h
  split at h
  · cases h
  split at h
  · cases h
  · have hinside := List.find?_eq_none.1 (Option.map_eq_none_iff.1 h) m hm
    simp only [List.any_eq_true, decide_eq_true_eq, not_exists, not_and] at hinside
    exact Nat.lt_of_not_le (hinside p (Mask.mem_positions.2 hp))

/-- A mask that a valid definition requires rolls up no position beyond the tags. -/
theorem Valid.lt_of_isRolledUp (h : s.Valid) (hm : m ∈ s.requiredMasks)
    (hp : m.isRolledUp p = true) : p < s.tags.size := by
  rw [requiredMasks] at hm
  cases hpolicy : s.policy with
  | none =>
    simp only [hpolicy, List.mem_singleton] at hm
    simp [hm] at hp
  | all =>
    rw [hpolicy] at hm
    exact Mask.mem_allOver.1 hm p hp
  | custom =>
    simp only [hpolicy, Ascending.mem_insert] at hm
    rcases hm with rfl | hm
    · simp at hp
    · exact h.masks_lt hm hp

/-! ## The tags of a mask -/

/-- The names at the positions that a mask rolls up. -/
def rolledUpNames (s : Statistic) (m : Mask) : List String :=
  m.positions.filterMap fun p => s.tags.toList[p]?

theorem mem_rolledUpNames :
    tag ∈ s.rolledUpNames m ↔ ∃ p, m.isRolledUp p = true ∧ s.tags.toList[p]? = some tag := by
  simp [rolledUpNames]

/-- Declared tags have positions. -/
theorem positionsOf?_ok (h : ∀ tag ∈ names, tag ∈ s.tags.toList) :
    ∃ ps, s.positionsOf? names = some ps := by
  induction names with
  | nil => exact ⟨[], rfl⟩
  | cons tag names ih =>
    rw [List.forall_mem_cons] at h
    obtain ⟨p, hp⟩ := positionOf?_of_mem h.1
    obtain ⟨ps, hps⟩ := ih h.2
    exact ⟨p :: ps, by rw [positionsOf?, hp, hps]⟩

/-- Names have positions when each of them has one, and these are the positions. -/
theorem positionsOf?_eq_some :
    s.positionsOf? names = some ps ↔ names.map s.positionOf? = ps.map some := by
  induction names generalizing ps with
  | nil => cases ps <;> simp [positionsOf?]
  | cons tag names ih =>
    rw [positionsOf?, List.map_cons]
    cases hp : s.positionOf? tag with
    | none => cases ps <;> simp
    | some p =>
      cases ps with
      | nil => cases s.positionsOf? names <;> simp
      | cons q qs => cases hps : s.positionsOf? names <;> simp [← ih, hps]

theorem lt_of_positionsOf? (hps : s.positionsOf? names = some ps) (hp : p ∈ ps) :
    p < s.tags.size := by
  have hmem : some p ∈ names.map s.positionOf? := by
    rw [positionsOf?_eq_some.1 hps]
    exact List.mem_map_of_mem hp
  obtain ⟨tag, _, htag⟩ := List.mem_map.1 hmem
  exact (List.getElem?_eq_some_iff.1 (getElem?_of_positionOf? htag)).1

/-- Which mask rolls up exactly the given tags. -/
def Names (s : Statistic) (m : Mask) (names : List String) : Prop :=
  ∀ tag, tag ∈ s.rolledUpNames m ↔ tag ∈ names

/-- The mask of the positions of tags rolls up exactly these tags. -/
theorem names_of_positionsOf? (hps : s.positionsOf? names = some ps)
    (hm : Mask.ofPositions ps = .ok m) : s.Names m names := by
  intro tag
  have hmap := positionsOf?_eq_some.1 hps
  rw [mem_rolledUpNames]
  constructor
  · rintro ⟨p, hp, htag⟩
    have hmem : some p ∈ names.map s.positionOf? := by
      rw [hmap]
      exact List.mem_map_of_mem ((Mask.isRolledUp_ofPositions hm).1 hp)
    obtain ⟨tag', hin, hp'⟩ := List.mem_map.1 hmem
    rw [getElem?_of_positionOf? hp', Option.some.injEq] at htag
    exact htag ▸ hin
  · intro hin
    have hmem : s.positionOf? tag ∈ ps.map some := hmap ▸ List.mem_map_of_mem hin
    obtain ⟨p, hp, htag⟩ := List.mem_map.1 hmem
    exact ⟨p, (Mask.isRolledUp_ofPositions hm).2 hp, getElem?_of_positionOf? htag.symm⟩

/-- Masks that roll up positions of tags only are the same when they roll up the same tags. -/
theorem Names.mask_eq (h : s.Names m names) (h' : s.Names m' names)
    (hm : ∀ p, m.isRolledUp p = true → p < s.tags.size)
    (hm' : ∀ p, m'.isRolledUp p = true → p < s.tags.size) : m = m' := by
  have himp : ∀ {m m' : Mask}, s.Names m names → s.Names m' names →
      (∀ p, m.isRolledUp p = true → p < s.tags.size) →
      ∀ p, m.isRolledUp p = true → m'.isRolledUp p = true := by
    intro m m' h h' hm p hp
    have hlt : p < s.tags.toList.length := hm p hp
    have htag := List.getElem?_eq_getElem hlt
    obtain ⟨q, hq, htag'⟩ := mem_rolledUpNames.1
      ((h' _).2 ((h _).1 (mem_rolledUpNames.2 ⟨p, hp, htag⟩)))
    rw [(List.getElem?_inj hlt s.tags.nodup).1 (htag.trans htag'.symm)]
    exact hq
  refine Mask.ext_isRolledUp fun p => Bool.eq_iff_iff.2 ⟨himp h h' hm p, himp h' h hm' p⟩

/-! ## Supported names -/

/-- Names that have a mask are supported when it is required. -/
theorem supports_iff_mem (hps : s.positionsOf? names = some ps)
    (hm : Mask.ofPositions ps = .ok m) : s.supports names = true ↔ m ∈ s.requiredMasks := by
  have hlt : ∀ p, m.isRolledUp p = true → p < s.tags.size := fun p hp =>
    lt_of_positionsOf? hps ((Mask.isRolledUp_ofPositions hm).1 hp)
  simp only [supports, hps, Option.map_some, hm, requiredMasks]
  cases s.policy with
  | none => simp [Mask.isZero_iff]
  | all => simpa using Mask.mem_allOver.2 hlt
  | custom => simp [Mask.isZero_iff, Ascending.mem_insert]

/-- Only names that have a mask are supported. -/
theorem positions_of_supports (h : s.supports names = true) :
    ∃ ps m, s.positionsOf? names = some ps ∧ Mask.ofPositions ps = .ok m := by
  rw [supports] at h
  cases hps : s.positionsOf? names with
  | none => simp [hps] at h
  | some ps =>
    cases hm : Mask.ofPositions ps with
    | error f => simp [hps, hm] at h
    | ok m => exact ⟨ps, m, rfl, hm⟩

/-- Names are supported exactly when a required mask rolls up these tags and no others. -/
theorem Valid.supports_iff_names (h : s.Valid) :
    s.supports names = true ↔ ∃ m ∈ s.requiredMasks, s.Names m names := by
  constructor
  · intro hsupports
    obtain ⟨ps, m, hps, hm⟩ := positions_of_supports hsupports
    exact ⟨m, (supports_iff_mem hps hm).1 hsupports, names_of_positionsOf? hps hm⟩
  · rintro ⟨m, hin, hnames⟩
    have hdeclared : ∀ tag ∈ names, tag ∈ s.tags.toList := by
      intro tag htag
      obtain ⟨p, _, hp⟩ := mem_rolledUpNames.1 ((hnames tag).2 htag)
      exact List.mem_of_getElem? hp
    obtain ⟨ps, hps⟩ := positionsOf?_ok hdeclared
    have hlt : ∀ p ∈ ps, p < s.tags.size := fun p => lt_of_positionsOf? hps
    obtain ⟨m', hm'⟩ := Mask.ofPositions_ok fun p hp =>
      Nat.lt_of_lt_of_le (hlt p hp) h.size_tags_le
    have hsame : m' = m := (names_of_positionsOf? hps hm').mask_eq hnames
      (fun p hp => hlt p ((Mask.isRolledUp_ofPositions hm').1 hp))
      fun p => h.lt_of_isRolledUp hin
    exact (supports_iff_mem hps hm').2 (hsame ▸ hin)

end Statistic

end StatRollup
