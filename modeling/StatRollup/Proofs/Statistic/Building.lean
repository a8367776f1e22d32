import StatRollup.Proofs.Statistic.Masks
import StatRollup.Statistic.Building

/-!
# What the masks of a definition come to name

A mask is given by names and kept as the positions that these have among the tags set at that time
(`Given`).  Setting other tags later leaves the positions and changes what they stand for.  So a
mask comes to name the tags that end up at the positions of those it was given for
(`Given.Marks.mem_rolledUpNames`), and it names what it was given for exactly when all its positions
have the tags still that they had (`Given.Marks.names_iff`).  No other arrangement gives the same
names, since names ascend with their positions.
-/

namespace StatRollup

/-- Where a partial function keeps of a list what another one makes of all of it, both are the same
on the list. -/
theorem eq_of_filterMap_eq {α β : Type} {f g : α → Option β} {l : List α}
    (hg : ∀ x ∈ l, (g x).isSome = true) (h : l.filterMap f = l.filterMap g) :
    ∀ x ∈ l, f x = g x := by
  have hf : ∀ x ∈ l, (f x).isSome = true := by
    rw [← List.filterMap_length_eq_length] at hg ⊢
    rw [h, hg]
  have hmap : ∀ {k : α → Option β}, (∀ x ∈ l, (k x).isSome = true) →
      (l.filterMap k).map some = l.map k := by
    intro k hk
    rw [List.map_filterMap_some_eq_filter_map_isSome, List.filter_eq_self]
    simpa using hk
  rw [← List.map_inj_left, ← hmap hf, h, hmap hg]

namespace Statistic

variable {s t : Statistic} {tags : Ascending String} {names : List String} {ps : List Nat}
  {tag : String} {m m' : Mask} {p : Nat}

/-! ## Positions of names -/

theorem positionOf?_eq_some : s.positionOf? tag = some p ↔ s.tags.toList[p]? = some tag := by
  refine ⟨getElem?_of_positionOf?, fun h => ?_⟩
  obtain ⟨q, hq⟩ := positionOf?_of_mem (List.mem_of_getElem? h)
  have hlt : p < s.tags.toList.length := (List.getElem?_eq_some_iff.1 h).1
  have hsame : s.tags.toList[p]? = s.tags.toList[q]? := by rw [h, getElem?_of_positionOf? hq]
  rw [hq, (List.getElem?_inj hlt s.tags.nodup).1 hsame]

/-- Names have positions when each of them is declared. -/
theorem positionsOf_eq_ok :
    s.positionsOf names = .ok ps ↔ names.map s.positionOf? = ps.map some := by
  induction names generalizing ps with
  | nil => cases ps <;> simp [positionsOf]
  | cons tag names ih =>
    rw [positionsOf, List.map_cons]
    cases hp : s.positionOf? tag with
    | none => cases ps <;> simp
    | some p =>
      cases ps with
      | nil => cases s.positionsOf names <;> simp [Except.map]
      | cons q qs => cases hps : s.positionsOf names <;> simp [Except.map, ← ih, hps]

theorem mem_positionsOf (h : s.positionsOf names = .ok ps) :
    p ∈ ps ↔ ∃ tag ∈ names, s.tags.toList[p]? = some tag := by
  have hmem : p ∈ ps ↔ some p ∈ names.map s.positionOf? := by
    rw [positionsOf_eq_ok.1 h]
    simp
  simp [hmem, positionOf?_eq_some]

/-! ## Masks as they are given -/

/-- A mask as it is given: the names of the tags that it rolls up, among the tags set by then. -/
structure Given where
  /-- The tags that are set. -/
  tags : Ascending String
  /-- The names of those rolled up. -/
  names : List String

/-- The mask rolls up the positions of the names, and all names have one. -/
structure Given.Marks (g : Given) (m : Mask) : Prop where
  declared : ∀ tag ∈ g.names, tag ∈ g.tags.toList
  positions : ∀ p, m.isRolledUp p = true ↔ ∃ tag ∈ g.names, g.tags.toList[p]? = some tag

/-- Names mark one mask. -/
theorem Given.Marks.iff_eq {g : Given} (h : g.Marks m) : g.Marks m' ↔ m' = m := by
  constructor
  · intro h'
    apply Mask.ext_isRolledUp
    intro p
    rw [Bool.eq_iff_iff, h.positions, h'.positions]
  · rintro rfl
    exact h

/-- Names mark the mask of their positions. -/
theorem marks_of_ofPositions (hps : s.positionsOf names = .ok ps)
    (hm : Mask.ofPositions ps = .ok m) : Given.Marks ⟨s.tags, names⟩ m := by
  refine ⟨fun tag htag => ?_, fun p => ?_⟩
  · have hmem : s.positionOf? tag ∈ ps.map some := by
      rw [← positionsOf_eq_ok.1 hps]
      exact List.mem_map_of_mem htag
    obtain ⟨p, _, hp⟩ := List.mem_map.1 hmem
    exact List.mem_of_getElem? (positionOf?_eq_some.1 hp.symm)
  · rw [Mask.isRolledUp_ofPositions hm, mem_positionsOf hps]

/-- Declared names have a mask when none of their positions is beyond the last. -/
theorem exists_ofPositions (hdeclared : ∀ tag ∈ names, tag ∈ s.tags.toList)
    (hlt : ∀ p, ∀ tag ∈ names, s.tags.toList[p]? = some tag → p < 15) :
    ∃ ps m, s.positionsOf names = .ok ps ∧ Mask.ofPositions ps = .ok m := by
  obtain ⟨ps, hps⟩ := positionsOf?_ok hdeclared
  replace hps : s.positionsOf names = .ok ps := positionsOf_eq_ok.2 (positionsOf?_eq_some.1 hps)
  obtain ⟨m, hm⟩ : ∃ m, Mask.ofPositions ps = .ok m := by
    apply Mask.ofPositions_ok
    intro p hp
    obtain ⟨tag, htag, hposition⟩ := (mem_positionsOf hps).1 hp
    exact hlt p tag htag hposition
  exact ⟨ps, m, hps, hm⟩

/-- Adding a mask adds the one that the names mark, and is refused when they mark none. -/
theorem withMask_eq_ok : s.withMask names = .ok t ↔
    ∃ m, Given.Marks ⟨s.tags, names⟩ m ∧ t = { s with masks := s.masks.insert m } := by
  rw [withMask]
  constructor
  · intro h
    obtain ⟨ps, hps, h⟩ := bind_eq_ok.1 h
    obtain ⟨m, hm, h⟩ := bind_eq_ok.1 h
    cases h
    exact ⟨m, marks_of_ofPositions hps hm, rfl⟩
  · rintro ⟨m, hmarks, rfl⟩
    obtain ⟨ps, m', hps, hm'⟩ := exists_ofPositions hmarks.declared fun p tag htag hp =>
      Mask.isRolledUp_lt ((hmarks.positions p).2 ⟨tag, htag, hp⟩)
    obtain rfl : m' = m := hmarks.iff_eq.1 (marks_of_ofPositions hps hm')
    simp [hps, hm', bind, Except.bind, pure, Except.pure]

/-! ## Changes -/

/-- The tags that are set after a change. -/
def Change.tagsAfter (tags : Ascending String) : Change → Ascending String
  | .tags names => .ofList names
  | _ => tags

/-- The masks that a change gives: one or none. -/
def Change.gives (tags : Ascending String) : Change → List Given
  | .mask names => [⟨tags, names⟩]
  | _ => []

/-- The masks that changes give, each among the tags set by then. -/
def given (tags : Ascending String) : List Change → List Given
  | [] => []
  | c :: rest => c.gives tags ++ given (c.tagsAfter tags) rest

variable {g : Given} {c : Change} {changes : List Change}

/-- A change that is accepted sets tags or adds the mask that it gives. -/
theorem change_ok (h : s.change c = .ok t) :
    t.tags = c.tagsAfter s.tags ∧ (∀ g ∈ c.gives s.tags, ∃ m, g.Marks m) ∧
      ∀ m, m ∈ t.masks.toList ↔ m ∈ s.masks.toList ∨ ∃ g ∈ c.gives s.tags, g.Marks m := by
  cases c with
  | tags names =>
    cases h
    simp [Change.tagsAfter, Change.gives, withTags]
  | mask names =>
    obtain ⟨m, hmarks, rfl⟩ := withMask_eq_ok.1 h
    refine ⟨rfl, by simpa [Change.gives] using ⟨m, hmarks⟩, fun m' => ?_⟩
    simp [Change.gives, Ascending.mem_insert, hmarks.iff_eq, or_comm]
  | policy policy =>
    cases h
    simp [Change.tagsAfter, Change.gives]
  | description text =>
    cases h
    simp [Change.tagsAfter, Change.gives]
  | enabled flag =>
    cases h
    simp [Change.tagsAfter, Change.gives]

/-- After changes the masks are those from before and those that were given. -/
theorem changeAll_ok (h : s.changeAll changes = .ok t) :
    (∀ g ∈ given s.tags changes, ∃ m, g.Marks m) ∧
      ∀ m, m ∈ t.masks.toList ↔ m ∈ s.masks.toList ∨ ∃ g ∈ given s.tags changes, g.Marks m := by
  induction changes generalizing s with
  | nil =>
    cases h
    simp [given]
  | cons c changes ih =>
    rw [changeAll] at h
    obtain ⟨s', hchange, h⟩ := bind_eq_ok.1 h
    obtain ⟨htags, hgives, hmasks⟩ := change_ok hchange
    obtain ⟨hgiven, hmem⟩ := ih h
    rw [htags] at hgiven hmem
    simp only [given, List.mem_append]
    constructor
    · rintro g (hg | hg)
      · exact hgives g hg
      · exact hgiven g hg
    · intro m
      rw [hmem, hmasks, or_assoc]
      simp only [or_and_right, exists_or]

/-! ## What masks name -/

/-- Names ascend with their positions. -/
theorem sorted_rolledUpNames (s : Statistic) (m : Mask) :
    (s.rolledUpNames m).Pairwise fun a b => compare a b = .lt := by
  rw [rolledUpNames, List.pairwise_filterMap]
  have hpositions : m.positions.Pairwise (· < ·) := List.pairwise_lt_range.filter _
  refine hpositions.imp fun {p q} hlt a ha b hb => ?_
  obtain ⟨hp, rfl⟩ := List.getElem?_eq_some_iff.1 ha
  obtain ⟨hq, rfl⟩ := List.getElem?_eq_some_iff.1 hb
  exact List.pairwise_iff_getElem.1 s.tags.sorted p q hp hq hlt

/-- A mask names the tags at the positions of those that it was given for. -/
theorem Given.Marks.mem_rolledUpNames (h : g.Marks m) (t : Statistic) :
    tag ∈ t.rolledUpNames m ↔
      ∃ old ∈ g.names, ∃ p : Nat, g.tags.toList[p]? = some old ∧ t.tags.toList[p]? = some tag := by
  rw [Statistic.mem_rolledUpNames]
  constructor
  · rintro ⟨p, hp, htag⟩
    obtain ⟨old, hold, hposition⟩ := (h.positions p).1 hp
    exact ⟨old, hold, p, hposition, htag⟩
  · rintro ⟨old, hold, p, hposition, htag⟩
    exact ⟨p, (h.positions p).2 ⟨old, hold, hposition⟩, htag⟩

/-- A mask names what it was given for when its positions have the tags that they had. -/
theorem Given.Marks.names_of_kept (h : g.Marks m)
    (hkept : ∀ p, m.isRolledUp p = true → t.tags.toList[p]? = g.tags.toList[p]?) :
    t.Names m g.names := by
  intro tag
  rw [h.mem_rolledUpNames]
  constructor
  · rintro ⟨old, hold, p, hposition, htag⟩
    rw [hkept p ((h.positions p).2 ⟨old, hold, hposition⟩), hposition] at htag
    cases htag
    exact hold
  · intro htag
    obtain ⟨p, hposition⟩ := List.getElem?_of_mem (h.declared tag htag)
    refine ⟨tag, htag, p, hposition, ?_⟩
    rw [hkept p ((h.positions p).2 ⟨tag, htag, hposition⟩), hposition]

/-- The positions of a mask have the tags that they had when the given names are where they were. -/
theorem Given.Marks.kept_of_positionOf? (h : g.Marks m)
    (hsame : ∀ tag ∈ g.names, t.positionOf? tag = g.tags.toList.idxOf? tag) :
    ∀ p, m.isRolledUp p = true → t.tags.toList[p]? = g.tags.toList[p]? := by
  intro p hp
  obtain ⟨tag, htag, hposition⟩ := (h.positions p).1 hp
  have hthen : g.tags.toList.idxOf? tag = some p :=
    positionOf?_eq_some (s := { t with tags := g.tags }).2 hposition
  rw [hposition, ← positionOf?_eq_some, hsame tag htag, hthen]

/-- A mask names what it was given for exactly when its positions have the tags that they had. -/
theorem Given.Marks.names_iff (h : g.Marks m) :
    t.Names m g.names ↔ ∀ p, m.isRolledUp p = true → t.tags.toList[p]? = g.tags.toList[p]? := by
  refine ⟨fun hnames => ?_, h.names_of_kept⟩
  · -- The same names in the same order, once under the tags set last and once under those of then.
    let before : Statistic := { t with tags := g.tags }
    have hthen : before.Names m g.names := h.names_of_kept fun _ _ => rfl
    have hlists : t.rolledUpNames m = before.rolledUpNames m :=
      congrArg Ascending.toList (Ascending.ext_mem (s := ⟨_, t.sorted_rolledUpNames m⟩)
        (t := ⟨_, before.sorted_rolledUpNames m⟩) fun tag => by rw [hnames tag, hthen tag])
    intro p hp
    refine eq_of_filterMap_eq (fun q hq => ?_) hlists p (Mask.mem_positions.2 hp)
    obtain ⟨tag, _, htag⟩ := (h.positions q).1 (Mask.mem_positions.1 hq)
    simp [before, htag]

/-- The sets of tags that the masks of a definition roll up. -/
def rolledUpSets (s : Statistic) : List (List String) := s.masks.toList.map s.rolledUpNames

/-- Lists of names that are the same when they are read as sets of sets. -/
def SameSets (xs ys : List (List String)) : Prop :=
  (∀ x ∈ xs, ∃ y ∈ ys, ∀ tag, tag ∈ x ↔ tag ∈ y) ∧ ∀ y ∈ ys, ∃ x ∈ xs, ∀ tag, tag ∈ x ↔ tag ∈ y

/-- Masks that name what they were given for, one for each, roll up the sets that were given. -/
theorem sameSets_rolledUpSets {gs : List Given}
    (hmem : ∀ m, m ∈ t.masks.toList ↔ ∃ g ∈ gs, g.Marks m) (hmarks : ∀ g ∈ gs, ∃ m, g.Marks m)
    (hnames : ∀ g ∈ gs, ∀ m, g.Marks m → t.Names m g.names) :
    SameSets t.rolledUpSets (gs.map Given.names) := by
  constructor
  · intro names hin
    obtain ⟨m, hm, rfl⟩ := List.mem_map.1 hin
    obtain ⟨g, hg, h⟩ := (hmem m).1 hm
    exact ⟨g.names, List.mem_map_of_mem hg, hnames g hg m h⟩
  · intro names hin
    obtain ⟨g, hg, rfl⟩ := List.mem_map.1 hin
    obtain ⟨m, h⟩ := hmarks g hg
    exact ⟨t.rolledUpNames m, List.mem_map_of_mem ((hmem m).2 ⟨g, hg, h⟩), hnames g hg m h⟩

/-- The masks of a definition that was built are the positions that the names given for them had
when they were given.  Whatever tags are set last, a mask names those at these positions, which are
the given ones exactly when the tags there are the same still.  So the masks roll up the given sets
of tags as long as all given names keep their positions. -/
theorem masks_keep_positions (name : String) (kind : Kind) (precision : Interval)
    (changes : List Change) (t : Statistic)
    (h : (new name kind precision).changeAll changes = .ok t) :
    (∀ g ∈ given .empty changes, ∃ m ∈ t.masks.toList, g.Marks m) ∧
    (∀ m ∈ t.masks.toList, ∃ g ∈ given .empty changes, g.Marks m) ∧
    (∀ g ∈ given .empty changes, ∀ m, g.Marks m →
      (∀ tag, tag ∈ t.rolledUpNames m ↔ ∃ old ∈ g.names, ∃ p : Nat,
        g.tags.toList[p]? = some old ∧ t.tags.toList[p]? = some tag) ∧
      (t.Names m g.names ↔
        ∀ p, m.isRolledUp p = true → t.tags.toList[p]? = g.tags.toList[p]?)) ∧
    ((∀ g ∈ given .empty changes, ∀ tag ∈ g.names,
        t.positionOf? tag = g.tags.toList.idxOf? tag) →
      SameSets t.rolledUpSets ((given .empty changes).map Given.names)) := by
  obtain ⟨hmarks, hmem⟩ := changeAll_ok h
  have hgiven : ∀ m, m ∈ t.masks.toList ↔ ∃ g ∈ given .empty changes, g.Marks m := by
    intro m
    simpa [new, Ascending.empty] using hmem m
  refine ⟨fun g hg => ?_, fun m => (hgiven m).1, fun g _ m hg => ⟨fun tag => ?_, hg.names_iff⟩,
    fun hkept => ?_⟩
  · obtain ⟨m, hm⟩ := hmarks g hg
    exact ⟨m, (hgiven m).2 ⟨g, hg, hm⟩, hm⟩
  · exact hg.mem_rolledUpNames t
  · refine sameSets_rolledUpSets hgiven hmarks fun g hg m hm => ?_
    exact hm.names_of_kept (hm.kept_of_positionOf? (hkept g hg))

/-- Masks are given, and then a tag behind all others is added. -/
def widened : List Change :=
  [.policy .custom, .tags ["host", "env"], .mask ["host"], .mask ["env", "host", "env"],
    .tags ["zone", "host", "env"], .enabled false]

/-- The definition that comes out. -/
def widenedOrders : Statistic :=
  { new "orders" .count .second with
    policy := .custom
    enabled := false
    tags := .ofList ["env", "host", "zone"]
    masks := .ofList ([2, 3].filterMap Mask.ofBits?) }

theorem masks_keep_positions_widened :
    (new "orders" .count .second).changeAll widened = .ok widenedOrders ∧
      SameSets widenedOrders.rolledUpSets [["host"], ["env", "host", "env"]] := by
  have h : (new "orders" .count .second).changeAll widened = .ok widenedOrders := by rfl
  obtain ⟨-, -, -, hsets⟩ := masks_keep_positions _ _ _ _ _ h
  exact ⟨h, hsets (by decide +kernel)⟩

/-- Tags are set again after a mask was given. -/
def retagged : List Change := [.policy .custom, .tags ["host"], .mask ["host"], .tags ["env"]]

/-- The definition that comes out. -/
def retaggedOrders : Statistic :=
  { new "orders" .count .second with
    policy := .custom
    tags := .ofList ["env"]
    masks := .ofList ([1].filterMap Mask.ofBits?) }

theorem mask_names_other_tag :
    (new "orders" .count .second).changeAll retagged = .ok retaggedOrders ∧ retaggedOrders.Valid ∧
      ¬ SameSets retaggedOrders.rolledUpSets ((given .empty retagged).map Given.names) := by
  refine ⟨by rfl, by decide +kernel, ?_⟩
  rintro ⟨hnamed, -⟩
  obtain ⟨names, hnames, hsame⟩ := hnamed ["env"] (by decide +kernel)
  obtain rfl : names = ["host"] := List.mem_singleton.1 hnames
  exact absurd ((hsame "env").1 List.mem_cons_self) (by decide)

end Statistic

end StatRollup
