import Mathlib.Data.List.Destutter
import Mathlib.Data.List.NodupEquivFin
import StatRollup.Order.Search
import StatRollup.Proofs.Statistic.Building
import StatRollup.Proofs.Text.Order

/-!
# The positions of tags

Tag names are sorted by their octets and repetitions are left out, and the position of a name is
searched for by halves.  The sorted names are the set of the names (`toList_ofList`), so the names
of a definition that was built are those set last, whatever was called before and after
(`tags_changeAll`).  The search compares octets as the sorting does, so it finds the declared names
and no others (`positionOf?_eq_search`), and no two names have one position.
-/

namespace StatRollup

/-- What lies before or after an element lies so to each element of a strictly ascending list. -/
theorem Ascending.sides {α : Type} [Ord α] [Std.TransOrd α] (s : Ascending α) (k : α) :
    Sides (fun a => compare a k) s.toList :=
  s.sorted.imp fun {a b} hlt hside => by
    have hle : (compare b k).isLE = true := by
      cases h : compare b k <;> simp_all
    exact Std.TransCmp.lt_of_lt_of_isLE hlt hle

namespace Statistic

/-! ## Sorted names -/

/-- Names are in the order of their octets. -/
def namesLE (a b : String) : Bool := (compare (Bytes.ofText a) (Bytes.ofText b)).isLE

/-- Names in order, where one that repeats the name in front of it is left out. -/
def sortedNames (names : List String) : List String :=
  (names.mergeSort namesLE).destutter (· ≠ ·)

theorem namesLE_iff {a b : String} : namesLE a b = true ↔ compare a b ≠ .gt := by
  rw [namesLE, Bytes.compare_ofText, Ordering.isLE_iff_ne_gt]

instance : Std.Antisymm fun a b : String => namesLE a b = true where
  antisymm a b hab hba := by
    rw [namesLE_iff] at hab hba
    cases h : compare a b with
    | lt => exact absurd (Std.OrientedCmp.gt_of_lt h) hba
    | eq => exact Std.LawfulEqOrd.eq_of_compare h
    | gt => exact absurd h hab

theorem pairwise_mergeSort_namesLE (names : List String) :
    (names.mergeSort namesLE).Pairwise fun a b => namesLE a b = true := by
  apply List.pairwise_mergeSort
  · intro a b c
    exact Std.TransCmp.isLE_trans
  · intro a b
    rw [Bool.or_eq_true, namesLE_iff, namesLE_iff]
    cases h : compare a b with
    | lt => exact .inl nofun
    | eq => exact .inl nofun
    | gt => exact .inr (by rw [Std.OrientedCmp.lt_of_gt h]; nofun)

theorem sortedNames_eq_dedup (names : List String) :
    sortedNames names = (names.mergeSort namesLE).dedup :=
  (pairwise_mergeSort_namesLE names).destutter_eq_dedup

theorem mem_sortedNames {names : List String} {tag : String} :
    tag ∈ sortedNames names ↔ tag ∈ names := by
  rw [sortedNames_eq_dedup, List.mem_dedup, (names.mergeSort_perm namesLE).mem_iff]

theorem sorted_sortedNames (names : List String) :
    (sortedNames names).Pairwise fun a b => compare a b = .lt := by
  have hle := (pairwise_mergeSort_namesLE names).sublist (List.dedup_sublist _)
  rw [sortedNames_eq_dedup]
  refine (hle.and (List.nodup_dedup _)).imp ?_
  rintro a b ⟨hab, hne⟩
  rw [namesLE_iff] at hab
  cases h : compare a b with
  | lt => rfl
  | eq => exact absurd (Std.LawfulEqOrd.eq_of_compare h) hne
  | gt => exact absurd h hab

/-- The sorted names are the set of the names. -/
theorem toList_ofList (names : List String) :
    (Ascending.ofList names).toList = sortedNames names := by
  refine congrArg Ascending.toList
    (Ascending.ext_mem (t := ⟨sortedNames names, sorted_sortedNames names⟩) fun tag => ?_)
  rw [Ascending.mem_ofList, mem_sortedNames]

/-! ## Names set last -/

/-- The names that a change sets. -/
def Change.names? : Change → Option (List String)
  | .tags names => some names
  | _ => none

/-- The names set last, or those from the start when none were set. -/
def namesSet (start : List String) (changes : List Change) : List String :=
  (changes.filterMap Change.names?).getLast?.getD start

variable {s t : Statistic} {c : Change} {changes : List Change} {start : List String}
  {tag : String} {p : Nat}

theorem namesSet_cons :
    namesSet start (c :: changes) = namesSet (c.names?.getD start) changes := by
  cases h : c.names? with
  | none => simp [namesSet, h]
  | some names => simp [namesSet, h, List.getLast?_cons]

/-- It is the members at the start that matter for the members at the end. -/
theorem mem_namesSet_congr {start' : List String} (h : ∀ tag, tag ∈ start ↔ tag ∈ start') :
    tag ∈ namesSet start changes ↔ tag ∈ namesSet start' changes := by
  cases hlast : (changes.filterMap Change.names?).getLast? <;> simp [namesSet, hlast, h]

theorem Change.mem_tagsAfter {tags : Ascending String} :
    tag ∈ (c.tagsAfter tags).toList ↔ tag ∈ c.names?.getD tags.toList := by
  cases c <;> simp [tagsAfter, names?, Ascending.mem_ofList]

theorem mem_tags_changeAll (h : s.changeAll changes = .ok t) :
    tag ∈ t.tags.toList ↔ tag ∈ namesSet s.tags.toList changes := by
  induction changes generalizing s with
  | nil =>
    cases h
    simp [namesSet]
  | cons c changes ih =>
    rw [changeAll] at h
    obtain ⟨s', hchange, h⟩ := bind_eq_ok.1 h
    -- What the first change leaves are its names as a set, which is all that the rest goes by.
    rw [ih h, (change_ok hchange).1, namesSet_cons]
    exact mem_namesSet_congr fun tag => Change.mem_tagsAfter

/-- The tags of a definition that was built are the names set last. -/
theorem tags_changeAll (h : s.changeAll changes = .ok t) :
    t.tags = .ofList (namesSet s.tags.toList changes) :=
  Ascending.ext_mem fun tag => by rw [mem_tags_changeAll h, Ascending.mem_ofList]

/-! ## Positions -/

/-- The position of a name is searched for by halves, by its octets. -/
theorem positionOf?_eq_search (s : Statistic) (tag : String) : s.positionOf? tag =
    search (fun name => compare (Bytes.ofText name) (Bytes.ofText tag)) s.tags.toList := by
  simp only [Bytes.compare_ofText]
  ext p
  rw [positionOf?_eq_some, search_eq_some (s.tags.sides tag)]
  constructor
  · intro h
    exact ⟨tag, h, Std.ReflCmp.compare_self⟩
  · rintro ⟨name, hname, heq⟩
    rw [hname, Std.LawfulEqOrd.eq_of_compare heq]

theorem isTag_iff : s.isTag tag = true ↔ tag ∈ s.tags.toList := by
  rw [isTag, Option.isSome_iff_exists, List.mem_iff_getElem?]
  simp only [positionOf?_eq_some]

/-- Each name has a position, and each position up to the number of names has one name. -/
theorem positions_bijective (s : Statistic) :
    ∃ e : {tag // tag ∈ s.tags.toList} ≃ Fin s.tags.size,
      ∀ tag, s.positionOf? tag.1 = some (e tag).val := by
  let e := s.tags.nodup.getEquiv _
  refine ⟨e.symm, fun tag => ?_⟩
  have hget : s.tags.toList[(e.symm tag).val] = tag.1 :=
    congrArg Subtype.val (e.apply_symm_apply tag)
  rw [positionOf?_eq_some, List.getElem?_eq_some_iff]
  exact ⟨(e.symm tag).isLt, hget⟩

/-- The tags of a definition that was built, from any definition and with any changes, strictly
ascend by their octets and are those of the last change that set tags: its names sorted, without
repetitions.  Searching by halves finds the position of each of them and of no other text, so names
and positions are one to one. -/
theorem tags_placed (s : Statistic) (changes : List Change) (t : Statistic)
    (h : s.changeAll changes = .ok t) :
    (t.tags.toList.Pairwise fun a b => compare (Bytes.ofText a) (Bytes.ofText b) = .lt) ∧
    t.tags.toList.Nodup ∧
    (∀ tag, tag ∈ t.tags.toList ↔ tag ∈ namesSet s.tags.toList changes) ∧
    t.tags.toList = sortedNames (namesSet s.tags.toList changes) ∧
    (∀ tag, t.positionOf? tag =
      search (fun name => compare (Bytes.ofText name) (Bytes.ofText tag)) t.tags.toList) ∧
    (∀ tag p, t.positionOf? tag = some p ↔ t.tags.toList[p]? = some tag) ∧
    (∀ tag, t.isTag tag = true ↔ tag ∈ t.tags.toList) ∧
    ∃ e : {tag // tag ∈ t.tags.toList} ≃ Fin t.tags.size,
      ∀ tag, t.positionOf? tag.1 = some (e tag).val := by
  have hsorted : t.tags.toList.Pairwise fun a b =>
      compare (Bytes.ofText a) (Bytes.ofText b) = .lt := by
    simpa only [Bytes.compare_ofText] using t.tags.sorted
  have htoList : t.tags.toList = sortedNames (namesSet s.tags.toList changes) := by
    rw [tags_changeAll h, toList_ofList]
  exact ⟨hsorted, t.tags.nodup, fun tag => mem_tags_changeAll h, htoList,
    t.positionOf?_eq_search, fun tag p => positionOf?_eq_some, fun tag => isTag_iff,
    t.positions_bijective⟩

/-- Tags are set, changed and set again, with one name twice. -/
def retold : List Change :=
  [.tags ["host"], .policy .custom, .mask ["host"], .tags ["system", "env", "user", "env"],
    .enabled false]

/-- The definition that comes out. -/
def retoldOrders : Statistic :=
  { new "orders" .count .second with
    policy := .custom
    enabled := false
    tags := .ofList ["env", "system", "user"]
    masks := .ofList ([1].filterMap Mask.ofBits?) }

theorem tags_placed_retold :
    (new "orders" .count .second).changeAll retold = .ok retoldOrders ∧
      retoldOrders.tags.toList = sortedNames ["system", "env", "user", "env"] ∧
      retoldOrders.positionOf? "user" = some 2 ∧ retoldOrders.isTag "host" = false := by
  have h : (new "orders" .count .second).changeAll retold = .ok retoldOrders := by rfl
  obtain ⟨-, -, -, htoList, -, hposition, htag, -⟩ := tags_placed _ _ _ h
  refine ⟨h, htoList, (hposition "user" 2).2 (by decide +kernel), ?_⟩
  rw [← Bool.not_eq_true, htag]
  decide +kernel

end Statistic

end StatRollup
