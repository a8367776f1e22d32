/-!
# Sorted lists

Two ways of keeping a list in order.  `Ascending` is a finite set, kept as a strictly ascending
list, so a set has one list and positions in it are stable.  `insertionSort` keeps repeated
elements and only puts them in order.
-/
namespace StatRollup

variable {α : Type} [Ord α]

/-! ## Sets -/

/-- A finite set as a strictly ascending list. -/
structure Ascending (α : Type) [Ord α] where
  /-- The members. -/
  toList : List α
  /-- Every member is before the later ones. -/
  sorted : toList.Pairwise fun a b => compare a b = .lt

namespace Ascending

instance [DecidableEq α] : DecidableEq (Ascending α) := fun a b =>
  if h : a.toList = b.toList then
    isTrue (by cases a; cases b; cases h; rfl)
  else isFalse fun e => h (congrArg toList e)

instance [Repr α] : Repr (Ascending α) := ⟨fun s n => reprPrec s.toList n⟩

/-- The empty set. -/
def empty : Ascending α := ⟨[], .nil⟩

instance : Inhabited (Ascending α) := ⟨empty⟩

/-- Number of members. -/
def size (s : Ascending α) : Nat := s.toList.length

/-- Puts an element at its place unless it is there. -/
def place (a : α) : List α → List α
  | [] => [a]
  | b :: bs =>
    match compare a b with
    | .lt => a :: b :: bs
    | .eq => b :: bs
    | .gt => b :: place a bs

theorem mem_of_mem_place {a x : α} {bs : List α} (h : x ∈ place a bs) : x = a ∨ x ∈ bs := by
  induction bs with
  | nil => simpa [place] using h
  | cons b bs ih =>
    rw [place] at h
    split at h
    · simpa using h
    · exact .inr h
    · rcases List.mem_cons.1 h with rfl | h
      · exact .inr List.mem_cons_self
      · exact (ih h).imp_right (List.mem_cons_of_mem _)

theorem sorted_place [Std.TransOrd α] (a : α) {bs : List α}
    (h : bs.Pairwise fun a b => compare a b = .lt) :
    (place a bs).Pairwise fun a b => compare a b = .lt := by
  induction bs with
  | nil => simp [place]
  | cons b bs ih =>
    have ⟨hb, hbs⟩ := List.pairwise_cons.1 h
    rw [place]
    split
    · next hab =>
      refine List.pairwise_cons.2 ⟨fun x hx => ?_, h⟩
      rcases List.mem_cons.1 hx with rfl | hx
      · exact hab
      · exact Std.TransCmp.lt_trans hab (hb x hx)
    · exact h
    · next hab =>
      refine List.pairwise_cons.2 ⟨fun x hx => ?_, ih hbs⟩
      rcases mem_of_mem_place hx with rfl | hx
      · exact Std.OrientedCmp.lt_of_gt hab
      · exact hb x hx

/-- Adds an element. -/
def insert [Std.TransOrd α] (s : Ascending α) (a : α) : Ascending α :=
  ⟨place a s.toList, sorted_place a s.sorted⟩

/-- The set of the elements of a list. -/
def ofList [Std.TransOrd α] (as : List α) : Ascending α := as.foldl insert empty

/-- The members of `insert` are the old ones and the new one. -/
theorem mem_place [Std.LawfulEqOrd α] {a x : α} {bs : List α} :
    x ∈ place a bs ↔ x = a ∨ x ∈ bs := by
  induction bs with
  | nil => simp [place]
  | cons b bs ih =>
    rw [place]
    split
    · simp
    · next hab =>
      cases Std.LawfulEqOrd.eq_of_compare hab
      simp
    · rw [List.mem_cons, ih, List.mem_cons]
      exact or_left_comm

theorem mem_insert [Std.TransOrd α] [Std.LawfulEqOrd α] {s : Ascending α} {a x : α} :
    x ∈ (s.insert a).toList ↔ x = a ∨ x ∈ s.toList := mem_place

/-- The members of a set of a list are those of the list. -/
theorem mem_ofList [Std.TransOrd α] [Std.LawfulEqOrd α] {as : List α} {x : α} :
    x ∈ (ofList as).toList ↔ x ∈ as := by
  have hfold : ∀ s : Ascending α, x ∈ (as.foldl insert s).toList ↔ x ∈ as ∨ x ∈ s.toList := by
    induction as with
    | nil => simp
    | cons a as ih =>
      intro s
      rw [List.foldl_cons, ih, mem_insert, List.mem_cons, or_left_comm, or_assoc]
  rw [ofList, hfold]
  simp [empty]

/-- A set has no repetitions. -/
theorem nodup [Std.TransOrd α] (s : Ascending α) : s.toList.Nodup := by
  refine s.sorted.imp ?_
  rintro a b hlt rfl
  simp at hlt

/-- A set has one list. -/
theorem ext_mem [Std.TransOrd α] {s t : Ascending α}
    (h : ∀ x, x ∈ s.toList ↔ x ∈ t.toList) : s = t := by
  have go : ∀ {as bs : List α}, as.Pairwise (fun a b => compare a b = .lt) →
      bs.Pairwise (fun a b => compare a b = .lt) → (∀ x, x ∈ as ↔ x ∈ bs) → as = bs := by
    intro as
    induction as with
    | nil =>
      intro bs _ _ h
      exact (List.eq_nil_iff_forall_not_mem.2 fun x hx => nomatch (h x).2 hx).symm
    | cons a as ih =>
      intro bs ha hb h
      cases bs with
      | nil => exact nomatch (h a).1 List.mem_cons_self
      | cons b bs =>
        have ⟨ha, has⟩ := List.pairwise_cons.1 ha
        have ⟨hb, hbs⟩ := List.pairwise_cons.1 hb
        have irrefl : ∀ x : α, compare x x ≠ .lt := fun x hx => by simp at hx
        have hab : a = b := by
          rcases List.mem_cons.1 ((h a).1 List.mem_cons_self) with e | hmem
          · exact e
          · rcases List.mem_cons.1 ((h b).2 List.mem_cons_self) with e | hmem'
            · exact e.symm
            · exact absurd (Std.TransCmp.lt_trans (hb a hmem) (ha b hmem')) (irrefl b)
        cases hab
        congr 1
        refine ih has hbs fun x => ⟨fun hx => ?_, fun hx => ?_⟩
        · rcases List.mem_cons.1 ((h x).1 (List.mem_cons_of_mem _ hx)) with rfl | hx'
          · exact absurd (ha x hx) (irrefl x)
          · exact hx'
        · rcases List.mem_cons.1 ((h x).2 (List.mem_cons_of_mem _ hx)) with rfl | hx'
          · exact absurd (hb x hx) (irrefl x)
          · exact hx'
  cases s with | mk as ha =>
  cases t with | mk bs hb =>
  cases go ha hb h
  rfl

end Ascending

/-! ## Sorting with repetitions -/

/-- Puts an element before the first that is after it. -/
def insertSorted (a : α) : List α → List α
  | [] => [a]
  | b :: bs => if compare a b = .gt then b :: insertSorted a bs else a :: b :: bs

/-- The elements of a list in order. -/
def insertionSort : List α → List α
  | [] => []
  | a :: as => insertSorted a (insertionSort as)

/-- Every element is not after the later ones. -/
def IsSorted (as : List α) : Prop := as.Pairwise fun a b => compare a b ≠ .gt

instance (as : List α) : Decidable (IsSorted as) := by unfold IsSorted; infer_instance

theorem perm_insertSorted (a : α) (bs : List α) : (insertSorted a bs).Perm (a :: bs) := by
  induction bs with
  | nil => exact .refl _
  | cons b bs ih =>
    rw [insertSorted]
    split
    · exact (ih.cons b).trans (.swap ..)
    · exact .refl _

theorem perm_insertionSort (as : List α) : (insertionSort as).Perm as := by
  induction as with
  | nil => exact .refl _
  | cons a as ih => exact (perm_insertSorted a _).trans (ih.cons a)

theorem isSorted_insertSorted [Std.TransOrd α] (a : α) {bs : List α} (h : IsSorted bs) :
    IsSorted (insertSorted a bs) := by
  induction bs with
  | nil => simp [insertSorted, IsSorted]
  | cons b bs ih =>
    have ⟨hb, hbs⟩ := List.pairwise_cons.1 h
    rw [insertSorted]
    split
    · next hab =>
      refine List.pairwise_cons.2 ⟨fun x hx => ?_, ih hbs⟩
      rcases List.mem_cons.1 ((perm_insertSorted a bs).mem_iff.1 hx) with rfl | hx
      · rw [Std.OrientedCmp.lt_of_gt hab]; decide
      · exact hb x hx
    · next hab =>
      refine List.pairwise_cons.2 ⟨fun x hx => ?_, h⟩
      rcases List.mem_cons.1 hx with rfl | hx
      · exact hab
      · have h1 : (compare a b).isLE := by
          cases e : compare a b <;> simp_all
        have h2 : (compare b x).isLE := by
          have := hb x hx
          cases e : compare b x <;> simp_all
        have h3 := Std.TransCmp.isLE_trans h1 h2
        intro e; rw [e] at h3; cases h3

theorem isSorted_insertionSort [Std.TransOrd α] (as : List α) : IsSorted (insertionSort as) := by
  induction as with
  | nil => exact List.Pairwise.nil
  | cons a as ih => exact isSorted_insertSorted a ih

/-! ## Examples -/

example : (Ascending.ofList [3, 1, 2, 1]).toList = [1, 2, 3] := by decide
example : insertionSort [3, 1, 2, 1] = [1, 1, 2, 3] := by decide

end StatRollup
