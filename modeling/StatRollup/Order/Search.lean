/-!
# Searching by halves

A list in order is searched by looking into the middle of what is left and leaving out the half that
lies on the wrong side.  What is looked for is given by how elements lie to it.
-/
namespace StatRollup

variable {α : Type}

/-- The middle of what is left. -/
def middle (lo hi : Nat) : Nat := lo + (hi - lo) / 2

theorem le_middle (lo hi : Nat) : lo ≤ middle lo hi := Nat.le_add_right ..

theorem middle_lt {lo hi : Nat} (h : lo < hi) : middle lo hi < hi := by
  rw [middle]
  omega

theorem middle_lt_length {as : List α} {lo hi : Nat} (hlt : lo < hi) (h : hi ≤ as.length) :
    middle lo hi < as.length :=
  Nat.lt_of_lt_of_le (middle_lt hlt) h

theorem middle_le_length {as : List α} {lo hi : Nat} (hlt : lo < hi) (h : hi ≤ as.length) :
    middle lo hi ≤ as.length :=
  Nat.le_of_lt (middle_lt_length hlt h)

/-- A place between two bounds whose element is what is looked for.  `side` says for an element
whether it is before it, it or after it.  -/
def searchBetween (side : α → Ordering) (as : List α) (lo hi : Nat) (h : hi ≤ as.length) :
    Option Nat :=
  if hlt : lo < hi then
    match side (as.get ⟨middle lo hi, middle_lt_length hlt h⟩) with
    | .lt => searchBetween side as (middle lo hi + 1) hi h
    | .eq => some (middle lo hi)
    | .gt => searchBetween side as lo (middle lo hi) (middle_le_length hlt h)
  else none
termination_by hi - lo
decreasing_by
  · have := le_middle lo hi
    omega
  · have := middle_lt hlt
    omega

/-- A place whose element is what is looked for. -/
def search (side : α → Ordering) (as : List α) : Option Nat :=
  searchBetween side as 0 as.length (Nat.le_refl _)

/-- Elements that are not after what is looked for have only elements before it in front of them.
So what is looked for is there at most once.  -/
def Sides (side : α → Ordering) (as : List α) : Prop :=
  as.Pairwise fun a b => side b ≠ .gt → side a = .lt

theorem Sides.lt_of_ne_gt {side : α → Ordering} {as : List α} (h : Sides side as) {i j : Nat}
    (hij : i < j) (hj : j < as.length) (hside : side as[j] ≠ .gt) : side as[i] = .lt :=
  List.pairwise_iff_getElem.1 h i j (Nat.lt_trans hij hj) hj hij hside

/-- Every element lies to what is looked for as its place lies to the place where that is. -/
theorem Sides.side_eq_compare {side : α → Ordering} {as : List α} (h : Sides side as) {i j : Nat}
    (hi : i < as.length) (hj : j < as.length) (heq : side as[i] = .eq) :
    side as[j] = compare j i := by
  rcases Nat.lt_trichotomy j i with hlt | rfl | hgt
  · rw [h.lt_of_ne_gt hlt hi (by simp [heq]), Nat.compare_eq_lt.2 hlt]
  · rw [heq, Nat.compare_eq_eq.2 rfl]
  · rw [Nat.compare_eq_gt.2 hgt]
    -- Otherwise the place found would lie in front of an element that is not after it.
    apply Decidable.byContradiction
    intro hside
    have := h.lt_of_ne_gt hgt hj hside
    rw [heq] at this
    cases this

/-- Looking between two bounds finds the one place there whose element is what is looked for.  The
half left out never has it, for the middle lies to that place as its element says. -/
theorem searchBetween_eq_some {side : α → Ordering} {as : List α} (hsides : Sides side as)
    {lo hi i : Nat} {h : hi ≤ as.length} : searchBetween side as lo hi h = some i ↔
      lo ≤ i ∧ i < hi ∧ ∃ hi' : i < as.length, side as[i] = .eq := by
  fun_induction searchBetween side as lo hi h with
  | case1 lo hi h hlt hside ih =>
    rw [ih]
    constructor
    · rintro ⟨hlo, hhi, hfound⟩
      exact ⟨Nat.le_trans (le_middle lo hi) (Nat.le_of_lt hlo), hhi, hfound⟩
    · rintro ⟨hlo, hhi, hi', heq⟩
      have hbefore : middle lo hi < i := by
        rw [← Nat.compare_eq_lt, ← hsides.side_eq_compare hi' (middle_lt_length hlt h) heq]
        exact hside
      exact ⟨hbefore, hhi, hi', heq⟩
  | case2 lo hi h hlt hside =>
    constructor
    · intro hfound
      cases hfound
      exact ⟨le_middle lo hi, middle_lt hlt, middle_lt_length hlt h, hside⟩
    · rintro ⟨hlo, hhi, hi', heq⟩
      have hthere : middle lo hi = i := by
        rw [← Nat.compare_eq_eq, ← hsides.side_eq_compare hi' (middle_lt_length hlt h) heq]
        exact hside
      rw [hthere]
  | case3 lo hi h hlt hside ih =>
    rw [ih]
    constructor
    · rintro ⟨hlo, hhi, hfound⟩
      exact ⟨hlo, Nat.lt_trans hhi (middle_lt hlt), hfound⟩
    · rintro ⟨hlo, hhi, hi', heq⟩
      have hbehind : i < middle lo hi := by
        rw [← Nat.compare_eq_gt, ← hsides.side_eq_compare hi' (middle_lt_length hlt h) heq]
        exact hside
      exact ⟨hlo, hbehind, hi', heq⟩
  | case4 lo hi h hlt =>
    constructor
    · intro hfound
      cases hfound
    · rintro ⟨hlo, hhi, -⟩
      omega

theorem search_eq_some {side : α → Ordering} {as : List α} (hsides : Sides side as) {i : Nat} :
    search side as = some i ↔ ∃ a, as[i]? = some a ∧ side a = .eq := by
  rw [search, searchBetween_eq_some hsides]
  constructor
  · rintro ⟨-, -, hi, heq⟩
    exact ⟨as[i], List.getElem?_eq_getElem hi, heq⟩
  · rintro ⟨a, hget, heq⟩
    obtain ⟨hi, rfl⟩ := List.getElem?_eq_some_iff.1 hget
    exact ⟨Nat.zero_le i, hi, hi, heq⟩

end StatRollup
