import StatRollup.Proofs.Uid.Replay

/-!
# A journal that is closed and opened again

A journal is used for a while: requests are made, its size is asked for, and at any point it is
closed and opened again.  Tables in memory get the same requests and are never closed.  Both give
the same answers, `answers_across_reopening`.

What carries this is that a journal holds the records of its whole life (`Holds.use`), however often
it was opened.  A record is only ever written when it changes what the records before it have made
of the tables; `Logged` says this of all records of a life.
-/

namespace StatRollup.Uid

/-! ## Uses of a store -/

/-- What is done with a store. -/
inductive Use where
  /-- A request is made. -/
  | request (r : Request)
  /-- The number of mapped names is asked for. -/
  | size
  /-- The store is closed and opened again. -/
  | reopen
  deriving DecidableEq

namespace Use

/-- What a use is answered with. -/
abbrev Answer : Use → Type
  | request r => r.Answer
  | size => Nat
  | reopen => Unit

/-- Identifiers that are written have the width of the store, and the length of a record that names
something fits its field. -/
def Proper (width : Nat) : Use → Prop
  | request (.putName id name) => id.width = width ∧ (Record.named id name).Fits
  | request (.claim name id) => id.width = width ∧ (Record.mapped name id).Fits
  | request (.dropName id) => id.width = width
  | _ => True

instance (width : Nat) (u : Use) : Decidable (u.Proper width) := by
  unfold Proper Record.Fits
  split <;> infer_instance

/-- Whether a number is drawn. -/
def draws : Use → Bool
  | request .advance => true
  | _ => false

/-- The record that a use writes, if it writes one. -/
def record? (t : Tables) : Use → Option Record
  | request r => Journal.record? t r
  | size | reopen => none

end Use

/-- Uses with their answers. -/
abbrev Transcript := List ((u : Use) × u.Answer)

/-- Uses tables in memory, which have nothing to open. -/
def Tables.use (t : Tables) : (u : Use) → u.Answer × Tables
  | .request r => t.perform r
  | .size => (t.size, t)
  | .reopen => ((), t)

/-- Uses tables in memory again and again. -/
def Tables.useAll (t : Tables) : List Use → Transcript × Tables
  | [] => ([], t)
  | u :: us =>
    let (answer, t) := t.use u
    let (answers, t) := t.useAll us
    (⟨u, answer⟩ :: answers, t)

/-- The records that uses write. -/
def Tables.records (t : Tables) : List Use → List Record
  | [] => []
  | u :: us => (u.record? t).toList ++ (t.use u).2.records us

namespace Journal

/-- Uses a journal.  Only opening can be refused. -/
def use (label : String) (width : Nat) (j : Journal) :
    (u : Use) → Except Fault (u.Answer × Journal)
  | .request r => .ok (j.perform r)
  | .size => .ok (j.tables.size, j)
  | .reopen => (ofFile label width j.file).map fun j => ((), j)

/-- Uses a journal again and again. -/
def useAll (label : String) (width : Nat) (j : Journal) :
    List Use → Except Fault (Transcript × Journal)
  | [] => .ok ([], j)
  | u :: us => do
    let (answer, j) ← j.use label width u
    let (answers, j) ← j.useAll label width us
    return (⟨u, answer⟩ :: answers, j)

variable {label : String} {width : Nat} {rs : List Record} {r : Record} {j : Journal} {u : Use}
  {us : List Use}

/-! ## Logs -/

/-- A record that is written when the tables are such: a number is the next one, and a name is
mapped only when it is not. -/
def Next (t : Tables) : Record → Prop
  | .reached number => number.toNat = t.sequence.toNat + 1
  | .mapped name _ => t.idOf? name = none
  | .named .. | .unnamed _ => True

/-- Every record was the next one after those before it. -/
def Logged (width : Nat) (rs : List Record) : Prop :=
  ∀ before r after, rs = before ++ r :: after → Next (replay width before) r

theorem logged_nil : Logged width [] := by
  intro before r after h
  cases before <;> cases h

theorem Logged.concat (h : Logged width rs) (hr : Next (replay width rs) r) :
    Logged width (rs ++ [r]) := by
  intro before x after heq
  rcases List.eq_nil_or_concat after with rfl | ⟨after, y, rfl⟩
  · obtain ⟨rfl, hx⟩ := List.append_inj' heq rfl
    cases hx
    exact hr
  · rw [List.concat_eq_append, ← List.cons_append, ← List.append_assoc] at heq
    exact h before x after (List.append_inj' heq rfl).1

theorem Logged.of_append {rs' : List Record} (h : Logged width (rs ++ rs')) : Logged width rs := by
  intro before r after heq
  refine h before r (after ++ rs') ?_
  rw [heq, List.append_assoc, List.cons_append]

/-! ## One use -/

/-- The record of a proper use can be read back. -/
theorem proper_of_record? {x : Record} (hu : u.Proper width) {t : Tables}
    (h : u.record? t = some x) : x.Proper width := by
  cases u with
  | size | reopen => cases h
  | request r =>
    cases r with
    | advance =>
      cases h
      exact ⟨by simp [Record.Fits, Record.payload], fun hid => by cases hid⟩
    | putName id name =>
      cases h
      exact ⟨hu.2, fun hid => by cases hid; exact hu.1⟩
    | dropName id =>
      cases h
      have hle := id.width_le
      refine ⟨?_, fun hid => by cases hid; exact hu⟩
      simp [Record.Fits, Record.payload, Record.idBytes]
      omega
    | claim name id =>
      simp only [Use.record?, record?] at h
      split at h
      · cases h
      · cases h
        exact ⟨hu.2, fun hid => by cases hid; exact hu.1⟩
    | idOf | nameOf | listAll => cases h

/-- A use writes the next record. -/
theorem next_of_record? {x : Record} {t : Tables}
    (hroom : u.draws = true → t.sequence.toNat + 1 < 2 ^ 64) (h : u.record? t = some x) :
    Next t x := by
  cases u with
  | size | reopen => cases h
  | request r =>
    cases r with
    | advance =>
      cases h
      exact Tables.toNat_sequence_add_one (hroom rfl)
    | claim name id =>
      simp only [Use.record?, record?] at h
      split at h
      · cases h
      · next hn =>
        cases h
        exact Option.not_isSome_iff_eq_none.1 hn
    | putName | dropName =>
      cases h
      trivial
    | idOf | nameOf | listAll => cases h

/-- Opening a journal again finds what it held. -/
theorem Holds.reopen (h : j.Holds width rs) (label : String) :
    ∃ j', ofFile label width j.file = .ok j' ∧ j'.Holds width rs := by
  have hend : Record.read? [] = none := rfl
  have hopen := ofFile_append h.proper hend label
  rwa [List.append_nil, ← h.file] at hopen

/-- A journal answers a use as its tables do, and holds one more record if the use writes one. -/
theorem Holds.use (h : j.Holds width rs) (label : String) (hu : u.Proper width)
    (hroom : u.draws = true → j.tables.sequence.toNat + 1 < 2 ^ 64) :
    ∃ j', j.use label width u = .ok ((j.tables.use u).1, j') ∧
      j'.tables = (j.tables.use u).2 ∧ j'.Holds width (rs ++ (u.record? j.tables).toList) := by
  cases u with
  | size =>
    refine ⟨j, rfl, rfl, ?_⟩
    rwa [Use.record?, Option.toList_none, List.append_nil]
  | reopen =>
    obtain ⟨j', hopen, hholds⟩ := h.reopen label
    refine ⟨j', ?_, hholds.tables.trans h.tables.symm, ?_⟩
    · rw [Journal.use, hopen]
      rfl
    · rwa [Use.record?, Option.toList_none, List.append_nil]
  | request r =>
    have hadvance : r = .advance → j.tables.sequence.toNat + 1 < 2 ^ 64 := by
      rintro rfl
      exact hroom rfl
    obtain ⟨hanswer, htables⟩ := perform_tables r hadvance
    refine ⟨(j.perform r).2, ?_, htables, ?_⟩
    · show Except.ok ((j.perform r).1, (j.perform r).2) = _
      rw [hanswer]
      rfl
    · rw [perform_record]
      show Holds width (rs ++ (record? j.tables r).toList) _
      cases hr : record? j.tables r with
      | none => rwa [Option.toList_none, List.append_nil]
      | some x => exact h.commit (proper_of_record? (u := .request r) hu hr)

/-! ## Many uses -/

/-- A use draws at most one number. -/
theorem sequence_use_le (t : Tables) (u : Use)
    (hroom : u.draws = true → t.sequence.toNat + 1 < 2 ^ 64) :
    (t.use u).2.sequence.toNat ≤ t.sequence.toNat + if u.draws then 1 else 0 := by
  cases u with
  | size | reopen => exact Nat.le_refl _
  | request r =>
    cases r with
    | advance => exact Nat.le_of_eq (Tables.toNat_sequence_add_one (hroom rfl))
    | idOf | nameOf | putName | dropName | claim | listAll => exact Nat.le_refl _

/-- A journal that holds a log is used as its tables are, and holds a longer log. -/
theorem Holds.useAll (h : j.Holds width rs) (label : String) (hlog : Logged width rs)
    (hus : ∀ u ∈ us, u.Proper width)
    (hroom : j.tables.sequence.toNat + us.countP Use.draws < 2 ^ 64) :
    ∃ j', j.useAll label width us = .ok ((j.tables.useAll us).1, j') ∧
      j'.tables = (j.tables.useAll us).2 ∧ j'.Holds width (rs ++ j.tables.records us) ∧
      Logged width (rs ++ j.tables.records us) := by
  induction us generalizing j rs with
  | nil => exact ⟨j, rfl, rfl, by rwa [Tables.records, List.append_nil],
      by rwa [Tables.records, List.append_nil]⟩
  | cons u us ih =>
    obtain ⟨hu, hus⟩ := List.forall_mem_cons.1 hus
    rw [List.countP_cons] at hroom
    have hnext : u.draws = true → j.tables.sequence.toNat + 1 < 2 ^ 64 := by
      intro hdraws
      rw [if_pos hdraws] at hroom
      omega
    obtain ⟨j₁, huse, htables, hholds⟩ := h.use label hu hnext
    have hlog₁ : Logged width (rs ++ (u.record? j.tables).toList) := by
      cases hx : u.record? j.tables with
      | none => rwa [Option.toList_none, List.append_nil]
      | some x => exact hlog.concat (h.tables ▸ next_of_record? hnext hx)
    have hseq := sequence_use_le j.tables u hnext
    rw [← htables] at hseq
    obtain ⟨j', hall, htables', hholds', hlog'⟩ := ih hholds hlog₁ hus (by omega)
    rw [htables, List.append_assoc] at hholds' hlog'
    refine ⟨j', ?_, ?_, hholds', hlog'⟩
    · rw [Journal.useAll, huse]
      show (j₁.useAll label width us >>= _) = _
      rw [hall, htables]
      rfl
    · rw [htables', htables]
      rfl

/-- A new journal that is used holds what the uses write. -/
theorem useAll_new (label : String) (hus : ∀ u ∈ us, u.Proper width)
    (hroom : us.countP Use.draws < 2 ^ 64) :
    ∃ j₀ j, ofFile label width [] = .ok j₀ ∧
      j₀.useAll label width us = .ok (((Tables.empty width).useAll us).1, j) ∧
      j.tables = ((Tables.empty width).useAll us).2 ∧
      j.Holds width ((Tables.empty width).records us) ∧
      Logged width ((Tables.empty width).records us) := by
  obtain ⟨j₀, hopen⟩ : ∃ j₀, ofFile label width [] = .ok j₀ := ⟨_, rfl⟩
  have hholds := holds_of_absent hopen
  have hempty : j₀.tables = Tables.empty width := hholds.tables
  have hstart : j₀.tables.sequence.toNat = 0 := congrArg (fun t => t.sequence.toNat) hempty
  obtain ⟨j, hall, htables, hrs, hlog⟩ := hholds.useAll label logged_nil hus (by omega)
  rw [hempty] at hall htables hrs hlog
  exact ⟨j₀, j, hopen, hall, htables, hrs, hlog⟩

/-- A new journal, however often it is closed and opened again, gives the answers that tables in
memory give, which are never closed, and ends up with the same tables.  Numbers have 64 bits; no
file has room for the records of more of them. -/
theorem answers_across_reopening (label : String) (hus : ∀ u ∈ us, u.Proper width)
    (hroom : us.countP Use.draws < 2 ^ 64) :
    ∃ j₀ j, ofFile label width [] = .ok j₀ ∧
      j₀.useAll label width us = .ok (((Tables.empty width).useAll us).1, j) ∧
      j.tables = ((Tables.empty width).useAll us).2 := by
  obtain ⟨j₀, j, hopen, hall, htables, _⟩ := useAll_new label hus hroom
  exact ⟨j₀, j, hopen, hall, htables⟩

/-- The first number of one octet. -/
def one : Uid := ⟨1, 1, by decide, by decide, by decide⟩

/-- The second number. -/
def two : Uid := ⟨1, 2, by decide, by decide, by decide⟩

/-- Two creators race for a name; the second one loses, and takes back twice what it wrote.  The
journal is opened again in the middle of this and afterwards. -/
def lostRace : List Use :=
  [.request .advance, .request .advance, .reopen, .request (.putName one "a"),
    .request (.putName two "a"), .request (.claim "a" one), .reopen, .request (.claim "a" two),
    .request (.dropName two), .request (.dropName two), .reopen, .reopen, .size,
    .request (.idOf "a"), .request (.nameOf one), .request (.nameOf two), .request .advance,
    .request .listAll]

theorem answers_across_reopening_lostRace :
    ∃ j₀ j, ofFile "" 1 [] = .ok j₀ ∧
      j₀.useAll "" 1 lostRace = .ok (((Tables.empty 1).useAll lostRace).1, j) ∧
      (j.tables.pairs.map fun p => (p.1, p.2.value)) = [("a", 1)] ∧ j.tables.sequence = 3 := by
  have hproper : ∀ u ∈ lostRace, u.Proper 1 := by decide +kernel
  obtain ⟨j₀, j, hopen, hall, htables⟩ := answers_across_reopening "" hproper (by decide +kernel)
  refine ⟨j₀, j, hopen, hall, ?_⟩
  rw [htables]
  decide +kernel

end Journal

end StatRollup.Uid
