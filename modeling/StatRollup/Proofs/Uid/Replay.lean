import Mathlib.Data.List.Induction
import StatRollup.Proofs.Uid.Framing
import StatRollup.Proofs.Uid.Tables

/-!
# What a journal holds

A journal is a list of records: its file is their octets and its tables are their replay.  Every
request writes at most one record, and answers and changes the tables just as the tables in memory
do, as long as there are numbers to draw (`perform_tables`).  Opening what is left of the file
after a crash gives the journal of the first of these records (`ofFile_take`).
-/

namespace StatRollup.Uid

/-! ## Replay -/

/-- A record of a journal of a width: it can be read back, and its identifier has the width. -/
structure Record.Proper (width : Nat) (r : Record) : Prop where
  fits : r.Fits
  width {id : Uid} : r.id? = some id → id.width = width

/-- No change of the tables changes a mapping. -/
theorem Record.idOf?_apply {t : Tables} {n : String} {u : Uid} (h : t.idOf? n = some u)
    (r : Record) : (r.apply t).idOf? n = some u := by
  cases r with
  | mapped m v => exact Tables.idOf?_mapName_of_mapped h
  | reached | named | unnamed => exact h

namespace Journal

variable {width : Nat} {rs : List Record} {j : Journal}

theorem replay_concat (rs : List Record) (r : Record) :
    replay width (rs ++ [r]) = r.apply (replay width rs) := by
  rw [replay, List.foldl_append]
  rfl

/-- What is mapped by the first records is mapped by all of them. -/
theorem idOf?_replay_append {n : String} {u : Uid} (h : (replay width rs).idOf? n = some u)
    (rs' : List Record) : (replay width (rs ++ rs')).idOf? n = some u := by
  induction rs' using List.reverseRecOn with
  | nil => rwa [List.append_nil]
  | append_singleton rs' r ih =>
    rw [← List.append_assoc, replay_concat]
    exact Record.idOf?_apply ih r

theorem width_replay (rs : List Record) : (replay width rs).width = width := by
  induction rs using List.reverseRecOn with
  | nil => rfl
  | append_singleton rs r ih =>
    rw [replay_concat]
    cases r <;> exact ih

/-! ## Opening -/

theorem otherWidth?_eq_none (h : ∀ r ∈ rs, r.Proper width) : otherWidth? width rs = none := by
  rw [otherWidth?, List.find?_eq_none]
  intro w hw
  obtain ⟨r, hr, hmap⟩ := List.mem_filterMap.1 hw
  obtain ⟨id, hid, rfl⟩ := Option.map_eq_some_iff.1 hmap
  simp [(h r hr).width hid]

/-- A journal holds records. -/
structure Holds (width : Nat) (rs : List Record) (j : Journal) : Prop where
  /-- The file is their octets. -/
  file : j.file = Record.written rs
  /-- Nothing follows them. -/
  offset : j.offset = (Record.written rs).length
  /-- The tables are their replay. -/
  tables : j.tables = replay width rs
  /-- They can be read back. -/
  proper : ∀ r ∈ rs, r.Proper width

/-- Opening a file gives the journal of its records up to the first octets that are not one. -/
theorem ofFile_append {tail : Bytes} (hproper : ∀ r ∈ rs, r.Proper width)
    (htail : Record.read? tail = none) (label : String) :
    ∃ j', ofFile label width (Record.written rs ++ tail) = .ok j' ∧ j'.Holds width rs := by
  have hread := Record.readAll_append (fun r hr => (hproper r hr).fits) htail
  have hlength : (Record.written rs ++ tail).length - tail.length = (Record.written rs).length := by
    rw [List.length_append, Nat.add_sub_cancel]
  refine ⟨⟨replay width rs, Record.written rs, (Record.written rs).length⟩, ?_,
    ⟨rfl, rfl, rfl, hproper⟩⟩
  rw [ofFile, hread]
  simp only [otherWidth?_eq_none hproper, hlength, List.take_left]

/-- Opening what is left of a journal gives the journal of its first records.  All records are
among them that lie within what is left. -/
theorem ofFile_take (h : j.Holds width rs) (label : String) (k : Nat) :
    ∃ j' m, ofFile label width (j.file.take k) = .ok j' ∧ j'.Holds width (rs.take m) ∧
      (m < rs.length → k < (Record.written (rs.take (m + 1))).length) := by
  obtain ⟨m, tail, hbytes, htail, hnext⟩ :=
    Record.take_written (fun r hr => (h.proper r hr).fits) k
  obtain ⟨j', hopen, hholds⟩ :=
    ofFile_append (fun r hr => h.proper r (List.mem_of_mem_take hr)) htail label
  rw [← hbytes, ← h.file] at hopen
  exact ⟨j', m, hopen, hholds, hnext⟩

/-- A new journal holds nothing. -/
theorem holds_of_absent {label : String} (h : ofFile label width [] = .ok j) :
    j.Holds width [] := by
  cases h
  exact ⟨rfl, rfl, rfl, fun r hr => by cases hr⟩

/-! ## Requests -/

theorem writeAt_end (file data : Bytes) : writeAt file file.length data = file ++ data := by
  simp [writeAt]

theorem length_file_commit (j : Journal) (r : Record) :
    j.file.length ≤ (j.commit r).file.length := by
  show _ ≤ (writeAt j.file j.offset r.toBytes).length
  simp only [writeAt, List.length_append, List.length_take, List.length_replicate, List.length_drop]
  omega

theorem Holds.commit (h : j.Holds width rs) {r : Record} (hr : r.Proper width) :
    (j.commit r).Holds width (rs ++ [r]) := by
  have hwritten : Record.written (rs ++ [r]) = Record.written rs ++ r.toBytes := by
    rw [Record.written_append, Record.written_cons, Record.written_nil, List.append_nil]
  refine ⟨?_, ?_, ?_, ?_⟩
  · show writeAt j.file j.offset r.toBytes = _
    rw [h.offset, h.file, writeAt_end, hwritten]
  · show j.offset + r.toBytes.length = _
    rw [h.offset, hwritten, List.length_append]
  · show r.apply j.tables = _
    rw [h.tables, replay_concat]
  · intro r' hr'
    rcases List.mem_append.1 hr' with hold | hnew
    · exact h.proper r' hold
    · cases List.mem_singleton.1 hnew
      exact hr

/-- The record that a request writes, if it writes one. -/
def record? (t : Tables) : Request → Option Record
  | .advance => some (.reached (t.sequence + 1))
  | .putName id name => some (.named id name)
  | .dropName id => some (.unnamed id)
  | .claim name id => if (t.idOf? name).isSome then none else some (.mapped name id)
  | .idOf _ | .nameOf _ | .listAll => none

theorem perform_record (j : Journal) (r : Request) :
    (j.perform r).2 = ((record? j.tables r).map j.commit).getD j := by
  cases r with
  | claim name id =>
    simp only [perform, record?]
    cases j.tables.idOf? name <;> rfl
  | idOf | nameOf | advance | putName | dropName | listAll => rfl

/-- A journal answers a request, and changes its tables, as the tables in memory do. -/
theorem perform_tables (r : Request)
    (hroom : r = .advance → j.tables.sequence.toNat + 1 < 2 ^ 64) :
    (j.perform r).1 = (j.tables.perform r).1 ∧
      (j.perform r).2.tables = (j.tables.perform r).2 := by
  cases r with
  | advance =>
    refine ⟨rfl, ?_⟩
    show j.tables.raise (j.tables.sequence + 1) = _
    rw [Tables.raise, if_pos (Tables.lt_sequence_add_one (hroom rfl))]
    rfl
  | claim name id =>
    simp only [perform, Tables.perform]
    cases hn : j.tables.idOf? name with
    | none => exact ⟨rfl, rfl⟩
    | some v => exact ⟨rfl, (Tables.mapName_of_mapped hn).symm⟩
  | idOf | nameOf | putName | dropName | listAll => exact ⟨rfl, rfl⟩

end Journal

end StatRollup.Uid
