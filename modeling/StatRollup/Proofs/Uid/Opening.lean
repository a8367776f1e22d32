import StatRollup.Proofs.Uid.Decoding
import StatRollup.Uid.Opening

/-!
# Opening a journal that was cut off

Opening step by step comes to what opening as a whole says, and leaves in the file what the journal
has in it, or everything when it is refused (`openFile_run`).  The records of a cut file are those
that lie within what is left (`whole`): they are the longest beginning of all records that has room
there (`prefix_whole`).  So opening replays exactly these, keeps exactly their octets, and later
records are appended right behind them (`cut_file_recovered`).
-/

namespace StatRollup.Uid

namespace Record

variable {r : Record} {rs before : List Record} {n : Nat}

instance (width : Nat) : Decidable (r.Proper width) :=
  decidable_of_iff (r.Fits ∧ ∀ id ∈ r.id?, id.width = width)
    ⟨fun ⟨hfits, hwidth⟩ => ⟨hfits, fun hid => hwidth _ hid⟩,
      fun h => ⟨h.fits, fun _ hid => h.width hid⟩⟩

/-! ## Records within the first octets -/

/-- The records that lie within the first `n` octets. -/
def whole : Nat → List Record → List Record
  | _, [] => []
  | n, r :: rs => if r.toBytes.length ≤ n then r :: whole (n - r.toBytes.length) rs else []

/-- A beginning of records lies within the first octets exactly if it is not longer than they
are. -/
theorem prefix_whole : before <+: whole n rs ↔ before <+: rs ∧ (written before).length ≤ n := by
  induction rs generalizing n before with
  | nil =>
    rw [whole, List.prefix_nil]
    constructor
    · rintro rfl
      simp
    · exact And.left
  | cons r rs ih =>
    cases before with
    | nil => simp
    | cons r' before =>
      rw [whole, List.cons_prefix_cons, written_cons, List.length_append]
      split
      · next hle =>
        rw [List.cons_prefix_cons, ih, and_assoc]
        refine and_congr_right ?_
        rintro rfl
        refine and_congr_right fun _ => ?_
        omega
      · next hlt =>
        simp only [List.prefix_nil, reduceCtorEq, false_iff]
        rintro ⟨⟨rfl, -⟩, hlong⟩
        omega

theorem whole_initial (n : Nat) (rs : List Record) : whole n rs <+: rs :=
  (prefix_whole.1 (List.prefix_refl _)).1

/-- The records within the first octets are read from them, and nothing else is. -/
theorem take_written_whole (hfits : ∀ r ∈ rs, r.Fits) (n : Nat) :
    ∃ tail, (written rs).take n = written (whole n rs) ++ tail ∧ read? tail = none := by
  obtain ⟨m, tail, hbytes, htail, hnext⟩ := take_written hfits n
  have hroom : (written (rs.take m)).length ≤ n := by
    have hlength := congrArg List.length hbytes
    rw [List.length_take, List.length_append] at hlength
    omega
  have hinitial (k : Nat) : rs.take k <+: rs := List.take_prefix k rs
  have hwithin : rs.take m <+: whole n rs := prefix_whole.2 ⟨hinitial m, hroom⟩
  -- A longer beginning would hold the next record, which is not whole any more.
  have hall : whole n rs = rs.take m := by
    refine (hwithin.eq_of_length_le ?_).symm
    by_contra hlong
    rw [Nat.not_le, List.length_take] at hlong
    have hle := (whole_initial n rs).length_le
    have hmore : rs.take (m + 1) <+: whole n rs := by
      refine List.prefix_of_prefix_length_le (hinitial _) (whole_initial n rs) ?_
      rw [List.length_take]
      omega
    have hbeyond := hnext (by omega)
    have hfull := (prefix_whole.1 hmore).2
    omega
  exact ⟨tail, hall ▸ hbytes, htail⟩

theorem readAll_take (hfits : ∀ r ∈ rs, r.Fits) (n : Nat) :
    (readAll ((written rs).take n)).1 = whole n rs := by
  obtain ⟨tail, hbytes, htail⟩ := take_written_whole hfits n
  rw [hbytes, readAll_append (fun r hr => hfits r ((whole_initial n rs).subset hr)) htail]

/-- What is not read is part of what is there. -/
theorem length_readUpTo_le (fuel : Nat) (bs : Bytes) :
    (readUpTo fuel bs).2.length ≤ bs.length := by
  induction fuel generalizing bs with
  | zero => exact Nat.le_refl _
  | succ fuel ih =>
    rw [readUpTo, read?_eq]
    cases hdecode : decode bs with
    | error f => exact Nat.le_refl _
    | ok x =>
      refine Nat.le_trans (ih (bs.drop x.2)) ?_
      rw [List.length_drop]
      omega

end Record

namespace Journal

variable {label : String} {width other : Nat} {rs : List Record}

/-! ## Opening step by step -/

@[simp] theorem width_apply (t : Tables) (r : Record) : (r.apply t).width = t.width := by
  cases r <;> rfl

/-- The first other width is that of the first record that is refused. -/
theorem otherWidth?_cons (label : String) (width : Nat) (r : Record) (rs : List Record) :
    (∃ held, checkWidth label width r = .error (.journalWidth label held width) ∧
      otherWidth? width (r :: rs) = some held) ∨
    (checkWidth label width r = .ok () ∧ otherWidth? width (r :: rs) = otherWidth? width rs) := by
  rw [otherWidth?, otherWidth?, checkWidth, List.filterMap_cons]
  cases r.id? with
  | none => exact .inr ⟨rfl, rfl⟩
  | some id =>
    by_cases hwidth : id.width = width
    · exact .inr ⟨if_pos hwidth, by simp [hwidth]⟩
    · exact .inl ⟨id.width, if_neg hwidth, by simp [hwidth]⟩

/-- Replaying step by step refuses the first other width among the records that are read, or makes
the changes of all of them. -/
theorem replayFile_eq (label : String) (t : Tables) (bs : Bytes) {fuel : Nat}
    (hfuel : bs.length ≤ fuel) :
    replayFile label t bs =
      match otherWidth? t.width (Record.readUpTo fuel bs).1 with
      | some held => .error (.journalWidth label held t.width)
      | none => .ok ((Record.readUpTo fuel bs).1.foldl Record.apply t,
          bs.length - (Record.readUpTo fuel bs).2.length) := by
  induction fuel generalizing t bs with
  | zero =>
    rw [List.eq_nil_of_length_eq_zero (Nat.le_zero.1 hfuel), replayFile]
    rfl
  | succ fuel ih =>
    rw [replayFile]
    split
    · next f hdecode =>
      simp [Record.readUpTo, Record.read?_eq, hdecode, otherWidth?]
    · next r length hdecode =>
      obtain ⟨hpos, hle⟩ := Record.length_of_decode hdecode
      have hdrop : (bs.drop length).length = bs.length - length := List.length_drop
      have htail := Record.length_readUpTo_le fuel (bs.drop length)
      have hread : Record.readUpTo (fuel + 1) bs =
          (r :: (Record.readUpTo fuel (bs.drop length)).1,
            (Record.readUpTo fuel (bs.drop length)).2) := by
        simp [Record.readUpTo, Record.read?_eq, hdecode, Except.toOption]
      have hrest := ih (r.apply t) (bs.drop length) (by omega)
      rw [width_apply] at hrest
      rw [hread, hrest]
      generalize Record.readUpTo fuel (bs.drop length) = x at htail ⊢
      rcases otherWidth?_cons label t.width r x.1 with ⟨held, hcheck, hother⟩ | ⟨hcheck, hother⟩
      · rw [hcheck, hother]
        rfl
      · rw [hcheck, hother]
        cases otherWidth? t.width x.1 with
        | some held => rfl
        | none =>
          simp [bind, Except.bind, pure, Except.pure]
          omega

/-- Opening step by step comes to the same as opening as a whole.  The file is left with what the
journal has in it; if opening is refused, it is left as it was. -/
theorem openFile_run (label : String) (width : Nat) (file : Bytes) :
    (openFile label width).run.run file =
      match ofFile label width file with
      | .ok j => (.ok j, j.file)
      | .error f => (.error f, file) := by
  have hreplay := replayFile_eq label (.empty width) file (Nat.le_refl file.length)
  have hwidth : (Tables.empty width).width = width := rfl
  rw [hwidth] at hreplay
  have htail := Record.length_readUpTo_le file.length file
  have hget (s : Bytes) :
      (get : ExceptT Fault (StateM Bytes) Bytes).run.run s = pure (.ok s, s) := rfl
  have hmodify (f : Bytes → Bytes) (s : Bytes) :
      (modify f : ExceptT Fault (StateM Bytes) PUnit).run.run s = pure (.ok ⟨⟩, f s) := rfl
  have hlift (x : Except Fault (Tables × Nat)) (s : Bytes) :
      (liftM x : ExceptT Fault (StateM Bytes) (Tables × Nat)).run.run s = pure (x, s) := by
    cases x <;> rfl
  simp only [openFile, ExceptT.run_bind, StateT.run_bind, hget, hlift, pure_bind, hreplay, ofFile,
    Record.readAll]
  cases otherWidth? width (Record.readUpTo file.length file).1 with
  | some held => rfl
  | none =>
    simp only [StateT.run_bind, hmodify, hget, pure_bind]
    rw [List.length_take, Nat.min_eq_left (by omega)]
    rfl

/-! ## Cut files -/

/-- Opening records, and less than a record behind them, gives the journal of these records. -/
theorem openFile_append {tail : Bytes} (hrs : ∀ r ∈ rs, r.Proper width)
    (htail : Record.read? tail = none) (label : String) :
    ∃ j, (openFile label width).run.run (Record.written rs ++ tail) =
      (.ok j, Record.written rs) ∧ j.Holds width rs := by
  obtain ⟨j, hopen, hholds⟩ := ofFile_append hrs htail label
  refine ⟨j, ?_, hholds⟩
  rw [openFile_run, hopen, ← hholds.file]

theorem Holds.commits {j : Journal} {later : List Record} (h : j.Holds width rs)
    (hlater : ∀ r ∈ later, r.Proper width) :
    (later.foldl Journal.commit j).Holds width (rs ++ later) := by
  induction later generalizing j rs with
  | nil => simpa using h
  | cons r later ih =>
    obtain ⟨hr, hlater⟩ := List.forall_mem_cons.1 hlater
    simpa using ih (h.commit hr) hlater

/-- A file with a readable identifier of another width is refused, and left as it is. -/
theorem openFile_otherWidth (label : String) {file : Bytes} {r : Record} {id : Uid}
    (hr : r ∈ (Record.readAll file).1) (hid : r.id? = some id) (hwidth : id.width ≠ other) :
    ∃ held, held ≠ other ∧ (openFile label other).run.run file =
      (.error (.journalWidth label held other), file) := by
  have hsome : (otherWidth? other (Record.readAll file).1).isSome := by
    rw [otherWidth?, List.find?_isSome]
    exact ⟨id.width, List.mem_filterMap.2 ⟨r, hr, by rw [hid]; rfl⟩, by simpa using hwidth⟩
  obtain ⟨held, hheld⟩ := Option.isSome_iff_exists.1 hsome
  have hother : held ≠ other := by
    have hfound := List.find?_some hheld
    simpa using hfound
  refine ⟨held, hother, ?_⟩
  simp only [openFile_run, ofFile, hheld]

/-- After a file was cut off anywhere, opening it replays exactly the records that lie within what
is left, and leaves exactly their octets in the file.  Whatever records are appended then, they are
all found, behind those, when the file is opened again.  A file with a readable identifier of
another width than the one that is asked for is refused, and left as it is. -/
theorem cut_file_recovered (label : String) (hrs : ∀ r ∈ rs, r.Proper width) (n : Nat) :
    (∃ j, (openFile label width).run.run ((Record.written rs).take n) =
        (.ok j, Record.written (Record.whole n rs)) ∧
      j.tables = replay width (Record.whole n rs) ∧
      ∀ later, (∀ r ∈ later, r.Proper width) →
        ∃ j', (openFile label width).run.run (later.foldl commit j).file =
            (.ok j', Record.written (Record.whole n rs ++ later)) ∧
          j'.tables = replay width (Record.whole n rs ++ later)) ∧
    (∀ r : Record, r.Fits → ∀ rest,
      Record.decode (r.toBytes ++ rest) = .ok (r, r.toBytes.length)) ∧
    (Record.readAll ((Record.written rs).take n)).1 = Record.whole n rs ∧
    ∀ file other, (∃ r ∈ (Record.readAll file).1, ∃ id, r.id? = some id ∧ id.width ≠ other) →
      ∃ held, held ≠ other ∧ (openFile label other).run.run file =
        (.error (.journalWidth label held other), file) := by
  have hwhole : ∀ r ∈ Record.whole n rs, r.Proper width := fun r hr =>
    hrs r ((Record.whole_initial n rs).subset hr)
  have hfits : ∀ r ∈ rs, r.Fits := fun r hr => (hrs r hr).fits
  refine ⟨?_, fun r => Record.decode_toBytes, Record.readAll_take hfits n, ?_⟩
  · obtain ⟨tail, hbytes, htail⟩ := Record.take_written_whole hfits n
    obtain ⟨j, hopen, hholds⟩ := openFile_append hwhole htail label
    refine ⟨j, by rw [hbytes, hopen], hholds.tables, fun later hlater => ?_⟩
    have hmore := hholds.commits hlater
    obtain ⟨j', hopen', hholds'⟩ :=
      openFile_append hmore.proper (show Record.read? [] = none from rfl) label
    rw [List.append_nil, ← hmore.file] at hopen'
    exact ⟨j', by rw [hopen', hmore.file], hholds'.tables⟩
  · rintro file other ⟨r, hr, id, hid, hwidth⟩
    exact openFile_otherWidth label hr hid hwidth

/-- A number is drawn, and a name is written for it and mapped to it. -/
def firstName : List Record := [.reached 1, .named one "a", .mapped "a" one]

/-- The last octet of the last record is missing, so the name is not mapped; it is mapped by a later
record.  With another width nothing is changed. -/
theorem cut_file_recovered_firstName :
    (∃ j, (openFile "" 1).run.run ((Record.written firstName).take 48) =
        (.ok j, Record.written (firstName.take 2)) ∧ j.tables.idOf? "a" = none ∧
      ∃ j', (openFile "" 1).run.run (j.commit (.mapped "a" one)).file =
        (.ok j', Record.written firstName) ∧ j'.tables.idOf? "a" = some one) ∧
    ∃ held, held ≠ 2 ∧ (openFile "" 2).run.run ((Record.written firstName).take 48) =
      (.error (.journalWidth "" held 2), (Record.written firstName).take 48) := by
  have hproper : ∀ r ∈ firstName, r.Proper 1 := by decide +kernel
  obtain ⟨⟨j, hopen, htables, hlater⟩, -, hread, hrefused⟩ := cut_file_recovered "" hproper 48
  have hwhole : Record.whole 48 firstName = firstName.take 2 := by decide +kernel
  rw [hwhole] at hopen htables hlater hread
  obtain ⟨j', hopen', htables'⟩ := hlater [.mapped "a" one] fun r hr =>
    hproper r (List.mem_of_mem_drop (i := 2) hr)
  refine ⟨⟨j, hopen, by rw [htables]; decide +kernel, j', hopen', by rw [htables']; decide +kernel⟩,
    hrefused _ 2 ⟨.named one "a", ?_, one, rfl, by decide⟩⟩
  rw [hread]
  decide

end Journal

end StatRollup.Uid
