import StatRollup.Proofs.Key.Codec

/-!
# Keys that are read and keys that are made

Reading a key judges the order of its tags and its row, and takes any time as the start of a column.
So the keys that are read are those that can be made (`Made`) and as many more as a column has
milliseconds.  Each of these differs from the one that is made of its parts in the column time alone
(`remade_eq`), and lies in the same row.  The test that reading leaves out is whether the column
time is the start of a column: those that pass it are the keys that can be made (`made_iff`).
-/

namespace StatRollup

/-- What is in order is sorted already. -/
theorem insertionSort_of_isSorted {α : Type} [Ord α] {as : List α} (h : IsSorted as) :
    insertionSort as = as := by
  induction as with
  | nil => rfl
  | cons a as ih =>
    obtain ⟨hfirst, hrest⟩ := List.pairwise_cons.1 h
    rw [insertionSort, ih hrest]
    cases as with
    | nil => rfl
    | cons b bs => rw [insertSorted, if_neg (hfirst b List.mem_cons_self)]

namespace Key

variable {w : Nat} {bs : Bytes} {k : Key} {t : Timestamp}

/-- The key that is made of the parts of a key. -/
def remade (k : Key) : Key := of k.statistic k.mask k.interval k.columnTime k.tags

/-- A key can be made of a time and tags. -/
def Made (k : Key) : Prop :=
  ∃ statistic mask interval time tags, k = of statistic mask interval time tags

/-- Making a key of the parts of another one moves its column time to the start of the column. -/
theorem remade_eq (k : Key) :
    k.remade = { k with columnTime := k.interval.columnStart k.columnTime } := by
  simp only [remade, of, insertionSort_of_isSorted k.sorted]

theorem columnStart_idem (i : Interval) (t : Timestamp) :
    i.columnStart (i.columnStart t) = i.columnStart t :=
  columnStart_columnStart (Nat.le_refl _) t

/-- A key is made of its parts when its column time is the start of a column. -/
theorem remade_eq_self_iff : k.remade = k ↔ k.interval.columnStart k.columnTime = k.columnTime := by
  rw [remade_eq]
  constructor
  · intro h
    exact congrArg columnTime h
  · intro h
    rw [h]

/-- A key can be made when it is made of its parts. -/
theorem made_iff : k.Made ↔ k.interval.columnStart k.columnTime = k.columnTime := by
  constructor
  · rintro ⟨statistic, mask, interval, time, tags, rfl⟩
    exact columnStart_idem interval time
  · intro h
    exact ⟨_, _, _, _, _, (remade_eq_self_iff.2 h).symm⟩

/-! ## Other times in a column -/

/-- The same key at another time. -/
def movedTo (k : Key) (t : Timestamp) : Key := { k with columnTime := t }

theorem remade_eq_movedTo (k : Key) : k.remade = k.movedTo (k.interval.columnStart k.columnTime) :=
  remade_eq k

/-- All times in a column lie in one row. -/
theorem rowTime_movedTo (h : k.interval.columnStart t = k.interval.columnStart k.columnTime) :
    (k.movedTo t).rowTime = k.rowTime := by
  show k.interval.rowStart t = k.interval.rowStart k.columnTime
  rw [← rowStart_columnStart, h, rowStart_columnStart]

theorem rowKey_movedTo (h : k.interval.columnStart t = k.interval.columnStart k.columnTime) :
    (k.movedTo t).rowKey = k.rowKey := by
  rw [rowKey, rowKey, rowTime_movedTo h]
  rfl

/-- Every time in the column of a key makes octets that are read. -/
theorem ofBytes_movedTo (hk : k.Uniform w)
    (h : k.interval.columnStart t = k.interval.columnStart k.columnTime) :
    ofBytes w (k.rowKey ++ timeBytes t) = .ok (k.movedTo t) := by
  have hbytes : (k.movedTo t).toBytes = k.rowKey ++ timeBytes t := by
    rw [toBytes, rowKey_movedTo h]
    rfl
  rw [← hbytes]
  exact ofBytes_toBytes ⟨hk.statistic, hk.tags⟩

theorem remade_movedTo (h : k.interval.columnStart t = k.interval.columnStart k.columnTime) :
    (k.movedTo t).remade = k.remade := by
  rw [remade_eq, remade_eq]
  show { k with columnTime := k.interval.columnStart t } = _
  rw [h]

/-- A key that is read has its tags in order and the row around its column time.  It is made of its
parts, and can be made at all, exactly when its column time is the start of a column.  The key that
is made of its parts differs in the column time alone and is read as well; and so is one for every
other time in the column, under other octets, though all of them are keys of one cell. -/
theorem read_up_to_column (w : Nat) (bs : Bytes) (k : Key) (h : ofBytes w bs = .ok k) :
    IsSorted k.tags ∧
    readTime ((bs.drop (w + 10)).take 8) = k.interval.rowStart k.columnTime ∧
    (k = of k.statistic k.mask k.interval k.columnTime k.tags ↔
      k.interval.columnStart k.columnTime = k.columnTime) ∧
    (k.Made ↔ k.interval.columnStart k.columnTime = k.columnTime) ∧
    k.remade = k.movedTo (k.interval.columnStart k.columnTime) ∧
    ofBytes w k.remade.toBytes = .ok k.remade ∧ k.remade.rowKey = k.rowKey ∧
    ∀ t, k.interval.columnStart t = k.interval.columnStart k.columnTime →
      ofBytes w (k.rowKey ++ timeBytes t) = .ok (k.movedTo t) ∧
        (k.movedTo t).remade = k.remade := by
  have huniform := (toBytes_of_ofBytes h).2
  have hremade := rowKey_movedTo (k := k) (columnStart_idem k.interval k.columnTime)
  refine ⟨k.sorted, (ofBytes_eq_ok_iff.1 h).row, eq_comm.trans remade_eq_self_iff, made_iff,
    remade_eq k, ?_, ?_, fun t ht => ⟨ofBytes_movedTo huniform ht, remade_movedTo ht⟩⟩
  · rw [remade_eq]
    exact ofBytes_toBytes ⟨huniform.statistic, huniform.tags⟩
  · rw [remade_eq_movedTo, hremade]

/-- A key of the first second of 1970, which has a column time one millisecond behind its start. -/
def lateOctets : Bytes :=
  [0, 7, 0, 0, 0, 0, 0, 0, 0, 0, 0x03, 0xe8, 0x80, 0, 0, 0, 0, 0, 0, 0, 0x80, 0, 0, 0, 0, 0, 0, 1]

/-- The key that is read from these. -/
def lateKey : Key := .movedTo (.of earliestKey.statistic .zero .second 0 []) 1

/-- Another millisecond of that second has a key of its own. -/
theorem read_up_to_column_lateKey :
    ofBytes 2 lateOctets = .ok lateKey ∧
      ofBytes 2 (lateKey.rowKey ++ timeBytes 999) = .ok (lateKey.movedTo 999) ∧
      (lateKey.movedTo 999).remade = lateKey.remade ∧ lateKey.movedTo 999 ≠ lateKey := by
  have h : ofBytes 2 lateOctets = .ok lateKey := by rfl
  obtain ⟨-, -, -, -, -, -, -, hother⟩ := read_up_to_column 2 lateOctets lateKey h
  obtain ⟨hread, hremade⟩ := hother 999 (by decide)
  exact ⟨h, hread, hremade, by decide⟩

/-- What is read need not be a key that can be made, of its parts or of a time at all. -/
theorem read_not_made :
    ofBytes 2 lateOctets = .ok lateKey ∧
      lateKey ≠ of lateKey.statistic lateKey.mask lateKey.interval lateKey.columnTime lateKey.tags ∧
      ¬ ∃ t, lateKey.rowTime = lateKey.interval.rowStart t ∧
        lateKey.columnTime = lateKey.interval.columnStart t := by
  refine ⟨by rfl, by decide, ?_⟩
  rintro ⟨t, -, ht⟩
  have hstart := columnStart_idem lateKey.interval t
  rw [← ht] at hstart
  exact absurd hstart (by decide)

end Key

end StatRollup
