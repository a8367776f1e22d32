import StatRollup.Proofs.Uid.Recall
import StatRollup.Proofs.Uid.Replay

/-!
# Identifiers survive crashes

Dictionaries create names over a journal, and the machine crashes: what is left of the file is any
number of its first octets.  A journal is opened on what is left, dictionaries start anew, and so
on, any number of times.  `Life` is all that can happen.

Every request writes at most one record, so what a crash leaves are the tables of a moment before
it, possibly with more names written than a creator would leave behind.  `Durable` says that the
tables of every such moment agree with each other.  What was answered was mapped before, so it is
mapped by every journal that still has the octets of that time.
-/

namespace StatRollup.Uid

/-! ## Creations -/

/-- A name whose records can be read back. -/
def Short (width : Nat) (name : String) : Prop :=
  width + 10 + (Bytes.ofText name).length < 256 ^ 4

/-- A question that creates a name whose records can be read back. -/
def Question.Creates (width : Nat) : {g : Goal} → Question g → Prop
  | _, .create name => Short width name
  | _, _ => False

/-- A caller that creates such a name. -/
def Call.Creates (width : Nat) : Call → Prop
  | .asking d => d.stage.question.Creates width
  | .queued name => Short width name

/-- A move of a caller that creates such a name. -/
def Move.Creates (width : Nat) : Move → Prop
  | .ask _ q => q.Creates width
  | _ => True

/-- A dialogue that creates such a name, or is over. -/
def Progress.Creates (width : Nat) {g : Goal} : Progress g → Prop
  | .ask d => d.stage.question.Creates width
  | .done _ => True

section

variable {width : Nat} {g : Goal}

theorem creates_lookAgain {name : String} (h : Short width name) (m : Memory) :
    (Dialogue.lookAgain m name).1.Creates width := by
  rw [Dialogue.lookAgain]
  split
  · trivial
  · exact h

theorem creates_begin {q : Question g} (h : q.Creates width) (m : Memory) :
    (q.begin m).1.Creates width := by
  cases q with
  | create name =>
    rw [Question.begin, Dialogue.createName]
    split
    · trivial
    · exact h
  | find | nameOf | warm => exact h.elim

theorem creates_answered {stage : Stage g} (h : stage.question.Creates width) (w : Nat)
    (m : Memory) (a : stage.request.Answer) :
    (Dialogue.answered w m stage a).1.Creates width := by
  cases stage with
  | look name =>
    cases a with
    | none => exact creates_lookAgain h m
    | some u => trivial
  | lookAgain name =>
    cases a with
    | none => exact h
    | some u => trivial
  | draw name =>
    simp only [Dialogue.answered]
    split
    · exact h
    · trivial
  | inscribe name id => exact h
  | claim name id =>
    simp only [Dialogue.answered]
    split
    · trivial
    · exact h
  | retract name id winner => trivial
  | find | nameOf | listAll => exact h.elim

theorem creates_resume {d : Dialogue g} (h : d.stage.question.Creates width) (policy : RetryPolicy)
    (w : Nat) (m : Memory) (outcome : Except Fault d.stage.request.Answer) :
    (d.resume policy w m outcome).1.Creates width := by
  cases outcome with
  | ok a => exact creates_answered h w m a
  | error f =>
    rw [Dialogue.resume]
    split
    · exact h
    · trivial

theorem short_of_waitsFor {stage : Stage g} {outcome : Except Fault stage.request.Answer}
    {name : String} (h : stage.question.Creates width)
    (hwait : stage.waitsFor? outcome = some name) : Short width name := by
  cases stage with
  | look n =>
    cases outcome with
    | error f => cases hwait
    | ok found =>
      simp only [Stage.waitsFor?] at hwait
      split at hwait
      · cases hwait
        exact h
      · cases hwait
  | find | lookAgain | draw | inscribe | claim | retract | nameOf | listAll => cases hwait

/-- What a creator writes can be read back. -/
theorem proper_record {d : Dialogue g} (h : d.stage.question.Creates width)
    (hheld : ∀ u x, d.stage.held? = some (u, x) → u.width = width) {t : Tables} {r : Record}
    (hr : Journal.record? t d.stage.request = some r) : r.Proper width := by
  obtain ⟨stage, attempt⟩ := d
  cases stage with
  | draw name =>
    cases hr
    exact ⟨by simp [Record.Fits, Record.payload], fun hid => by cases hid⟩
  | inscribe name id =>
    cases hr
    have hid := hheld id none rfl
    have hshort : Short width name := h
    refine ⟨?_, fun h => by cases h; exact hid⟩
    simp only [Short] at hshort
    simp [Record.Fits, Record.payload, Record.idBytes, Record.nameBytes]
    omega
  | claim name id =>
    have hid := hheld id (some name) rfl
    have hshort : Short width name := h
    simp only [Journal.record?] at hr
    split at hr
    · cases hr
    · cases hr
      refine ⟨?_, fun h => by cases h; exact hid⟩
      simp only [Short] at hshort
      simp [Record.Fits, Record.payload, Record.idBytes, Record.nameBytes]
      omega
  | retract name id winner =>
    cases hr
    have hid := hheld id none rfl
    have hle := id.width_le
    refine ⟨?_, fun h => by cases h; exact hid⟩
    simp [Record.Fits, Record.payload, Record.idBytes]
    omega
  | look | lookAgain => cases hr
  | find | nameOf | listAll => exact h.elim

end

namespace Commons

variable {policy : Nat → RetryPolicy} {c : Client} {g : Goal} {width : Nat}

/-! ## Dictionaries over a journal -/

/-- The same dictionaries and callers over the tables of the journal. -/
def overTables (s : Commons Journal) : Commons Tables where
  store := s.store.tables
  memory := s.memory
  call := s.call
  reports := s.reports
  drawn := s.drawn

theorem overTables_file (s : Commons Journal) (q : Question g) (p : Progress g × Memory) :
    (s.file c q p).overTables = s.overTables.file c q p := by
  obtain ⟨p, m⟩ := p
  cases p <;> rfl

theorem overTables_resume (s : Commons Journal) (d : Dialogue g)
    (outcome : Except Fault d.stage.request.Answer) :
    (s.resume policy c d outcome).overTables = s.overTables.resume policy c d outcome := by
  rw [resume, resume]
  split
  · rfl
  · exact overTables_file ..

/-- A request over the journal is a request over its tables. -/
theorem overTables_perform (s : Commons Journal) (d : Dialogue g)
    (hroom : s.store.tables.sequence.toNat + 1 < 2 ^ 64) :
    (s.perform policy c d).overTables = s.overTables.perform policy c d := by
  obtain ⟨hanswer, htables⟩ := Journal.perform_tables d.stage.request fun _ => hroom
  have hasked : (s.asked d).overTables = s.overTables.asked d := by
    show Commons.mk (s.store.perform d.stage.request).2.tables s.memory s.call s.reports _ = _
    rw [htables]
    rfl
  rw [perform_eq, perform_eq, overTables_resume, hasked]
  show _ = (s.overTables.asked d).resume policy c d (.ok (s.store.tables.perform d.stage.request).1)
  rw [← hanswer]
  rfl

/-- A move over the journal is a move over its tables. -/
theorem overTables_step {s s' : Commons Journal} {m : Move} (h : s.step policy m = some s')
    (hroom : s.store.tables.sequence.toNat + 1 < 2 ^ 64) :
    s.overTables.step policy m = some s'.overTables := by
  have hcalls : s.overTables.call = s.call := rfl
  cases step_cases h with
  | ask q hcall =>
    simp only [step, hcalls, hcall]
    rw [overTables_file]
    rfl
  | perform d hcall =>
    simp only [step, hcalls, hcall]
    rw [overTables_perform s d hroom]
  | fail d f hcall =>
    simp only [step, hcalls, hcall]
    rw [overTables_resume]
  | stale d a hcall ha =>
    simp only [step, hcalls, hcall, ha, Option.map_some]
    rw [overTables_resume]
  | wake name hcall =>
    simp only [step, hcalls, hcall]
    rw [overTables_file]
    rfl

/-! ## Callers that create -/

/-- Every caller creates a name whose records can be read back. -/
def AllCreate {σ : Type} (width : Nat) (s : Commons σ) : Prop :=
  ∀ c call, s.call c = some call → call.Creates width

/-- Another call of a caller that creates a name, or none. -/
theorem AllCreate.update {σ : Type} {s : Commons σ} (hs : s.AllCreate width) {x : Option Call}
    (hx : ∀ call, x = some call → Call.Creates width call) :
    ∀ c' call, Function.update s.call c x c' = some call → Call.Creates width call :=
  (Function.forall_update_iff _ fun _ x => ∀ call, x = some call → Call.Creates width call).2
    ⟨hx, fun c' _ => hs c'⟩

theorem AllCreate.file {σ : Type} {s : Commons σ} (hs : s.AllCreate width) {q : Question g}
    {p : Progress g × Memory} (hp : p.1.Creates width) : (s.file c q p).AllCreate width := by
  obtain ⟨p, m⟩ := p
  cases p with
  | ask d =>
    refine hs.update fun call hcall => ?_
    cases hcall
    exact hp
  | done r =>
    exact hs.update fun call hcall => nomatch hcall

theorem AllCreate.resume {σ : Type} [Store σ] {s : Commons σ} (hs : s.AllCreate width)
    {d : Dialogue g} (hcall : s.call c = some (.asking d))
    (outcome : Except Fault d.stage.request.Answer) :
    (s.resume policy c d outcome).AllCreate width := by
  have hd : d.stage.question.Creates width := hs c _ hcall
  rw [Commons.resume]
  split
  · next name hwait =>
    refine hs.update fun call hqueued => ?_
    cases hqueued
    exact short_of_waitsFor hd hwait
  · exact hs.file (creates_resume hd _ _ _ _)

theorem AllCreate.step {σ : Type} [Store σ] {s s' : Commons σ} {m : Move} (hs : s.AllCreate width)
    (hm : m.Creates width) (h : s.step policy m = some s') : s'.AllCreate width := by
  cases step_cases h with
  | ask q hcall => exact hs.file (creates_begin hm _)
  | perform d hcall => exact AllCreate.resume (s := s.asked d) hs hcall _
  | fail d f hcall => exact hs.resume hcall _
  | stale d a hcall ha => exact hs.resume hcall _
  | wake name hcall => exact hs.file (creates_lookAgain (hs _ _ hcall) _)

/-- Callers that create look no identifier up, so they misread nothing. -/
theorem AllCreate.not_misreads {s : Commons Tables} (hs : s.AllCreate width) {n : String}
    {u : Uid} : ¬ s.Misreads c n u := by
  rintro ⟨⟨attempt, hcall⟩, _⟩
  exact hs c _ hcall

/-- What a move writes is the record of the request of some caller, or nothing. -/
theorem store_step {s s' : Commons Journal} {m : Move} (h : s.step policy m = some s') :
    s'.store = s.store ∨ ∃ (c : Client) (g : Goal) (d : Dialogue g) (r : Record),
      s.call c = some (.asking d) ∧ Journal.record? s.store.tables d.stage.request = some r ∧
        s'.store = s.store.commit r := by
  cases step_cases h with
  | ask q hcall => exact .inl (store_file ..)
  | @perform c g d hcall =>
    have hstore : (s.asked d).store = _ := Journal.perform_record s.store d.stage.request
    rw [perform_eq, store_resume, hstore]
    cases hr : Journal.record? s.store.tables d.stage.request with
    | none => exact .inl rfl
    | some r => exact .inr ⟨c, g, d, r, hcall, hr, rfl⟩
  | fail d f hcall => exact .inl (store_resume ..)
  | stale d a hcall ha => exact .inl (store_resume ..)
  | wake name hcall => exact .inl (store_file ..)

/-- The file only grows. -/
theorem length_file_run {s s' : Commons Journal} {moves : List Move}
    (h : s.run policy moves = some s') : s.store.file.length ≤ s'.store.file.length := by
  refine run_induction (P := fun t => s.store.file.length ≤ t.store.file.length) h
    (Nat.le_refl _) fun t m t' hstep ht => Nat.le_trans ht ?_
  rcases store_step hstep with hstore | ⟨_, _, _, r, _, _, hstore⟩
  · exact Nat.le_of_eq (by rw [hstore])
  · rw [hstore]
    exact Journal.length_file_commit _ r

/-! ## What every moment leaves -/

/-- Records whose replay agrees with itself: mapped identifiers have names, and what has a name was
issued. -/
structure Agrees (width : Nat) (rs : List Record) : Prop where
  /-- A mapped identifier has its name. -/
  named {n : String} {u : Uid} :
    (Journal.replay width rs).idOf? n = some u → (Journal.replay width rs).nameOf? u = some n
  /-- An identifier with a name was issued. -/
  issued {u : Uid} {n : String} :
    (Journal.replay width rs).nameOf? u = some n → (Journal.replay width rs).Issued u
  /-- Every number has its record. -/
  sequence_le : (Journal.replay width rs).sequence.toNat ≤ rs.length

/-- A journal of records, with dictionaries over it, that can be cut off anywhere. -/
structure Durable (width : Nat) (rs : List Record) (s : Commons Journal) : Prop where
  /-- The journal holds the records. -/
  holds : s.store.Holds width rs
  /-- The first records agree with themselves, however many. -/
  agrees (m : Nat) : Agrees width (rs.take m)
  /-- The tables and what is in hand agree. -/
  orderly : s.overTables.desk.Orderly
  /-- Every answer is mapped. -/
  recalls : s.overTables.Recalls fun n u => s.store.tables.idOf? n = some u
  /-- Every caller creates a name. -/
  creates : s.AllCreate width

/-- The tables agree with themselves after one more record. -/
theorem agrees_take_concat {rs : List Record} {r : Record} (h : ∀ m, Agrees width (rs.take m))
    (hlast : Agrees width (rs ++ [r])) (m : Nat) : Agrees width ((rs ++ [r]).take m) := by
  by_cases hm : m ≤ rs.length
  · rw [List.take_append_of_le_length hm]
    exact h m
  · rw [List.take_of_length_le (by simp; omega)]
    exact hlast

/-- One move writes at most one record, and the journal can still be cut off anywhere. -/
theorem Durable.step {s s' : Commons Journal} {m : Move} {rs : List Record}
    (hs : Durable width rs s) (hm : m.Creates width) (h : s.step policy m = some s')
    (hroom : s.store.file.length < 2 ^ 63) : ∃ more, Durable width (rs ++ more) s' := by
  have hseq : s.store.tables.sequence.toNat ≤ rs.length := by
    have := (hs.agrees rs.length).sequence_le
    rwa [List.take_length, ← hs.holds.tables] at this
  have hfile : rs.length ≤ s.store.file.length := hs.holds.file ▸ Record.length_le_written rs
  have hnumbers : s.store.tables.sequence.toNat + 1 < 2 ^ 64 := by omega
  have hover := overTables_step h hnumbers
  have hchange := step_change hover
  have horderly : s'.overTables.desk.Orderly := hs.orderly.change (fun _ => hnumbers) hchange
  have hcreates := hs.creates.step hm h
  have hrecalls : s'.overTables.Recalls fun n u => s'.store.tables.idOf? n = some u := by
    have hmono : s.overTables.Recalls fun n u => s.overTables.store.idOf? n = some u ∨ False :=
      hs.recalls.mono fun n u hn => .inl hn
    refine (hmono.step hover).mono fun n u hok => ?_
    rcases hok with hn | hfalse | ⟨c, _, hmis⟩
    · exact hn
    · exact hfalse.elim
    · exact absurd hmis (AllCreate.not_misreads (s := s.overTables) hs.creates)
  rcases store_step h with hstore | ⟨c, g, d, r, hcall, hrecord, hstore⟩
  · refine ⟨[], ?_⟩
    rw [List.append_nil]
    exact ⟨hstore ▸ hs.holds, hs.agrees, horderly, hrecalls, hcreates⟩
  · refine ⟨[r], ?_⟩
    have hr : r.Proper width := by
      refine proper_record (hs.creates c _ hcall) (fun u x hx => ?_) hrecord
      have hheld : s.overTables.desk.held c = some (u, x) := (desk_held hcall).trans hx
      have hu : u.width = s.store.tables.width := (hs.orderly.held_issued hheld).width
      rw [hu, hs.holds.tables, Journal.width_replay]
    have hholds : s'.store.Holds width (rs ++ [r]) := hstore ▸ hs.holds.commit hr
    refine ⟨hholds, agrees_take_concat hs.agrees ?_, horderly, hrecalls, hcreates⟩
    have htables : s'.overTables.desk.tables = Journal.replay width (rs ++ [r]) := hholds.tables
    refine ⟨fun hn => ?_, fun hu => ?_, ?_⟩
    · rw [← htables] at hn ⊢
      exact horderly.named hn
    · rw [← htables] at hu ⊢
      exact horderly.issued hu
    · rw [← htables, List.length_append, List.length_singleton]
      have hold : s.overTables.desk.tables.sequence.toNat ≤ rs.length := hseq
      rcases hchange.sequence with ⟨_, heq⟩ | ⟨_, heq⟩
      · rw [heq]
        omega
      · rw [heq, UInt64.toNat_add]
        exact Nat.le_trans (Nat.mod_le _ _) (Nat.add_le_add_right hold 1)

/-- A run writes records behind those that there are. -/
theorem Durable.run {s s' : Commons Journal} {moves : List Move} {rs : List Record}
    (hs : Durable width rs s) (hm : ∀ m ∈ moves, m.Creates width)
    (h : s.run policy moves = some s') (hroom : s'.store.file.length < 2 ^ 63) :
    ∃ more, Durable width (rs ++ more) s' := by
  induction moves generalizing s rs with
  | nil =>
    cases h
    exact ⟨[], by rwa [List.append_nil]⟩
  | cons m ms ih =>
    obtain ⟨t, ht, hrest⟩ := Option.bind_eq_some_iff.1 h
    have hlong : s.store.file.length < 2 ^ 63 := Nat.lt_of_le_of_lt (length_file_run h) hroom
    obtain ⟨more, hmore⟩ := hs.step (hm m List.mem_cons_self) ht hlong
    obtain ⟨more', hmore'⟩ := ih hmore (fun m' hm' => hm m' (List.mem_cons_of_mem _ hm')) hrest
    exact ⟨more ++ more', by rwa [← List.append_assoc]⟩

/-- A new journal can be cut off anywhere. -/
theorem durable_new {label : String} {j : Journal} {capacity : Nat → Nat}
    (h : Journal.ofFile label width [] = .ok j) : Durable width [] (new j capacity) := by
  have hholds := Journal.holds_of_absent h
  cases h
  have hnone (n : String) : (Journal.replay width []).idOf? n = none := Tables.idOf?_empty ..
  have hno (u : Uid) : (Journal.replay width []).nameOf? u = none := Tables.nameOf?_empty ..
  refine ⟨hholds, fun m => ?_, orderly_empty width 0,
    recalls_new _ _, fun c call hcall => by cases hcall⟩
  rw [List.take_nil]
  exact ⟨fun hn => absurd hn (by simp [hnone]), fun hu => absurd hu (by simp [hno]), Nat.le_refl 0⟩

/-- What a crash leaves can be opened, and can be cut off again anywhere. -/
theorem Durable.crash {s : Commons Journal} {rs : List Record} (hs : Durable width rs s)
    (label : String) (k : Nat) (capacity : Nat → Nat) :
    ∃ j m, Journal.ofFile label width (s.store.file.take k) = .ok j ∧
      Durable width (rs.take m) (new j capacity) ∧
      (m < rs.length → k < (Record.written (rs.take (m + 1))).length) := by
  obtain ⟨j, m, hopen, hholds, hnext⟩ := Journal.ofFile_take hs.holds label k
  have hagrees : Agrees width (rs.take m) := hs.agrees m
  have htables : (new j capacity).overTables.desk.tables = Journal.replay width (rs.take m) :=
    hholds.tables
  refine ⟨j, m, hopen,
    ⟨hholds, fun i => ?_, ?_, recalls_new _ _, fun c call hcall => by cases hcall⟩, hnext⟩
  · rw [List.take_take]
    exact hs.agrees _
  · refine Desk.orderly_of_idle (fun _ => rfl) (fun n u hn => ?_) (fun u n hu => ?_)
    · rw [htables] at hn ⊢
      exact hagrees.named hn
    · rw [htables] at hu ⊢
      exact hagrees.issued hu

/-! ## Lives of a journal -/

/-- All that can happen to a journal and the dictionaries over it: they create names for a while, or
the machine crashes, at least `floor` octets of the file are left, and new dictionaries start on
what is left.  A file has fewer than 2 to the 63 octets at any time. -/
inductive Life (label : String) (width floor : Nat) (s : Commons Journal) :
    Commons Journal → Prop where
  /-- Nothing has happened yet. -/
  | now : Life label width floor s s
  /-- Names are created. -/
  | run {t t' : Commons Journal} {policy : Nat → RetryPolicy} {moves : List Move} :
      Life label width floor s t → (∀ m ∈ moves, m.Creates width) →
      t.run policy moves = some t' → t'.store.file.length < 2 ^ 63 → Life label width floor s t'
  /-- A crash, and a new start. -/
  | crash {t : Commons Journal} {k : Nat} {j : Journal} (capacity : Nat → Nat) :
      Life label width floor s t → floor ≤ k →
      Journal.ofFile label width (t.store.file.take k) = .ok j →
      Life label width floor s (new j capacity)

/-- Records that lie within the octets that are left are among those that are whole. -/
theorem prefix_take_of_written {kept rs : List Record} {k m : Nat} (hkept : kept <+: rs)
    (hk : (Record.written kept).length ≤ k)
    (hnext : m < rs.length → k < (Record.written (rs.take (m + 1))).length) :
    kept <+: rs.take m := by
  refine List.prefix_take_iff.2 ⟨hkept, Nat.le_of_not_lt fun hm => ?_⟩
  have htake : rs.take (m + 1) = kept.take (m + 1) := by
    rw [List.prefix_iff_eq_take.1 hkept, List.take_take, Nat.min_eq_left hm]
  have hsplit : (Record.written kept).length
      = (Record.written (kept.take (m + 1))).length
        + (Record.written (kept.drop (m + 1))).length := by
    rw [← List.length_append, ← Record.written_append, List.take_append_drop]
  have hlt := hnext (Nat.lt_of_lt_of_le hm hkept.length_le)
  rw [htake] at hlt
  omega

/-- Records that are within the octets that every crash leaves are never lost. -/
theorem Life.durable {label : String} {floor : Nat} {s t : Commons Journal}
    (h : Life label width floor s t) {kept rs : List Record} (hs : Durable width rs s)
    (hkept : kept <+: rs) (hfloor : (Record.written kept).length ≤ floor) :
    ∃ rs', Durable width rs' t ∧ kept <+: rs' := by
  induction h with
  | now => exact ⟨rs, hs, hkept⟩
  | run _ hm hrun hroom ih =>
    obtain ⟨rs', hdurable, hprefix⟩ := ih
    obtain ⟨more, hmore⟩ := hdurable.run hm hrun hroom
    exact ⟨rs' ++ more, hmore, hprefix.trans (List.prefix_append _ _)⟩
  | @crash t k j capacity _ hk hopen ih =>
    obtain ⟨rs', hdurable, hprefix⟩ := ih
    obtain ⟨j', m, hopen', hcrash, hnext⟩ := hdurable.crash label k capacity
    rw [hopen] at hopen'
    cases hopen'
    exact ⟨rs'.take m, hcrash, prefix_take_of_written hprefix (Nat.le_trans hfloor hk) hnext⟩

/-- A journal that started from nothing can be opened whatever number of its first octets is left.
What is opened maps no name that was not mapped, maps no two names to one identifier, has a name
for every mapped identifier, and has drawn the number of every identifier in its tables.  Once a
creation was answered, no crash that leaves the octets of that time loses the mapping, and the
identifier is never given to another name. -/
theorem identifiers_survive_crashes {label : String} {j₀ : Journal} {capacity : Nat → Nat}
    {s : Commons Journal} (hnew : Journal.ofFile label width [] = .ok j₀)
    (hs : Life label width 0 (new j₀ capacity) s) :
    (∀ k, ∃ j, Journal.ofFile label width (s.store.file.take k) = .ok j ∧
      (∀ n u, j.tables.idOf? n = some u → s.store.tables.idOf? n = some u) ∧
      (∀ n m u, j.tables.idOf? n = some u → j.tables.idOf? m = some u → n = m) ∧
      (∀ n u, j.tables.idOf? n = some u → j.tables.nameOf? u = some n) ∧
      (∀ n u, j.tables.idOf? n = some u ∨ j.tables.nameOf? u = some n →
        u.value ≤ j.tables.sequence.toNat)) ∧
    (∀ n u, s.Answered n u → ∀ t, Life label width s.store.file.length s t →
      t.store.tables.idOf? n = some u ∧
      (∀ m, t.store.tables.idOf? m = some u → m = n) ∧
      (∀ m, t.Answered m u → m = n)) := by
  obtain ⟨rs, hdurable, _⟩ := hs.durable (durable_new hnew) (List.prefix_refl []) (Nat.le_refl 0)
  refine ⟨fun k => ?_, fun n u hanswered t ht => ?_⟩
  · obtain ⟨j, m, hopen, hcrash, _⟩ := hdurable.crash label k capacity
    have hnamed (n : String) (u : Uid) (hn : j.tables.idOf? n = some u) :
        j.tables.nameOf? u = some n := hcrash.orderly.named hn
    have hissued (u : Uid) (n : String) (hu : j.tables.nameOf? u = some n) :
        u.value ≤ j.tables.sequence.toNat := (hcrash.orderly.issued hu).le_sequence
    refine ⟨j, hopen, fun n u hn => ?_, fun n m u hn hm => hcrash.orderly.idOf?_inj hn hm, hnamed,
      fun n u h => h.elim (fun hn => hissued u n (hnamed n u hn)) (hissued u n)⟩
    have htables : j.tables = Journal.replay width (rs.take m) := hcrash.holds.tables
    rw [htables] at hn
    rw [hdurable.holds.tables, ← List.take_append_drop m rs]
    exact Journal.idOf?_replay_append hn _
  · have hfloor : (Record.written rs).length ≤ s.store.file.length :=
      Nat.le_of_eq (congrArg List.length hdurable.holds.file.symm)
    obtain ⟨rs', hdurable', more, rfl⟩ := ht.durable hdurable (List.prefix_refl rs) hfloor
    have hmapped : s.store.tables.idOf? n = some u := hdurable.recalls.answered hanswered
    have hkept : t.store.tables.idOf? n = some u := by
      rw [hdurable.holds.tables] at hmapped
      rw [hdurable'.holds.tables]
      exact Journal.idOf?_replay_append hmapped more
    have hother (m : String) (hm : t.store.tables.idOf? m = some u) : m = n :=
      hdurable'.orderly.idOf?_inj hm hkept
    exact ⟨hkept, hother, fun m hm => hother m (hdurable'.recalls.answered hm)⟩

/-- A name is created. -/
def creation : List Move :=
  let c : Client := ⟨0, 0⟩
  [.ask c (.create "a"), .perform c, .wake c, .perform c, .perform c, .perform c, .perform c]

theorem identifiers_survive_crashes_creation :
    ∃ j₀ s u, Journal.ofFile "" 1 [] = .ok j₀ ∧ Life "" 1 0 (new j₀ fun _ => 1) s ∧
      s.Answered "a" u ∧
      ∀ k, s.store.file.length ≤ k →
        ∃ j, Journal.ofFile "" 1 (s.store.file.take k) = .ok j ∧ j.tables.idOf? "a" = some u := by
  let j₀ : Journal := ⟨.empty 1, [], 0⟩
  let u : Uid := ⟨1, 1, by decide, by decide, by decide⟩
  let result := ((new j₀ fun _ => 1).run (fun _ => {}) creation).map fun s =>
    ((s.reports.filterMap Report.told?).head?, s.store.file.length)
  have hresult : result = some (some ("a", u), 49) := by decide +kernel
  obtain ⟨s, hrun, hs⟩ := Option.map_eq_some_iff.1 hresult
  obtain ⟨htold, hlength⟩ := Prod.mk.inj hs
  obtain ⟨r, hr, htold⟩ := List.mem_filterMap.1 (List.mem_of_head? htold)
  have hnew : Journal.ofFile "" 1 [] = .ok j₀ := rfl
  have hshort : Short 1 "a" := by
    have hone : (Bytes.ofText "a").length = 1 := by decide +kernel
    rw [Short, hone]
    decide
  have hmoves : ∀ m ∈ creation, m.Creates 1 := by
    intro m hm
    simp only [creation, List.mem_cons, List.not_mem_nil, or_false] at hm
    rcases hm with rfl | rfl | rfl | rfl | rfl | rfl | rfl <;> first | exact hshort | trivial
  have hlife : Life "" 1 0 (new j₀ fun _ => 1) s :=
    .run .now hmoves hrun (by rw [hlength]; decide)
  obtain ⟨hopens, hkeeps⟩ := identifiers_survive_crashes hnew hlife
  have hanswered : s.Answered "a" u := answered_of_told hr htold
  refine ⟨j₀, s, u, hnew, hlife, hanswered, fun k hk => ?_⟩
  obtain ⟨j, hopen, _⟩ := hopens k
  exact ⟨j, hopen, (hkeeps "a" u hanswered _ (.crash (fun _ => 1) .now hk hopen)).1⟩

end Commons

end StatRollup.Uid
