import StatRollup.Proofs.Uid.Fallible
import StatRollup.Proofs.Uid.Naming

/-!
# Names and their numbers

An identifier belongs to a name when the name is mapped to it, or when it has the name.  The second
without the first is what a creation leaves behind that did not come to its end.  An identifier
belongs to one name at most, as long as no number is drawn twice (`Tables.Numbered`).

What a dictionary remembers and tells ties a name to an identifier that belongs to it, however its
store fails (`Dictionary.Numbered.ask`).  While nobody looks up what was left behind, the name is
mapped to the identifier, too.  Whether everyone is `careful` in this way is a parameter of all that
follows.

A creator holds its number from the draw on, and nobody else writes under it
(`Tables.Reserved`).  An attempt may use up a number even if it fails, so every creation counts for
as many numbers as it has attempts.
-/

namespace StatRollup

/-- How often a request is made at most. -/
def RetryPolicy.attempts (p : RetryPolicy) : Nat := max p.maxAttempts 1

namespace Uid

/-- An identifier has one of the numbers that were drawn after a first one. -/
def IsDrawn (u : Uid) (first count : Nat) : Prop :=
  ∃ i < count, u.value = (first + (i + 1)) % 2 ^ 64

theorem IsDrawn.mono {u : Uid} {first count count' : Nat} (h : u.IsDrawn first count)
    (hle : count ≤ count') : u.IsDrawn first count' := by
  obtain ⟨i, hi, hvalue⟩ := h
  exact ⟨i, Nat.lt_of_lt_of_le hi hle, hvalue⟩

namespace Tables

variable {careful : Prop} {first count count' : Nat} {t t' t₀ : Tables} {n m : String} {u v w : Uid}

/-! ## Whom identifiers belong to -/

/-- An identifier belongs to a name. -/
def Gives (t : Tables) (n : String) (u : Uid) : Prop := t.idOf? n = some u ∨ t.nameOf? u = some n

/-- A name and an identifier go together: the identifier belongs to the name, and while everyone is
careful the name is mapped to it. -/
structure Ties (careful : Prop) (t : Tables) (n : String) (u : Uid) : Prop where
  gives : t.Gives n u
  mapped : careful → t.idOf? n = some u

theorem ties_of_mapped (h : t.idOf? n = some u) : t.Ties careful n u := ⟨.inl h, fun _ => h⟩

theorem gives_mapName (h : (t.mapName n u).Gives m v) : t.Gives m v ∨ m = n ∧ v = u := by
  rcases h with h | h
  · rw [idOf?_mapName] at h
    split at h
    · next hnew => exact .inr ⟨hnew.1.symm, (Option.some.inj h).symm⟩
    · exact .inl (.inl h)
  · exact .inl (.inr h)

theorem gives_putName (h : (t.putName u n).Gives m v) : t.Gives m v ∨ m = n ∧ v = u := by
  rcases h with h | h
  · exact .inl (.inl h)
  · rw [nameOf?_putName] at h
    split at h
    · next heq => exact .inr ⟨(Option.some.inj h).symm, heq.symm⟩
    · exact .inl (.inr h)

theorem gives_dropName (h : (t.dropName u).Gives m v) : t.Gives m v := by
  refine h.imp_right fun h => ?_
  rw [nameOf?_dropName] at h
  split at h
  · cases h
  · exact h

/-- So many numbers were drawn after a first one, and identifiers that belong to names have some of
them and belong to one name each. -/
structure Numbered (first count : Nat) (t : Tables) : Prop where
  sequence : t.sequence.toNat = (first + count) % 2 ^ 64
  drawn {n : String} {u : Uid} : t.Gives n u → u.IsDrawn first count
  single {n m : String} {u : Uid} : t.Gives n u → t.Gives m u → n = m

theorem numbered_empty (width : Nat) (sequence : UInt64) :
    (empty width sequence).Numbered sequence.toNat 0 :=
  ⟨(Nat.mod_eq_of_lt sequence.toNat_lt).symm, fun h => by simp [Gives] at h,
    fun h => by simp [Gives] at h⟩

/-- From tables to numbered ones in which names and identifiers still go together. -/
structure Advances (careful : Prop) (first count : Nat) (t t' : Tables) : Prop where
  numbered : t'.Numbered first count
  keeps {n : String} {u : Uid} : t.Ties careful n u → t'.Ties careful n u

theorem Numbered.refl (h : t.Numbered first count) : t.Advances careful first count t := ⟨h, id⟩

/-! ## Creating a name -/

/-- A creator holds an identifier for a name: it belongs to no other name, and belonged to none when
the creator began. -/
structure Reserved (first count : Nat) (t₀ t : Tables) (n : String) (u : Uid) : Prop where
  drawn : u.IsDrawn first count
  own {m : String} : t.Gives m u → m = n
  new {m : String} : ¬ t₀.Gives m u

/-- The next number is that of nobody's identifier. -/
theorem Numbered.fresh (h : t.Numbered first count) (hle : count ≤ count') (hroom : count' < 2 ^ 64)
    (hu : u.value = (first + (count' + 1)) % 2 ^ 64) : ¬ t.Gives n u := by
  intro hgives
  obtain ⟨i, hi, hvalue⟩ := h.drawn hgives
  omega

theorem Numbered.sequence_add_one (h : t.Numbered first count) :
    (t.sequence + 1).toNat = (first + (count + 1)) % 2 ^ 64 := by
  have hsequence := h.sequence
  rw [UInt64.toNat_add, UInt64.toNat_one]
  omega

/-- Drawing a number. -/
theorem Advances.draw (h : t₀.Advances careful first count t) :
    t₀.Advances careful first (count + 1) { t with sequence := t.sequence + 1 } :=
  ⟨⟨h.numbered.sequence_add_one, fun hu => (h.numbered.drawn hu).mono (Nat.le_succ _),
    h.numbered.single⟩, fun hties => ⟨(h.keeps hties).gives, (h.keeps hties).mapped⟩⟩

/-- A number that was just drawn is held for a name. -/
theorem Advances.reserve (h : t₀.Advances careful first count t) {count₀ : Nat}
    (hstart : t₀.Numbered first count₀) (hgrown : count₀ ≤ count) (hroom : count < 2 ^ 64)
    (hu : u.value = (first + (count + 1)) % 2 ^ 64) :
    Reserved first (count + 1) t₀ { t with sequence := t.sequence + 1 } n u where
  drawn := ⟨count, Nat.lt_succ_self _, hu⟩
  own hm := absurd hm (h.numbered.fresh (Nat.le_refl _) hroom hu)
  new := hstart.fresh hgrown hroom hu

/-- Writing for a name under the identifier that is held for it. -/
theorem Advances.write (h : t₀.Advances careful first count t)
    (hreserved : Reserved first count t₀ t n u) (hsequence : t'.sequence = t.sequence)
    (hgains : ∀ {m v}, t'.Gives m v → t.Gives m v ∨ m = n ∧ v = u)
    (hkeeps : ∀ {m v}, t₀.Ties careful m v → t'.Ties careful m v) :
    t₀.Advances careful first count t' ∧ Reserved first count t₀ t' n u := by
  have hown : ∀ {m}, t'.Gives m u → m = n := fun hm =>
    (hgains hm).elim hreserved.own fun heq => heq.1
  refine ⟨⟨⟨hsequence ▸ h.numbered.sequence, fun hm => ?_, fun hn hm => ?_⟩, hkeeps⟩,
    hreserved.drawn, hown, hreserved.new⟩
  · rcases hgains hm with hold | ⟨-, rfl⟩
    · exact h.numbered.drawn hold
    · exact hreserved.drawn
  · rcases hgains hn with hold | ⟨rfl, rfl⟩
    · rcases hgains hm with hold' | ⟨rfl, rfl⟩
      · exact h.numbered.single hold hold'
      · exact hown hn
    · exact (hown hm).symm

end Tables

/-! ## Where a dialogue stands -/

namespace Stage

/-- How many numbers a dialogue has drawn at most, when requests are made a number of times. -/
def spent (attempts attempt : Nat) : {g : Goal} → Stage g → Nat
  | _, draw _ => attempt - 1
  | _, inscribe .. => attempts
  | _, claim .. => attempts
  | _, retract .. => attempts
  | _, _ => 0

/-- What a stage relies on: a creator holds its candidate, the winner of a lost race is mapped, and
while everyone is careful an identifier that is looked up is mapped. -/
def Fits (careful : Prop) (first count : Nat) (t₀ t : Tables) : {g : Goal} → Stage g → Prop
  | _, inscribe n u => Tables.Reserved first count t₀ t n u
  | _, claim n u => Tables.Reserved first count t₀ t n u
  | _, retract n u w => Tables.Reserved first count t₀ t n u ∧ t.idOf? n = some w
  | _, nameOf u => careful → ∀ n, t.nameOf? u = some n → t.idOf? n = some u
  | _, _ => True

variable {careful : Prop} {first count : Nat} {t t' t₀ : Tables} {g : Goal} {stage : Stage g}

/-- A request leaves the dialogue where it stands, and draws a number at most. -/
theorem Fits.perform (hfits : stage.Fits careful first count t₀ t)
    (h : t₀.Advances careful first count t) :
    t₀.Advances careful first (count + stage.draws.toNat) (t.perform stage.request).2 ∧
      stage.Fits careful first (count + stage.draws.toNat) t₀ (t.perform stage.request).2 := by
  cases stage with
  | draw n => exact ⟨h.draw, trivial⟩
  | inscribe n u =>
    have hkeeps {m : String} {v : Uid} (hties : t₀.Ties careful m v) :
        (t.putName u n).Ties careful m v := by
      have hold := h.keeps hties
      refine ⟨hold.gives.imp_right fun hname => ?_, hold.mapped⟩
      rw [Tables.nameOf?_putName, if_neg, hname]
      rintro rfl
      exact hfits.new hties.gives
    exact h.write hfits rfl Tables.gives_putName hkeeps
  | claim n u =>
    have hkeeps {m : String} {v : Uid} (hties : t₀.Ties careful m v) :
        (t.mapName n u).Ties careful m v := by
      have hold := h.keeps hties
      exact ⟨hold.gives.imp_left Tables.idOf?_mapName_of_mapped,
        fun hcareful => Tables.idOf?_mapName_of_mapped (hold.mapped hcareful)⟩
    exact h.write hfits rfl Tables.gives_mapName hkeeps
  | retract n u w =>
    obtain ⟨hreserved, hwinner⟩ := hfits
    have hkeeps {m : String} {v : Uid} (hties : t₀.Ties careful m v) :
        (t.dropName u).Ties careful m v := by
      have hold := h.keeps hties
      refine ⟨hold.gives.imp_right fun hname => ?_, hold.mapped⟩
      rw [Tables.nameOf?_dropName, if_neg, hname]
      rintro rfl
      exact hreserved.new hties.gives
    have hwritten : t₀.Advances careful first count (t.dropName u) ∧
        Tables.Reserved first count t₀ (t.dropName u) n u :=
      h.write hreserved rfl (fun hm => .inl (Tables.gives_dropName hm)) hkeeps
    exact ⟨hwritten.1, hwritten.2, hwinner⟩
  | _ => exact ⟨h, hfits⟩

/-- What is learned from an answer ties a name to an identifier. -/
theorem Fits.learned (hfits : stage.Fits careful first count t₀ t) {a : stage.request.Answer}
    (houtcome : t.Outcome stage.request (.ok a) t') {n : String} {u : Uid}
    (hlearned : (n, u) ∈ stage.learned a) : t'.Ties careful n u := by
  cases stage with
  | find m | look m | lookAgain m =>
    obtain ⟨v, hv, heq⟩ := Option.map_eq_some_iff.1 (Option.mem_toList.1 hlearned)
    cases heq
    cases houtcome with
    | answered => exact Tables.ties_of_mapped hv
    | behind => cases hv
  | draw m | inscribe m v => cases hlearned
  | claim m v =>
    cases houtcome
    cases List.mem_singleton.1 hlearned
    exact Tables.ties_of_mapped Tables.idOf?_mapName_self
  | retract m v w =>
    cases houtcome
    cases List.mem_singleton.1 hlearned
    exact Tables.ties_of_mapped hfits.2
  | nameOf v =>
    cases houtcome
    obtain ⟨m, hm, heq⟩ := Option.map_eq_some_iff.1 (Option.mem_toList.1 hlearned)
    cases heq
    exact ⟨.inr hm, fun hcareful => hfits hcareful n hm⟩
  | listAll =>
    cases houtcome
    exact Tables.ties_of_mapped (Tables.mem_pairs.1 hlearned)

end Stage

/-! ## A whole dialogue -/

/-- Where a dialogue over tables stands that began when there were others, and what it remembers and
tells. -/
inductive Stands (careful : Prop) (first count₀ bound attempts : Nat) (t₀ t : Tables)
    {g : Goal} (q : Question g) : Progress g × Memory → Prop where
  /-- Another request is due. -/
  | asks {stage : Stage g} {attempt : Nat} {m : Memory} (count : Nat) (grown : count₀ ≤ count)
    (room : count ≤ bound + stage.spent attempts attempt)
    (advances : t₀.Advances careful first count t) (fits : stage.Fits careful first count t₀ t)
    (question : stage.question = q) (attempted : 1 ≤ attempt ∧ attempt ≤ attempts)
    (memory : m.All (t₀.Ties careful)) :
    Stands careful first count₀ bound attempts t₀ t q (.ask ⟨stage, attempt⟩, m)
  /-- It is over. -/
  | ends {result : Except Fault g.Result} {m : Memory} (count : Nat)
    (room : count ≤ bound + attempts) (advances : t₀.Advances careful first count t)
    (all : Progress.All (t.Ties careful) q (.done result, m)) :
    Stands careful first count₀ bound attempts t₀ t q (.done result, m)

section

variable {careful : Prop} {first bound count₀ : Nat} {t t' t₀ : Tables} {g : Goal} {q : Question g}
  {policy : RetryPolicy} {m : Memory} {dialogue : Dialogue g}

theorem Memory.All.mono {ok ok' : String → Uid → Prop} (h : m.All ok)
    (himp : ∀ {n u}, ok n u → ok' n u) : m.All ok' := ⟨fun hmem => himp (h.pairs hmem), h.room⟩

/-- Numbers that were drawn for a request, and for another attempt at it. -/
theorem Stage.spent_draw (stage : Stage g) {attempts attempt : Nat}
    (h : 1 ≤ attempt ∧ attempt ≤ attempts) :
    stage.spent attempts attempt + stage.draws.toNat ≤ stage.spent attempts (attempt + 1) ∧
      stage.spent attempts attempt + stage.draws.toNat ≤ attempts := by
  cases stage <;> simp only [spent, draws, Bool.toNat_true, Bool.toNat_false] <;> omega

/-- What a request leaves behind, whatever comes of it. -/
theorem Stage.Fits.after {stage : Stage g} {count : Nat}
    (hfits : stage.Fits careful first count t₀ t) (h : t₀.Advances careful first count t)
    {result : Except Fault stage.request.Answer}
    (houtcome : t.Outcome stage.request result t') :
    ∃ count', count ≤ count' ∧ count' ≤ count + stage.draws.toNat ∧
      t₀.Advances careful first count' t' ∧ stage.Fits careful first count' t₀ t' := by
  rcases houtcome.same_or_perform with rfl | rfl
  · exact ⟨count, Nat.le_refl _, Nat.le_add_right _ _, h, hfits⟩
  · exact ⟨_, Nat.le_add_right _ _, Nat.le_refl _, hfits.perform h⟩

/-- A request fails. -/
theorem Stands.failed
    (h : Stands careful first count₀ bound policy.attempts t₀ t q (.ask dialogue, m)) (width : Nat)
    {f : Fault} (houtcome : t.Outcome dialogue.stage.request (.error f) t') :
    Stands careful first count₀ bound policy.attempts t₀ t' q
      (dialogue.resume policy width m (.error f)) := by
  cases h with
  | @asks stage attempt _ count grown room advances fits question attempted memory =>
    obtain ⟨count', hgrown, hle, hadvances, hfits⟩ := fits.after advances houtcome
    have hgrown := Nat.le_trans grown hgrown
    obtain ⟨hagain, hover⟩ := stage.spent_draw attempted
    rw [Dialogue.resume]
    split
    · next hretries =>
      have hlt : attempt < policy.maxAttempts := by
        simp only [RetryPolicy.retries, Bool.and_eq_true, decide_eq_true_eq] at hretries
        exact hretries.2.2
      have hroom : count' ≤ bound + stage.spent policy.attempts (attempt + 1) := by omega
      exact .asks count' hgrown hroom hadvances hfits question
        ⟨Nat.le_add_left _ _, Nat.le_trans hlt (Nat.le_max_left _ _)⟩ memory
    · refine .ends count' (by omega) hadvances ⟨memory.mono hadvances.keeps, fun n u htold => ?_⟩
      cases htold

/-- A request is answered. -/
theorem Stands.answered
    (h : Stands careful first count₀ bound policy.attempts t₀ t q (.ask dialogue, m))
    (hstart : t₀.Numbered first count₀) (hroom : bound + policy.attempts ≤ 2 ^ 64) (width : Nat)
    {a : dialogue.stage.request.Answer}
    (houtcome : t.Outcome dialogue.stage.request (.ok a) t') :
    Stands careful first count₀ bound policy.attempts t₀ t' q
      (dialogue.resume policy width m (.ok a)) := by
  cases h with
  | @asks stage attempt _ count grown room advances fits question attempted memory =>
    subst question
    obtain ⟨count', hgrown, hle, hadvances, hfits⟩ := fits.after advances houtcome
    have hgrown := Nat.le_trans grown hgrown
    have hall : Progress.All (t'.Ties careful) stage.question
        (Dialogue.answered width m stage a) :=
      all_answered (memory.mono hadvances.keeps) width stage a fun n u => fits.learned houtcome
    have hone : 1 ≤ policy.attempts := Nat.le_max_right _ _
    obtain ⟨-, hover⟩ := stage.spent_draw attempted
    have hend : count' ≤ bound + policy.attempts := by omega
    rw [Dialogue.resume]
    dsimp only at a houtcome hall ⊢
    cases stage with
    | find n =>
      cases a with
      | none => exact .ends count' hend hadvances hall
      | some u => exact .ends count' hend hadvances hall
    | look n =>
      cases a with
      | some u => exact .ends count' hend hadvances hall
      | none =>
        simp only [Dialogue.answered, Dialogue.lookAgain] at hall ⊢
        split
        · next heq =>
          rw [heq] at hall
          exact .ends count' hend hadvances hall
        · next heq =>
          exact .asks count' hgrown (Nat.le_trans hle room) hadvances trivial rfl
            ⟨Nat.le_refl _, hone⟩ (memory.idOf heq).1
    | lookAgain n =>
      cases a with
      | some u => exact .ends count' hend hadvances hall
      | none =>
        exact .asks count' hgrown (Nat.le_trans hle room) hadvances trivial rfl
          ⟨Nat.le_refl _, hone⟩ memory
    | draw n =>
      simp only [Dialogue.answered] at hall ⊢
      split
      · next u hu =>
        cases houtcome
        obtain ⟨-, hnumber, -⟩ := Dialogue.candidate_eq_ok hu
        have hvalue := hnumber.trans advances.numbered.sequence_add_one
        have hspent : count + 1 ≤ bound + policy.attempts := by
          simp only [Stage.spent] at room
          omega
        exact .asks (count + 1) (Nat.le_succ_of_le grown) hspent advances.draw
          (advances.reserve hstart grown (by omega) hvalue) rfl ⟨Nat.le_refl _, hone⟩ memory
      · next heq =>
        rw [heq] at hall
        exact .ends count' hend hadvances hall
    | inscribe n u =>
      exact .asks count' hgrown hend hadvances hfits rfl ⟨Nat.le_refl _, hone⟩ memory
    | claim n u =>
      simp only [Dialogue.answered] at hall ⊢
      split
      · next heq =>
        rw [if_pos heq] at hall
        exact .ends count' hend hadvances hall
      · next heq =>
        refine .asks count' hgrown hend hadvances ⟨hfits, ?_⟩ rfl ⟨Nat.le_refl _, hone⟩ memory
        cases houtcome
        exact Tables.idOf?_mapName_self
    | retract n u w => exact .ends count' hend hadvances hall
    | nameOf u =>
      cases a with
      | none => exact .ends count' hend hadvances hall
      | some u => exact .ends count' hend hadvances hall
    | listAll => exact .ends count' hend hadvances hall

end

/-! ## Dictionaries -/

/-- While everyone is careful, nobody looks up an identifier that has a name which is not mapped to
it. -/
def Question.Heeds (careful : Prop) (t : Tables) : {g : Goal} → Question g → Prop
  | _, nameOf u => careful → ∀ n, t.nameOf? u = some n → t.idOf? n = some u
  | _, _ => True

/-- Whoever is not careful may ask for anything. -/
theorem Question.heeds_careless (t : Tables) {g : Goal} (q : Question g) : q.Heeds False t := by
  cases q with
  | nameOf u => exact fun hcareful => hcareful.elim
  | find | create | warm => exact trivial

namespace Dictionary

variable {σ : Type} [Store σ] [Fallible σ] {careful : Prop} {first count₀ bound bound' : Nat}
  {d d' d'' : Dictionary σ} {t₀ : Tables} {g : Goal} {q : Question g} {n : String} {u : Uid}

/-- What is remembered goes together, and no more numbers than a bound were drawn after a first
one. -/
structure Numbered (careful : Prop) (first bound : Nat) (d : Dictionary σ) : Prop where
  drawn : ∃ count ≤ bound, d.tables.Numbered first count
  memory : d.memory.All (d.tables.Ties careful)

/-- From a dictionary to a numbered one in which names and identifiers still go together. -/
structure Advances (careful : Prop) (first bound : Nat) (d d' : Dictionary σ) : Prop where
  numbered : d'.Numbered careful first bound
  keeps {n : String} {u : Uid} : d.tables.Ties careful n u → d'.tables.Ties careful n u
  policy : d'.policy = d.policy

theorem Numbered.mono (h : d.Numbered careful first bound) (hle : bound ≤ bound') :
    d.Numbered careful first bound' := by
  obtain ⟨⟨count, hcount, hdrawn⟩, hmemory⟩ := h
  exact ⟨⟨count, Nat.le_trans hcount hle, hdrawn⟩, hmemory⟩

theorem Numbered.refl (h : d.Numbered careful first bound) : d.Advances careful first bound d :=
  ⟨h, id, rfl⟩

theorem Advances.trans (h : d.Advances careful first bound d')
    (h' : d'.Advances careful first bound' d'') : d.Advances careful first bound' d'' :=
  ⟨h'.numbered, fun hties => h'.keeps (h.keeps hties), h'.policy.trans h.policy⟩

theorem Advances.mono (h : d.Advances careful first bound d') (hle : bound ≤ bound') :
    d.Advances careful first bound' d' := ⟨h.numbered.mono hle, h.keeps, h.policy⟩

/-- A dictionary that never was asked anything, before a store without names. -/
theorem numbered_new (store : σ) (capacity : Nat) (policy : RetryPolicy)
    (h : (Fallible.tables store).Numbered first count₀) :
    (new store capacity policy).Numbered careful first count₀ :=
  ⟨⟨count₀, Nat.le_refl _, h⟩, ⟨fun hmem => absurd hmem List.not_mem_nil, Nat.le_max_right _ _⟩⟩

/-! ## Asking -/

section

variable (hstart : t₀.Numbered first count₀) (hroom : bound + d.policy.attempts ≤ 2 ^ 64)
include hstart hroom

/-- A dialogue goes on, whatever comes of its request. -/
theorem stands_step {dialogue : Dialogue g}
    (h : Stands careful first count₀ bound d.policy.attempts t₀ d.tables q
      (.ask dialogue, d.memory)) :
    Stands careful first count₀ bound d.policy.attempts t₀ (d.step dialogue).2.tables q
      ((d.step dialogue).1, (d.step dialogue).2.memory) := by
  have houtcome := Fallible.outcome d.store dialogue.stage.request
  rw [step]
  generalize Store.perform d.store dialogue.stage.request = outcome at houtcome
  obtain ⟨result, store⟩ := outcome
  cases result with
  | error f => exact h.failed d.width houtcome
  | ok a => exact h.answered hstart hroom d.width houtcome

theorem stands_play (k : Nat) {p : Progress g}
    (h : Stands careful first count₀ bound d.policy.attempts t₀ d.tables q (p, d.memory)) :
    Stands careful first count₀ bound d.policy.attempts t₀ (d.play k p).2.tables q
      ((d.play k p).1, (d.play k p).2.memory) ∧ (d.play k p).2.policy = d.policy := by
  induction k generalizing d p with
  | zero => exact ⟨h, rfl⟩
  | succ k ih =>
    cases p with
    | done result => exact ⟨h, rfl⟩
    | ask dialogue =>
      have hstep := stands_step hstart hroom h
      exact ih (d := (d.step dialogue).2) hroom hstep

end

/-- A dialogue is played to its end. -/
theorem advances_complete (hstart : d.tables.Numbered first count₀)
    (hroom : bound + d.policy.attempts ≤ 2 ^ 64) {start : Progress g × Memory}
    (h : Stands careful first count₀ bound d.policy.attempts d.tables d.tables q start) :
    d.Advances careful first (bound + d.policy.attempts) (d.complete start).2 ∧
      ∀ r, (d.complete start).1 = .ok r → ∀ n u, q.told? r = some (n, u) →
        (d.complete start).2.tables.Ties careful n u := by
  obtain ⟨p, m⟩ := start
  obtain ⟨hplayed, hpolicy⟩ :=
    stands_play (d := { d with memory := m }) hstart hroom d.budget h
  rw [complete]
  dsimp only at hplayed ⊢
  generalize ({ d with memory := m } : Dictionary σ).play d.budget p = played at hplayed hpolicy ⊢
  obtain ⟨p', d'⟩ := played
  cases hplayed with
  | @asks stage _ _ count _ room advances _ _ attempted memory =>
    have hspent := (stage.spent_draw attempted).2
    refine ⟨⟨⟨⟨count, by omega, advances.numbered⟩, memory.mono advances.keeps⟩,
      advances.keeps, hpolicy⟩, fun r hr => ?_⟩
    cases hr
  | ends count room advances all =>
    refine ⟨⟨⟨⟨count, room, advances.numbered⟩, all.1⟩, advances.keeps, hpolicy⟩,
      fun r hr n u htold => all.2 n u ?_⟩
    dsimp only at hr
    rw [hr]
    exact htold

/-- A question begins where a dialogue can stand. -/
theorem Numbered.begins (h : d.Numbered careful first bound)
    (hstart : d.tables.Numbered first count₀) (hle : count₀ ≤ bound)
    (hq : q.Heeds careful d.tables) :
    Stands careful first count₀ bound d.policy.attempts d.tables d.tables q
      (q.begin d.memory) := by
  have hall := all_begin h.memory q
  have hattempted : 1 ≤ 1 ∧ 1 ≤ d.policy.attempts := ⟨Nat.le_refl _, Nat.le_max_right _ _⟩
  have hend : count₀ ≤ bound + d.policy.attempts := Nat.le_add_right_of_le hle
  cases q with
  | find n =>
    rw [Question.begin, Dialogue.findName] at hall ⊢
    split at hall
    · exact .ends count₀ hend hstart.refl hall
    · next heq =>
      exact .asks count₀ (Nat.le_refl _) hle hstart.refl trivial rfl hattempted
        (h.memory.idOf heq).1
  | create n =>
    rw [Question.begin, Dialogue.createName] at hall ⊢
    split at hall
    · exact .ends count₀ hend hstart.refl hall
    · next heq =>
      exact .asks count₀ (Nat.le_refl _) hle hstart.refl trivial rfl hattempted
        (h.memory.idOf heq).1
  | nameOf u =>
    rw [Question.begin, Dialogue.findId] at hall ⊢
    by_cases hrolledUp : u.isRolledUp = true
    · rw [if_pos hrolledUp] at hall ⊢
      exact .ends count₀ hend hstart.refl hall
    · rw [if_neg hrolledUp] at hall ⊢
      split at hall
      · exact .ends count₀ hend hstart.refl hall
      · next heq =>
        have hfits : (Stage.nameOf u).Fits careful first count₀ d.tables d.tables := hq
        exact .asks count₀ (Nat.le_refl _) hle hstart.refl hfits rfl hattempted
          (h.memory.nameOf heq)
  | warm => exact .asks count₀ (Nat.le_refl _) hle hstart.refl trivial rfl hattempted h.memory

/-- Every question that is asked, however the store fails, leaves the dictionary numbered, and what
is told goes together. -/
theorem Numbered.ask (h : d.Numbered careful first bound)
    (hroom : bound + d.policy.attempts ≤ 2 ^ 64) (q : Question g)
    (hq : q.Heeds careful d.tables) :
    d.Advances careful first (bound + d.policy.attempts) (d.ask q).2 ∧
      ∀ r, (d.ask q).1 = .ok r → ∀ n u, q.told? r = some (n, u) →
        (d.ask q).2.tables.Ties careful n u := by
  obtain ⟨count₀, hle, hstart⟩ := h.drawn
  have hbegins := h.begins hstart hle hq
  exact advances_complete hstart hroom (h.begins hstart hle hq)

/-- So does every creation. -/
theorem Numbered.create (h : d.Numbered careful first bound)
    (hroom : bound + d.policy.attempts ≤ 2 ^ 64) (n : String) :
    d.Advances careful first (bound + d.policy.attempts) (d.getOrCreate n).2 ∧
      ∀ u, (d.getOrCreate n).1 = .ok u → (d.getOrCreate n).2.tables.Ties careful n u := by
  obtain ⟨hadvances, htold⟩ := h.ask hroom (.create n) trivial
  exact ⟨hadvances, fun u hu => htold u hu n u rfl⟩

/-- A name and an identifier that go together are the only ones of each other, while everyone is
careful; in any case the identifier is that of no other name. -/
theorem Numbered.single (h : d.Numbered careful first bound) {m : String}
    (hn : d.tables.Ties careful n u) (hm : d.tables.Ties careful m u) : n = m := by
  obtain ⟨_, _, hdrawn⟩ := h.drawn
  exact hdrawn.single hn.gives hm.gives

end Dictionary

end Uid

end StatRollup
