import Mathlib.Data.List.Basic
import StatRollup.Engine.Worker

/-!
# The rounds of a flush

What becomes of an entry in a flush depends on its own results alone.  The results that it got,
round after round, are its `Course`.  A course goes on for as long as its results are failures after
which an entry may be sent again and attempts are left (`Course.Obeys`), and the entries of a round
are those whose courses go on that far (`roundOf`).

The courses are put together from the last round to the first.  A round that is put in front begins
the course of every entry that was sent in it, and goes on with the courses of those that it left
(`resume`), in the same order.  This is what carries the induction in `send_accounts`.
-/

namespace StatRollup.Flush

/-! ## What a store sees of a flush -/

/-- A batch request and its answer. -/
structure Exchange where
  /-- The writes that were asked for. -/
  requests : List (Key × Aggregate)
  /-- The results as the store gave them. -/
  results : List (Except Fault Unit)

/-- The results as a flush reads them: one per request, or a transient failure of every request when
there are too few or too many. -/
def Exchange.ReadAs (x : Exchange) (results : List (Except Fault Unit)) : Prop :=
  (x.results.length = x.requests.length ∧ results = x.results) ∨
    (x.results.length ≠ x.requests.length ∧ ∃ fault : Fault, fault.kind = .store ∧
      fault.isTransient = true ∧ results = List.replicate x.requests.length (.error fault))

variable {σ : Type} (answer : σ → List (Key × Aggregate) → List (Except Fault Unit) × σ)
  {policy : RetryPolicy} {round rounds : Nat} {f f' : Flush}
  {ps : List (Entry × Except Fault Unit)}

/-- Whether a result is a failure after which an entry may be sent again. -/
def isRetryable : Except Fault Unit → Bool
  | .ok _ => false
  | .error fault => fault.isTransient

/-- An entry with the results that it got, one per round in which it was sent. -/
structure Course where
  /-- The entry. -/
  entry : Entry
  /-- Its results. -/
  results : List (Except Fault Unit)

/-- The entry is sent in a round exactly when attempts are left and all results before were failures
after which it may be sent again.  Its first round is number `first`. -/
def Course.Obeys (policy : RetryPolicy) (first : Nat) (c : Course) : Prop :=
  ∀ r, r < c.results.length ↔
    first + r ≤ max policy.maxAttempts 1 ∧ ∀ x ∈ c.results.take r, isRetryable x = true

/-- The entries that are sent in a round, with their results.  Rounds are counted from 0. -/
def roundOf (cs : List Course) (r : Nat) : List (Entry × Except Fault Unit) :=
  cs.filterMap fun c => c.results[r]?.map fun x => (c.entry, x)

/-- The entries of a round that are written. -/
def succeeded (ps : List (Entry × Except Fault Unit)) : List Entry :=
  ps.filterMap fun
    | (entry, .ok _) => some entry
    | (_, .error _) => none

/-- The entries of a round that are given up, with their failures. -/
def abandoned (policy : RetryPolicy) (round : Nat) (ps : List (Entry × Except Fault Unit)) :
    List (Entry × Fault) :=
  ps.filterMap fun
    | (_, .ok _) => none
    | (entry, .error fault) =>
      if policy.retries fault.isTransient round then none else some (entry, fault)

/-- The entries that are written in some rounds, in order. -/
def writtenIn (cs : List Course) (rounds : Nat) : List Entry :=
  (List.range rounds).flatMap fun r => succeeded (roundOf cs r)

/-- The entries that are given up in some rounds, in order. -/
def lostIn (policy : RetryPolicy) (first : Nat) (cs : List Course) (rounds : Nat) :
    List (Entry × Fault) :=
  (List.range rounds).flatMap fun r => abandoned policy (first + r) (roundOf cs r)

/-- Whom a failure is put down to. -/
def blame (x : Entry × Fault) : Source × Fault := (x.1.2.source, x.2)

/-- What the store saw of a round is what was sent in it, and nothing when nothing was. -/
def Heard (ps : List (Entry × Except Fault Unit)) : Option Exchange → Prop
  | none => ps = []
  | some x => ps ≠ [] ∧ x.requests = ps.map (fun p => (p.1.1, p.1.2.aggregate)) ∧
      x.ReadAs (ps.map Prod.snd)

/-- From one state of a flush to its end, with the exchanges on the way and the courses of all
entries that were left. -/
structure Accounts (policy : RetryPolicy) (f f' : Flush) (log : List Exchange) (cs : List Course) :
    Prop where
  /-- Nothing is left. -/
  finished : f'.left = []
  /-- Every entry has a course. -/
  entries : cs.map Course.entry = f.left
  /-- Courses go on for as long as they should. -/
  obeys : ∀ c ∈ cs, c.Obeys policy f.round
  /-- The store saw the rounds of the courses. -/
  heard : ∀ r, Heard (roundOf cs r) log[r]?
  /-- What is written, by rounds. -/
  written : f'.written = f.written ++ writtenIn cs log.length
  /-- What is given up, by rounds. -/
  givenUp : f'.givenUp = f.givenUp ++ (lostIn policy f.round cs log.length).map blame
  /-- Every entry is one or the other, and once. -/
  complete : (writtenIn cs log.length ++
    (lostIn policy f.round cs log.length).map Prod.fst).Perm f.left

/-! ## One round -/

/-- The entries of the next round with the results that are read for them. -/
def answered (f : Flush) (results : List (Except Fault Unit)) :
    List (Entry × Except Fault Unit) :=
  f.left.zip (fitResults f.left.length results)

/-- The entries of a round that are sent again. -/
def again (policy : RetryPolicy) (round : Nat) (ps : List (Entry × Except Fault Unit)) :
    List Entry :=
  (ps.filter fun p => Fate.of policy round p.2 = .left).map Prod.fst

theorem length_fitResults (count : Nat) (results : List (Except Fault Unit)) :
    (fitResults count results).length = count := by
  rw [fitResults]
  split
  · assumption
  · exact List.length_replicate

theorem map_fst_answered (f : Flush) (results : List (Except Fault Unit)) :
    (f.answered results).map Prod.fst = f.left :=
  List.map_fst_zip (Nat.le_of_eq (length_fitResults _ _).symm)

theorem map_snd_answered (f : Flush) (results : List (Except Fault Unit)) :
    (f.answered results).map Prod.snd = fitResults f.left.length results :=
  List.map_snd_zip (Nat.le_of_eq (length_fitResults _ _))

theorem heard_answered (h : f.left ≠ []) (results : List (Except Fault Unit)) :
    Heard (f.answered results) (some ⟨f.requests, results⟩) := by
  have hlength : f.requests.length = f.left.length := List.length_map _
  refine ⟨fun hnil => h ?_, ?_, ?_⟩
  · rw [← f.map_fst_answered results, hnil, List.map_nil]
  · calc f.requests = f.left.map fun x => (x.1, x.2.aggregate) := rfl
      _ = ((f.answered results).map Prod.fst).map fun x => (x.1, x.2.aggregate) := by
        rw [map_fst_answered]
      _ = _ := List.map_map
  · rw [map_snd_answered, fitResults]
    split
    · next heq => exact .inl ⟨heq.trans hlength.symm, rfl⟩
    · next hne =>
      exact .inr ⟨fun heq => hne (heq.trans hlength), .incompleteBatch, rfl, rfl, by rw [hlength]⟩

theorem judged_eq (policy : RetryPolicy) (f : Flush) (results : List (Except Fault Unit)) :
    f.judged policy results =
      (f.answered results).map fun p => (p.1, Fate.of policy f.round p.2) := by
  rw [judged, answered, List.zip_map_right]
  rfl

theorem fate_error (policy : RetryPolicy) (round : Nat) (fault : Fault) :
    Fate.of policy round (.error fault) =
      if policy.retries fault.isTransient round then .left else .givenUp fault := rfl

theorem writtenOf_judged (results : List (Except Fault Unit)) :
    writtenOf (f.judged policy results) = succeeded (f.answered results) := by
  rw [judged_eq, writtenOf, List.filterMap_map, succeeded]
  refine List.filterMap_congr fun p _ => ?_
  obtain ⟨entry, fault | x⟩ := p
  · cases hretries : policy.retries fault.isTransient f.round <;>
      simp [fate_error, hretries]
  · rfl

theorem leftOf_judged (results : List (Except Fault Unit)) :
    leftOf (f.judged policy results) = again policy f.round (f.answered results) := by
  rw [judged_eq, leftOf, List.filterMap_map, again, ← List.filterMap_eq_filter,
    List.map_filterMap]
  refine List.filterMap_congr fun p _ => ?_
  cases hfate : Fate.of policy f.round p.2 <;> simp [Option.guard, hfate]

theorem givenUpOf_judged (results : List (Except Fault Unit)) :
    givenUpOf (f.judged policy results) =
      (abandoned policy f.round (f.answered results)).map blame := by
  rw [judged_eq, givenUpOf, List.filterMap_map, abandoned, List.map_filterMap]
  refine List.filterMap_congr fun p _ => ?_
  obtain ⟨entry, fault | x⟩ := p
  · cases hretries : policy.retries fault.isTransient f.round <;>
      simp [fate_error, hretries, blame]
  · rfl

/-- Every entry of a round is written, sent again or given up. -/
theorem perm_fates (policy : RetryPolicy) (round : Nat) (ps : List (Entry × Except Fault Unit)) :
    (succeeded ps ++ (again policy round ps ++ (abandoned policy round ps).map Prod.fst)).Perm
      (ps.map Prod.fst) := by
  induction ps with
  | nil => exact .refl _
  | cons p ps ih =>
    obtain ⟨entry, fault | x⟩ := p
    · have hsucceeded : succeeded ((entry, .error fault) :: ps) = succeeded ps := rfl
      rw [hsucceeded]
      cases hretries : policy.retries fault.isTransient round with
      | true =>
        have hagain : again policy round ((entry, .error fault) :: ps) =
            entry :: again policy round ps := by simp [again, fate_error, hretries]
        have habandoned : abandoned policy round ((entry, .error fault) :: ps) =
            abandoned policy round ps := by simp [abandoned, hretries]
        rw [hagain, habandoned]
        exact List.perm_middle.trans (ih.cons entry)
      | false =>
        have hagain : again policy round ((entry, .error fault) :: ps) =
            again policy round ps := by simp [again, fate_error, hretries]
        have habandoned : abandoned policy round ((entry, .error fault) :: ps) =
            (entry, fault) :: abandoned policy round ps := by simp [abandoned, hretries]
        rw [hagain, habandoned]
        exact (List.perm_middle.append_left _).trans (List.perm_middle.trans (ih.cons entry))
    · exact ih.cons entry

/-! ## Putting a round in front -/

/-- The courses of the entries of a round.  The entries that are sent again go on with their later
courses, in order. -/
def resume (policy : RetryPolicy) (round : Nat) :
    List (Entry × Except Fault Unit) → List Course → List Course
  | [], _ => []
  | (entry, x) :: ps, later =>
    if Fate.of policy round x = .left then
      ⟨entry, x :: (later.head?.map Course.results).getD []⟩ ::
        resume policy round ps later.tail
    else ⟨entry, [x]⟩ :: resume policy round ps later

section

variable {later : List Course}

theorem map_entry_resume (policy : RetryPolicy) (round : Nat)
    (ps : List (Entry × Except Fault Unit)) (later : List Course) :
    (resume policy round ps later).map Course.entry = ps.map Prod.fst := by
  induction ps generalizing later with
  | nil => rfl
  | cons p ps ih =>
    rw [resume]
    split <;> rw [List.map_cons, List.map_cons, ih]

/-- The first round of the courses is the one that was put in front. -/
theorem roundOf_resume_zero (policy : RetryPolicy) (round : Nat)
    (ps : List (Entry × Except Fault Unit)) (later : List Course) :
    roundOf (resume policy round ps later) 0 = ps := by
  induction ps generalizing later with
  | nil => rfl
  | cons p ps ih =>
    rw [resume]
    split <;> exact congrArg (p :: ·) (ih _)

/-- What later courses have to do with a round that is put in front of them. -/
theorem again_cons {p : Entry × Except Fault Unit}
    (hlater : later.map Course.entry = again policy round (p :: ps)) :
    (Fate.of policy round p.2 = .left ∧ ∃ c rest, later = c :: rest ∧ c.entry = p.1 ∧
        rest.map Course.entry = again policy round ps) ∨
      Fate.of policy round p.2 ≠ .left ∧ later.map Course.entry = again policy round ps := by
  rw [again, List.filter_cons] at hlater
  split at hlater
  · next hleft =>
    cases later with
    | nil => cases hlater
    | cons c rest =>
      obtain ⟨hentry, hrest⟩ := List.cons.inj hlater
      exact .inl ⟨of_decide_eq_true hleft, c, rest, rfl, hentry, hrest⟩
  · next hleft => exact .inr ⟨fun heq => hleft (decide_eq_true heq), hlater⟩

/-- The rounds after that are those of the later courses. -/
theorem roundOf_resume_succ (hlater : later.map Course.entry = again policy round ps) (r : Nat) :
    roundOf (resume policy round ps later) (r + 1) = roundOf later r := by
  induction ps generalizing later with
  | nil =>
    rw [List.map_eq_nil_iff.1 hlater]
    rfl
  | cons p ps ih =>
    rw [resume]
    obtain ⟨hleft, c, rest, rfl, hentry, hrest⟩ | ⟨hleft, hrest⟩ := again_cons hlater
    · rw [if_pos hleft, roundOf, roundOf, List.filterMap_cons, List.filterMap_cons, ← hentry]
      have htail := ih hrest
      rw [roundOf, roundOf] at htail
      rw [List.tail_cons, htail]
      rfl
    · rw [if_neg hleft]
      exact ih hrest

theorem fate_eq_left {x : Except Fault Unit} :
    Fate.of policy round x = .left ↔ isRetryable x = true ∧ round < policy.maxAttempts := by
  cases x with
  | ok x => simp [Fate.of, isRetryable]
  | error fault => simp [fate_error, isRetryable, RetryPolicy.retries]

/-- A course that begins with a round goes on as long as it should. -/
theorem obeys_resume (hround : 1 ≤ round) (hmax : round ≤ max policy.maxAttempts 1)
    (hlater : later.map Course.entry = again policy round ps)
    (hobeys : ∀ c ∈ later, c.Obeys policy (round + 1)) :
    ∀ c ∈ resume policy round ps later, c.Obeys policy round := by
  induction ps generalizing later with
  | nil => exact fun c hc => nomatch hc
  | cons p ps ih =>
    rw [resume]
    obtain ⟨hleft, c, rest, rfl, -, hrest⟩ | ⟨hleft, hrest⟩ := again_cons hlater
    · obtain ⟨hc, hobeys⟩ := List.forall_mem_cons.1 hobeys
      rw [if_pos hleft]
      refine List.forall_mem_cons.2 ⟨fun r => ?_, ih hrest hobeys⟩
      have hretryable := (fate_eq_left.1 hleft).1
      cases r with
      | zero => simp [hmax]
      | succ r =>
        simp only [List.head?_cons, Option.map_some, Option.getD_some, List.length_cons,
          List.take_succ_cons, List.forall_mem_cons, hretryable, true_and]
        rw [Nat.add_lt_add_iff_right, hc r, Nat.add_assoc, Nat.add_comm 1 r]
    · rw [if_neg hleft]
      refine List.forall_mem_cons.2 ⟨fun r => ?_, ih hrest hobeys⟩
      cases r with
      | zero => simp [hmax]
      | succ r =>
        -- The only result is final, or it is that of the last round.
        have hlast : ¬(round + (r + 1) ≤ max policy.maxAttempts 1 ∧ isRetryable p.2 = true) :=
          fun h => hleft (fate_eq_left.2 ⟨h.2, by omega⟩)
        simpa using fun h₁ h₂ => hlast ⟨h₁, h₂⟩

end

/-! ## All rounds -/

theorem writtenIn_succ (cs : List Course) (rounds : Nat) :
    writtenIn cs (rounds + 1) = succeeded (roundOf cs 0) ++
      (List.range rounds).flatMap fun r => succeeded (roundOf cs (r + 1)) := by
  rw [writtenIn, List.range_succ_eq_map, List.flatMap_cons, List.flatMap_map]

theorem lostIn_succ (policy : RetryPolicy) (first : Nat) (cs : List Course) (rounds : Nat) :
    lostIn policy first cs (rounds + 1) = abandoned policy first (roundOf cs 0) ++
      (List.range rounds).flatMap fun r =>
        abandoned policy (first + 1 + r) (roundOf cs (r + 1)) := by
  rw [lostIn, List.range_succ_eq_map, List.flatMap_cons, List.flatMap_map]
  simp only [Nat.succ_eq_add_one, Nat.add_zero, Nat.add_assoc, Nat.add_comm 1]

/-- A round in front of the rest of a flush. -/
theorem Accounts.cons {results : List (Except Fault Unit)} {log : List Exchange}
    {later : List Course} (hround : 1 ≤ f.round) (hmax : f.round ≤ max policy.maxAttempts 1)
    (hleft : f.left ≠ []) (h : Accounts policy (f.afterRound policy results) f' log later) :
    Accounts policy f f' (⟨f.requests, results⟩ :: log)
      (resume policy f.round (f.answered results) later) := by
  have hlater : later.map Course.entry = again policy f.round (f.answered results) :=
    h.entries.trans (leftOf_judged results)
  have hsucc := roundOf_resume_succ hlater
  have hzero := roundOf_resume_zero policy f.round (f.answered results) later
  have hwritten : writtenIn (resume policy f.round (f.answered results) later) (log.length + 1) =
      succeeded (f.answered results) ++ writtenIn later log.length := by
    simp only [writtenIn_succ, hzero, hsucc]
    rfl
  have hlost :
      lostIn policy f.round (resume policy f.round (f.answered results) later) (log.length + 1) =
        abandoned policy f.round (f.answered results) ++
          lostIn policy (f.round + 1) later log.length := by
    simp only [lostIn_succ, hzero, hsucc]
    rfl
  refine ⟨h.finished, ?_, obeys_resume hround hmax hlater h.obeys, fun r => ?_, ?_, ?_, ?_⟩
  · rw [map_entry_resume, map_fst_answered]
  · cases r with
    | zero =>
      rw [hzero]
      exact heard_answered hleft results
    | succ r =>
      rw [hsucc]
      exact h.heard r
  · rw [List.length_cons, hwritten, h.written, ← List.append_assoc]
    exact congrArg (f.written ++ · ++ _) (writtenOf_judged results)
  · rw [List.length_cons, hlost, h.givenUp, List.map_append, ← List.append_assoc]
    exact congrArg (f.givenUp ++ · ++ _) (givenUpOf_judged results)
  · rw [List.length_cons, hwritten, hlost, List.map_append]
    have hfates := perm_fates policy f.round (f.answered results)
    rw [map_fst_answered] at hfates
    refine .trans ?_ hfates
    have hcomplete : (writtenIn later log.length ++
        (lostIn policy (f.round + 1) later log.length).map Prod.fst).Perm
          (again policy f.round (f.answered results)) := leftOf_judged results ▸ h.complete
    rw [List.append_assoc]
    refine .append_left _ (.trans (.append_left _ List.perm_append_comm) ?_)
    rw [← List.append_assoc]
    exact hcomplete.append_right _

variable {seen : List Nat} {given : List (Source × Fault)}

theorem firstReasons_sublist (seen : List Nat) (given : List (Source × Fault)) :
    (firstReasons seen given).Sublist given := by
  induction given generalizing seen with
  | nil => exact .refl _
  | cons x given ih =>
    rw [firstReasons]
    split
    · exact (ih seen).cons x
    · exact (ih _).cons_cons x

end StatRollup.Flush
