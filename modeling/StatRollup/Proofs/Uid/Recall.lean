import StatRollup.Proofs.Uid.Orderly

/-!
# What callers are answered

A caller that asks for the identifier of a name may be answered from memory.  What is remembered
under a name was learned from an answer of the store, and every such answer but one tells of a
mapping.  The exception is the name of an identifier: a creation that failed, or that is not
finished, has written a name that is not mapped to the identifier, and a lookup of that identifier
remembers the pair in both directions.  Such a lookup is *misread*.

`Commons.recalls_run` says that nothing else can go wrong.  `Commons.Misreads.answered` says that
this always does: the next lookup of the name is answered with an identifier that it is not mapped
to.
-/

namespace StatRollup

namespace Recent

variable {κ ν : Type} [DecidableEq κ] {r : Recent κ ν} {k : κ} {v : ν} {e : κ × ν}

theorem mem_use (h : e ∈ (r.use k).2.entries) : e ∈ r.entries := by
  rw [use] at h
  split at h
  · next v hv =>
    rcases mem_put h with rfl | hold
    · exact mem_of_find? hv
    · exact hold
  · exact h

theorem mem_of_use (h : (r.use k).1 = some v) : (k, v) ∈ r.entries := by
  rw [use] at h
  split at h
  · next hv =>
    cases h
    exact mem_of_find? hv
  · cases h

theorem capacity_use (r : Recent κ ν) (k : κ) : (r.use k).2.capacity = r.capacity := by
  rw [use]
  split <;> rfl

/-- The latest entry is found. -/
theorem find?_put (hcap : 0 < r.capacity) : (r.put k v).find? k = some v := by
  obtain ⟨cap, hcap⟩ := Nat.exists_eq_succ_of_ne_zero (Nat.ne_of_gt hcap)
  rw [find?, put, hcap, List.take_succ_cons, List.lookup_cons_self]

theorem use_put (hcap : 0 < r.capacity) :
    (r.put k v).use k = (some v, (r.put k v).put k v) := by
  rw [use, find?_put hcap]

end Recent

namespace Uid

/-! ## What an answer tells -/

/-- The pairs that the answer to a request makes a dictionary remember. -/
def Stage.learned : {g : Goal} → (s : Stage g) → s.request.Answer → List (String × Uid)
  | _, find name, found => (found.map fun id => (name, id)).toList
  | _, look name, found => (found.map fun id => (name, id)).toList
  | _, lookAgain name, found => (found.map fun id => (name, id)).toList
  | _, draw _, _ => []
  | _, inscribe _ _, _ => []
  | _, claim name _, winner => [(name, winner)]
  | _, retract name _ winner, _ => [(name, winner)]
  | _, nameOf id, found => (found.map fun name => (name, id)).toList
  | _, listAll, pairs => pairs

/-- The pair that a creator will answer with once it has taken its own name back. -/
def Stage.won? : {g : Goal} → Stage g → Option (String × Uid)
  | _, retract name _ winner => some (name, winner)
  | _, _ => none

/-- The name and identifier that an answer ties together. -/
def Question.told? : {g : Goal} → Question g → g.Result → Option (String × Uid)
  | _, .find name, found => found.map fun id => (name, id)
  | _, .create name, id => some (name, id)
  | _, _, _ => none

/-- The name and identifier that a caller was told belong together. -/
def Report.told? (r : Report) : Option (String × Uid) :=
  match r.result with
  | .ok result => r.question.told? result
  | .error _ => none

/-- The name and identifier that a dialogue answers with, or has settled on. -/
def Progress.told? {g : Goal} (q : Question g) : Progress g → Option (String × Uid)
  | .ask d => d.stage.won?
  | .done (.ok r) => q.told? r
  | .done (.error _) => none

section

variable (ok : String → Uid → Prop) {g : Goal} {m : Memory}

/-- Every pair that is remembered under its name satisfies a condition, and there is room for one
more. -/
structure Memory.All (m : Memory) : Prop where
  pairs {n : String} {u : Uid} : (n, u) ∈ m.byName.entries → ok n u
  room : 0 < m.byName.capacity

/-- Every pair that a dialogue remembers or tells satisfies a condition. -/
def Progress.All (q : Question g) (at_ : Progress g × Memory) : Prop :=
  at_.2.All ok ∧ ∀ n u, at_.1.told? q = some (n, u) → ok n u

variable {ok}

theorem Memory.All.remember (hm : m.All ok) {n : String} {u : Uid} (h : ok n u) :
    (m.remember n u).All ok where
  pairs hmem := by
    rcases Recent.mem_put hmem with heq | hold
    · cases heq
      exact h
    · exact hm.pairs hold
  room := hm.room

theorem Memory.All.foldl (hm : m.All ok) {pairs : List (String × Uid)}
    (h : ∀ n u, (n, u) ∈ pairs → ok n u) :
    (pairs.foldl (fun m (n, u) => m.remember n u) m).All ok := by
  induction pairs generalizing m with
  | nil => exact hm
  | cons p pairs ih =>
    exact ih (hm.remember (h p.1 p.2 List.mem_cons_self))
      fun n u hmem => h n u (List.mem_cons_of_mem _ hmem)

theorem Memory.All.idOf {m' : Memory} {n : String} {found : Option Uid} (hm : m.All ok)
    (h : m.idOf n = (found, m')) : m'.All ok ∧ ∀ u, found = some u → ok n u := by
  cases h
  refine ⟨⟨fun hmem => hm.pairs (Recent.mem_use hmem), ?_⟩,
    fun u hu => hm.pairs (Recent.mem_of_use hu)⟩
  exact Nat.lt_of_lt_of_eq hm.room (Recent.capacity_use m.byName n).symm

theorem Memory.All.nameOf {m' : Memory} {u : Uid} {found : Option String} (hm : m.All ok)
    (h : m.nameOf u = (found, m')) : m'.All ok := by
  cases h
  exact ⟨hm.pairs, hm.room⟩

/-- A name that is remembered, or a dialogue that has told nothing yet. -/
theorem all_lookAgain (hm : m.All ok) (n : String) :
    Progress.All ok (.create n) (Dialogue.lookAgain m n) := by
  rw [Dialogue.lookAgain]
  split
  · next u m' h =>
    obtain ⟨hm', hu⟩ := hm.idOf h
    exact ⟨hm', fun n' u' htold => by cases htold; exact hu u rfl⟩
  · next m' h => exact ⟨(hm.idOf h).1, fun n' u' htold => by cases htold⟩

theorem all_begin (hm : m.All ok) (q : Question g) : Progress.All ok q (q.begin m) := by
  cases q with
  | find n =>
    rw [Question.begin, Dialogue.findName]
    split
    · next u m' h =>
      obtain ⟨hm', hu⟩ := hm.idOf h
      exact ⟨hm', fun n' u' htold => by cases htold; exact hu u rfl⟩
    · next m' h => exact ⟨(hm.idOf h).1, fun n' u' htold => by cases htold⟩
  | create n =>
    rw [Question.begin, Dialogue.createName]
    split
    · next u m' h =>
      obtain ⟨hm', hu⟩ := hm.idOf h
      exact ⟨hm', fun n' u' htold => by cases htold; exact hu u rfl⟩
    · next m' h => exact ⟨(hm.idOf h).1, fun n' u' htold => by cases htold⟩
  | nameOf u =>
    rw [Question.begin, Dialogue.findId]
    split
    · exact ⟨hm, fun n' u' htold => by cases htold⟩
    · split
      · next n m' h => exact ⟨hm.nameOf h, fun n' u' htold => by cases htold⟩
      · next m' h => exact ⟨hm.nameOf h, fun n' u' htold => by cases htold⟩
  | warm => exact ⟨hm, fun n' u' htold => by cases htold⟩

/-- A dialogue goes on from an answer with what it remembers and what it learns. -/
theorem all_answered (hm : m.All ok) (width : Nat) (stage : Stage g) (a : stage.request.Answer)
    (ha : ∀ n u, (n, u) ∈ stage.learned a → ok n u) :
    Progress.All ok stage.question (Dialogue.answered width m stage a) := by
  cases stage with
  | find n =>
    cases a with
    | none => exact ⟨hm, fun n' u' htold => by cases htold⟩
    | some u =>
      have hu : ok n u := ha n u List.mem_cons_self
      exact ⟨hm.remember hu, fun n' u' htold => by cases htold; exact hu⟩
  | look n =>
    cases a with
    | none => exact all_lookAgain hm n
    | some u =>
      have hu : ok n u := ha n u List.mem_cons_self
      exact ⟨hm.remember hu, fun n' u' htold => by cases htold; exact hu⟩
  | lookAgain n =>
    cases a with
    | none => exact ⟨hm, fun n' u' htold => by cases htold⟩
    | some u =>
      have hu : ok n u := ha n u List.mem_cons_self
      exact ⟨hm.remember hu, fun n' u' htold => by cases htold; exact hu⟩
  | draw n =>
    simp only [Dialogue.answered]
    split
    · exact ⟨hm, fun n' u' htold => by cases htold⟩
    · exact ⟨hm, fun n' u' htold => by cases htold⟩
  | inscribe n id => exact ⟨hm, fun n' u' htold => by cases htold⟩
  | claim n id =>
    have hu : ok n a := ha n a List.mem_cons_self
    simp only [Dialogue.answered]
    split
    · exact ⟨hm.remember hu, fun n' u' htold => by cases htold; exact hu⟩
    · exact ⟨hm, fun n' u' htold => by cases htold; exact hu⟩
  | retract n id winner =>
    have hu : ok n winner := ha n winner List.mem_cons_self
    exact ⟨hm.remember hu, fun n' u' htold => by cases htold; exact hu⟩
  | nameOf u =>
    cases a with
    | none => exact ⟨hm, fun n' u' htold => by cases htold⟩
    | some n =>
      have hu : ok n u := ha n u List.mem_cons_self
      exact ⟨hm.remember hu, fun n' u' htold => by cases htold⟩
  | listAll => exact ⟨hm.foldl ha, fun n' u' htold => by cases htold⟩

/-- The same, whatever came of the request. -/
theorem all_resume (hm : m.All ok) (policy : RetryPolicy) (width : Nat) (d : Dialogue g)
    (hd : ∀ n u, d.stage.won? = some (n, u) → ok n u)
    (outcome : Except Fault d.stage.request.Answer)
    (ha : ∀ a, outcome = .ok a → ∀ n u, (n, u) ∈ d.stage.learned a → ok n u) :
    Progress.All ok d.stage.question (d.resume policy width m outcome) := by
  cases outcome with
  | ok a => exact all_answered hm width d.stage a (ha a rfl)
  | error f =>
    rw [Dialogue.resume]
    split
    · refine ⟨hm, fun n u htold => hd n u ?_⟩
      obtain ⟨stage, attempt⟩ := d
      cases stage <;> exact htold
    · refine ⟨hm, fun n u htold => ?_⟩
      obtain ⟨stage, attempt⟩ := d
      cases stage <;> cases htold

end

namespace Commons

variable {σ : Type} [Store σ] {ok ok' : String → Uid → Prop} {policy : Nat → RetryPolicy}
  {c : Client} {g : Goal}

/-! ## All dictionaries -/

/-- What a creator has settled on satisfies a condition. -/
def Call.All (ok : String → Uid → Prop) (call : Option Call) : Prop :=
  ∀ (g : Goal) (d : Dialogue g) (n u), call = some (.asking d) → d.stage.won? = some (n, u) → ok n u

/-- Every pair that is remembered, was told or will be told satisfies a condition. -/
structure Recalls (ok : String → Uid → Prop) (s : Commons σ) : Prop where
  /-- What every dictionary remembers. -/
  memory (i : Nat) : (s.memory i).All ok
  /-- What every caller has settled on. -/
  won (c : Client) : Call.All ok (s.call c)
  /-- What was answered. -/
  answered {n : String} {u : Uid} : s.Answered n u → ok n u

omit [Store σ] in
theorem Recalls.mono {s : Commons σ} (hs : s.Recalls ok) (h : ∀ n u, ok n u → ok' n u) :
    s.Recalls ok' where
  memory i := ⟨fun hmem => h _ _ ((hs.memory i).pairs hmem), (hs.memory i).room⟩
  won c g d n u hcall hd := h n u (hs.won c g d n u hcall hd)
  answered hans := h _ _ (hs.answered hans)

omit [Store σ] in
/-- Nothing is remembered at first. -/
theorem recalls_new (store : σ) (capacity : Nat → Nat) : (new store capacity).Recalls ok where
  memory i := ⟨fun hmem => (List.not_mem_nil hmem).elim, Nat.le_max_right _ _⟩
  won c g d n u hcall := by cases hcall
  answered hans := (hans.elim List.not_mem_nil List.not_mem_nil).elim

omit [Store σ] in
theorem Recalls.file {s : Commons σ} (hs : s.Recalls ok) {q : Question g} {p : Progress g × Memory}
    (hp : Progress.All ok q p) : (s.file c q p).Recalls ok := by
  obtain ⟨p, m⟩ := p
  have hmemory : ∀ i, (Function.update s.memory c.dictionary m i).All ok :=
    (Function.forall_update_iff _ fun _ m => Memory.All ok m).2 ⟨hp.1, fun i _ => hs.memory i⟩
  cases p with
  | ask d =>
    have hwon : Call.All ok (some (.asking d)) := by
      intro g' d' n u hcall hwon
      cases hcall
      exact hp.2 n u hwon
    exact ⟨hmemory, (Function.forall_update_iff _ fun _ x => Call.All ok x).2
      ⟨hwon, fun c' _ => hs.won c'⟩, hs.answered⟩
  | done r =>
    have hwon : Call.All ok none := fun g' d' n u hcall => by cases hcall
    refine ⟨hmemory, (Function.forall_update_iff _ fun _ x => Call.All ok x).2
      ⟨hwon, fun c' _ => hs.won c'⟩, fun {n u} hans => ?_⟩
    rcases hans with hans | hans
    · rcases List.mem_cons.1 hans with heq | hold
      · cases heq
        exact hp.2 n u rfl
      · exact hs.answered (.inl hold)
    · rcases List.mem_cons.1 hans with heq | hold
      · cases heq
        exact hp.2 n u rfl
      · exact hs.answered (.inr hold)

theorem Recalls.resume {s : Commons σ} (hs : s.Recalls ok) {d : Dialogue g}
    (hcall : s.call c = some (.asking d)) (outcome : Except Fault d.stage.request.Answer)
    (ha : ∀ a, outcome = .ok a → ∀ n u, (n, u) ∈ d.stage.learned a → ok n u) :
    (s.resume policy c d outcome).Recalls ok := by
  rw [Commons.resume]
  split
  · next name hwait =>
    have hwon : Call.All ok (some (.queued name)) := fun g' d' n u hcall' => by cases hcall'
    exact ⟨hs.memory, (Function.forall_update_iff _ fun _ x => Call.All ok x).2
      ⟨hwon, fun c' _ => hs.won c'⟩, hs.answered⟩
  · exact hs.file (all_resume (hs.memory _) _ _ d (fun n u => hs.won c g d n u hcall) outcome ha)

/-! ## Tables -/

section

variable {s s' s₀ : Commons Tables} {n : String} {u v : Uid} {m : Move} {moves : List Move}

/-- A caller looks an identifier up and is about to find a name that is not mapped to it. -/
def Misreads (s : Commons Tables) (c : Client) (n : String) (u : Uid) : Prop :=
  (∃ attempt, s.call c = some (.asking ⟨.nameOf u, attempt⟩)) ∧ s.store.nameOf? u = some n ∧
    s.store.idOf? n ≠ some u

/-- In the course of a list of moves, a lookup of an identifier found a name that was not mapped to
it. -/
def Misread (policy : Nat → RetryPolicy) (s₀ : Commons Tables) (moves : List Move) (n : String)
    (u : Uid) : Prop :=
  ∃ before c after s, moves = before ++ .perform c :: after ∧
    s₀.run policy before = some s ∧ s.Misreads c n u

/-- What a dictionary learns from the tables is mapped, unless it is misread. -/
theorem learned_of_perform {B : String → Uid → Prop} {d : Dialogue g}
    (hs : s.Recalls fun n u => s.store.idOf? n = some u ∨ B n u)
    (hcall : s.call c = some (.asking d))
    (hlearn : (n, u) ∈ d.stage.learned (s.store.perform d.stage.request).1) :
    (s.store.perform d.stage.request).2.idOf? n = some u ∨ B n u ∨ s.Misreads c n u := by
  obtain ⟨stage, attempt⟩ := d
  cases stage with
  | find name | look name | lookAgain name =>
    obtain ⟨w, hw, heq⟩ := Option.map_eq_some_iff.1 (Option.mem_toList.1 hlearn)
    cases heq
    exact .inl hw
  | draw name => cases hlearn
  | inscribe name id => cases hlearn
  | claim name id =>
    cases List.mem_singleton.1 hlearn
    exact .inl Tables.idOf?_mapName_self
  | retract name id winner =>
    cases List.mem_singleton.1 hlearn
    exact (hs.won c _ _ _ _ hcall rfl).imp_right .inl
  | nameOf id =>
    obtain ⟨w, hw, heq⟩ := Option.map_eq_some_iff.1 (Option.mem_toList.1 hlearn)
    cases heq
    by_cases hmapped : s.store.idOf? n = some u
    · exact .inl hmapped
    · exact .inr (.inr ⟨⟨attempt, hcall⟩, hw, hmapped⟩)
  | listAll => exact .inl (Tables.mem_pairs.1 hlearn)

/-- What is remembered, told or to be told after a move is mapped then, or it was misread. -/
theorem Recalls.step {B : String → Uid → Prop}
    (hs : s.Recalls fun n u => s.store.idOf? n = some u ∨ B n u)
    (h : s.step policy m = some s') :
    s'.Recalls fun n u =>
      s'.store.idOf? n = some u ∨ B n u ∨ ∃ c, m = .perform c ∧ s.Misreads c n u := by
  have hsame : s.Recalls fun n u =>
      s.store.idOf? n = some u ∨ B n u ∨ ∃ c, m = .perform c ∧ s.Misreads c n u :=
    hs.mono fun n u hok => hok.imp_right .inl
  cases step_cases h with
  | ask q hcall =>
    rw [store_file]
    exact hsame.file (all_begin (hsame.memory _) q)
  | @perform c g d hcall =>
    rw [perform_eq, store_resume]
    have hmono := hsame.mono fun n u hok =>
      hok.imp_left fun hn => Tables.idOf?_perform hn d.stage.request
    have hasked : (s.asked d).Recalls _ := ⟨hmono.memory, hmono.won, hmono.answered⟩
    refine hasked.resume hcall _ fun a ha n u hlearn => ?_
    cases ha
    exact (learned_of_perform hs hcall hlearn).imp_right (Or.imp_right fun hmis => ⟨c, rfl, hmis⟩)
  | fail d f hcall =>
    rw [store_resume]
    exact hsame.resume hcall _ fun a ha => by cases ha
  | stale d a hcall ha =>
    rw [store_resume]
    refine hsame.resume hcall _ fun a' ha' n u hlearn => ?_
    cases ha'
    obtain ⟨stage, attempt⟩ := d
    cases stage with
    | find | look | lookAgain => cases ha; cases hlearn
    | _ => cases ha
  | wake name hcall =>
    rw [store_file]
    exact hsame.file (all_lookAgain (hsame.memory _) name)

theorem Misread.concat (h : Misread policy s₀ moves n u) :
    Misread policy s₀ (moves ++ [m]) n u := by
  obtain ⟨before, c, after, t, rfl, hrun, hmis⟩ := h
  exact ⟨before, c, after ++ [m], t, by simp, hrun, hmis⟩

/-- In every run, what is remembered, told or to be told is mapped, or it was misread. -/
theorem recalls_run {t : Tables} {capacity : Nat → Nat}
    (h : (new t capacity).run policy moves = some s) :
    s.Recalls fun n u => s.store.idOf? n = some u ∨ Misread policy (new t capacity) moves n u := by
  induction moves using List.reverseRecOn generalizing s with
  | nil =>
    cases h
    exact recalls_new t capacity
  | append_singleton moves m ih =>
    obtain ⟨s₁, hrun, hstep⟩ := run_concat h
    refine ((ih hrun).step hstep).mono fun n u hok => hok.imp_right fun hmis => ?_
    rcases hmis with hmis | ⟨c, rfl, hmis⟩
    · exact hmis.concat
    · exact ⟨moves, c, [], s₁, rfl, hrun, hmis⟩

/-- Right after a lookup was misread, the name is answered with an identifier that it is not mapped
to. -/
theorem Misreads.answered {t : Tables} {capacity : Nat → Nat}
    (h : (new t capacity).run policy moves = some s) (hmis : s.Misreads c n u) :
    ∃ s₁ s₂, s.step policy (.perform c) = some s₁ ∧ s₁.step policy (.ask c (.find n)) = some s₂ ∧
      s₂.Answered n u ∧ s₂.store.idOf? n ≠ some u := by
  obtain ⟨⟨attempt, hcall⟩, hname, hunmapped⟩ := hmis
  let learned := (s.memory c.dictionary).remember n u
  let used : Memory := { learned with byName := learned.byName.put n u }
  let s₁ := s.file c (.nameOf u) (.done (.ok n), learned)
  let s₂ := s₁.file c (.find n) (.done (.ok (some u)), used)
  have hstep₁ : s.step policy (.perform c) = some s₁ := by
    simp only [Commons.step, hcall]
    show some (s.resume policy c ⟨.nameOf u, attempt⟩ (.ok (s.store.nameOf? u))) = some s₁
    rw [hname]
    rfl
  have hbegin : (Question.find n).begin learned = (.done (.ok (some u)), used) := by
    have hroom : 0 < (s.memory c.dictionary).byName.capacity := ((recalls_run h).memory _).room
    have hidOf : learned.idOf n = (some u, used) := by
      rw [Memory.idOf, show learned.byName = (s.memory c.dictionary).byName.put n u from rfl,
        Recent.use_put hroom]
      rfl
    rw [Question.begin, Dialogue.findName, hidOf]
  have hstep₂ : s₁.step policy (.ask c (.find n)) = some s₂ := by
    have hidle : s₁.call c = none := Function.update_self ..
    have hmemory : s₁.memory c.dictionary = learned := Function.update_self ..
    simp only [Commons.step, hidle, hmemory, hbegin]
    rfl
  exact ⟨s₁, s₂, hstep₁, hstep₂, .inl List.mem_cons_self, hunmapped⟩

/-- An answer is wrong only after a lookup of its identifier was misread, and after such a lookup
there is a wrong answer.  In a run that misreads nothing, answers agree with the tables and with
each other. -/
theorem answers_mapped_unless_misread {t : Tables} {capacity : Nat → Nat}
    (h : (new t capacity).run policy moves = some s) :
    (∀ n u, s.Answered n u →
      s.store.idOf? n = some u ∨ Misread policy (new t capacity) moves n u) ∧
    (∀ n u v, s.Answered n u → s.Answered n v →
      ¬ Misread policy (new t capacity) moves n u →
      ¬ Misread policy (new t capacity) moves n v → u = v) ∧
    (∀ c n u, s.Misreads c n u →
      ∃ s₁ s₂, s.step policy (.perform c) = some s₁ ∧
        s₁.step policy (.ask c (.find n)) = some s₂ ∧
        s₂.Answered n u ∧ s₂.store.idOf? n ≠ some u) := by
  have hanswered (n : String) (u : Uid) (hans : s.Answered n u) := (recalls_run h).answered hans
  refine ⟨hanswered, fun n u v hu hv hno hno' => ?_, fun c n u hmis => hmis.answered h⟩
  have hmapped := (hanswered n u hu).resolve_right hno
  rw [(hanswered n v hv).resolve_right hno'] at hmapped
  cases hmapped
  rfl

omit [Store σ] in
theorem answered_of_told {s : Commons σ} {r : Report} {n : String} {u : Uid} (hr : r ∈ s.reports)
    (htold : r.told? = some (n, u)) : s.Answered n u := by
  obtain ⟨q, result⟩ := r
  cases result with
  | error f => cases htold
  | ok result =>
    cases q with
    | find name =>
      obtain ⟨id, rfl, heq⟩ := Option.map_eq_some_iff.1 htold
      cases heq
      exact .inl hr
    | create name =>
      cases htold
      exact .inr hr
    | nameOf | warm => cases htold

/-- A creation that fails at its last but one request leaves a name behind, and the identifier is
looked up. -/
def leftover : List Move :=
  let c : Client := ⟨0, 0⟩
  [.ask c (.create "a"), .perform c, .wake c, .perform c, .perform c, .perform c,
    .fail c (.reported .cancelled ""), .ask c (.nameOf ⟨4, 1, by decide, by decide, by decide⟩)]

theorem answers_mapped_unless_misread_leftover :
    ∃ s u, (new (Tables.empty 4) fun _ => 16).run (fun _ => {}) leftover = some s ∧
      s.Misreads ⟨0, 0⟩ "a" u ∧ ∃ s₁ s₂, s.step (fun _ => {}) (.perform ⟨0, 0⟩) = some s₁ ∧
        s₁.step (fun _ => {}) (.ask ⟨0, 0⟩ (.find "a")) = some s₂ ∧
        s₂.Answered "a" u ∧ s₂.store.idOf? "a" ≠ some u := by
  let u : Uid := ⟨4, 1, by decide, by decide, by decide⟩
  let result := ((new (Tables.empty 4) fun _ => 16).run (fun _ => {}) leftover).map fun s =>
    (s.call ⟨0, 0⟩, s.store.nameOf? u, s.store.idOf? "a")
  have hresult : result = some (some (.asking ⟨.nameOf u, 1⟩), some "a", none) := rfl
  obtain ⟨s, hrun, hs⟩ := Option.map_eq_some_iff.1 hresult
  obtain ⟨hcall, hrest⟩ := Prod.mk.inj hs
  obtain ⟨hname, hunmapped⟩ := Prod.mk.inj hrest
  have hmis : s.Misreads ⟨0, 0⟩ "a" u := ⟨⟨1, hcall⟩, hname, by rw [hunmapped]; exact nofun⟩
  exact ⟨s, u, hrun, hmis, (answers_mapped_unless_misread hrun).2.2 ⟨0, 0⟩ "a" u hmis⟩

/-- A name that nobody has created is answered with an identifier. -/
theorem answered_without_mapping :
    ∃ s u, (new (Tables.empty 4) fun _ => 16).run (fun _ => {})
        (leftover ++ [.perform ⟨0, 0⟩, .ask ⟨0, 0⟩ (.find "a")]) = some s ∧
      s.Answered "a" u ∧ s.store.idOf? "a" = none := by
  let u : Uid := ⟨4, 1, by decide, by decide, by decide⟩
  let result := ((new (Tables.empty 4) fun _ => 16).run (fun _ => {})
    (leftover ++ [.perform ⟨0, 0⟩, .ask ⟨0, 0⟩ (.find "a")])).map fun s =>
      ((s.reports.filterMap Report.told?).head?, s.store.idOf? "a")
  have hresult : result = some (some ("a", u), none) := by decide
  obtain ⟨s, hrun, hs⟩ := Option.map_eq_some_iff.1 hresult
  obtain ⟨htold, hunmapped⟩ := Prod.mk.inj hs
  obtain ⟨r, hr, htold⟩ := List.mem_filterMap.1 (List.mem_of_head? htold)
  exact ⟨s, u, hrun, answered_of_told hr htold, hunmapped⟩

end

end Commons

end Uid

end StatRollup
