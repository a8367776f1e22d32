import StatRollup.Proofs.Engine.Accounts

/-!
# Following a worker

Before every move a worker was the same up to its mailbox, or it took its turn, or it did not exist
(`Plant.Sound.follows_step`).  Crews are never used again, so what was written about a worker is
about that worker for good (`Sound.nextSerial_le`), and a move writes one page at most
(`pages_step`).
-/

namespace StatRollup

variable {σ : Type} [Uid.Store σ]

/-- A processor has one crew at a time, so two slots of a partition with workers are the same. -/
theorem Engine.eq_of_workerAt? {e : Engine σ} {slot slot' : Slot} {worker worker' : Worker}
    (hw : e.workerAt? slot = some worker) (hw' : e.workerAt? slot' = some worker')
    (hprocessor : slot.processor = slot'.processor)
    (hpartition : slot.partition = slot'.partition) : slot = slot' := by
  obtain ⟨crew, hcrew, hfound⟩ := Option.bind_eq_some_iff.1 hw
  obtain ⟨crew', hcrew', hfound'⟩ := Option.bind_eq_some_iff.1 hw'
  rw [hprocessor, hcrew'] at hcrew
  cases hcrew
  split at hfound
  · next hserial =>
    split at hfound'
    · next hserial' =>
      cases slot
      cases slot'
      exact (Slot.mk.injEq ..).mpr ⟨hprocessor, hserial.symm.trans hserial', hpartition⟩
    · cases hfound'
  · cases hfound

namespace Plant

variable {first : Engine σ} {s s' : Plant σ} {slot : Slot} {worker' : Worker} {page : Diary}

/-! ## One move of a worker -/

/-- Where a worker was before a move, with the pages of its diary. -/
inductive Follows (s s' : Plant σ) (slot : Slot) (worker' : Worker) : Prop where
  /-- It did not exist, and has nothing yet. -/
  | new (empty : worker'.window.entries = {}) (waiting : worker'.activity = .waiting)
    (unused : s.engine.nextSerial ≤ slot.serial) (pages : s'.pages = s.pages)
  /-- It was the same, up to its mailbox. -/
  | stays {worker : Worker} (found : s.engine.workerAt? slot = some worker)
    (window : worker'.window = worker.window) (activity : worker'.activity = worker.activity)
    (pages : (s'.pages.filter fun x => x.1 = slot) = s.pages.filter fun x => x.1 = slot)
  /-- It took a turn. -/
  | turns {worker : Worker} {shared : Shared σ} (found : s.engine.workerAt? slot = some worker)
    (own : s.engine.OwnTurn slot.worker worker worker' shared)
    (pages : s'.pages = s.pages ++ [(slot, s.engine.page slot.worker)])
    (shared_eq : s'.engine.shared = shared)

/-- A message at most was brought to the worker. -/
theorem follows_deliver {e : Engine σ} {id : ProcessorId} {serial i : Nat} {m : Message}
    (hd : s.engine.deliver id serial i m = .taken e) (hw : e.workerAt? slot = some worker') :
    ∃ worker, s.engine.workerAt? slot = some worker ∧ worker'.window = worker.window ∧
      worker'.activity = worker.activity := by
  obtain ⟨target, htarget, _, hworkers⟩ := Engine.workerAt?_deliver hd
  rw [hworkers] at hw
  split at hw
  · next heq =>
    cases hw
    exact ⟨target, heq ▸ htarget, rfl, rfl⟩
  · exact ⟨worker', hw, rfl, rfl⟩

theorem Sound.follows_turn (h : s.Sound first) (hforward : ∀ id, first.forward? id ≠ some id)
    (w : WorkerId) (hw : (s.turn w).engine.workerAt? slot = some worker') :
    Follows s (s.turn w) slot worker' := by
  rw [turn] at hw ⊢
  split at hw
  · next e own hturn hslot =>
    obtain ⟨c, hc, rfl⟩ := Option.map_eq_some_iff.1 hslot
    obtain ⟨c', worker, hc', hworker, _, after, counted, shared, e₁, rfl, hturned⟩ :=
      h.turned hturn
    cases hc.symm.trans hc'
    have hmid := h.midway hforward hc hturned
    rw [Engine.workerAt?_place hmid.crew hworker] at hw
    split at hw
    · next heq =>
      subst heq
      cases hw
      exact .turns ((Engine.workerAt?_of_crew? hc).trans hworker) hturned.own rfl rfl
    · next hne =>
      have hpages : ∀ page : Diary, ((s.pages ++ [((⟨w.processor, c.serial, w.partition⟩ : Slot),
          page)]).filter fun x => x.1 = slot) = s.pages.filter fun x => x.1 = slot := by
        intro page
        simp [List.filter_append, Ne.symm hne]
      have hbrings := hturned.brings
      split at hbrings
      · subst hbrings
        exact .stays hw rfl rfl (hpages _)
      · obtain ⟨before, hbefore, hwindow, hactivity⟩ := follows_deliver hbrings.2 hw
        exact .stays hbefore hwindow hactivity (hpages _)
  · exact .stays hw rfl rfl rfl

theorem follows_start (id : ProcessorId)
    (hw : (s.engine.start id).workerAt? slot = some worker') :
    Follows s { s with engine := s.engine.start id } slot worker' := by
  obtain heq | ⟨p, _, hreplaces⟩ := Engine.start_cases s.engine id
  · exact .stays (heq ▸ hw) rfl rfl rfl
  · rw [hreplaces.workerAt?, Processor.start, Option.bind_some] at hw
    split at hw
    · split at hw
      · next hserial =>
        have hnew := List.eq_of_mem_replicate (List.mem_of_getElem? hw)
        exact .new (hnew ▸ rfl) (hnew ▸ rfl) (Nat.le_of_eq hserial) rfl
      · cases hw
    · exact .stays hw rfl rfl rfl

/-- The workers of a processor whose run ends are gone. -/
theorem follows_finish (id : ProcessorId)
    (hw : (s.engine.endStop id).2.workerAt? slot = some worker') :
    Follows s { s with engine := (s.engine.endStop id).2 } slot worker' := by
  obtain heq | ⟨p, hreplaces⟩ := Engine.endStop_cases s.engine id
  · exact .stays (heq ▸ hw) rfl rfl rfl
  · rw [hreplaces.workerAt?, Engine.endStop_eq, Option.bind_none] at hw
    split at hw
    · cases hw
    · exact .stays hw rfl rfl rfl

/-- Where a worker was before a move. -/
theorem Sound.follows_step (h : s.Sound first) (hforward : ∀ id, first.forward? id ≠ some id)
    (m : Move σ) (hw : (s.step m).engine.workerAt? slot = some worker') :
    Follows s (s.step m) slot worker' := by
  have hmoves := moves_step s m
  generalize s.step m = s' at hmoves hw ⊢
  cases hmoves with
  | stays => exact .stays hw rfl rfl rfl
  | submits => exact .stays hw rfl rfl rfl
  | delivers found next taken =>
    rw [deliver_eq found next taken] at hw ⊢
    obtain ⟨before, hbefore, hwindow, hactivity⟩ := follows_deliver taken hw
    exact .stays hbefore hwindow hactivity rfl
  | skips => exact .stays hw rfl rfl rfl
  | turns => exact h.follows_turn hforward _ hw
  | lines => exact .stays hw rfl rfl rfl
  | shares => exact .stays hw rfl rfl rfl
  | starts => exact follows_start _ hw
  | stops => exact .stays (s.engine.workerAt?_beginStop _ slot ▸ hw) rfl rfl rfl
  | finishes => exact follows_finish _ hw

/-! ## What a move leaves -/

/-- Only turns and others change what is shared. -/
theorem shared_step (s : Plant σ) (m : Move σ) :
    ((s.step m).engine.shared = s.engine.shared ∧ (s.step m).pages = s.pages) ∨
    (∃ w slot, s.engine.turn w = some (s.step m).engine ∧ s.engine.slot? w = some slot ∧
      (s.step m).pages = s.pages ++ [(slot, s.engine.page w)]) ∨
    ∃ shared, m = .share shared := by
  have hmoves := moves_step s m
  generalize s.step m = s' at hmoves ⊢
  cases hmoves with
  | delivers found next taken =>
    rw [deliver_eq found next taken]
    obtain ⟨_, _, _, _, _, halike⟩ := Engine.place_of_deliver taken
    exact .inl ⟨halike.shared, rfl⟩
  | turns turned found =>
    rw [turn_eq turned found]
    exact .inr (.inl ⟨_, _, turned, found, rfl⟩)
  | shares shared => exact .inr (.inr ⟨shared, rfl⟩)
  | starts => exact .inl ⟨s.engine.shared_start _, rfl⟩
  | stops => exact .inl ⟨s.engine.shared_beginStop _, rfl⟩
  | finishes => exact .inl ⟨s.engine.shared_endStop _, rfl⟩
  | _ => exact .inl ⟨rfl, rfl⟩

theorem newCall_eq (e : Engine σ) (id : ProcessorId) (events : List Event) :
    (newCall e id events).id = id ∧ (newCall e id events).events = events := by
  rw [newCall]
  split <;> exact ⟨rfl, rfl⟩

theorem skip_eq (call : Call) : call.skip.id = call.id ∧ call.skip.events = call.events := by
  rw [Call.skip]
  split <;> exact ⟨rfl, rfl⟩

/-- A call is new, or it was there before with the same events. -/
theorem calls_step (s : Plant σ) (m : Move σ) : ∀ call ∈ (s.step m).calls,
    m = .submit call.id call.events ∨
      ∃ old ∈ s.calls, old.id = call.id ∧ old.events = call.events := by
  intro call hcall
  have hsame (hold : call ∈ s.calls) :
      ∃ old ∈ s.calls, old.id = call.id ∧ old.events = call.events := ⟨call, hold, rfl, rfl⟩
  have hmoves := moves_step s m
  generalize s.step m = s' at hmoves hcall
  cases hmoves with
  | submits id events =>
    rcases List.mem_append.1 hcall with hcall | hcall
    · exact .inr (hsame hcall)
    · obtain rfl := List.mem_singleton.1 hcall
      obtain ⟨hid, hevents⟩ := newCall_eq s.engine id events
      rw [hid, hevents]
      exact .inl rfl
  | delivers found next taken =>
    rw [deliver_eq found next taken] at hcall
    rcases List.mem_or_eq_of_mem_set hcall with hold | rfl
    · exact .inr (hsame hold)
    · exact .inr ⟨_, List.mem_of_getElem? found, rfl, rfl⟩
  | skips =>
    obtain ⟨j, hj⟩ := List.mem_iff_getElem?.1 hcall
    rw [List.getElem?_modify] at hj
    obtain ⟨old, hold, rfl⟩ := Option.map_eq_some_iff.1 hj
    refine .inr ⟨old, List.mem_of_getElem? hold, ?_⟩
    split
    · exact ⟨(skip_eq old).1.symm, (skip_eq old).2.symm⟩
    · exact ⟨rfl, rfl⟩
  | turns turned found =>
    rw [turn_eq turned found] at hcall
    exact .inr (hsame hcall)
  | _ => exact .inr (hsame hcall)

/-! ## The record of one worker -/

/-- What a worker gave up is in a page. -/
theorem mem_givenUp_diary {y : Entry × Fault} :
    y ∈ (s.diary slot).givenUp ↔ ∃ page, (slot, page) ∈ s.pages ∧ y ∈ page.givenUp := by
  have hfold : ∀ (pages : List Diary) (d : Diary),
      (pages.foldl Diary.add d).givenUp = d.givenUp ++ pages.flatMap Diary.givenUp := by
    intro pages
    induction pages with
    | nil => exact fun d => (List.append_nil _).symm
    | cons page pages ih =>
      intro d
      rw [List.foldl_cons, ih, List.flatMap_cons, ← List.append_assoc]
      rfl
  rw [diary, hfold]
  simp only [List.mem_append, List.not_mem_nil, false_or, List.mem_flatMap, List.mem_map,
    List.mem_filter, decide_eq_true_eq]
  constructor
  · rintro ⟨page, ⟨x, ⟨hx, rfl⟩, rfl⟩, hy⟩
    exact ⟨x.2, hx, hy⟩
  · rintro ⟨page, hpage, hy⟩
    exact ⟨page, ⟨(slot, page), ⟨hpage, rfl⟩, rfl⟩, hy⟩

/-- Serials are never used again. -/
theorem Sound.nextSerial_le (h : s.Sound first) (m : Move σ) :
    s.engine.nextSerial ≤ (s.step m).engine.nextSerial := by
  cases hm : m.isLifecycle with
  | false => exact Nat.le_of_eq (h.frame_step hm).nextSerial.symm
  | true =>
    have hmoves := moves_step s m
    generalize s.step m = s' at hmoves ⊢
    cases hmoves with
    | stays => exact Nat.le_refl _
    | starts =>
      obtain heq | ⟨p, _, hreplaces⟩ := Engine.start_cases s.engine _
      · exact Nat.le_of_eq (congrArg Engine.nextSerial heq).symm
      · exact hreplaces.nextSerial
    | stops =>
      have hserial : ∀ id, (s.engine.beginStop id).nextSerial = s.engine.nextSerial := fun id =>
        Engine.nextSerial_foldl Engine.nextSerial_wakeIfWaiting _ _
      exact Nat.le_of_eq (hserial _).symm
    | finishes =>
      rw [Engine.endStop]
      split <;> exact Nat.le_refl _
    | skips asked =>
      obtain rfl | rfl := asked <;> cases hm
    | _ => cases hm

/-- A move writes a page of a worker at most. -/
theorem pages_step (s : Plant σ) (m : Move σ) : (s.step m).pages = s.pages ∨
    ∃ w slot page, s.engine.slot? w = some slot ∧ (s.step m).pages = s.pages ++ [(slot, page)] := by
  have hmoves := moves_step s m
  generalize s.step m = s' at hmoves ⊢
  cases hmoves with
  | delivers found next taken =>
    rw [deliver_eq found next taken]
    exact .inl rfl
  | turns turned found =>
    rw [turn_eq turned found]
    exact .inr ⟨_, _, _, found, rfl⟩
  | _ => exact .inl rfl

end Plant

end StatRollup
