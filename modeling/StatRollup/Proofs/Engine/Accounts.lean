import StatRollup.Proofs.Engine.Conservation
import StatRollup.Proofs.Engine.Lifecycle

/-!
# The books of a plant

`Plant.Sound` says that the books of a plant are in order: every worker has its account, every
call its events in hand, handed back or taken by mailboxes, and what mailboxes took was for them.
Each move keeps the books in order (`Plant.step_sound`), and so does every run
(`Plant.run_sound`), from processors that nobody has started (`Plant.sound_of_fresh`).

Starting and stopping is where workers come and go.  A processor that is started has no crew yet,
because a crew that takes messages makes it run (`Engine.Orderly`), and a crew that goes is over,
so that no account is lost with it.  A turn is looked at in two steps: first the group that it
brings to another worker is there (`Plant.Midway`), then the worker itself goes on.  These are two
workers, because no processor hands entries on to itself.
-/

namespace StatRollup

variable {σ : Type} [Uid.Store σ]

/-- A call has its events in hand, or has handed them back, or mailboxes took them; and what it has
in hand is split by partition. -/
structure Call.Fits (first : Engine σ) (taken : List Event) (call : Call) : Prop where
  events : (call.back ++ call.parts.flatMap Prod.snd ++ taken).Perm call.events
  parts : ∀ part ∈ call.parts, ∃ q, first.partitioner? call.id = some q ∧
    ∀ event ∈ part.2, q.partitionOfEvent event = part.1

/-- A message is for the processor that its sender brings messages to, and in the mailbox of the
partition of all that it holds. -/
def Arrival.Fits (first : Engine σ) (calls : List Call) (a : Arrival) : Prop :=
  match a.sender with
  | .call i => ∃ call events q, calls[i]? = some call ∧ a.message = .events events ∧
      a.slot.processor = call.id ∧ a.slot.serial = call.serial ∧
      first.partitioner? call.id = some q ∧
      ∀ event ∈ events, q.partitionOfEvent event = a.slot.partition
  | .worker slot => ∃ group q, a.message = .rollups group ∧
      first.forward? slot.processor = some a.slot.processor ∧
      first.partitioner? a.slot.processor = some q ∧
      ∀ x ∈ group, q.partitionOf x.1.statistic.toBytes = a.slot.partition

section

variable {first : Engine σ}

theorem Call.Fits.skip {call : Call} {taken : List Event} (h : call.Fits first taken) :
    call.skip.Fits first taken := by
  rw [Call.skip]
  split
  · exact h
  · next partition events parts hparts =>
    have hevents := h.events
    have hrest := h.parts
    rw [hparts] at hevents hrest
    refine ⟨?_, fun part hpart => hrest part (List.mem_cons_of_mem _ hpart)⟩
    simpa only [List.flatMap_cons, List.append_assoc] using hevents

/-- Calls stay the calls of their processors and crews. -/
theorem Arrival.Fits.mono {a : Arrival} {calls calls' : List Call} (h : a.Fits first calls)
    (hcalls : ∀ (i : Nat) (call : Call), calls[i]? = some call → ∃ call' : Call,
      calls'[i]? = some call' ∧ call'.id = call.id ∧ call'.serial = call.serial) :
    a.Fits first calls' := by
  rw [Arrival.Fits] at h ⊢
  split at h
  · next i hsender =>
    obtain ⟨call, events, q, hcall, hmessage, hid, hserial, hq, hall⟩ := h
    obtain ⟨call', hcall', hid', hserial'⟩ := hcalls i call hcall
    exact ⟨call', events, q, hcall', hmessage, hid.trans hid'.symm, hserial.trans hserial'.symm,
      hid' ▸ hq, hall⟩
  · exact h

end

namespace Plant

variable {first e : Engine σ} {s : Plant σ} {slot : Slot}

/-- A plant whose books are in order. -/
structure Sound (first : Engine σ) (s : Plant σ) : Prop where
  /-- Processors start and stop in order. -/
  engine : first.Orderly s.engine
  /-- Runs that are still to come have no record. -/
  unused (slot : Slot) : s.engine.nextSerial ≤ slot.serial → (s.diary slot).crashes = 0
  /-- What a worker got is what it did and what it has in hand. -/
  account (slot : Slot) : Account (first.forward? slot.processor) (s.arrived slot) (s.sent slot)
    (s.diary slot) (s.engine.workerAt? slot)
  /-- What a worker hands on is for the partitions of the statistics. -/
  grouped {slot : Slot} {w : Worker} {j : ProcessorId} {q : Partitioner} :
    s.engine.workerAt? slot = some w → first.forward? slot.processor = some j →
      first.partitioner? j = some q → w.activity.Grouped q
  /-- Calls have the events that are neither handed back nor taken. -/
  calls {i : Nat} {call : Call} : s.calls[i]? = some call → call.Fits first (s.taken i)
  /-- Mailboxes took what was for them. -/
  arrivals : ∀ a ∈ s.arrivals, a.Fits first s.calls

/-! ## Moves of processors -/

/-- Workers of other processors go on, and those that come or go have nothing in hand. -/
theorem Sound.of_engine (h : s.Sound first) (ho : first.Orderly e)
    (hserial : s.engine.nextSerial ≤ e.nextSerial)
    (haccount : ∀ slot, e.workerAt? slot = s.engine.workerAt? slot ∨
      Account (first.forward? slot.processor) (s.arrived slot) (s.sent slot) (s.diary slot)
        (e.workerAt? slot) ∧ ∀ w, e.workerAt? slot = some w → w.activity = .waiting) :
    ({ s with engine := e } : Plant σ).Sound first where
  engine := ho
  unused slot hslot := h.unused slot (Nat.le_trans hserial hslot)
  account slot := by
    obtain hsame | ⟨hnew, _⟩ := haccount slot
    · show Account _ (s.arrived slot) (s.sent slot) (s.diary slot) (e.workerAt? slot)
      exact hsame ▸ h.account slot
    · exact hnew
  grouped {slot w j q} hw hj hq := by
    obtain hsame | ⟨_, hwaiting⟩ := haccount slot
    · exact h.grouped (hsame ▸ hw) hj hq
    · rw [hwaiting w hw]
      trivial
  calls := h.calls
  arrivals := h.arrivals

theorem start_sound (h : s.Sound first) (id : ProcessorId) (hgo : s.isStopping id = false) :
    ({ s with engine := s.engine.start id } : Plant σ).Sound first := by
  obtain heq | ⟨p, hstate, hr⟩ := Engine.start_cases s.engine id
  · rw [heq]
    exact h
  · -- A crew would take messages, and so the processor would run.
    have hnone : p.crew = none := by
      cases hc : p.crew with
      | none => rfl
      | some c =>
        rw [isStopping, (Engine.crew?_eq hr.found).trans hc] at hgo
        exact absurd (h.engine.running hr.found hc hgo) hstate
    have ho : first.Orderly (s.engine.start id) := hr.orderly h.engine fun c hc => by
      cases hc
      rw [Engine.nextSerial_start hr.found hstate]
      exact ⟨Nat.lt_succ_self _, fun _ => rfl⟩
    refine h.of_engine ho hr.nextSerial fun slot => ?_
    rw [hr.workerAt?]
    split
    · next hid =>
      have hold : s.engine.workerAt? slot = none := by
        rw [Engine.workerAt?, hid, Engine.crew?_eq hr.found, hnone]
        rfl
      have haccount := hold ▸ h.account slot
      rw [Processor.start, Option.bind_some]
      split
      · next hslot =>
        rw [List.getElem?_replicate]
        split
        · refine .inr ⟨haccount.new (h.unused slot (Nat.le_of_eq hslot)) _ _, fun w hw => ?_⟩
          cases hw
          rfl
        · exact .inl hold.symm
      · exact .inl hold.symm
    · exact .inl rfl

theorem stop_sound (h : s.Sound first) (id : ProcessorId) :
    ({ s with engine := s.engine.beginStop id } : Plant σ).Sound first := by
  obtain ⟨halike, hserial⟩ | ⟨p, hr⟩ := Engine.beginStop_cases s.engine id
  · have ho := h.engine.frame (Engine.frame_of_alike halike hserial)
      (halike.shared ▸ h.engine.arranged)
    exact h.of_engine ho (Nat.le_of_eq hserial.symm) fun slot =>
      .inl (Engine.workerAt?_beginStop id slot)
  · have ho : first.Orderly (s.engine.beginStop id) := hr.orderly h.engine fun c hc => by
      rw [Engine.beginStop_eq] at hc
      obtain ⟨c', hc', rfl⟩ := Option.map_eq_some_iff.1 hc
      have hserial := h.engine.serial ((Engine.crew?_eq hr.found).trans hc')
      exact ⟨Nat.lt_of_lt_of_le hserial hr.nextSerial, fun hgo => absurd hgo (by simp)⟩
    exact h.of_engine ho hr.nextSerial fun slot => .inl (Engine.workerAt?_beginStop id slot)

theorem finish_sound (h : s.Sound first) (id : ProcessorId) (hdone : s.engine.isDone id = true) :
    ({ s with engine := (s.engine.endStop id).2 } : Plant σ).Sound first := by
  obtain heq | ⟨p, hr⟩ := Engine.endStop_cases s.engine id
  · rw [heq]
    exact h
  · have hnone : p.endStop.2.crew = none := by rw [Engine.endStop_eq]
    have ho : first.Orderly (s.engine.endStop id).2 := hr.orderly h.engine fun c hc =>
      absurd (hnone.symm.trans hc) (by simp)
    refine h.of_engine ho hr.nextSerial fun slot => ?_
    rw [hr.workerAt?]
    split
    · next hid =>
      rw [hnone, Option.bind_none]
      refine .inr ⟨?_, fun w hw => absurd hw.symm (Option.some_ne_none w)⟩
      have haccount := h.account slot
      cases hw : s.engine.workerAt? slot with
      | none => exact hw ▸ haccount
      | some w =>
        rw [hw] at haccount
        refine haccount.gone ?_
        -- The worker is one of the crew, which is over.
        rw [Engine.workerAt?, hid, Engine.crew?_eq hr.found] at hw
        obtain ⟨c, hc, hw⟩ := Option.bind_eq_some_iff.1 hw
        rw [Engine.isDone, hr.found] at hdone
        simp only [Processor.isDone, hc, Crew.isOver, List.all_eq_true] at hdone
        split at hw
        · exact hdone w (List.mem_of_getElem? hw)
        · cases hw
    · exact .inl rfl

/-! ## Moves of calls -/

variable {s' : Plant σ} {l : List Arrival} {i : Nat} {slot : Slot}

theorem arrived_append (h : s'.arrivals = s.arrivals ++ l) (slot : Slot) :
    s'.arrived slot = s.arrived slot ++ (l.filter fun a => a.slot = slot).map Arrival.message := by
  rw [arrived, arrived, h, List.filter_append, List.map_append]

theorem sent_append (h : s'.arrivals = s.arrivals ++ l) (slot : Slot) :
    s'.sent slot = s.sent slot ++
      (l.filter fun a => a.sender = .worker slot).flatMap fun a => a.message.keyed := by
  rw [sent, sent, h, List.filter_append, List.flatMap_append]

theorem taken_append (h : s'.arrivals = s.arrivals ++ l) (i : Nat) :
    s'.taken i = s.taken i ++
      (l.filter fun a => a.sender = .call i).flatMap fun a => a.message.raw := by
  rw [taken, taken, h, List.filter_append, List.flatMap_append]

theorem diary_append {own : Slot} {page : Diary} (h : s'.pages = s.pages ++ [(own, page)])
    (slot : Slot) :
    s'.diary slot = if slot = own then (s.diary slot).add page else s.diary slot := by
  rw [diary, diary, h, List.filter_append, List.map_append, List.foldl_append]
  by_cases hslot : slot = own
  · simp [hslot]
  · simp [hslot, Ne.symm hslot]

/-- Nothing was taken from a call that is still to come. -/
theorem Sound.taken_of_new (h : s.Sound first) : s.taken s.calls.length = [] := by
  have hnone : (s.arrivals.filter fun a => a.sender = .call s.calls.length) = [] := by
    refine List.filter_eq_nil_iff.2 fun a ha hsender => ?_
    have hfits := h.arrivals a ha
    rw [Arrival.Fits, of_decide_eq_true hsender] at hfits
    obtain ⟨call, _, _, hcall, _⟩ := hfits
    rw [List.getElem?_eq_none (Nat.le_refl _)] at hcall
    cases hcall
  rw [taken, hnone]
  rfl

theorem newCall_fits (h : first.Orderly s.engine) (id : ProcessorId) (events : List Event) :
    (newCall s.engine id events).Fits first [] := by
  rw [newCall]
  split
  · exact ⟨by simp, fun part hpart => absurd hpart List.not_mem_nil⟩
  · next p crew hopen =>
    obtain ⟨p', hp, hfound⟩ := Option.bind_eq_some_iff.1 hopen
    obtain ⟨crew', _, heq⟩ := Option.map_eq_some_iff.1 hfound
    cases heq
    refine ⟨?_, fun part hpart => ⟨p.partitioner, ?_, ?_⟩⟩
    · rw [List.nil_append, List.append_nil]
      exact Partitioner.perm_spread _ _
    · rw [← h.partitioner, Engine.partitioner?, hp]
      rfl
    · exact Partitioner.route_of_mem_spread hpart

theorem submit_sound (h : s.Sound first) (id : ProcessorId) (events : List Event) :
    (s.step (.submit id events)).Sound first where
  engine := h.engine
  unused := h.unused
  account := h.account
  grouped := h.grouped
  calls {i call} hcall := by
    show call.Fits first (s.taken i)
    have hcall' : (s.calls ++ [newCall s.engine id events])[i]? = some call := hcall
    by_cases hi : i < s.calls.length
    · rw [List.getElem?_append_left hi] at hcall'
      exact h.calls hcall'
    · rw [List.getElem?_append_right (Nat.le_of_not_lt hi)] at hcall'
      obtain ⟨hi', rfl⟩ := List.getElem?_eq_some_iff.1 hcall'
      have heq : i = s.calls.length := by
        have hlt : i - s.calls.length < 1 := hi'
        omega
      subst heq
      rw [h.taken_of_new]
      simpa using newCall_fits h.engine id events
  arrivals a ha := (h.arrivals a ha).mono fun i call hcall =>
    ⟨call, by
      show (s.calls ++ _)[i]? = some call
      rw [List.getElem?_append_left (List.getElem?_eq_some_iff.1 hcall).1, hcall], rfl, rfl⟩

/-- A call hands the events of its next partition back. -/
theorem skip_sound (h : s.Sound first) (i : Nat) :
    ({ s with calls := s.calls.modify i Call.skip } : Plant σ).Sound first where
  engine := h.engine
  unused := h.unused
  account := h.account
  grouped := h.grouped
  calls {j call} hcall := by
    have hcall' : (s.calls.modify i Call.skip)[j]? = some call := hcall
    rw [List.getElem?_modify] at hcall'
    obtain ⟨call', hold, rfl⟩ := Option.map_eq_some_iff.1 hcall'
    have hfits : call'.Fits first (s.taken j) := h.calls hold
    show Call.Fits first (s.taken j) _
    split
    · exact hfits.skip
    · exact hfits
  arrivals a ha := (h.arrivals a ha).mono fun j call hcall => by
    show ∃ call' : Call, (s.calls.modify i Call.skip)[j]? = some call' ∧ _
    rw [List.getElem?_modify, hcall]
    refine ⟨_, rfl, ?_⟩
    dsimp only
    split
    · rw [Call.skip]
      split <;> exact ⟨rfl, rfl⟩
    · exact ⟨rfl, rfl⟩

/-! ## Messages -/

section

variable {target : Slot} {m : Message} {e : Engine σ}
  (hd : s.engine.deliver target.processor target.serial target.partition m = .taken e)
include hd

/-- A message that is taken is in the books of the worker in its slot. -/
theorem Sound.account_deliver (h : s.Sound first) (slot : Slot) :
    Account (first.forward? slot.processor)
      (s.arrived slot ++ if target = slot then [m] else []) (s.sent slot) (s.diary slot)
      (e.workerAt? slot) := by
  obtain ⟨worker, hworker, hopen, hall⟩ := Engine.workerAt?_deliver hd
  have haccount := h.account slot
  rw [hall]
  by_cases hslot : target = slot
  · subst hslot
    rw [if_pos rfl, if_pos rfl]
    rw [hworker] at haccount
    exact haccount.push hopen m
  · rw [if_neg hslot, if_neg (Ne.symm hslot), List.append_nil]
    exact haccount

/-- A message changes nothing else about a worker. -/
theorem Sound.grouped_deliver (h : s.Sound first) {slot : Slot} {w : Worker} {j : ProcessorId}
    {q : Partitioner} (hw : e.workerAt? slot = some w) (hj : first.forward? slot.processor = some j)
    (hq : first.partitioner? j = some q) : w.activity.Grouped q := by
  obtain ⟨worker, hworker, _, hall⟩ := Engine.workerAt?_deliver hd
  rw [hall] at hw
  split at hw
  · next hslot =>
    subst hslot
    cases hw
    have hgrouped := h.grouped hworker hj hq
    exact hgrouped
  · exact h.grouped hw hj hq

theorem Sound.orderly_deliver (h : s.Sound first) :
    first.Orderly e ∧ e.nextSerial = s.engine.nextSerial ∧ e.shared = s.engine.shared := by
  have hframe := Engine.frame_deliver hd
  obtain ⟨_, _, _, _, _, halike⟩ := Engine.place_of_deliver hd
  have hshared : e.shared = s.engine.shared := halike.shared
  exact ⟨h.engine.frame hframe (hshared ▸ h.engine.arranged), hframe.nextSerial, hshared⟩

end

theorem deliver_sound (h : s.Sound first) {i partition : Nat} {call : Call} {events : List Event}
    {parts : List (Nat × List Event)} {e : Engine σ} (hcall : s.calls[i]? = some call)
    (hparts : call.parts = (partition, events) :: parts)
    (hd : s.engine.deliver call.id call.serial partition (.events events) = .taken e) :
    (s.deliver i).Sound first := by
  rw [deliver_eq hcall hparts hd]
  let target : Slot := ⟨call.id, call.serial, partition⟩
  have hd' : s.engine.deliver target.processor target.serial target.partition
      (.events events) = .taken e := hd
  obtain ⟨hengine, hserial, _⟩ := h.orderly_deliver hd'
  have hfits : call.Fits first (s.taken i) := h.calls hcall
  have hevents := hfits.events
  have hrest := hfits.parts
  rw [hparts] at hevents hrest
  obtain ⟨⟨q, hq, hroute⟩, hrest⟩ := List.forall_mem_cons.1 hrest
  have hkept : ∀ (j : Nat) (c : Call), s.calls[j]? = some c → ∃ c' : Call,
      (s.calls.set i { call with parts })[j]? = some c' ∧ c'.id = c.id ∧
        c'.serial = c.serial := by
    intro j c hc
    rw [List.getElem?_set]
    split
    · next heq =>
      subst heq
      rw [hcall] at hc
      cases hc
      rw [if_pos (List.getElem?_eq_some_iff.1 hcall).1]
      exact ⟨_, rfl, rfl, rfl⟩
    · exact ⟨c, hc, rfl, rfl⟩
  refine ⟨hengine, fun slot hslot => h.unused slot (hserial ▸ hslot), fun slot => ?_,
    h.grouped_deliver hd', fun {j c} hc => ?_, fun a ha => ?_⟩
  · rw [arrived_append rfl, sent_append rfl]
    show Account _ _ _ (s.diary slot) _
    have haccount := h.account_deliver hd' slot
    by_cases hslot : target = slot
    · subst hslot
      simpa [target] using haccount
    · simpa [target, hslot] using haccount
  · have hc' : (s.calls.set i { call with parts })[j]? = some c := hc
    rw [taken_append rfl]
    rw [List.getElem?_set] at hc'
    split at hc'
    · next heq =>
      subst heq
      rw [if_pos (List.getElem?_eq_some_iff.1 hcall).1] at hc'
      cases hc'
      refine ⟨?_, hrest⟩
      refine List.Perm.trans ?_ hevents
      simp only [decide_true, List.filter_cons_of_pos, List.filter_nil, List.flatMap_cons,
        List.flatMap_nil, List.append_nil, Message.raw, List.append_assoc]
      refine List.Perm.append_left _ ?_
      rw [← List.append_assoc]
      exact List.perm_append_comm
    · next hne =>
      have hfits := h.calls hc'
      simpa [hne] using hfits
  · rcases List.mem_append.1 ha with ha | ha
    · exact (h.arrivals a ha).mono hkept
    · obtain rfl := List.mem_singleton.1 ha
      obtain ⟨c', hc', hid, hserial'⟩ := hkept i call hcall
      exact ⟨c', events, q, hc', rfl, hid.symm, hserial'.symm, hid ▸ hq, hroute⟩

/-! ## Turns -/

section

variable {w : WorkerId} {c : Crew} {worker worker' : Worker} {shared : Shared σ} {e₁ : Engine σ}

/-- A plant in the middle of a turn: what the turn brings to another worker is there, and the worker
itself has not gone on yet. -/
structure Midway (first : Engine σ) (s : Plant σ) (w : WorkerId) (c : Crew) (e₁ : Engine σ) :
    Prop where
  orderly : first.Orderly e₁
  nextSerial : e₁.nextSerial = s.engine.nextSerial
  crew : e₁.crew? w.processor = some c
  account (slot : Slot) : Account (first.forward? slot.processor)
    (s.arrived slot ++ ((s.engine.handover? w).toList.filter fun x => x.1 = slot).map fun x =>
      .rollups x.2) (s.sent slot) (s.diary slot) (e₁.workerAt? slot)
  grouped {slot : Slot} {worker : Worker} {j : ProcessorId} {q : Partitioner} :
    e₁.workerAt? slot = some worker → first.forward? slot.processor = some j →
      first.partitioner? j = some q → worker.activity.Grouped q
  handed : ∀ x ∈ s.engine.handover? w, first.forward? w.processor = some x.1.processor ∧
    ∃ q, first.partitioner? x.1.processor = some q

theorem Sound.midway (h : s.Sound first) (hforward : ∀ id, first.forward? id ≠ some id)
    (hc : s.engine.crew? w.processor = some c)
    (ht : s.engine.Turned w worker worker' shared e₁) : Midway first s w c e₁ := by
  have hbrings := ht.brings
  cases hhandover : s.engine.handover? w with
  | none =>
    rw [hhandover] at hbrings
    subst hbrings
    exact ⟨h.engine, rfl, hc, fun slot => by simpa [hhandover] using h.account slot, h.grouped,
      fun x hx => by rw [hhandover] at hx; cases hx⟩
  | some x =>
    obtain ⟨target, group⟩ := x
    rw [hhandover] at hbrings
    obtain ⟨hnext, hd⟩ := hbrings
    rw [h.engine.forward] at hnext
    obtain ⟨hengine, hserial, _⟩ := h.orderly_deliver hd
    obtain ⟨c', worker', hc', _, _, halike⟩ := Engine.place_of_deliver hd
    have hne : w.processor ≠ target.processor := fun heq =>
      hforward target.processor (heq ▸ hnext)
    refine ⟨hengine, hserial, ?_, fun slot => ?_, h.grouped_deliver hd, fun x hx => ?_⟩
    · rw [halike.crew?, Engine.crew?_place, if_neg hne, hc]
    · have haccount := h.account_deliver hd slot
      by_cases hslot : target = slot
      · subst hslot
        simpa [hhandover] using haccount
      · simpa [hhandover, hslot] using haccount
    · rw [hhandover] at hx
      cases hx
      refine ⟨hnext, ?_⟩
      obtain ⟨p, hp, _⟩ := Option.bind_eq_some_iff.1 hc'
      exact ⟨p.partitioner, by rw [← h.engine.partitioner, Engine.partitioner?, hp]; rfl⟩

/-- What a turn of a worker does in a plant whose books are in order. -/
theorem Sound.turned {e : Engine σ} (h : s.Sound first) (hturn : s.engine.turn w = some e) :
    ∃ c worker, s.engine.crew? w.processor = some c ∧ c.workers[w.partition]? = some worker ∧
      worker.activity ≠ .died ∧ ∃ worker' counted shared e₁,
        e = e₁.place w counted worker' shared ∧ s.engine.Turned w worker worker' shared e₁ :=
  Engine.turned_of_turn h.engine.arranged (fun c _ hc hw =>
    (h.account ⟨w.processor, c.serial, w.partition⟩).tidy
      ((Engine.workerAt?_of_crew? hc).trans hw)) hturn

/-- A turn leaves processors, states and crews. -/
theorem Sound.frame_turn {e : Engine σ} (h : s.Sound first) (hturn : s.engine.turn w = some e) :
    s.engine.Frame e := by
  obtain ⟨c, worker, _, _, _, worker', counted, shared, e₁, rfl, hturned⟩ := h.turned hturn
  have hbrings := hturned.brings
  split at hbrings
  · subst hbrings
    exact Engine.frame_place
  · exact (Engine.frame_deliver hbrings.2).trans Engine.frame_place

/-- What a worker brings to another one, for the record. -/
def mailOf (own : Slot) (handover : Option (Slot × List Entry)) : List Arrival :=
  handover.toList.map fun x => { sender := .worker own, slot := x.1, message := .rollups x.2 }

section

variable (own slot : Slot) (handover : Option (Slot × List Entry))

theorem arrived_mailOf : ((mailOf own handover).filter fun a => a.slot = slot).map Arrival.message =
    (handover.toList.filter fun x => x.1 = slot).map fun x => .rollups x.2 := by
  rw [mailOf, List.filter_map, List.map_map]
  rfl

theorem sent_mailOf : ((mailOf own handover).filter fun a => a.sender = .worker slot).flatMap
    (fun a => a.message.keyed) = if slot = own then handover.toList.flatMap Prod.snd else [] := by
  cases handover with
  | none => simp [mailOf]
  | some x =>
    by_cases hslot : slot = own
    · simp [mailOf, hslot, Message.keyed]
    · simp [mailOf, hslot, Ne.symm hslot]

theorem taken_mailOf (i : Nat) : ((mailOf own handover).filter fun a => a.sender = .call i).flatMap
    (fun a => a.message.raw) = [] := by
  cases handover <;> simp [mailOf]

end

theorem turn_sound (h : s.Sound first) (hforward : ∀ id, first.forward? id ≠ some id)
    (w : WorkerId) : (s.turn w).Sound first := by
  rw [turn]
  split
  · next e own hturn hslot =>
    obtain ⟨c, hc, rfl⟩ := Option.map_eq_some_iff.1 hslot
    obtain ⟨c', worker, hc', hworker, hlives, worker', counted, shared, e₁, rfl, hturned⟩ :=
      h.turned hturn
    rw [hc] at hc'
    cases hc'
    let own : Slot := ⟨w.processor, c.serial, w.partition⟩
    let mail : List Arrival := mailOf own (s.engine.handover? w)
    have hmid := h.midway hforward hc hturned
    have hold : s.engine.workerAt? own = some worker :=
      (Engine.workerAt?_of_crew? hc).trans hworker
    have hgroups : ∀ j q, first.forward? w.processor = some j → first.partitioner? j = some q →
        worker'.activity.Grouped q ∧ ∀ x ∈ s.engine.handover? w, ∀ y ∈ x.2,
          q.partitionOf y.1.statistic.toBytes = x.1.partition := fun j q hj hq =>
      hturned.grouped ((h.engine.forward _).trans hj) ((h.engine.partitioner j).trans hq)
        (h.grouped hold hj hq)
    have hplace : ∀ slot, (e₁.place w counted worker' shared).workerAt? slot =
        if slot = own then some worker' else e₁.workerAt? slot := fun slot =>
      Engine.workerAt?_place hmid.crew hworker
    refine ⟨hmid.orderly.frame Engine.frame_place ?_, fun slot hslot => ?_, fun slot => ?_,
      fun {slot x j q} hx hj hq => ?_, fun {i call} hcall => ?_, fun a ha => ?_⟩
    · exact hturned.arrange ▸ h.engine.arranged
    · have hne : slot ≠ own := fun heq => by
        have hlt : c.serial < s.engine.nextSerial := h.engine.serial hc
        have hle : e₁.nextSerial ≤ slot.serial := hslot
        rw [hmid.nextSerial, heq] at hle
        exact absurd hlt (Nat.not_lt.2 hle)
      rw [diary_append rfl, if_neg hne]
      exact h.unused slot (hmid.nextSerial ▸ hslot)
    · rw [arrived_append rfl, sent_append rfl, diary_append rfl]
      show Account _ (_ ++ (mail.filter _).map _) (_ ++ (mail.filter _).flatMap _) _
        ((e₁.place w counted worker' shared).workerAt? slot)
      rw [hplace, arrived_mailOf, sent_mailOf]
      have haccount := hmid.account slot
      by_cases heq : slot = own
      · subst heq
        rw [if_pos rfl, if_pos rfl, if_pos rfl]
        have hkeeps := hturned.keeps
        rw [h.engine.forward] at hkeeps
        rw [show e₁.workerAt? own = some worker from
          (Engine.workerAt?_of_crew? hmid.crew).trans hworker] at haccount
        exact haccount.keeps hlives hkeeps
      · rw [if_neg heq, if_neg heq, if_neg heq, List.append_nil]
        exact haccount
    · have hx' : (e₁.place w counted worker' shared).workerAt? slot = some x := hx
      rw [hplace] at hx'
      split at hx'
      · next heq =>
        subst heq
        cases hx'
        exact (hgroups j q hj hq).1
      · exact hmid.grouped hx' hj hq
    · rw [taken_append rfl]
      show Call.Fits first (_ ++ (mail.filter _).flatMap _) call
      rw [taken_mailOf, List.append_nil]
      exact h.calls hcall
    · rcases List.mem_append.1 ha with ha | ha
      · exact h.arrivals a ha
      · obtain ⟨x, hx, rfl⟩ := List.mem_map.1 ha
        have hx := Option.mem_toList.1 hx
        obtain ⟨hnext, q, hq⟩ := hmid.handed x hx
        exact ⟨x.2, q, rfl, hnext, hq, (hgroups _ q hnext hq).2 x hx⟩
  · exact h

end

/-! ## Runs -/

theorem step_sound (h : s.Sound first) (hforward : ∀ id, first.forward? id ≠ some id) (m : Move σ) :
    (s.step m).Sound first := by
  have hmoves := moves_step s m
  generalize s.step m = s' at hmoves ⊢
  cases hmoves with
  | stays => exact h
  | submits id events => exact submit_sound h id events
  | delivers found next taken => exact deliver_sound h found next taken
  | skips => exact skip_sound h _
  | turns => exact turn_sound h hforward _
  | lines =>
    exact h.of_engine (h.engine.frame ⟨fun _ => rfl, fun _ => rfl, rfl, rfl⟩ h.engine.arranged)
      (Nat.le_refl _) fun _ => .inl rfl
  | shares shared =>
    exact h.of_engine (h.engine.frame ⟨fun _ => rfl, fun _ => rfl, rfl, rfl⟩ shared.2)
      (Nat.le_refl _) fun _ => .inl rfl
  | starts free => exact start_sound h _ free
  | stops => exact stop_sound h _
  | finishes _ done => exact finish_sound h _ done

theorem run_sound (h : s.Sound first) (hforward : ∀ id, first.forward? id ≠ some id)
    (moves : List (Move σ)) : (s.run moves).Sound first := by
  induction moves generalizing s with
  | nil => exact h
  | cons m moves ih => exact ih (step_sound h hforward m)

/-! ## Work between starts and stops -/

/-- Calls, workers and the clock start and stop nothing. -/
theorem Sound.frame_step (h : s.Sound first) {m : Move σ} (hm : m.isLifecycle = false) :
    s.engine.Frame (s.step m).engine := by
  have hmoves := moves_step s m
  generalize s.step m = s' at hmoves ⊢
  cases hmoves with
  | stays => exact .refl _
  | submits => exact .refl _
  | delivers found next taken =>
    rw [deliver_eq found next taken]
    exact Engine.frame_deliver taken
  | skips => exact .refl _
  | turns turned found =>
    rw [turn_eq turned found]
    exact h.frame_turn turned
  | lines => exact ⟨fun _ => rfl, fun _ => rfl, rfl, rfl⟩
  | shares => exact ⟨fun _ => rfl, fun _ => rfl, rfl, rfl⟩
  | starts => cases hm
  | stops => cases hm
  | finishes => cases hm

theorem Sound.frame_run (h : s.Sound first) (hforward : ∀ id, first.forward? id ≠ some id)
    {moves : List (Move σ)} (hmoves : ∀ m ∈ moves, m.isLifecycle = false) :
    s.engine.Frame (s.run moves).engine := by
  induction moves generalizing s with
  | nil => exact .refl _
  | cons m moves ih =>
    obtain ⟨hm, hmoves⟩ := List.forall_mem_cons.1 hmoves
    exact (h.frame_step hm).trans (ih (step_sound h hforward m) hmoves)

end Plant

/-- Processors that nobody has started: none has workers, none hands on to itself, and entries leave
windows in some order. -/
structure Engine.Fresh (e : Engine σ) : Prop where
  idle (id : ProcessorId) : e.crew? id = none
  forward (id : ProcessorId) : e.forward? id ≠ some id
  arranged (entries : List Entry) : (e.shared.arrange entries).Perm entries

theorem Engine.fresh_of_processors {e : Engine σ} (hcrew : ∀ p ∈ e.processors, p.crew = none)
    (hforward : ∀ p ∈ e.processors, p.forward ≠ some p.id)
    (harranged : ∀ entries, (e.shared.arrange entries).Perm entries) : e.Fresh where
  idle id := by
    rw [crew?]
    cases hp : e.processor? id with
    | none => rfl
    | some p => exact hcrew p (mem_of_processor? hp)
  forward id := by
    rw [forward?]
    cases hp : e.processor? id with
    | none => exact fun hself => absurd hself.symm (Option.some_ne_none id)
    | some p => exact id_of_processor? hp ▸ hforward p (mem_of_processor? hp)
  arranged := harranged

/-- Nobody has started a new pipeline. -/
theorem Engine.fresh_pipeline {settings : Settings} {shared : Shared σ} {e : Engine σ}
    (h : pipeline settings shared = .ok e)
    (harranged : ∀ entries, (shared.arrange entries).Perm entries) : e.Fresh := by
  have heq := eq_of_pipeline h
  subst heq
  refine fresh_of_processors (fun p hp => ?_) (fun p hp => ?_) harranged
  · obtain ⟨id, _, rfl⟩ := List.mem_map.1 hp
    rfl
  · obtain ⟨id, _, rfl⟩ := List.mem_map.1 hp
    exact fun hself => coarser?_ne hself rfl

/-- The books of a run from the beginning are in order. -/
theorem Plant.sound_of_fresh {e : Engine σ} (h : e.Fresh) (moves : List (Move σ)) :
    (Plant.run { engine := e } moves).Sound e := by
  have hstart : Plant.Sound e { engine := e } := by
    refine ⟨⟨fun _ => rfl, fun _ => rfl, h.arranged, fun hp hc _ => ?_, fun hc => ?_⟩,
      fun _ _ => rfl, fun slot => ?_, fun hw => ?_, fun hcall => ?_,
      fun a ha => absurd ha List.not_mem_nil⟩
    · rw [← Engine.crew?_eq hp, h.idle] at hc
      cases hc
    · rw [h.idle] at hc
      cases hc
    · have hnone : e.workerAt? slot = none := by rw [Engine.workerAt?, h.idle]; rfl
      show Account _ _ _ _ (e.workerAt? slot)
      rw [hnone]
      exact .empty
    · rename_i slot _ _ _
      have hnone : e.workerAt? slot = none := by rw [Engine.workerAt?, h.idle]; rfl
      rw [show ({ engine := e } : Plant σ).engine.workerAt? slot = none from hnone] at hw
      cases hw
    · cases hcall
  exact Plant.run_sound hstart h.forward moves

/-! ## Orders -/

namespace Orders

/-- Orders per second. -/
def statistic : Statistic := { name := "orders", kind := .count, precision := .second }

/-- One partition per processor, and a flush after every entry. -/
def settings : Settings :=
  { uidWidth := 1, dictionaryCacheCapacity := 1, partitions := 1, minFlushBatchSize := 1 }

/-- One definition, and a store with some outages. -/
def sharedWith (outages : List Cells.Outage) : Shared :=
  let shared :=
    Engine.sharedOf settings ⟨Registry.empty.byName.insert statistic.name statistic⟩ 0 8 0
  { shared with store := { shared.store with outages } }

/-- A pipeline that was not started. -/
def engineWith (outages : List Cells.Outage) : Engine :=
  { shared := sharedWith outages
    processors := ProcessorId.all.map fun id => { id, settings, forward := id.coarser? } }

theorem fresh (outages : List Cells.Outage) : (engineWith outages).Fresh := by
  have hnew : Engine.pipeline settings (sharedWith outages) = .ok (engineWith outages) := rfl
  exact Engine.fresh_pipeline hnew fun _ => .refl _

/-- An order. -/
def order (time : Timestamp) : Event := { name := "orders", timestamp := time, reading := .count 1 }

/-- The processor of orders by second. -/
def bySecond : ProcessorId := ⟨.count, .second⟩

/-- The processor of orders by minute. -/
def byMinute : ProcessorId := ⟨.count, .minute⟩

/-- The only worker that counts by second. -/
def worker : WorkerId := ⟨bySecond, 0⟩

/-- The same worker, when its processor is the first one to be started. -/
def slot : Slot := ⟨bySecond, 0, 0⟩

/-- The only worker that counts by minute, when its processor is the second one to be started. -/
def slotByMinute : Slot := ⟨byMinute, 1, 0⟩

open Plant.Move

/-- Only the processor of orders by second is started and stopped, with four orders: before the
start, before the stop, when the stop is under way and the mailbox is still open, and when it is
closed. -/
def moves : List Plant.Move :=
  [submit bySecond [order 0], start bySecond, submit bySecond [order 1000],
    submit bySecond [order 2000], submit bySecond [order 3000], deliver 1, stop bySecond,
    deliver 2, turn worker, deliver 3] ++ List.replicate 5 (turn worker) ++ [finish bySecond]

/-- Both processors of a second and of a minute are started, and an order is counted. -/
def relayMoves : List Plant.Move :=
  [start bySecond, start byMinute, submit bySecond [order 0], deliver 0] ++
    List.replicate 4 (turn worker)

/-- Two orders, and a stop when the worker has tried to write the first one. -/
def crashMoves : List Plant.Move :=
  [start bySecond, submit bySecond [order 0], submit bySecond [order 1000], deliver 0, deliver 1,
    turn worker, stop bySecond]

end Orders

end StatRollup
