import StatRollup.Proofs.Engine.Relay

/-!
# Starting and stopping

A processor is started when the next coarser one takes messages already, and it is told to stop when
the next finer one has no workers any more.  Under these conditions an engine stays sound
(`Sound.modify`), and neither step changes a count: workers that start have nothing yet, and
workers that are over have nothing left.

The order of all processors meets both conditions, from its last one to its first and the other way
round (`mem_of_split`, `mem_of_split_reverse`).
-/

namespace StatRollup

namespace ProcessorId

variable {id j : ProcessorId} {before after : List ProcessorId}

theorem mem_all (id : ProcessorId) : id ∈ all := by
  obtain ⟨kind, interval⟩ := id
  cases kind <;> cases interval <;> decide

theorem pairwise_all : all.Pairwise fun a b => b.coarser? ≠ some a := by decide

/-- In the order of all processors a finer one is before a coarser one. -/
theorem mem_of_split (h : all = before ++ id :: after) (hj : j.coarser? = some id) :
    j ∈ before := by
  have hpairs := h ▸ pairwise_all
  have hmem := h ▸ mem_all j
  rcases List.mem_append.1 hmem with hmem | hmem
  · exact hmem
  · rcases List.mem_cons.1 hmem with rfl | hmem
    · exact absurd rfl (Engine.coarser?_ne hj)
    · have hafter := (List.pairwise_append.1 hpairs).2.1
      exact absurd hj ((List.pairwise_cons.1 hafter).1 j hmem)

/-- In the reversed order a coarser one is before a finer one. -/
theorem mem_of_split_reverse (h : all.reverse = before ++ id :: after)
    (hj : id.coarser? = some j) : j ∈ before := by
  have hpairs := h ▸ List.pairwise_reverse.2 pairwise_all
  have hmem := h ▸ List.mem_reverse.2 (mem_all j)
  rcases List.mem_append.1 hmem with hmem | hmem
  · exact hmem
  · rcases List.mem_cons.1 hmem with rfl | hmem
    · exact absurd rfl (Engine.coarser?_ne hj)
    · have hafter := (List.pairwise_append.1 hpairs).2.1
      exact absurd hj ((List.pairwise_cons.1 hafter).1 j hmem)

theorem ne_of_mem_before (h : all = before ++ id :: after) (hj : j ∈ before) : j ≠ id :=
  (List.nodup_append.1 (h ▸ Engine.ids_nodup)).2.2 j hj id List.mem_cons_self

end ProcessorId

namespace Engine

variable {settings : Settings} {names : List String} {e e' : Engine} {id j : ProcessorId}
  {p : Processor} {f : Processor → Processor}

theorem Sound.processor (h : e.Sound settings names) (id : ProcessorId) :
    ∃ p, e.processor? id = some p := by
  have hmem : id ∈ e.processors.map Processor.id := h.ids ▸ ProcessorId.mem_all id
  obtain ⟨p, hp, rfl⟩ := List.mem_map.1 hmem
  exact ⟨p, processor?_of_mem h.nodup hp⟩

/-- A sound engine stays sound with other workers of a processor that fit between its neighbours. -/
theorem Sound.modify (h : e.Sound settings names) (hf : ∀ p, (f p).id = p.id)
    (hp : e.processor? id = some p) (hposted : (f p).Posted settings)
    (hstaffed : ∀ c, (f p).crew = some c → e.Staffed settings names id c)
    (hbehind : ∀ k c, k.coarser? = some id → e.crew? k = some c →
      ∃ c', (f p).crew = some c' ∧ c'.isStopping = false ∧
        ∀ w ∈ c.workers, w.activity.Reaches c') :
    (e.modify id f).Sound settings names where
  ids := (ids_modify hf).trans h.ids
  posted hq := by
    rw [processor?_modify hf] at hq
    split at hq
    · rw [hp] at hq
      cases hq
      exact hposted
    · exact h.posted hq
  shared := h.shared
  staffed {k c} hc := by
    rw [crew?_modify hf, hp] at hc
    split at hc
    · next heq =>
      subst heq
      have hs := hstaffed c hc
      refine ⟨hs.fits, hs.size, hs.opened, fun hj => ?_⟩
      obtain ⟨c', hc', hrest⟩ := hs.relay hj
      exact ⟨c', by rw [crew?_modify hf, if_neg (coarser?_ne hj).symm, hc'], hrest⟩
    · have hs := h.staffed hc
      refine ⟨hs.fits, hs.size, hs.opened, fun {j} hj => ?_⟩
      rw [crew?_modify hf, hp]
      split
      · next heq =>
        subst heq
        exact hbehind k c hj hc
      · exact hs.relay hj

/-- Other workers of a processor that contribute as much. -/
theorem modify_changes (h : e.Sound settings names) (hf : ∀ p, (f p).id = p.id)
    (hp : e.processor? id = some p) (hsound : (e.modify id f).Sound settings names)
    (hload : ∀ t : Target, ((f p).workers.map (Worker.load e.shared.tables t)).sum =
      (p.workers.map (Worker.load e.shared.tables t)).sum) :
    Changes settings names id e (e.modify id f) fun _ => 0 := by
  refine ⟨hsound, rfl, fun hne => by rw [crew?_modify hf, if_neg hne], fun t => ?_⟩
  obtain ⟨rest, hold, hnew⟩ :=
    sum_modify h.nodup hp fun p => (p.workers.map (Worker.load e.shared.tables t)).sum
  have htotal : (e.modify id f).total (Worker.load e.shared.tables t) =
      e.total (Worker.load e.shared.tables t) := by
    rw [total, hnew, hload, total, hold]
  exact congrArg (t.held e.shared.tables e.shared.store.cells + ·) htotal

theorem Changes.congr {e'' : Engine} {gain : Target → Nat}
    (h : Changes settings names id e e' gain) (ha : Alike e' e'') :
    Changes settings names id e e'' gain :=
  ⟨h.sound.congr ha, ha.shared.trans h.shared, fun hne => (ha.crew? _).trans (h.others hne),
    fun t => (ha.amount t).trans (h.amount t)⟩

/-! ## Starting -/

/-- A processor that has no workers and whose entries would be taken starts without a change of
counts, and takes messages. -/
theorem start_changes (h : e.Sound settings names)
    (hquiet : e.told? id ≠ some true)
    (hnext : ∀ j, id.coarser? = some j → e.told? j = some false) :
    Changes settings names id e (e.start id) (fun _ => 0) ∧ (e.start id).told? id = some false := by
  obtain ⟨p, hp⟩ := h.processor id
  obtain rfl := id_of_processor? hp
  have hcrew := crew?_eq hp
  have hhealthy := (h.posted hp).healthy
  rw [start, hp]
  dsimp only
  split
  · next hrunning =>
    rw [Processor.isHealthy, hrunning] at hhealthy
    obtain ⟨c, hc⟩ := Option.isSome_iff_exists.1 hhealthy.symm
    obtain ⟨hc, hgo⟩ := Option.filter_eq_some_iff.1 hc
    refine ⟨⟨h, rfl, fun _ => rfl, fun _ => rfl⟩, ?_⟩
    rw [told?, hcrew, hc]
    simpa using hgo
  · next hstopped =>
    -- A crew would take messages, and so the processor would run.
    have hnone : p.crew = none := by
      cases hc : p.crew with
      | none => rfl
      | some c =>
        have hgo : c.isStopping = false := by
          rw [told?, hcrew, hc] at hquiet
          simpa using hquiet
        rw [Processor.openCrew?, hc, Option.filter, hgo] at hhealthy
        exact absurd (by simpa [Processor.isHealthy] using hhealthy) hstopped
    let f : Processor → Processor := fun p => p.start e.nextSerial e.shared.now
    have hf : ∀ p, (f p).id = p.id := fun _ => rfl
    let crew : Crew :=
      { serial := e.nextSerial
        workers := List.replicate p.partitioner.count (.new p.settings e.shared.now) }
    have hnew : ∀ w ∈ crew.workers, w = .new p.settings e.shared.now := fun w hw =>
      (List.mem_replicate.1 hw).2
    have hstaffed : e.Staffed settings names p.id crew := by
      refine ⟨fun w hw => ?_, ?_, fun _ w hw => ?_, fun hj => ?_⟩
      · rw [hnew w hw]
        exact Worker.fits_new _ _
      · rw [← (h.posted hp).settings_eq]
        exact List.length_replicate
      · rw [hnew w hw]
        rfl
      · obtain ⟨c', hc', hgo⟩ := Option.map_eq_some_iff.1 (hnext _ hj)
        refine ⟨c', hc', hgo, fun w hw => ?_⟩
        rw [hnew w hw]
        trivial
    have hsound : (e.modify p.id f).Sound settings names := by
      refine Sound.modify h hf hp ⟨(h.posted hp).settings_eq, (h.posted hp).forward_eq, rfl⟩
        (fun c hc => ?_) fun k c hk hc => ?_
      · cases hc
        exact hstaffed
      · obtain ⟨c', hc', _⟩ := (h.staffed hc).relay hk
        rw [hcrew, hnone] at hc'
        cases hc'
    have hchanges : Changes settings names p.id e (e.modify p.id f) fun _ => 0 := by
      refine modify_changes h hf hp hsound fun t => ?_
      show (crew.workers.map (Worker.load e.shared.tables t)).sum = _
      rw [Processor.workers, hnone]
      refine List.sum_eq_zero fun n hn => ?_
      obtain ⟨w, hw, rfl⟩ := List.mem_map.1 hn
      rw [hnew w hw, Worker.load_new]
    let started : Engine := { e.modify p.id f with nextSerial := e.nextSerial + 1 }
    have hstarted : Alike (e.modify p.id f) started := ⟨rfl, rfl⟩
    have halike := hstarted.trans
      (alike_foldl alike_wake (((started.processor? p.id).map workersOf).getD []) started)
    refine ⟨hchanges.congr halike, ?_⟩
    rw [told?, halike.crew?, crew?_modify hf, if_pos rfl, hp]
    rfl

/-! ## Stopping -/

/-- Telling a processor to stop changes no count. -/
theorem beginStop_changes (h : e.Sound settings names)
    (hbehind : ∀ k, k.coarser? = some id → e.told? k = none) :
    Changes settings names id e (e.beginStop id) fun _ => 0 := by
  obtain ⟨p, hp⟩ := h.processor id
  obtain rfl := id_of_processor? hp
  have hcrew := crew?_eq hp
  have hf : ∀ p : Processor, p.beginStop.id = p.id := by
    intro p
    rw [Processor.beginStop]
    split <;> rfl
  have hsound : (e.modify p.id Processor.beginStop).Sound settings names := by
    refine Sound.modify h hf hp ?_ (fun c hc => ?_) fun k c hk hc => ?_
    · have hposted := h.posted hp
      rw [Processor.beginStop]
      split
      · next hnone => exact ⟨hposted.settings_eq, hposted.forward_eq, by
          rw [Processor.openCrew?, hnone]; rfl⟩
      · exact ⟨hposted.settings_eq, hposted.forward_eq, rfl⟩
    · rw [Processor.beginStop] at hc
      split at hc
      · next hnone =>
        rw [show p.crew = some c from hc] at hnone
        cases hnone
      · next c₀ hc₀ =>
        cases hc
        have hs := h.staffed (hcrew.trans hc₀)
        refine ⟨hs.fits, hs.size, fun hgo => ?_, hs.relay⟩
        cases hgo
    · rw [Option.map_eq_none_iff.1 (hbehind k hk)] at hc
      cases hc
  have hchanges := modify_changes h hf hp hsound fun t => by
    rw [Processor.beginStop, Processor.workers]
    cases hc : p.crew with
    | none => rw [Processor.workers, hc]
    | some c => rw [Processor.workers, hc]; rfl
  exact hchanges.congr (alike_foldl alike_wakeIfWaiting _ _)

/-- Ending the run of a processor whose workers are over changes no count. -/
theorem endStop_changes (h : e.Sound settings names) (hdone : e.isDone id = true)
    (hbehind : ∀ k, k.coarser? = some id → e.told? k = none) :
    Changes settings names id e (e.endStop id).2 (fun _ => 0) ∧
      (e.endStop id).2.told? id = none := by
  obtain ⟨p, hp⟩ := h.processor id
  obtain rfl := id_of_processor? hp
  have hcrew := crew?_eq hp
  let f : Processor → Processor := fun p => p.endStop.2
  have hended : ∀ p : Processor, f p = { p with state := .stopped, crew := none } := by
    intro p
    simp only [f, Processor.endStop]
    split
    · rfl
    · split <;> rfl
  have hf : ∀ p, (f p).id = p.id := fun p => by rw [hended]
  have heq : (e.endStop p.id).2 = e.modify p.id f := by rw [endStop, hp]
  have hsound : (e.modify p.id f).Sound settings names := by
    refine Sound.modify h hf hp ?_ (fun c hc => ?_) fun k c hk hc => ?_
    · rw [hended]
      exact ⟨(h.posted hp).settings_eq, (h.posted hp).forward_eq, rfl⟩
    · rw [hended] at hc
      cases hc
    · rw [Option.map_eq_none_iff.1 (hbehind k hk)] at hc
      cases hc
  have hover : ∀ t : Target, (p.workers.map (Worker.load e.shared.tables t)).sum = 0 := by
    intro t
    rw [Processor.workers]
    cases hc : p.crew with
    | none => rfl
    | some c =>
      rw [isDone, hp] at hdone
      simp only [Processor.isDone, hc, Crew.isOver, List.all_eq_true] at hdone
      refine List.sum_eq_zero fun n hn => ?_
      obtain ⟨w, hw, rfl⟩ := List.mem_map.1 hn
      exact ((h.staffed (hcrew.trans hc)).fits w hw).load_of_isOver (hdone w hw)
  rw [heq]
  refine ⟨modify_changes h hf hp hsound fun t => ?_, ?_⟩
  · rw [hover, hended]
    rfl
  · rw [told?, crew?_modify hf, if_pos rfl, hp, Option.bind_some, hended]
    rfl

theorem Changes.told? {gain : Target → Nat} (h : Changes settings names id e e' gain)
    (hne : j ≠ id) : e'.told? j = e.told? j := by
  rw [Engine.told?, Engine.told?, h.others hne]

/-- One more processor is as others are. -/
theorem Changes.told?_append {gain : Target → Nat} {before : List ProcessorId} {b : Option Bool}
    (h : Changes settings names id e e' gain) (hid : e'.told? id = b)
    (hall : ∀ j ∈ before, e.told? j = b) : ∀ j ∈ before ++ [id], e'.told? j = b := by
  intro j hj
  by_cases hne : j = id
  · exact hne ▸ hid
  · rw [h.told? hne]
    exact hall j ((List.mem_append.1 hj).resolve_right fun hj => hne (List.mem_singleton.1 hj))

/-- Nobody else is told to stop. -/
theorem Changes.of_told? {gain : Target → Nat} (h : Changes settings names id e e' gain)
    (hid : e'.told? id ≠ some true) (ht : e'.told? j = some true) :
    j ≠ id ∧ e.told? j = some true := by
  have hne : j ≠ id := fun heq => hid (heq ▸ ht)
  exact ⟨hne, (h.told? hne).symm.trans ht⟩

end Engine

end StatRollup
