import StatRollup.Engine.Submission

/-!
# While an operation waits

An operation that has to wait lets workers take turns and time pass until it can go on.  `GoesOn`
says that one engine becomes another in this way, step by step, and everything that waits is such
a chain of steps, whatever fuel it has (`goesOn_runUntil`).
-/

namespace StatRollup.Engine

variable {σ : Type} [Uid.Store σ]

/-- Workers take turns and line up in another order, and time passes. -/
inductive GoesOn (e : Engine σ) : Engine σ → Prop where
  /-- Nothing happens. -/
  | refl : GoesOn e e
  /-- Workers line up in another order. -/
  | line {e' : Engine σ} (h : GoesOn e e') (ready parked : List WorkerId) :
    GoesOn e { e' with ready, parked }
  /-- A worker takes its next turn. -/
  | turn {e' e'' : Engine σ} {w : WorkerId} (h : GoesOn e e') (hturn : e'.turn w = some e'') :
    GoesOn e e''
  /-- Time passes. -/
  | pass {e' : Engine σ} (h : GoesOn e e') (time : Nat) : GoesOn e (e'.passTo time)

variable {e e' e'' : Engine σ}

theorem GoesOn.trans (h : GoesOn e e') (h' : GoesOn e' e'') : GoesOn e e'' := by
  induction h' with
  | refl => exact h
  | line _ ready parked ih => exact ih.line ready parked
  | turn _ hturn ih => exact ih.turn hturn
  | pass _ time ih => exact ih.pass time

theorem goesOn_wake (e : Engine σ) (w : WorkerId) : GoesOn e (e.wake w) := by
  rw [wake]
  split
  · exact .refl
  · exact GoesOn.refl.line _ _

theorem goesOn_park (e : Engine σ) (w : WorkerId) : GoesOn e (e.park w) := by
  rw [park]
  split
  · exact GoesOn.refl.line _ _
  · exact .refl

theorem goesOn_tick (h : e.tick = some e') : GoesOn e e' := by
  rw [tick] at h
  split at h
  · obtain ⟨w, _, rfl⟩ := Option.map_eq_some_iff.1 h
    exact goesOn_wake e w
  · next w rest hready =>
    split at h
    · next e₁ hturn =>
      cases h
      exact (GoesOn.refl.turn hturn).line _ _
    · cases h
      exact (GoesOn.refl.line rest e.parked).trans (goesOn_park _ w)

theorem goesOn_run (fuel : Nat) (e : Engine σ) : GoesOn e (run fuel e) := by
  induction fuel generalizing e with
  | zero => exact .refl
  | succ fuel ih =>
    rw [run]
    split
    · next e' htick => exact (goesOn_tick htick).trans (ih e')
    · exact .refl

theorem goesOn_settle (e : Engine σ) : GoesOn e e.settle := goesOn_run _ e

theorem goesOn_runUntil (done : Engine σ → Bool) (fuel : Nat) (e : Engine σ) :
    GoesOn e (runUntil done fuel e) := by
  induction fuel generalizing e with
  | zero => exact .refl
  | succ fuel ih =>
    refine (goesOn_settle e).trans ?_
    rw [runUntil]
    split
    · exact .refl
    · split
      · next time _ => exact (GoesOn.refl.pass time).trans (ih _)
      · exact .refl

theorem goesOn_advance (e : Engine σ) (millis : Nat) : GoesOn e (e.advance millis) := by
  have hrun : ∀ (fuel time : Nat) (e : Engine σ), GoesOn e (runTo time fuel e) := by
    intro fuel
    induction fuel with
    | zero => exact fun time e => GoesOn.refl.pass time
    | succ fuel ih =>
      intro time e
      refine (goesOn_settle e).trans ?_
      rw [runTo]
      split
      · split
        · next next_ _ _ => exact (GoesOn.refl.pass _).trans (ih _ _)
        · exact GoesOn.refl.pass _
      · exact GoesOn.refl.pass _
  exact hrun _ _ _

/-- A message that is sent is delivered after some waiting, or handed back. -/
theorem send_cases (e : Engine σ) (id : ProcessorId) (serial partition : Nat) (message : Message) :
    ∃ e₁, GoesOn e e₁ ∧
      ((∃ e₂, e₁.deliver id serial partition message = .taken e₂ ∧
          e.send id serial partition message = (.ok (), e₂)) ∨
        ∃ f, e.send id serial partition message = (.error f, e₁) ∧
          ∀ e₂, e₁.deliver id serial partition message ≠ .taken e₂) := by
  unfold send
  extract_lets waits e₁
  have hwaited : GoesOn e e₁ := by
    show GoesOn e (if waits e then e.runUntil (fun e => !waits e) e.patience else e)
    split
    · exact goesOn_runUntil _ _ _
    · exact .refl
  refine ⟨e₁, hwaited, ?_⟩
  cases e₁.deliver id serial partition message with
  | taken e₂ => exact .inl ⟨e₂, rfl, rfl⟩
  | waits =>
    refine .inr ⟨_, rfl, ?_⟩
    intro _ h
    cases h
  | refused f =>
    refine .inr ⟨f, rfl, ?_⟩
    intro _ h
    cases h

/-- Stopping a processor is telling it, waiting, and ending its run. -/
theorem stop_eq (e : Engine σ) (id : ProcessorId) :
    ∃ waited, GoesOn (e.beginStop id) waited ∧ e.stop id = waited.endStop id := by
  rw [stop]
  split
  · exact ⟨_, goesOn_runUntil _ _ _, rfl⟩
  · exact ⟨_, .refl, rfl⟩

end StatRollup.Engine
