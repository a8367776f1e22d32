import StatRollup.Proofs.Uid.Desk

/-!
# Tables under racing creators

Creators of names draw numbers, write names and race for mappings, in any order and with any
failures.  Still a name that is mapped stays mapped to the same identifier, no two names share
one, and a mapped identifier has its name.

The invariant is `Orderly`.  It ties every identifier that is not settled yet to the one creator
that drew it: an identifier in hand was issued, no name is mapped to it, and nobody else has it in
hand.  So a creator that takes a name back never takes the name of a mapped identifier.
`Orderly.change` is the step, and `orderly_run` the run.  While no creation has failed, `Settled`
accounts for every entry of the reverse table.

Numbers are 64 bits wide.  Everything here is about runs that do not draw beyond the last of them.
-/

namespace StatRollup.Uid

/-! ## Issued identifiers -/

/-- An identifier that was made of a number drawn before. -/
structure Tables.Issued (t : Tables) (u : Uid) : Prop where
  /-- It has the width of the tables. -/
  width : u.width = t.width
  /-- It is not zero. -/
  pos : 0 < u.value
  /-- It is not beyond the last that may be issued. -/
  le_max : u.value ≤ maxIssuable t.width
  /-- Its number was drawn. -/
  le_sequence : u.value ≤ t.sequence.toNat

/-- What was issued counts as issued when more was. -/
theorem Tables.Issued.mono {t t' : Tables} {u : Uid} (h : t.Issued u) (hw : t'.width = t.width)
    (hs : t.sequence.toNat ≤ t'.sequence.toNat) : t'.Issued u where
  width := h.width.trans hw.symm
  pos := h.pos
  le_max := hw ▸ h.le_max
  le_sequence := Nat.le_trans h.le_sequence hs

theorem Dialogue.candidate_eq_ok {width : Nat} {k : UInt64} {u : Uid}
    (h : candidate width k = .ok u) :
    u.width = width ∧ u.value = k.toNat ∧ k.toNat ≤ maxIssuable width := by
  rw [candidate] at h
  split at h
  · cases h
  · next hmax =>
    rw [ofNat] at h
    split at h
    · split at h
      · next v hv =>
        cases h
        rw [ofNat?] at hv
        split at hv
        · split at hv
          · cases hv
            exact ⟨rfl, rfl, Nat.le_of_not_lt hmax⟩
          · cases hv
        · cases hv
      · cases h
    · cases h

/-- An identifier that may be issued is not the rolled-up one. -/
theorem Tables.Issued.isRolledUp {t : Tables} {u : Uid} (h : t.Issued u) :
    u.isRolledUp = false := by
  have hmax := h.le_max
  rw [← h.width, maxIssuable, allOnes_eq u.width_le] at hmax
  have hpow : 256 ^ 1 ≤ 256 ^ u.width := Nat.pow_le_pow_right (by decide) u.width_pos
  rw [Uid.isRolledUp, beq_eq_false_iff_ne]
  intro heq
  have hvalue : u.value = 256 ^ u.width - 1 := congrArg value heq
  omega

namespace Desk

/-! ## The invariant -/

/-- The tables agree with each other and with what is in hand. -/
structure Orderly (a : Desk) : Prop where
  /-- A mapped identifier has its name. -/
  named {n : String} {u : Uid} : a.tables.idOf? n = some u → a.tables.nameOf? u = some n
  /-- Every identifier with a name was issued. -/
  issued {u : Uid} {n : String} : a.tables.nameOf? u = some n → a.tables.Issued u
  /-- Every identifier in hand was issued. -/
  held_issued {c : Client} {u : Uid} {x : Option String} :
    a.held c = some (u, x) → a.tables.Issued u
  /-- No name is mapped to an identifier in hand. -/
  held_unmapped {c : Client} {u : Uid} {x : Option String} {n : String} :
    a.held c = some (u, x) → a.tables.idOf? n ≠ some u
  /-- A name that a creator has written is there. -/
  held_named {c : Client} {u : Uid} {n : String} :
    a.held c = some (u, some n) → a.tables.nameOf? u = some n
  /-- An identifier is in the hands of one creator. -/
  held_inj {c c' : Client} {u : Uid} {x y : Option String} :
    a.held c = some (u, x) → a.held c' = some (u, y) → c = c'

variable {a b : Desk} {failed : Prop} {c c' : Client} {u v : Uid} {n m : String}
  {x y : Option String}

/-- Two names are never mapped to one identifier. -/
theorem Orderly.idOf?_inj (ha : a.Orderly) (hn : a.tables.idOf? n = some u)
    (hm : a.tables.idOf? m = some u) : n = m := by
  have hname := ha.named hn
  rw [ha.named hm] at hname
  cases hname
  rfl

/-- Tables that agree with each other are orderly while nothing is in hand. -/
theorem orderly_of_idle (hheld : ∀ c, a.held c = none)
    (hnamed : ∀ n u, a.tables.idOf? n = some u → a.tables.nameOf? u = some n)
    (hissued : ∀ u n, a.tables.nameOf? u = some n → a.tables.Issued u) : a.Orderly where
  named h := hnamed _ _ h
  issued h := hissued _ _ h
  held_issued h := by rw [hheld] at h; cases h
  held_unmapped h := by rw [hheld] at h; cases h
  held_named h := by rw [hheld] at h; cases h
  held_inj h := by rw [hheld] at h; cases h

/-! ## Preservation -/

/-- Who has something in hand either just took it up or had it before. -/
theorem held_hold {p : Held} {z : Option Held} (h : (a.hold c z).held c' = some p) :
    c' = c ∧ z = some p ∨ c' ≠ c ∧ a.held c' = some p := by
  by_cases hc : c' = c
  · subst hc
    rw [show (a.hold c' z).held c' = z from Function.update_self ..] at h
    exact .inl ⟨rfl, h⟩
  · rw [show (a.hold c z).held c' = a.held c' from Function.update_of_ne hc ..] at h
    exact .inr ⟨hc, h⟩

/-- The same, of a caller that lets go. -/
theorem held_hold_none {p : Held} (h : (a.hold c none).held c' = some p) :
    c' ≠ c ∧ a.held c' = some p := by
  rcases held_hold h with ⟨_, hz⟩ | hold
  · cases hz
  · exact hold

theorem Orderly.abandon (ha : a.Orderly) : (a.hold c none).Orderly where
  named h := ha.named h
  issued h := ha.issued h
  held_issued h := ha.held_issued (held_hold_none h).2
  held_unmapped h := ha.held_unmapped (held_hold_none h).2
  held_named h := ha.held_named (held_hold_none h).2
  held_inj h h' := ha.held_inj (held_hold_none h).2 (held_hold_none h').2

/-- A creator that has an identifier in hand learns something else about it. -/
theorem Orderly.rehold (ha : a.Orderly) (hc : a.held c = some (u, x))
    (hy : ∀ n, y = some n → a.tables.nameOf? u = some n) : (a.hold c (some (u, y))).Orderly where
  named h := ha.named h
  issued h := ha.issued h
  held_issued h := by
    rcases held_hold h with ⟨rfl, hz⟩ | ⟨_, hold⟩
    · cases hz
      exact ha.held_issued hc
    · exact ha.held_issued hold
  held_unmapped h := by
    rcases held_hold h with ⟨rfl, hz⟩ | ⟨_, hold⟩
    · cases hz
      exact ha.held_unmapped hc
    · exact ha.held_unmapped hold
  held_named h := by
    rcases held_hold h with ⟨rfl, hz⟩ | ⟨_, hold⟩
    · cases hz
      exact hy _ rfl
    · exact ha.held_named hold
  held_inj h h' := by
    rcases held_hold h with ⟨rfl, hz⟩ | ⟨_, hold⟩ <;>
      rcases held_hold h' with ⟨rfl, hz'⟩ | ⟨_, hold'⟩
    · rfl
    · cases hz
      exact ha.held_inj hc hold'
    · cases hz'
      exact ha.held_inj hold hc
    · exact ha.held_inj hold hold'

/-- A name is written for an identifier in hand. -/
theorem Orderly.putName (ha : a.Orderly) (hc : a.held c = some (u, none)) :
    ({ a with tables := a.tables.putName u n } : Desk).Orderly where
  named {m v} h := by
    have huv : u ≠ v := by
      rintro rfl
      exact ha.held_unmapped hc h
    exact (Tables.nameOf?_putName.trans (if_neg huv)).trans (ha.named h)
  issued {v m} h := by
    by_cases huv : u = v
    · subst huv
      exact (ha.held_issued hc).mono rfl (Nat.le_refl _)
    · have hold := (Tables.nameOf?_putName.trans (if_neg huv)).symm.trans h
      exact (ha.issued hold).mono rfl (Nat.le_refl _)
  held_issued h := (ha.held_issued h).mono rfl (Nat.le_refl _)
  held_unmapped h := ha.held_unmapped h
  held_named {c' v m} h := by
    have huv : u ≠ v := by
      rintro rfl
      cases ha.held_inj hc h
      rw [hc] at h
      cases h
    exact (Tables.nameOf?_putName.trans (if_neg huv)).trans (ha.held_named h)
  held_inj h h' := ha.held_inj h h'

/-- The name of an identifier that lost the race is removed. -/
theorem Orderly.dropName (ha : a.Orderly) (hc : a.held c = some (u, none)) :
    ({ a with tables := a.tables.dropName u } : Desk).Orderly where
  named {m v} h := by
    have huv : u ≠ v := by
      rintro rfl
      exact ha.held_unmapped hc h
    exact (Tables.nameOf?_dropName.trans (if_neg huv)).trans (ha.named h)
  issued {v m} h := by
    by_cases huv : u = v
    · rw [show (a.tables.dropName u).nameOf? v = none from
        Tables.nameOf?_dropName.trans (if_pos huv)] at h
      cases h
    · have hold := (Tables.nameOf?_dropName.trans (if_neg huv)).symm.trans h
      exact (ha.issued hold).mono rfl (Nat.le_refl _)
  held_issued h := (ha.held_issued h).mono rfl (Nat.le_refl _)
  held_unmapped h := ha.held_unmapped h
  held_named {c' v m} h := by
    have huv : u ≠ v := by
      rintro rfl
      cases ha.held_inj hc h
      rw [hc] at h
      cases h
    exact (Tables.nameOf?_dropName.trans (if_neg huv)).trans (ha.held_named h)
  held_inj h h' := ha.held_inj h h'

/-- A name is mapped to an identifier that has this name and is not in hand any more. -/
theorem Orderly.mapName (ha : a.Orderly) (hname : a.tables.nameOf? u = some n)
    (hfree : ∀ c x, a.held c ≠ some (u, x)) :
    ({ a with tables := a.tables.mapName n u } : Desk).Orderly where
  named {m v} h := by
    rw [Tables.idOf?_mapName] at h
    split at h
    · next hnew =>
      cases h
      rw [← hnew.1]
      exact hname
    · exact ha.named h
  issued h := (ha.issued h).mono rfl (Nat.le_refl _)
  held_issued h := (ha.held_issued h).mono rfl (Nat.le_refl _)
  held_unmapped {c' v x m} h hm := by
    rw [Tables.idOf?_mapName] at hm
    split at hm
    · cases hm
      exact hfree c' x h
    · exact ha.held_unmapped h hm
  held_named h := ha.held_named h
  held_inj h h' := ha.held_inj h h'

/-- The next number is drawn. -/
theorem Orderly.advance (ha : a.Orderly) (hroom : a.tables.sequence.toNat + 1 < 2 ^ 64) :
    a.advance.Orderly := by
  have hnext : a.tables.sequence.toNat ≤ a.advance.tables.sequence.toNat := by
    show _ ≤ (a.tables.sequence + 1).toNat
    rw [Tables.toNat_sequence_add_one hroom]
    exact Nat.le_add_right _ _
  exact
    { named := fun h => ha.named h
      issued := fun h => (ha.issued h).mono rfl hnext
      held_issued := fun h => (ha.held_issued h).mono rfl hnext
      held_unmapped := fun h => ha.held_unmapped h
      held_named := fun h => ha.held_named h
      held_inj := fun h h' => ha.held_inj h h' }

/-- A creator takes an identifier in hand that has no name and that nobody else has in hand. -/
theorem Orderly.take (ha : a.Orderly) (hissued : a.tables.Issued u)
    (hunnamed : a.tables.nameOf? u = none) (hfree : ∀ c x, a.held c ≠ some (u, x)) :
    (a.hold c (some (u, none))).Orderly where
  named h := ha.named h
  issued h := ha.issued h
  held_issued h := by
    rcases held_hold h with ⟨rfl, hz⟩ | ⟨_, hold⟩
    · cases hz
      exact hissued
    · exact ha.held_issued hold
  held_unmapped {c' v x m} h hm := by
    rcases held_hold h with ⟨rfl, hz⟩ | ⟨_, hold⟩
    · cases hz
      have hname : a.tables.nameOf? u = some m := ha.named hm
      rw [hunnamed] at hname
      cases hname
    · exact ha.held_unmapped hold hm
  held_named h := by
    rcases held_hold h with ⟨rfl, hz⟩ | ⟨_, hold⟩
    · cases hz
    · exact ha.held_named hold
  held_inj h h' := by
    rcases held_hold h with ⟨rfl, hz⟩ | ⟨_, hold⟩ <;>
      rcases held_hold h' with ⟨rfl, hz'⟩ | ⟨_, hold'⟩
    · rfl
    · cases hz
      exact absurd hold' (hfree _ _)
    · cases hz'
      exact absurd hold (hfree _ _)
    · exact ha.held_inj hold hold'

/-- An identifier made of the next number is new. -/
theorem Orderly.draw (ha : a.Orderly) (hroom : a.tables.sequence.toNat + 1 < 2 ^ 64)
    (hu : Dialogue.candidate a.tables.width (a.tables.sequence + 1) = .ok u) :
    (a.advance.hold c (some (u, none))).Orderly := by
  have hnext := Tables.toNat_sequence_add_one hroom
  obtain ⟨hwidth, hvalue, hmax⟩ := Dialogue.candidate_eq_ok hu
  rw [hnext] at hvalue hmax
  have hissued : a.advance.tables.Issued u :=
    ⟨hwidth, by omega, by rw [hvalue]; exact hmax, by rw [hvalue]; exact Nat.le_of_eq hnext.symm⟩
  -- Whatever was issued before has a smaller number.
  have hnew : ¬ a.tables.Issued u := by
    intro hold
    have hle := hold.le_sequence
    omega
  refine (ha.advance hroom).take hissued ?_ fun c x h => hnew (ha.held_issued h)
  cases hname : a.tables.nameOf? u with
  | none => exact hname
  | some n => exact absurd (ha.issued hname) hnew

/-- Every move leaves the tables orderly, unless it draws beyond the last number. -/
theorem Orderly.change (ha : a.Orderly)
    (hroom : b.drawn ≠ a.drawn → a.tables.sequence.toNat + 1 < 2 ^ 64)
    (h : Change failed a b) : b.Orderly := by
  cases h with
  | quiet => exact ha
  | draw c u hc hu => exact ha.draw (hroom (Nat.succ_ne_self _)) hu
  | waste => exact ha.advance (hroom (Nat.succ_ne_self _))
  | inscribe c u n hc =>
    refine (ha.putName hc).rehold hc fun m hm => ?_
    cases hm
    exact Tables.nameOf?_putName.trans (if_pos rfl)
  | win c u n hc hwin =>
    refine ha.abandon.mapName (ha.held_named hc) fun c' x h => ?_
    obtain ⟨hne, hold⟩ := held_hold_none h
    exact hne (ha.held_inj hold hc)
  | lose c u v n hc hmapped hne =>
    exact ha.rehold hc fun m hm => by cases hm
  | retract c u hc => exact (ha.dropName hc).abandon
  | abandon c hfailed => exact ha.abandon

/-- A mapped name keeps its identifier. -/
theorem Change.idOf? (h : Change failed a b) (hn : a.tables.idOf? n = some u) :
    b.tables.idOf? n = some u := by
  cases h with
  | win c v m hc hwin => exact Tables.idOf?_mapName_of_mapped hn
  | quiet | draw | waste | inscribe | lose | retract | abandon => exact hn

theorem Change.width (h : Change failed a b) : b.tables.width = a.tables.width := by
  cases h <;> rfl

/-- The sequence tells how many numbers were drawn. -/
theorem Change.sequence (h : Change failed a b) :
    b.drawn = a.drawn ∧ b.tables.sequence = a.tables.sequence ∨
      b.drawn = a.drawn + 1 ∧ b.tables.sequence = a.tables.sequence + 1 := by
  cases h with
  | draw | waste => exact .inr ⟨rfl, rfl⟩
  | quiet | inscribe | win | lose | retract | abandon => exact .inl ⟨rfl, rfl⟩

/-! ## Entries of the reverse table -/

/-- Some creator has an identifier in hand. -/
def Holds (a : Desk) (u : Uid) : Prop := ∃ c x, a.held c = some (u, x)

theorem holds_hold : (a.hold c (some (u, x))).Holds u := ⟨c, x, Function.update_self ..⟩

/-- An identifier stays in hand when the caller that moves has another one, or none. -/
theorem Holds.hold {z : Option Held} (h : a.Holds v) (hc : ∀ x, a.held c ≠ some (v, x)) :
    (a.hold c z).Holds v := by
  obtain ⟨c', x, hx⟩ := h
  have hne : c' ≠ c := by
    rintro rfl
    exact hc x hx
  exact ⟨c', x, (Function.update_of_ne hne ..).trans hx⟩

/-- A caller has at most one identifier in hand. -/
theorem held_ne (hc : a.held c = some (u, x)) (huv : u ≠ v) (y : Option String) :
    a.held c ≠ some (v, y) := by
  rw [hc]
  intro h
  cases h
  exact huv rfl

/-- Every name that is written belongs to a mapped identifier or to one in hand. -/
def Settled (a : Desk) : Prop :=
  ∀ u n, a.tables.nameOf? u = some n → a.tables.idOf? n = some u ∨ a.Holds u

/-- No move leaves a name behind, unless a creation fails. -/
theorem Settled.change (hset : a.Settled) (ha : a.Orderly) (hno : ¬ failed)
    (h : Change failed a b) : b.Settled := by
  intro v m hv
  cases h with
  | quiet | waste => exact hset v m hv
  | draw c u hc hu =>
    refine (hset v m hv).imp_right fun hheld => Holds.hold (a := a.advance) hheld fun x hx => ?_
    rw [show a.advance.held c = none from hc] at hx
    cases hx
  | inscribe c u n hc =>
    by_cases huv : u = v
    · subst huv
      exact .inr holds_hold
    · have hold := (Tables.nameOf?_putName.trans (if_neg huv)).symm.trans hv
      exact (hset v m hold).imp_right fun hheld =>
        Holds.hold (a := { a with tables := a.tables.putName u n }) hheld (held_ne hc huv)
  | win c u n hc hwin =>
    by_cases huv : u = v
    · subst huv
      have hname : a.tables.nameOf? u = some m := hv
      rw [ha.held_named hc] at hname
      cases hname
      left
      show (a.tables.mapName m u).idOf? m = some u
      rw [Tables.idOf?_mapName]
      cases hn : a.tables.idOf? m with
      | none => rw [if_pos ⟨rfl, rfl⟩]
      | some w => rw [if_neg (by simp), ← hwin, hn, Option.getD_some]
    · rcases hset v m hv with hm | hheld
      · exact .inl (Tables.idOf?_mapName_of_mapped hm)
      · exact .inr (Holds.hold (a := { a with tables := a.tables.mapName n u }) hheld
          (held_ne hc huv))
  | lose c u w n hc hmapped hne =>
    by_cases huv : u = v
    · subst huv
      exact .inr holds_hold
    · exact (hset v m hv).imp_right fun hheld => hheld.hold (held_ne hc huv)
  | retract c u hc =>
    have hname : (a.tables.dropName u).nameOf? v = some m := hv
    rw [Tables.nameOf?_dropName] at hname
    split at hname
    · cases hname
    · next huv =>
      exact (hset v m hname).imp_right fun hheld =>
        Holds.hold (a := { a with tables := a.tables.dropName u }) hheld (held_ne hc huv)
  | abandon c hfailed => exact absurd hfailed hno

end Desk

namespace Commons

variable {policy : Nat → RetryPolicy} {capacity : Nat → Nat} {t : Tables} {s s' : Commons Tables}
  {moves : List Move}

/-! ## Runs -/

/-- A caller is creating a name. -/
def Creating (s : Commons Tables) : Prop :=
  ∃ c, (∃ d : Dialogue .create, s.call c = some (.asking d)) ∨ ∃ n, s.call c = some (.queued n)

/-- Only creators have something in hand. -/
theorem held_of_not_creating (h : ¬ s.Creating) (c : Client) : s.desk.held c = none := by
  cases hcall : s.call c with
  | none => simp [desk, hcall]
  | some call =>
    cases call with
    | queued n => simp [desk, hcall, Call.held?]
    | asking d =>
      rw [desk_held hcall]
      obtain ⟨stage, attempt⟩ := d
      cases stage with
      | inscribe | claim | retract => exact absurd ⟨c, .inl ⟨_, hcall⟩⟩ h
      | _ => rfl

/-- A mapped name keeps its identifier in every run. -/
theorem idOf?_run (h : s.run policy moves = some s') {n : String} {u : Uid}
    (hn : s.store.idOf? n = some u) : s'.store.idOf? n = some u :=
  run_induction (P := fun t => t.store.idOf? n = some u) h hn
    fun _ _ _ hstep ht => (step_change hstep).idOf? ht

theorem width_run (h : s.run policy moves = some s') : s'.store.width = s.store.width :=
  run_induction (P := fun t => t.store.width = s.store.width) h rfl
    fun _ _ _ hstep ht => (step_change hstep).width.trans ht

/-- The sequence went on by the numbers that were drawn. -/
def Counted (t : Tables) (s : Commons Tables) : Prop :=
  s.store.sequence.toNat = t.sequence.toNat + s.drawn

theorem counted_step {m : Move} (hcount : Counted t s)
    (hroom : t.sequence.toNat + s'.drawn < 2 ^ 64) (h : s.step policy m = some s') :
    Counted t s' ∧ (s'.drawn ≠ s.drawn → s.store.sequence.toNat + 1 < 2 ^ 64) := by
  rw [Counted] at hcount
  rcases (step_change h).sequence with ⟨hdrawn, hseq⟩ | ⟨hdrawn, hseq⟩
  · have hdrawn₁ : s'.drawn = s.drawn := hdrawn
    have hseq₁ : s'.store.sequence = s.store.sequence := hseq
    exact ⟨by rw [Counted, hseq₁, hdrawn₁, hcount], fun hne => absurd hdrawn₁ hne⟩
  · have hdrawn₁ : s'.drawn = s.drawn + 1 := hdrawn
    have hseq₁ : s'.store.sequence = s.store.sequence + 1 := hseq
    have hroom₁ : s.store.sequence.toNat + 1 < 2 ^ 64 := by omega
    refine ⟨?_, fun _ => hroom₁⟩
    rw [Counted, hseq₁, hdrawn₁, UInt64.toNat_add, Nat.mod_eq_of_lt (by simpa using hroom₁), hcount]
    rfl

theorem drawn_step {m : Move} (h : s.step policy m = some s') : s.drawn ≤ s'.drawn := by
  rcases (step_change h).sequence with ⟨hdrawn, _⟩ | ⟨hdrawn, _⟩
  · exact Nat.le_of_eq hdrawn.symm
  · exact Nat.le_of_lt (Nat.lt_of_succ_le (Nat.le_of_eq hdrawn.symm))

/-- The tables stay orderly for as long as there are numbers to draw. -/
theorem orderly_run (h : (new t capacity).run policy moves = some s)
    (ht : (new t capacity).desk.Orderly) (hroom : t.sequence.toNat + s.drawn < 2 ^ 64) :
    Counted t s ∧ s.desk.Orderly := by
  let P (s : Commons Tables) : Prop :=
    t.sequence.toNat + s.drawn < 2 ^ 64 → Counted t s ∧ s.desk.Orderly
  refine run_induction (P := P) h (fun _ => ⟨rfl, ht⟩) (fun t₁ m t₂ hstep ih hroom₂ => ?_) hroom
  have hmono := drawn_step hstep
  obtain ⟨hcount, horderly⟩ := ih (by omega)
  obtain ⟨hcount₂, hroom₁⟩ := counted_step hcount hroom₂ hstep
  exact ⟨hcount₂, horderly.change hroom₁ (step_change hstep)⟩

theorem CreationFailed.step {m : Move} (h : s.step policy m = some s') (hf : s.CreationFailed) :
    s'.CreationFailed := by
  obtain ⟨n, f, hmem⟩ := hf
  exact ⟨n, f, reports_step h hmem⟩

/-- As long as no creation has failed, every name that is written is accounted for. -/
theorem settled_run (h : (new t capacity).run policy moves = some s)
    (ht : (new t capacity).desk.Orderly) (hset : (new t capacity).desk.Settled)
    (hroom : t.sequence.toNat + s.drawn < 2 ^ 64) (hno : ¬ s.CreationFailed) :
    s.desk.Settled := by
  induction moves using List.reverseRecOn generalizing s with
  | nil => cases h; exact hset
  | append_singleton ms m ih =>
    obtain ⟨t₁, hrun, hstep⟩ := run_concat h
    have hno₁ : ¬ t₁.CreationFailed := fun hf => hno (hf.step hstep)
    have hroom₁ : t.sequence.toNat + t₁.drawn < 2 ^ 64 :=
      Nat.lt_of_le_of_lt (Nat.add_le_add_left (drawn_step hstep) _) hroom
    obtain ⟨_, horderly⟩ := orderly_run hrun ht hroom₁
    exact (ih hrun hroom₁ hno₁).change horderly hno (step_change hstep)

/-- Empty tables are orderly and settled. -/
theorem orderly_empty (width : Nat) (start : UInt64) :
    (new (.empty width start) capacity).desk.Orderly :=
  Desk.orderly_of_idle (fun _ => rfl)
    (fun n u h => by simp [desk, new] at h)
    (fun u n h => by simp [desk, new] at h)

theorem settled_empty (width : Nat) (start : UInt64) :
    (new (.empty width start) capacity).desk.Settled := by
  intro u n h
  simp [desk, new] at h

/-- Whatever dictionaries and their callers do to tables that were empty at first, and whatever
fails, as long as there are numbers to draw: no mapping ever changes, no two names share an
identifier, every mapped identifier may be issued and was, and it has its name.  When every
creation has come to an end and none has failed, only mapped identifiers have names. -/
theorem racing_creators_keep_tables {width : Nat} {start : UInt64}
    (h : (new (.empty width start) capacity).run policy moves = some s)
    (hroom : start.toNat + s.drawn < 2 ^ 64) :
    (∀ later s', s.run policy later = some s' →
      ∀ n u, s.store.idOf? n = some u → s'.store.idOf? n = some u) ∧
    (∀ n m u, s.store.idOf? n = some u → s.store.idOf? m = some u → n = m) ∧
    (∀ n u, s.store.idOf? n = some u →
      u.width = width ∧ 1 ≤ u.value ∧ u.value ≤ 2 ^ (8 * width) - 2 ∧ u.isRolledUp = false ∧
        u.value ≤ s.store.sequence.toNat) ∧
    (∀ n u, s.store.idOf? n = some u → s.store.nameOf? u = some n) ∧
    (¬ s.CreationFailed → ¬ s.Creating →
      ∀ n u, s.store.nameOf? u = some n ↔ s.store.idOf? n = some u) := by
  obtain ⟨_, horderly⟩ := orderly_run h (orderly_empty width start) hroom
  refine ⟨fun later s' hlater n u hn => idOf?_run hlater hn,
    fun n m u hn hm => horderly.idOf?_inj hn hm, fun n u hn => ?_,
    fun n u hn => horderly.named hn,
    fun hno hidle n u => ⟨fun hu => ?_, fun hn => horderly.named hn⟩⟩
  · have hissued := horderly.issued (horderly.named hn)
    have hwidth : u.width = width := hissued.width.trans (width_run h)
    refine ⟨hwidth, hissued.pos, ?_, hissued.isRolledUp, hissued.le_sequence⟩
    have hle := hissued.le_max
    have hpow : 2 ^ (8 * width) = 256 ^ width := by rw [Nat.pow_mul]
    rw [← hissued.width, hwidth, maxIssuable, allOnes, maxWidth,
      Nat.min_eq_left (hwidth ▸ u.width_le)] at hle
    omega
  · have hsettled :=
      settled_run h (orderly_empty width start) (settled_empty width start) hroom hno
    rcases hsettled u n hu with hn | ⟨c, x, hc⟩
    · exact hn
    · rw [held_of_not_creating hidle] at hc
      cases hc

/-- Two dictionaries race for a name.  A request of the first fails once, the second is told that
nobody has the name when it looks first, and the second wins. -/
def race : List Move :=
  let p : Client := ⟨0, 0⟩
  let q : Client := ⟨1, 0⟩
  [.ask p (.create "a"), .perform p, .wake p, .perform p, .perform p,
    .ask q (.create "a"), .stale q, .wake q, .perform q, .perform q,
    .fail p (.reported .io ""), .perform p, .perform q, .perform q, .perform p, .perform p]

theorem racing_creators_keep_tables_race :
    ∃ s u, (new (Tables.empty 1) fun _ => 4).run (fun _ => {}) race = some s ∧
      (0 : UInt64).toNat + s.drawn < 2 ^ 64 ∧ s.store.idOf? "a" = some u ∧
      s.store.nameOf? u = some "a" ∧ ∀ n, s.store.idOf? n = some u → n = "a" := by
  let result := ((new (Tables.empty 1) fun _ => 4).run (fun _ => {}) race).map fun s =>
    (s.drawn, (s.store.idOf? "a").isSome)
  have hresult : result = some (2, true) := by decide
  obtain ⟨s, hrun, hs⟩ := Option.map_eq_some_iff.1 hresult
  obtain ⟨hdrawn, hmapped⟩ := Prod.mk.inj hs
  obtain ⟨u, hu⟩ := Option.isSome_iff_exists.1 hmapped
  have hroom : (0 : UInt64).toNat + s.drawn < 2 ^ 64 := by rw [hdrawn]; decide
  obtain ⟨_, hinj, _, hnamed, _⟩ := racing_creators_keep_tables hrun hroom
  exact ⟨s, u, hrun, hroom, hu, hnamed "a" u hu, fun n hn => hinj n "a" u hn hu⟩

end Commons

end StatRollup.Uid
