import StatRollup.Proofs.Bytes.Checksum
import StatRollup.Proofs.Uid.Reopening

/-!
# Journals with a damaged record

One octet of a record in a journal is changed, behind the length field.  The check of the record
always notices (`read?_set`), and opening the journal reads no further: it cuts the file off before
the damaged record, as it does with the end of a record that was not finished.  So all records
behind the damaged one are lost although they are intact, `damage_forgets_rest`.

Nothing of this is refused.  A name that was mapped behind the damage is unmapped, and the numbers
that were drawn there are drawn again, for other names.
-/

namespace StatRollup.Uid

namespace Record

variable {r : Record} {rest : Bytes} {b : UInt8} {i : Nat}

/-! ## A changed octet -/

/-- A frame around a payload with another check is not read. -/
theorem unframe?_of_payload_ne {p q : Bytes} (h : p.length + 4 < 256 ^ 4) (hp : 0 < p.length)
    (hlength : q.length = p.length) (hne : Bytes.crc32 q ≠ Bytes.crc32 p) :
    unframe? (Bytes.littleEndian 4 (p.length + 4) ++ q ++
      Bytes.littleEndian 4 (Bytes.crc32 p).toNat ++ rest) = none := by
  rw [← hlength] at h hp ⊢
  rw [unframe?_parts h hp (Bytes.length_littleEndian ..), Bytes.ofLittleEndian_littleEndian,
    Nat.mod_eq_of_lt (Bytes.crc32 p).toNat_lt, if_neg]
  intro heq
  exact hne (UInt32.toNat_inj.1 heq).symm

/-- A frame with a check that is not its own is not read. -/
theorem unframe?_of_check_ne {p check : Bytes} (h : p.length + 4 < 256 ^ 4) (hp : 0 < p.length)
    (hlength : check.length = 4) (hne : check ≠ Bytes.littleEndian 4 (Bytes.crc32 p).toNat) :
    unframe? (Bytes.littleEndian 4 (p.length + 4) ++ p ++ check ++ rest) = none := by
  rw [unframe?_parts h hp hlength, if_neg]
  intro heq
  have hsame := Bytes.littleEndian_ofLittleEndian check
  rw [hlength, heq] at hsame
  exact hne hsame.symm

/-- A frame with a changed octet behind its length field is not read. -/
theorem unframe?_set {p : Bytes} (h : p.length + 4 < 256 ^ 4) (hp : 0 < p.length) (hi : 4 ≤ i)
    (hlt : i < (frame p).length) (hb : (frame p)[i]? ≠ some b) :
    unframe? ((frame p).set i b ++ rest) = none := by
  have hfield := Bytes.length_littleEndian 4 (p.length + 4)
  have hcheck := Bytes.length_littleEndian 4 (Bytes.crc32 p).toNat
  have hlead : (Bytes.littleEndian 4 (p.length + 4) ++ p).length = 4 + p.length := by
    rw [List.length_append, hfield]
  rw [length_frame] at hlt
  rw [frame] at hb ⊢
  by_cases hbody : i < 4 + p.length
  · have hplace : i - 4 < p.length := by omega
    rw [List.getElem?_append_left (by rwa [hlead]), List.getElem?_append_right (by rwa [hfield]),
      hfield, List.getElem?_eq_getElem hplace] at hb
    rw [List.set_append_left _ _ (by rwa [hlead]), List.set_append_right _ _ (by rwa [hfield]),
      hfield]
    exact unframe?_of_payload_ne h hp List.length_set
      (Bytes.crc32_set_ne hplace fun heq => hb (congrArg some heq))
  · rw [List.getElem?_append_right (by rw [hlead]; omega), hlead] at hb
    rw [List.set_append_right _ _ (by rw [hlead]; omega), hlead]
    refine unframe?_of_check_ne h hp (by rw [List.length_set, hcheck]) fun heq => hb ?_
    rw [← heq, List.getElem?_set_self (by omega)]

/-- A record with a changed octet behind its length field is not read. -/
theorem read?_set (h : r.Fits) (hi : 4 ≤ i) (hlt : i < r.toBytes.length)
    (hb : r.toBytes[i]? ≠ some b) : read? (r.toBytes.set i b ++ rest) = none := by
  rw [read?, toBytes, unframe?_set h r.length_payload_pos hi hlt hb]
  rfl

end Record

namespace Journal

variable {width : Nat} {rs before lost : List Record} {n : String} {u : Uid}

/-! ## What the records behind the damage did -/

/-- A name is mapped when a record says so. -/
theorem idOf?_replay_iff (h : Logged width rs) :
    (replay width rs).idOf? n = some u ↔ .mapped n u ∈ rs := by
  constructor
  · intro hn
    clear h
    induction rs using List.reverseRecOn with
    | nil =>
      have hnone : (replay width []).idOf? n = none := Tables.idOf?_empty ..
      rw [hnone] at hn
      cases hn
    | append_singleton rs r ih =>
      rw [replay_concat] at hn
      cases r with
      | mapped m v =>
        have hmap : ((replay width rs).mapName m v).idOf? n = some u := hn
        rw [Tables.idOf?_mapName] at hmap
        split at hmap
        · next hm =>
          obtain ⟨rfl, _⟩ := hm
          cases hmap
          exact List.mem_append_right _ List.mem_cons_self
        · exact List.mem_append_left _ (ih hmap)
      | reached | named | unnamed => exact List.mem_append_left _ (ih hn)
  · intro hmem
    obtain ⟨s, t, rfl⟩ := List.append_of_mem hmem
    have hnone : (replay width s).idOf? n = none := h s _ t rfl
    rw [← List.singleton_append, ← List.append_assoc]
    refine idOf?_replay_append ?_ t
    rw [replay_concat]
    exact Tables.idOf?_mapName.trans (if_pos ⟨rfl, hnone⟩)

/-- A name that is mapped by a later record is not mapped by the first ones. -/
theorem idOf?_replay_eq_none (h : Logged width (before ++ lost)) (hmem : .mapped n u ∈ lost) :
    (replay width before).idOf? n = none := by
  obtain ⟨s, t, rfl⟩ := List.append_of_mem hmem
  have hnone : (replay width (before ++ s)).idOf? n = none :=
    h (before ++ s) _ t (List.append_assoc ..).symm
  cases hbefore : (replay width before).idOf? n with
  | none => rfl
  | some v =>
    rw [idOf?_replay_append hbefore s] at hnone
    cases hnone

/-- If later records draw numbers, the first of them is the next one after the first records. -/
theorem reached_next (h : Logged width (before ++ lost)) (hmem : ∃ k, .reached k ∈ lost) :
    .reached ((replay width before).sequence + 1) ∈ lost := by
  induction lost generalizing before with
  | nil =>
    obtain ⟨k, hk⟩ := hmem
    cases hk
  | cons r lost ih =>
    have hr : Next (replay width before) r := h before r lost rfl
    have hlost : Logged width ((before ++ [r]) ++ lost) := by rwa [List.append_assoc]
    cases r with
    | reached k =>
      have hk : k = (replay width before).sequence + 1 := by
        apply UInt64.toNat_inj.1
        rw [Tables.toNat_sequence_add_one (hr ▸ k.toNat_lt)]
        exact hr
      exact hk ▸ List.mem_cons_self
    | mapped | named | unnamed =>
      obtain ⟨k, hk⟩ := hmem
      have hlater := ih hlost ⟨k, (List.mem_cons.1 hk).resolve_left nofun⟩
      rw [replay_concat] at hlater
      exact List.mem_cons_of_mem _ hlater

/-! ## Opening a damaged journal -/

/-- What is left of a journal that was opened after some of its records were lost. -/
structure Forgets (j j' : Journal) (kept lost : List Record) : Prop where
  /-- The file is cut off behind the records that are kept. -/
  file : j'.file = Record.written kept
  /-- What was mapped by them is mapped, and nothing else is. -/
  mapped {n : String} {u : Uid} : j'.tables.idOf? n = some u ↔ .mapped n u ∈ kept
  /-- What was mapped by the others was mapped, and is not mapped any more. -/
  unmapped {n : String} {u : Uid} : .mapped n u ∈ lost →
    j.tables.idOf? n = some u ∧ j'.tables.idOf? n = none
  /-- If the others drew numbers, one of these is drawn next. -/
  redrawn : (∃ k, .reached k ∈ lost) → .reached (j'.perform .advance).1 ∈ lost

theorem Holds.forgets {j j' : Journal} (h : j.Holds width (before ++ lost))
    (hlog : Logged width (before ++ lost)) (h' : j'.Holds width before) :
    j.Forgets j' before lost := by
  refine ⟨h'.file, ?_, fun hmem => ⟨?_, ?_⟩, fun hmem => ?_⟩
  · rw [h'.tables]
    exact idOf?_replay_iff hlog.of_append
  · rw [h.tables]
    exact (idOf?_replay_iff hlog).2 (List.mem_append_right _ hmem)
  · rw [h'.tables]
    exact idOf?_replay_eq_none hlog hmem
  · show Record.reached (j'.tables.sequence + 1) ∈ lost
    rw [h'.tables]
    exact reached_next hlog hmem

/-- A journal that was used in any way can be opened after one octet of any record, behind its
length field, was changed.  The file is then cut off before this record, and all that was written
from there on is forgotten: names that were mapped are unmapped, and numbers are drawn again. -/
theorem damage_forgets_rest (label : String) {us : List Use} (hus : ∀ u ∈ us, u.Proper width)
    (hroom : us.countP Use.draws < 2 ^ 64) :
    ∃ j₀ answers j, ofFile label width [] = .ok j₀ ∧
      j₀.useAll label width us = .ok (answers, j) ∧
      j.file = Record.written ((Tables.empty width).records us) ∧
      ∀ before r after, (Tables.empty width).records us = before ++ r :: after →
        ∀ i b, 4 ≤ i → i < r.toBytes.length → r.toBytes[i]? ≠ some b →
          ∃ j', ofFile label width
              (Record.written before ++ r.toBytes.set i b ++ Record.written after) = .ok j' ∧
            j.Forgets j' before (r :: after) := by
  obtain ⟨j₀, j, hopen, hall, _, hrs, hlog⟩ := useAll_new label hus hroom
  refine ⟨j₀, _, j, hopen, hall, hrs.file, ?_⟩
  intro before r after hsplit i b hi hlt hb
  rw [hsplit] at hrs hlog
  have hproper : ∀ x ∈ before, x.Proper width := fun x hx =>
    hrs.proper x (List.mem_append_left _ hx)
  have hfits : r.Fits := (hrs.proper r (List.mem_append_right _ List.mem_cons_self)).fits
  have hbad : Record.read? (r.toBytes.set i b ++ Record.written after) = none :=
    Record.read?_set hfits hi hlt hb
  obtain ⟨j', hopen', hholds'⟩ := ofFile_append hproper hbad label
  rw [← List.append_assoc] at hopen'
  exact ⟨j', hopen', hrs.forgets hlog hholds'⟩

/-- Two names are created. -/
def twoNames : List Use :=
  [.request .advance, .request (.putName one "a"), .request (.claim "a" one),
    .request .advance, .request (.putName two "b"), .request (.claim "b" two)]

theorem proper_twoNames : ∀ u ∈ twoNames, u.Proper 1 := by decide +kernel

theorem damage_forgets_rest_twoNames :
    ∃ j₀ answers j j' after, ofFile "" 1 [] = .ok j₀ ∧
      j₀.useAll "" 1 twoNames = .ok (answers, j) ∧
      j.file = Record.written (.reached 1 :: after) ∧
      ofFile "" 1 ((Record.reached 1).toBytes.set 4 2 ++ Record.written after) = .ok j' ∧
      (∃ u, j.tables.idOf? "b" = some u) ∧ j'.tables.idOf? "b" = none := by
  obtain ⟨j₀, answers, j, hopen, hall, hfile, hdamage⟩ :=
    damage_forgets_rest "" proper_twoNames (by decide +kernel)
  have hsplit : (Tables.empty 1).records twoNames =
      [] ++ .reached 1 :: ((Tables.empty 1).records twoNames).tail := by decide +kernel
  obtain ⟨j', hopen', hforgets⟩ :=
    hdamage [] (.reached 1) _ hsplit 4 2 (by decide) (by decide +kernel) (by decide +kernel)
  have hmapped : Record.mapped "b" two ∈
      .reached 1 :: ((Tables.empty 1).records twoNames).tail := by decide +kernel
  obtain ⟨hbefore, hafter⟩ := hforgets.unmapped hmapped
  rw [hsplit] at hfile
  exact ⟨j₀, answers, j, j', _, hopen, hall, hfile, hopen', ⟨_, hbefore⟩, hafter⟩

/-- One octet of the first record is changed.  Both names were mapped by later records, which are
intact; still opening the journal succeeds, neither is mapped any more, and the number of the first
is drawn again. -/
theorem intact_mapping_forgotten :
    ∃ j₀ answers j j', ofFile "" 1 [] = .ok j₀ ∧ j₀.useAll "" 1 twoNames = .ok (answers, j) ∧
      ofFile "" 1 (j.file.set 5 0) = .ok j' ∧
      (j.tables.pairs.map fun p => (p.1, p.2.value)) = [("a", 1), ("b", 2)] ∧
      j'.tables.pairs = [] ∧ (j'.perform .advance).1 = 1 := by
  obtain ⟨j₀, j, hopen, hall, htables, hholds, _⟩ :=
    useAll_new "" proper_twoNames (by decide +kernel)
  have hbad : Record.read? (j.file.set 5 0) = none := by
    rw [hholds.file]
    decide +kernel
  have hnone : ∀ r ∈ ([] : List Record), r.Proper 1 := nofun
  obtain ⟨j', hopen', hholds'⟩ := ofFile_append hnone hbad ""
  refine ⟨j₀, _, j, j', hopen, hall, hopen', ?_, ?_, ?_⟩
  · rw [htables]
    decide +kernel
  · rw [hholds'.tables]
    rfl
  · show j'.tables.sequence + 1 = 1
    rw [hholds'.tables]
    rfl

end Journal

end StatRollup.Uid
