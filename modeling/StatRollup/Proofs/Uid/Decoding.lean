import StatRollup.Proofs.Uid.Damage
import StatRollup.Uid.Decoding

/-!
# What is read, and why not

Decoding is reading with a reason: it finds the records that are read, with as many octets as they
are written in, and refuses what is not read (`read?_eq`).  So what is known of reading is known of
decoding.

A frame is refused for one of three reasons, and two of them look at its length only.  One octet
that is changed behind the length field leaves the third, a check that does not match
(`takeFrame_set`).  As everything that is decoded is a frame (`frame_of_takeFrame`), this holds of
any octets whatever, and in particular of every record that fits its length field.
-/

namespace StatRollup.Uid.Record

variable {r : Record} {bs p check rest : Bytes} {b : UInt8} {i length : Nat}

/-! ## Frames -/

/-- Octets that are long enough for their length field begin with a field, a payload and a
check. -/
theorem exists_parts (h : ¬ (bs.length < 4 ∨ Bytes.ofLittleEndian (bs.take 4) < 5 ∨
      bs.length < 4 + Bytes.ofLittleEndian (bs.take 4))) :
    ∃ p check rest, bs = Bytes.littleEndian 4 (p.length + 4) ++ p ++ check ++ rest ∧
      0 < p.length ∧ p.length + 4 < 256 ^ 4 ∧ check.length = 4 := by
  obtain ⟨n, hn⟩ : ∃ n, Bytes.ofLittleEndian (bs.take 4) = n + 4 :=
    ⟨Bytes.ofLittleEndian (bs.take 4) - 4, by omega⟩
  have hfour : (bs.take 4).length = 4 := by
    simp
    omega
  have hfield := Bytes.littleEndian_ofLittleEndian (bs.take 4)
  have hlt := Bytes.ofLittleEndian_lt (bs.take 4)
  rw [hfour, hn] at hfield hlt
  have hlong : ((bs.drop 4).take n).length = n := by
    simp
    omega
  refine ⟨(bs.drop 4).take n, ((bs.drop 4).drop n).take 4, ((bs.drop 4).drop n).drop 4, ?_,
    ?_, ?_, ?_⟩
  · rw [hlong, hfield, List.append_assoc, List.append_assoc, List.take_append_drop,
      List.take_append_drop, List.take_append_drop]
  · omega
  · omega
  · simp
    omega

/-- What is taken of a field, a payload and a check. -/
theorem takeFrame_parts (h : p.length + 4 < 256 ^ 4) (hp : 0 < p.length)
    (hcheck : check.length = 4) :
    takeFrame (Bytes.littleEndian 4 (p.length + 4) ++ p ++ check ++ rest) =
      if UInt32.ofNat (Bytes.ofLittleEndian check) ≠ Bytes.crc32 p then
        .error (.damaged (UInt32.ofNat (Bytes.ofLittleEndian check)) (Bytes.crc32 p))
      else .ok (p, p.length + 8) := by
  let bs := Bytes.littleEndian 4 (p.length + 4) ++ p ++ check ++ rest
  have hfield := Bytes.length_littleEndian 4 (p.length + 4)
  have hlong : bs.length = p.length + 8 + rest.length := by
    simp only [bs, List.length_append, hfield, hcheck]
    omega
  have hlength : Bytes.ofLittleEndian (bs.take 4) = p.length + 4 := by
    simp only [bs, List.append_assoc]
    rw [List.take_left' hfield, Bytes.ofLittleEndian_littleEndian, Nat.mod_eq_of_lt h]
  have hrecord : (bs.drop 4).take (p.length + 4) = p ++ check := by
    simp only [bs, List.append_assoc]
    rw [List.drop_left' hfield, ← List.append_assoc,
      List.take_left' (by rw [List.length_append, hcheck])]
  rw [show Bytes.littleEndian 4 (p.length + 4) ++ p ++ check ++ rest = bs from rfl, takeFrame,
    hlength, hrecord, Nat.add_sub_cancel, List.take_left, List.drop_left, if_neg (by omega),
    if_neg (by omega), show 4 + (p.length + 4) = p.length + 8 by omega]

/-- Four octets are a check exactly if they are its digits. -/
theorem ofNat_check_eq {c : UInt32} (hcheck : check.length = 4) :
    UInt32.ofNat (Bytes.ofLittleEndian check) = c ↔ check = Bytes.littleEndian 4 c.toNat := by
  have hlt := Bytes.ofLittleEndian_lt check
  have hback := Bytes.littleEndian_ofLittleEndian check
  rw [hcheck] at hlt hback
  rw [← UInt32.toNat_inj, UInt32.toNat_ofNat', Nat.mod_eq_of_lt hlt]
  constructor
  · intro heq
    rw [← heq, hback]
  · intro heq
    rw [heq, Bytes.ofLittleEndian_littleEndian, Nat.mod_eq_of_lt c.toNat_lt]

/-- What is taken is the payload of a frame, and the frame is what is there. -/
theorem frame_of_takeFrame (h : takeFrame bs = .ok (p, length)) :
    0 < p.length ∧ p.length + 4 < 256 ^ 4 ∧ length = (frame p).length ∧
      ∃ rest, bs = frame p ++ rest := by
  by_cases hshort : bs.length < 4 ∨ Bytes.ofLittleEndian (bs.take 4) < 5 ∨
      bs.length < 4 + Bytes.ofLittleEndian (bs.take 4)
  · simp only [takeFrame] at h
    rcases hshort with hfour | hlong
    · simp [hfour] at h
    · by_cases hfour : bs.length < 4 <;> simp [hfour, hlong] at h
  · obtain ⟨q, check, rest, rfl, hpos, hfits, hcheck⟩ := exists_parts hshort
    rw [takeFrame_parts hfits hpos hcheck] at h
    split at h
    · cases h
    · next heq =>
      cases h
      rw [not_not, ofNat_check_eq hcheck] at heq
      exact ⟨hpos, hfits, (length_frame p).symm, rest, by rw [heq, frame]⟩

/-! ## Decoding is reading -/

section

variable {α β : Type} (x : Except Fault α)

@[simp] theorem toOption_error (f : Fault) : (.error f : Except Fault α).toOption = none := rfl

@[simp] theorem toOption_map (f : α → β) : (f <$> x).toOption = x.toOption.map f := by
  cases x <;> rfl

@[simp] theorem toOption_bind (f : α → Except Fault β) :
    (x >>= f).toOption = x.toOption.bind fun a => (f a).toOption := by
  cases x <;> rfl

end

theorem unframe?_eq (bs : Bytes) :
    unframe? bs = (takeFrame bs).toOption.map fun x => (x.1, bs.drop x.2) := by
  by_cases hshort : bs.length < 4 ∨ Bytes.ofLittleEndian (bs.take 4) < 5 ∨
      bs.length < 4 + Bytes.ofLittleEndian (bs.take 4)
  · rw [unframe?, if_pos hshort]
    simp only [takeFrame]
    rcases hshort with hfour | hlong
    · rw [if_pos hfour]
      rfl
    · by_cases hfour : bs.length < 4 <;> simp [hfour, hlong]
  · obtain ⟨p, check, rest, rfl, hpos, hfits, hcheck⟩ := exists_parts hshort
    have hwhole : (Bytes.littleEndian 4 (p.length + 4) ++ p ++ check).length = p.length + 8 := by
      simp [hcheck]
      omega
    have hsame : Bytes.ofLittleEndian check = (Bytes.crc32 p).toNat ↔
        UInt32.ofNat (Bytes.ofLittleEndian check) = Bytes.crc32 p := by
      have hlt := Bytes.ofLittleEndian_lt check
      rw [hcheck] at hlt
      rw [← UInt32.toNat_inj, UInt32.toNat_ofNat', Nat.mod_eq_of_lt hlt]
    rw [unframe?_parts hfits hpos hcheck, takeFrame_parts hfits hpos hcheck]
    by_cases heq : UInt32.ofNat (Bytes.ofLittleEndian check) = Bytes.crc32 p
    · rw [if_pos (hsame.2 heq), if_neg (not_not.2 heq)]
      simp only [Except.toOption, Option.map_some, List.drop_left' hwhole]
    · simp [mt hsame.1 heq, heq]

theorem readId_eq (bs : Bytes) : readId bs = (takeId bs).toOption := by
  cases bs with
  | nil => rfl
  | cons w bs =>
    simp only [readId, takeId, ofBytes]
    split
    · rfl
    · cases ofBytes? (bs.take w.toNat) <;> rfl

theorem readName_eq (bs : Bytes) : readName bs = (takeName bs).toOption.map Prod.fst := by
  simp only [readName, takeName]
  split
  · rfl
  · cases String.fromUTF8? ⟨((bs.drop 4).take (Bytes.ofLittleEndian (bs.take 4))).toArray⟩ <;> rfl

theorem ofPayload?_eq (bs : Bytes) : ofPayload? bs = (ofPayload bs).toOption := by
  cases bs with
  | nil => rfl
  | cons type body =>
    simp only [ofPayload?, ofPayload]
    generalize type.toNat = t
    split
    · simp only [takeNumber]
      split <;> rfl
    · simp [readId_eq, readName_eq, Function.comp_def]
    · simp [readId_eq, readName_eq, Function.comp_def]
    · simp [readId_eq]
    · simp

/-- The record that is read is the one that is decoded, and what follows it are the octets that are
not part of it. -/
theorem read?_eq (bs : Bytes) :
    read? bs = (decode bs).toOption.map fun x => (x.1, bs.drop x.2) := by
  simp [read?, decode, unframe?_eq, ofPayload?_eq, Function.comp_def, Option.bind_map]

/-- A record that fits is decoded from its octets, whatever follows them, and they are all of it. -/
theorem decode_toBytes (h : r.Fits) (rest : Bytes) :
    decode (r.toBytes ++ rest) = .ok (r, r.toBytes.length) := by
  have hread : read? (r.toBytes ++ rest) = some (r, rest) := read?_toBytes h
  rw [read?_eq] at hread
  cases hdecode : decode (r.toBytes ++ rest) with
  | error f => simp [hdecode] at hread
  | ok x =>
    obtain ⟨r', length⟩ := x
    obtain ⟨-, hle⟩ := length_of_decode hdecode
    simp only [hdecode, Except.toOption, Option.map_some, Option.some.injEq, Prod.mk.injEq] at hread
    obtain ⟨rfl, hrest⟩ := hread
    have hdrop := congrArg List.length hrest
    rw [List.length_drop] at hdrop
    rw [List.length_append] at hle hdrop
    rw [show length = r'.toBytes.length by omega]

/-! ## Damage -/

instance : Decidable r.Fits := inferInstanceAs (Decidable (_ < _))

/-- A change in the first octets leaves the others alone. -/
theorem modify_append {as : Bytes} (h : i < as.length) (bs : Bytes) (f : UInt8 → UInt8) :
    (as ++ bs).modify i f = as.modify i f ++ bs := by
  rw [List.modify_eq_set, List.modify_eq_set, List.set_append_left _ _ h,
    List.getElem?_append_left h]

/-- A frame with a changed octet behind its length field has a check that does not match. -/
theorem takeFrame_set (h : p.length + 4 < 256 ^ 4) (hp : 0 < p.length) (hi : 4 ≤ i)
    (hlt : i < (frame p).length) (hb : (frame p)[i]? ≠ some b) (rest : Bytes) :
    ∃ expected actual, expected ≠ actual ∧
      takeFrame ((frame p).set i b ++ rest) = .error (.damaged expected actual) := by
  have hfield := Bytes.length_littleEndian 4 (p.length + 4)
  -- What follows the length field is cut at the old place, so both parts have their old lengths.
  let tail := (p ++ Bytes.littleEndian 4 (Bytes.crc32 p).toNat).set (i - 4) b
  have htail : tail.length = p.length + 4 := by simp [tail]
  have hq : (tail.take p.length).length = p.length := by
    rw [List.length_take]
    omega
  have hcheck : (tail.drop p.length).length = 4 := by
    rw [List.length_drop]
    omega
  have hparts : (frame p).set i b =
      Bytes.littleEndian 4 ((tail.take p.length).length + 4) ++ tail.take p.length ++
        tail.drop p.length := by
    rw [hq, List.append_assoc, List.take_append_drop, frame, List.append_assoc,
      List.set_append_right _ _ (by omega), hfield]
  have hnone : unframe? ((frame p).set i b ++ rest) = none := unframe?_set h hp hi hlt hb
  rw [unframe?_eq, hparts, takeFrame_parts (by omega) (by omega) hcheck] at hnone
  rw [hparts, takeFrame_parts (by omega) (by omega) hcheck]
  split
  · next hne => exact ⟨_, _, hne, rfl⟩
  · next heq =>
    rw [if_neg heq] at hnone
    cases hnone

/-- What was decoded is refused for its check after an octet behind the length field was changed. -/
theorem decode_modify (h : decode bs = .ok (r, length)) (hi : 4 ≤ i) (hlt : i < length) {x : UInt8}
    (hx : x ≠ 0) :
    ∃ expected actual, expected ≠ actual ∧
      decode (bs.modify i (· ^^^ x)) = .error (.damaged expected actual) := by
  obtain ⟨⟨payload, n⟩, hframe, h⟩ := bind_eq_ok.1 h
  obtain ⟨r', _, h⟩ := bind_eq_ok.1 h
  cases h
  obtain ⟨hpos, hfits, rfl, rest, rfl⟩ := frame_of_takeFrame hframe
  have hother : (frame payload)[i]? ≠ some ((frame payload)[i] ^^^ x) := by
    rw [List.getElem?_eq_getElem hlt, Ne, Option.some.injEq]
    intro heq
    rw [eq_comm, ← UInt8.xor_zero (a := (frame payload)[i]), UInt8.xor_assoc, UInt8.zero_xor,
      UInt8.xor_right_inj] at heq
    exact hx heq
  have hset : (frame payload).modify i (· ^^^ x) =
      (frame payload).set i ((frame payload)[i] ^^^ x) := by
    rw [List.modify_eq_set, List.getElem?_eq_getElem hlt]
    rfl
  obtain ⟨expected, actual, hne, htake⟩ := takeFrame_set hfits hpos hi hlt hother rest
  refine ⟨expected, actual, hne, ?_⟩
  rw [modify_append hlt, hset, decode, htake]
  rfl

/-- A record that fits its length field is not decoded after any octet behind this field was
changed, whatever follows it: it is refused as damaged, for a check that does not match. -/
theorem changed_octet_detected (h : r.Fits) (hi : 4 ≤ i) (hlt : i < r.toBytes.length) {x : UInt8}
    (hx : x ≠ 0) (rest : Bytes) :
    ∃ expected actual, expected ≠ actual ∧
      decode (r.toBytes.modify i (· ^^^ x) ++ rest) = .error (.damaged expected actual) := by
  obtain ⟨expected, actual, hne, hdecode⟩ := decode_modify (decode_toBytes h rest) hi hlt hx
  refine ⟨expected, actual, hne, ?_⟩
  rwa [modify_append hlt] at hdecode

/-- A name is mapped. -/
def envMapping : Record := .mapped "env" Journal.one

/-- In the mapping of a name, an octet of the identifier is inverted, and one bit of the check. -/
theorem changed_octet_detected_envMapping :
    (∃ expected actual, expected ≠ actual ∧
      decode (envMapping.toBytes.modify 6 (· ^^^ 0xFF) ++ []) =
        .error (.damaged expected actual)) ∧
    ∃ expected actual, expected ≠ actual ∧
      decode (envMapping.toBytes.modify 17 (· ^^^ 1) ++ [0]) =
        .error (.damaged expected actual) := by
  have hfits : envMapping.Fits := by decide +kernel
  exact ⟨changed_octet_detected hfits (by decide) (by decide +kernel) (by decide) [],
    changed_octet_detected hfits (by decide) (by decide +kernel) (by decide) [0]⟩

end StatRollup.Uid.Record
