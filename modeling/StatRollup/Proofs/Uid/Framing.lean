import StatRollup.Uid.Journal

/-!
# Reading back a journal that was cut off

A record that fits its length field is read back from its octets, whatever follows them, and
nothing is read from octets that stop inside a record.  So whatever number of octets is left of a
journal, they are the records that are whole and then less than a record (`take_written`), and
reading them gives those records (`readAll_append`).

The length field is four octets wide.  A record that is too long for it cannot be read back:
`Fits` says that a record is not.
-/

namespace StatRollup

namespace Bytes

/-! ## Texts -/

theorem toList_loop (b : ByteArray) (i : Nat) (r : List UInt8) :
    ByteArray.toList.loop b i r = r.reverse ++ b.data.toList.drop i := by
  fun_induction ByteArray.toList.loop b i r with
  | case1 i r h ih =>
    have hget : b.get! i = b.data[i] := getElem!_pos b.data i h
    rw [ih, hget, List.reverse_cons, List.append_assoc, List.singleton_append,
      ← Array.getElem_toList h, ← List.drop_eq_getElem_cons]
  | case2 i r h =>
    rw [List.drop_eq_nil_of_le (by simpa using h), List.append_nil]

theorem fromUTF8?_ofText (s : String) : String.fromUTF8? ⟨(ofText s).toArray⟩ = some s := by
  have hbytes : (⟨(ofText s).toArray⟩ : ByteArray) = s.toByteArray := by
    rw [ofText, ByteArray.toList, toList_loop]
    simp
  rw [hbytes, String.fromUTF8?, dif_pos s.isValidUTF8]
  rfl

end Bytes

namespace Uid.Record

variable {r : Record} {rs : List Record} {rest : Bytes}

/-! ## One record -/

/-- The length of a record can be written in four octets. -/
def Fits (r : Record) : Prop := r.payload.length + 4 < 256 ^ 4

theorem length_payload_pos (r : Record) : 0 < r.payload.length := by
  cases r <;> exact Nat.succ_pos _

theorem readId_idBytes (id : Uid) (rest : Bytes) :
    readId (idBytes id ++ rest) = some (id, rest) := by
  have hwidth : (UInt8.ofNat id.width).toNat = id.width := by
    rw [UInt8.toNat_ofNat', Nat.mod_eq_of_lt (Nat.lt_of_le_of_lt id.width_le (by decide))]
  have hlong : ¬ (id.toBytes ++ rest).length < id.width := by simp
  rw [idBytes, List.cons_append, readId, hwidth, if_neg hlong, List.take_left' (length_toBytes id),
    List.drop_left' (length_toBytes id), ofBytes?_toBytes]
  rfl

theorem readName_nameBytes {name : String} (h : (Bytes.ofText name).length < 256 ^ 4) :
    readName (nameBytes name) = some name := by
  have hfield := Bytes.length_littleEndian 4 (Bytes.ofText name).length
  have hread : Bytes.ofLittleEndian ((nameBytes name).take 4) = (Bytes.ofText name).length := by
    rw [nameBytes, List.take_left' hfield, Bytes.ofLittleEndian_littleEndian, Nat.mod_eq_of_lt h]
  have hlong : (nameBytes name).length = 4 + (Bytes.ofText name).length := by
    rw [nameBytes, List.length_append, hfield]
  have hshort : ¬ ((nameBytes name).length < 4 ∨
      (nameBytes name).length - 4 < (Bytes.ofText name).length) := by omega
  rw [readName, hread, if_neg hshort, nameBytes, List.drop_left' hfield, List.take_length,
    Bytes.fromUTF8?_ofText]

theorem ofPayload?_payload (h : r.Fits) : ofPayload? r.payload = some r := by
  cases r with
  | reached number =>
    have hnumber : number.toNat < 256 ^ 8 := number.toNat_lt
    have hlong := Bytes.length_littleEndian 8 number.toNat
    show (if (Bytes.littleEndian 8 number.toNat).length < 8 then none
      else some (reached (UInt64.ofNat (Bytes.ofLittleEndian
        ((Bytes.littleEndian 8 number.toNat).take 8))))) = _
    rw [if_neg (by omega), List.take_of_length_le (Nat.le_of_eq hlong),
      Bytes.ofLittleEndian_littleEndian, Nat.mod_eq_of_lt hnumber, UInt64.ofNat_toNat]
  | mapped name id =>
    have hname : (Bytes.ofText name).length < 256 ^ 4 := by
      simp [Fits, payload, nameBytes] at h
      omega
    show (readId (idBytes id ++ nameBytes name)).bind
      (fun p => (readName p.2).map fun name => mapped name p.1) = _
    rw [readId_idBytes, Option.bind_some, readName_nameBytes hname]
    rfl
  | named id name =>
    have hname : (Bytes.ofText name).length < 256 ^ 4 := by
      simp [Fits, payload, nameBytes] at h
      omega
    show (readId (idBytes id ++ nameBytes name)).bind
      (fun p => (readName p.2).map fun name => named p.1 name) = _
    rw [readId_idBytes, Option.bind_some, readName_nameBytes hname]
    rfl
  | unnamed id =>
    show (readId (idBytes id)).map (fun p => unnamed p.1) = _
    rw [← List.append_nil (idBytes id), readId_idBytes]
    rfl

/-! ## Frames -/

theorem length_frame (p : Bytes) : (frame p).length = p.length + 8 := by
  simp [frame]
  omega

/-- What the length field of a frame says. -/
theorem length_field {p : Bytes} (h : p.length + 4 < 256 ^ 4) :
    Bytes.ofLittleEndian ((frame p ++ rest).take 4) = p.length + 4 := by
  rw [frame, List.append_assoc, List.append_assoc, List.take_left' (Bytes.length_littleEndian ..),
    Bytes.ofLittleEndian_littleEndian, Nat.mod_eq_of_lt h]

/-- A whole frame is read if its check is right, whatever follows it. -/
theorem unframe?_parts {p check : Bytes} (h : p.length + 4 < 256 ^ 4) (hp : 0 < p.length)
    (hcheck : check.length = 4) :
    unframe? (Bytes.littleEndian 4 (p.length + 4) ++ p ++ check ++ rest) =
      if Bytes.ofLittleEndian check = (Bytes.crc32 p).toNat then some (p, rest) else none := by
  let bs := Bytes.littleEndian 4 (p.length + 4) ++ p ++ check ++ rest
  have hfield := Bytes.length_littleEndian 4 (p.length + 4)
  have hlong : bs.length = p.length + 8 + rest.length := by
    simp only [bs, List.length_append, hfield, hcheck]
    omega
  have hlength : Bytes.ofLittleEndian (bs.take 4) = p.length + 4 := by
    simp only [bs, List.append_assoc]
    rw [List.take_left' hfield, Bytes.ofLittleEndian_littleEndian, Nat.mod_eq_of_lt h]
  have hrecord : (bs.drop 4).take (p.length + 4) = p ++ check := by
    simp only [bs, List.append_assoc]
    rw [List.drop_left' hfield, ← List.append_assoc,
      List.take_left' (by rw [List.length_append, hcheck])]
  have hrest : bs.drop (4 + (p.length + 4)) = rest :=
    List.drop_left' (by simp only [List.length_append, hfield, hcheck]; omega)
  rw [show Bytes.littleEndian 4 (p.length + 4) ++ p ++ check ++ rest = bs from rfl, unframe?,
    hlength, hrecord, Nat.add_sub_cancel, List.take_left, List.drop_left, if_neg (by omega), hrest]

/-- A whole frame is read, whatever follows it. -/
theorem unframe?_frame {p : Bytes} (h : p.length + 4 < 256 ^ 4) (hp : 0 < p.length) :
    unframe? (frame p ++ rest) = some (p, rest) := by
  have hlt : (Bytes.crc32 p).toNat < 256 ^ 4 := (Bytes.crc32 p).toNat_lt
  rw [frame, unframe?_parts h hp (Bytes.length_littleEndian ..), if_pos]
  rw [Bytes.ofLittleEndian_littleEndian, Nat.mod_eq_of_lt hlt]

/-- Nothing is read from less than a frame. -/
theorem unframe?_take {p : Bytes} (h : p.length + 4 < 256 ^ 4) {k : Nat}
    (hk : k < (frame p).length) : unframe? ((frame p ++ rest).take k) = none := by
  rw [length_frame] at hk
  have hlong : ((frame p ++ rest).take k).length = k := by
    rw [List.length_take, List.length_append, length_frame]
    omega
  rw [unframe?, hlong]
  refine if_pos ?_
  by_cases hfour : k < 4
  · exact .inl hfour
  · rw [List.take_take, Nat.min_eq_left (by omega), length_field h]
    exact .inr (.inr (by omega))

/-- A record that fits is read back. -/
theorem read?_toBytes (h : r.Fits) : read? (r.toBytes ++ rest) = some (r, rest) := by
  show (unframe? (r.toBytes ++ rest)).bind
    (fun p => (ofPayload? p.1).map fun r => (r, p.2)) = _
  rw [toBytes, unframe?_frame h r.length_payload_pos, Option.bind_some, ofPayload?_payload h]
  rfl

/-- Nothing is read from less than a record. -/
theorem read?_take (h : r.Fits) {k : Nat} (hk : k < r.toBytes.length) :
    read? ((r.toBytes ++ rest).take k) = none := by
  rw [read?, toBytes, unframe?_take h hk]
  rfl

/-! ## Many records -/

/-- The octets of records, one after the other. -/
def written (rs : List Record) : Bytes := rs.flatMap toBytes

@[simp] theorem written_nil : written [] = [] := rfl

theorem written_cons : written (r :: rs) = r.toBytes ++ written rs := rfl

theorem written_append (rs rs' : List Record) : written (rs ++ rs') = written rs ++ written rs' :=
  List.flatMap_append

theorem length_toBytes_pos (r : Record) : 0 < r.toBytes.length := by
  rw [toBytes, length_frame]
  omega

/-- There are at least as many octets as records. -/
theorem length_le_written (rs : List Record) : rs.length ≤ (written rs).length := by
  induction rs with
  | nil => exact Nat.le_refl 0
  | cons r rs ih =>
    have hr := length_toBytes_pos r
    rw [written_cons, List.length_append, List.length_cons]
    omega

/-- Records are read up to the first octets that are not a record. -/
theorem readUpTo_append {tail : Bytes} (hfits : ∀ r ∈ rs, r.Fits) (htail : read? tail = none)
    {fuel : Nat} (hfuel : (written rs ++ tail).length ≤ fuel) :
    readUpTo fuel (written rs ++ tail) = (rs, tail) := by
  induction rs generalizing fuel with
  | nil =>
    cases fuel with
    | zero => rfl
    | succ fuel =>
      rw [written_nil, List.nil_append, readUpTo, htail]
  | cons r rs ih =>
    obtain ⟨hr, hrs⟩ := List.forall_mem_cons.1 hfits
    have hpos := length_toBytes_pos r
    rw [written_cons, List.append_assoc, List.length_append] at hfuel
    cases fuel with
    | zero => omega
    | succ fuel =>
      have hrest : readUpTo fuel (written rs ++ tail) = (rs, tail) := ih hrs (by omega)
      rw [written_cons, List.append_assoc, readUpTo, read?_toBytes hr]
      simp only [hrest]

/-- Records are read up to the first octets that are not a record. -/
theorem readAll_append {tail : Bytes} (hfits : ∀ r ∈ rs, r.Fits) (htail : read? tail = none) :
    readAll (written rs ++ tail) = (rs, tail) :=
  readUpTo_append hfits htail (Nat.le_refl _)

/-- The first octets of records are the records that are whole, and then less than the next one. -/
theorem take_written (hfits : ∀ r ∈ rs, r.Fits) (k : Nat) :
    ∃ m tail, (written rs).take k = written (rs.take m) ++ tail ∧ read? tail = none ∧
      (m < rs.length → k < (written (rs.take (m + 1))).length) := by
  induction rs generalizing k with
  | nil => exact ⟨0, [], by simp, rfl, by simp⟩
  | cons r rs ih =>
    obtain ⟨hr, hrs⟩ := List.forall_mem_cons.1 hfits
    by_cases hk : k < r.toBytes.length
    · refine ⟨0, (written (r :: rs)).take k, rfl, ?_, fun _ => ?_⟩
      · rw [written_cons, read?_take hr hk]
      · simpa [written_cons] using hk
    · have hsplit : (written (r :: rs)).take k
          = r.toBytes ++ (written rs).take (k - r.toBytes.length) := by
        rw [written_cons, List.take_append, List.take_of_length_le (Nat.le_of_not_lt hk)]
      obtain ⟨m, tail, hbytes, htail, hnext⟩ := ih hrs (k - r.toBytes.length)
      refine ⟨m + 1, tail, ?_, htail, fun hm => ?_⟩
      · rw [hsplit, hbytes, List.take_succ_cons, written_cons, List.append_assoc]
      · have hlt := hnext (Nat.lt_of_succ_lt_succ hm)
        rw [List.take_succ_cons, written_cons, List.length_append]
        omega

end Uid.Record

end StatRollup
