import StatRollup.Fault
/-!
# Making identifiers

Numbers and octets become identifiers when the width is one to eight bytes and the number fits it.
The width is judged first.
-/
namespace StatRollup.Uid

/-- The identifier of a number at a width. -/
def ofNat (width value : Nat) : Except Fault Uid :=
  if isWidth width then
    match ofNat? width value with
    | some u => .ok u
    | none => .error (.valueTooWide value width)
  else .error (.uidWidth width)

/-- The rolled-up identifier of a width. -/
def rolledUpOf (width : Nat) : Except Fault Uid :=
  match ofNat? width (allOnes width) with
  | some u => .ok u
  | none => .error (.uidWidth width)

/-- The identifier with given octets; their number is the width. -/
def ofBytes (bs : Bytes) : Except Fault Uid :=
  match ofBytes? bs with
  | some u => .ok u
  | none => .error (.uidWidth bs.length)

theorem ofBytes_toBytes (u : Uid) : ofBytes u.toBytes = .ok u := by simp [ofBytes]

theorem toBytes_of_ofBytes {bs : Bytes} {u : Uid} (h : ofBytes bs = .ok u) : u.toBytes = bs := by
  rw [ofBytes] at h
  split at h
  · next v hv => cases h; exact toBytes_of_ofBytes? hv
  · cases h

/-- Octets are refused for their number alone. -/
theorem ofBytes_isOk_iff (bs : Bytes) :
    (∃ u, ofBytes bs = .ok u) ↔ 0 < bs.length ∧ bs.length ≤ 8 := by
  have hlt : Bytes.ofBigEndian bs < 256 ^ bs.length := Bytes.ofBigEndian_lt bs
  rw [ofBytes, ofBytes?, ofNat?]
  by_cases h : 0 < bs.length ∧ bs.length ≤ 8
  · rw [dif_pos h, dif_pos hlt]
    exact iff_of_true ⟨_, rfl⟩ h
  · rw [dif_neg h]
    refine iff_of_false ?_ h
    rintro ⟨u, hu⟩
    cases hu

/-! ## Examples -/

example : ofNat 1 256 = .error (.valueTooWide 256 1) := by rfl
/-- The width is judged before the number. -/
example : ofNat 9 5 = .error (.uidWidth 9) := by rfl
example : ofBytes [] = .error (.uidWidth 0) := by rfl

end StatRollup.Uid
