import StatRollup.Text.Utf8
import StatRollup.Uid.Codec
import StatRollup.Uid.Record
/-!
# Why octets are not a record

`Record.decode` reads the record at the beginning of a run of octets and tells how many octets it
has, or why there is none.  Judged are, in this order, whether the length field and the frame are
complete, the check, the type, and the parts of the body from first to last.
-/
namespace StatRollup.Uid.Record

/-- Octets that do not have the form of a record. -/
def malformed (text : String) : Fault := .reported .invalidFormat text

/-- Takes the payload of the frame at the beginning, and tells how many octets the frame has. -/
def takeFrame (bs : Bytes) : Except Fault (Bytes × Nat) :=
  let length := Bytes.ofLittleEndian (bs.take 4)
  let record := (bs.drop 4).take length
  let payload := record.take (length - 4)
  let expected := UInt32.ofNat (Bytes.ofLittleEndian (record.drop (length - 4)))
  let actual := Bytes.crc32 payload
  if bs.length < 4 then .error (malformed "Record too short")
  else if length < 5 ∨ bs.length < 4 + length then .error (malformed "Incomplete record")
  else if expected ≠ actual then .error (.damaged expected actual)
  else .ok (payload, 4 + length)

/-- Takes a number, and gives what follows it. -/
def takeNumber (bs : Bytes) : Except Fault (UInt64 × Bytes) :=
  if bs.length < 8 then .error (malformed "Truncated sequence")
  else .ok (UInt64.ofNat (Bytes.ofLittleEndian (bs.take 8)), bs.drop 8)

/-- Takes an identifier, and gives what follows it. -/
def takeId : Bytes → Except Fault (Uid × Bytes)
  | [] => .error (malformed "Truncated uid")
  | w :: bs =>
    if bs.length < w.toNat then .error (malformed "Truncated uid")
    else (ofBytes (bs.take w.toNat)).map fun id => (id, bs.drop w.toNat)

/-- Takes a name, and gives what follows it. -/
def takeName (bs : Bytes) : Except Fault (String × Bytes) :=
  let length := Bytes.ofLittleEndian (bs.take 4)
  let octets := (bs.drop 4).take length
  if bs.length < 4 ∨ bs.length - 4 < length then .error (malformed "Truncated name")
  else
    match String.fromUTF8? ⟨octets.toArray⟩ with
    | some name => .ok (name, bs.drop (4 + length))
    | none => .error (malformed (((Text.flaw? octets).map Text.Flaw.text).getD ""))

/-- Reads type and body.  A frame always has a type. -/
def ofPayload : Bytes → Except Fault Record
  | [] => .error (malformed "Incomplete record")
  | type :: body =>
    match type.toNat with
    | 1 => do
      let (number, _) ← takeNumber body
      return reached number
    | 2 => do
      let (id, rest) ← takeId body
      let (name, _) ← takeName rest
      return mapped name id
    | 3 => do
      let (id, rest) ← takeId body
      let (name, _) ← takeName rest
      return named id name
    | 4 => do
      let (id, _) ← takeId body
      return unnamed id
    | other => .error (malformed s!"Invalid uid record type: {other}")

/-- Reads the record at the beginning of a run of octets, and tells how many octets it has. -/
def decode (bs : Bytes) : Except Fault (Record × Nat) := do
  let (payload, length) ← takeFrame bs
  let r ← ofPayload payload
  return (r, length)

/-- A frame has octets, and not more than there are. -/
theorem length_of_takeFrame {bs payload : Bytes} {length : Nat}
    (h : takeFrame bs = .ok (payload, length)) : 0 < length ∧ length ≤ bs.length := by
  simp only [takeFrame] at h
  split at h
  · cases h
  · split at h
    · cases h
    · split at h
      · cases h
      · cases h
        omega

/-- A record has octets, and not more than there are. -/
theorem length_of_decode {bs : Bytes} {r : Record} {length : Nat}
    (h : decode bs = .ok (r, length)) : 0 < length ∧ length ≤ bs.length := by
  obtain ⟨⟨payload, n⟩, hframe, h⟩ := bind_eq_ok.1 h
  obtain ⟨r', _, h⟩ := bind_eq_ok.1 h
  cases h
  exact length_of_takeFrame hframe

/-! ## Examples -/

example : decode [0, 0, 0] = .error (malformed "Record too short") := by rfl
/-- The length may not be less than that of a type with its check. -/
example : decode [4, 0, 0, 0, 0, 0, 0, 0] = .error (malformed "Incomplete record") := by rfl
example : (decode ((reached 7).toBytes ++ [1, 2])).toOption = some (reached 7, 17) := by
  decide +kernel

end StatRollup.Uid.Record
