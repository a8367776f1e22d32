import StatRollup.Bytes.Checksum
import StatRollup.Uid.Tables
/-!
# Records of the identifier journal

Every change of the tables is one record.  A record is framed by its length and closed by a check,
all numbers lowest octet first:

* 4 octets: length of what follows;
* 1 octet: type of the record;
* the body;
* 4 octets: check of type and body.

Octets of a body beyond what its type needs are ignored.
-/
namespace StatRollup.Uid

/-- One change of the tables. -/
inductive Record where
  /-- The sequence reached a number. -/
  | reached (number : UInt64)
  /-- A name was mapped. -/
  | mapped (name : String) (id : Uid)
  /-- The name of an identifier was written. -/
  | named (id : Uid) (name : String)
  /-- The name of an identifier was removed. -/
  | unnamed (id : Uid)
  deriving DecidableEq, Repr

namespace Record

/-- The identifier of a record, if it has one. -/
def id? : Record → Option Uid
  | reached _ => none
  | mapped _ id => some id
  | named id _ => some id
  | unnamed id => some id

/-- Makes the change. -/
def apply (t : Tables) : Record → Tables
  | reached number => t.raise number
  | mapped name id => t.mapName name id
  | named id name => t.putName id name
  | unnamed id => t.dropName id

/-! ## Writing -/

/-- Width and octets of an identifier. -/
def idBytes (id : Uid) : Bytes := UInt8.ofNat id.width :: id.toBytes

/-- Length and octets of a name. -/
def nameBytes (name : String) : Bytes :=
  Bytes.littleEndian 4 (Bytes.ofText name).length ++ Bytes.ofText name

/-- Type and body of a record. -/
def payload : Record → Bytes
  | reached number => 1 :: Bytes.littleEndian 8 number.toNat
  | mapped name id => 2 :: (idBytes id ++ nameBytes name)
  | named id name => 3 :: (idBytes id ++ nameBytes name)
  | unnamed id => 4 :: idBytes id

/-- A payload with length and check. -/
def frame (payload : Bytes) : Bytes :=
  Bytes.littleEndian 4 (payload.length + 4) ++ payload ++
    Bytes.littleEndian 4 (Bytes.crc32 payload).toNat

/-- The octets of a record. -/
def toBytes (r : Record) : Bytes := frame r.payload

/-! ## Reading -/

/-- Reads an identifier and gives what follows it. -/
def readId : Bytes → Option (Uid × Bytes)
  | [] => none
  | w :: bs =>
    if bs.length < w.toNat then none
    else (ofBytes? (bs.take w.toNat)).map fun id => (id, bs.drop w.toNat)

/-- Reads a name. -/
def readName (bs : Bytes) : Option String :=
  let length := Bytes.ofLittleEndian (bs.take 4)
  if bs.length < 4 ∨ bs.length - 4 < length then none
  else String.fromUTF8? ⟨((bs.drop 4).take length).toArray⟩

/-- Reads type and body. -/
def ofPayload? : Bytes → Option Record
  | [] => none
  | type :: body =>
    match type.toNat with
    | 1 =>
      if body.length < 8 then none
      else some (reached (UInt64.ofNat (Bytes.ofLittleEndian (body.take 8))))
    | 2 => (readId body).bind fun (id, rest) => (readName rest).map fun name => mapped name id
    | 3 => (readId body).bind fun (id, rest) => (readName rest).map fun name => named id name
    | 4 => (readId body).map fun (id, _) => unnamed id
    | _ => none

/-- Takes the payload of the frame at the beginning of a run of octets, if it is complete and its
check is right, and gives what follows the frame. -/
def unframe? (bs : Bytes) : Option (Bytes × Bytes) :=
  let length := Bytes.ofLittleEndian (bs.take 4)
  let record := (bs.drop 4).take length
  let payload := record.take (length - 4)
  let check := Bytes.ofLittleEndian (record.drop (length - 4))
  if bs.length < 4 ∨ length < 5 ∨ bs.length < 4 + length then none
  else if check = (Bytes.crc32 payload).toNat then some (payload, bs.drop (4 + length))
  else none

/-- Reads the record at the beginning of a run of octets, and gives what follows it. -/
def read? (bs : Bytes) : Option (Record × Bytes) :=
  (unframe? bs).bind fun (payload, rest) => (ofPayload? payload).map fun r => (r, rest)

/-- Reads records up to the first that is not readable, at most `fuel` of them, and gives the
octets from there on. -/
def readUpTo : Nat → Bytes → List Record × Bytes
  | 0, bs => ([], bs)
  | fuel + 1, bs =>
    match read? bs with
    | none => ([], bs)
    | some (r, rest) => let (rs, tail) := readUpTo fuel rest; (r :: rs, tail)

/-- Reads records up to the first that is not readable, and gives the octets from there on. -/
def readAll (bs : Bytes) : List Record × Bytes := readUpTo bs.length bs

end Record

end StatRollup.Uid
