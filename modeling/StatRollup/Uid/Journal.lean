import StatRollup.Uid.Record
/-!
# A store in a file

Tables in memory, with every change appended to a journal file before it is made.  Opening a
journal replays its records up to the first that is not readable, and cuts the file off there, so
that later records can be read.  A journal with readable identifiers of another width is refused
and its file left alone.
-/
namespace StatRollup.Uid

/-- Tables, and the file that they are replayed from. -/
structure Journal where
  /-- The tables. -/
  tables : Tables
  /-- Content of the file. -/
  file : Bytes
  /-- Where the next record is written. -/
  offset : Nat

namespace Journal

/-- Replaces octets from an offset on; a gap before it is filled with zeros. -/
def writeAt (file : Bytes) (offset : Nat) (data : Bytes) : Bytes :=
  file.take offset ++ List.replicate (offset - file.length) 0 ++ data ++
    file.drop (offset + data.length)

/-- The first width other than the expected one among the identifiers of records. -/
def otherWidth? (width : Nat) (records : List Record) : Option Nat :=
  (records.filterMap fun r => r.id?.map Uid.width).find? (· ≠ width)

/-- The tables after all changes, from empty ones. -/
def replay (width : Nat) (records : List Record) : Tables :=
  records.foldl Record.apply (.empty width)

/-- Opens a file, which is empty when it is new.  `label` is how messages call the journal. -/
def ofFile (label : String) (width : Nat) (file : Bytes) : Except Fault Journal :=
  let (records, tail) := Record.readAll file
  match otherWidth? width records with
  | some held => .error (.journalWidth label held width)
  | none =>
    let offset := file.length - tail.length
    .ok { tables := replay width records, file := file.take offset, offset }

/-- Writes a record behind the others. -/
def append (j : Journal) (r : Record) : Journal :=
  { j with
    file := writeAt j.file j.offset r.toBytes
    offset := j.offset + r.toBytes.length }

/-- Writes a record and makes its change. -/
def commit (j : Journal) (r : Record) : Journal :=
  let j := j.append r
  { j with tables := r.apply j.tables }

/-- Answers a request; those that change something are written first. -/
def perform (j : Journal) : (r : Request) → r.Answer × Journal
  | .idOf name => (j.tables.idOf? name, j)
  | .nameOf id => (j.tables.nameOf? id, j)
  | .advance =>
    let next := j.tables.sequence + 1
    (next, j.commit (.reached next))
  | .putName id name => ((), j.commit (.named id name))
  | .dropName id => ((), j.commit (.unnamed id))
  | .claim name id =>
    match j.tables.idOf? name with
    | some existing => (existing, j)
    | none => (id, j.commit (.mapped name id))
  | .listAll => (j.tables.pairs, j)

instance : Store Journal where
  width j := j.tables.width
  perform j r := let (answer, j') := j.perform r; (.ok answer, j')

end Journal

end StatRollup.Uid
