import StatRollup.Uid.Decoding
import StatRollup.Uid.Journal
/-!
# Opening a file step by step

Opening reads the file, replays its records one by one, and only then cuts the file off behind the
last of them.  Each record is judged before its change is made: the first identifier of another
width ends everything, and as nothing was written by then the file is left alone.
-/
namespace StatRollup.Uid.Journal

/-- Refuses the identifier of another width. -/
def checkWidth (label : String) (width : Nat) (r : Record) : Except Fault Unit :=
  match r.id? with
  | none => .ok ()
  | some id => if id.width = width then .ok () else .error (.journalWidth label id.width width)

/-- Makes the changes of records up to the first octets that are not one, and tells how many octets
these records have. -/
def replayFile (label : String) (t : Tables) (bs : Bytes) : Except Fault (Tables × Nat) :=
  match _h : Record.decode bs with
  | .error _ => .ok (t, 0)
  | .ok (r, length) => do
    checkWidth label t.width r
    let (t, more) ← replayFile label (r.apply t) (bs.drop length)
    return (t, length + more)
termination_by bs.length
decreasing_by
  have hlength := Record.length_of_decode _h
  rw [List.length_drop]
  omega

/-- Opens a file; the state is its content. -/
def openFile (label : String) (width : Nat) : ExceptT Fault (StateM Bytes) Journal := do
  let (tables, length) ← replayFile label (.empty width) (← get)
  modify (List.take length)
  let file ← get
  return { tables, file, offset := file.length }

end StatRollup.Uid.Journal
