import StatRollup.Fault
import StatRollup.Json.Basic
/-!
# Decoding documents

A decoder takes a value apart in the order of its text, and its first objection is the answer.
An objection is to the text (`malformed`), to the shape of its content (`mismatch`), or to what a
well-shaped document says (`invalid`).

A `Form` describes a structure by its fields.  The structure is written as a record, in which
fields may come in any order, unknown members are skipped and none of the fields is given twice;
or as the list of its fields in their order.  A field with a default may be left out, in a list
only when all later ones are.
-/
namespace StatRollup.Json

/-- Why a document is not accepted. -/
inductive Refusal where
  /-- Its text is not well formed. -/
  | malformed
  /-- It has not the expected shape. -/
  | mismatch
  /-- It has the shape, but what it says is refused. -/
  | invalid (fault : Fault)
  deriving DecidableEq, Repr

/-- Reads something from a value. -/
abbrev Decoder (α : Type) := Json → Except Refusal α

/-! ## Plain values -/

/-- The objection to a value of another shape than the expected one. -/
def unexpected : Json → Refusal
  | unreadable | broken => .malformed
  | _ => .mismatch

/-- A text. -/
def asText : Decoder String
  | text s => .ok s
  | j => .error j.unexpected

/-- One of the two truth values. -/
def asBool : Decoder Bool
  | bool b => .ok b
  | j => .error j.unexpected

/-- A natural number below a bound. -/
def asNatBelow (bound : Nat) : Decoder Nat
  | int n => if 0 ≤ n ∧ n < bound then .ok n.toNat else .error .mismatch
  | j => .error j.unexpected

/-- A natural number of 64 bits. -/
def asNat : Decoder Nat := asNatBelow (2 ^ 64)

/-- A natural number of 64 bits, as a word. -/
def asUInt64 : Decoder UInt64 := fun j => (asNat j).map UInt64.ofNat

/-- A signed number of 64 bits. -/
def asInt64 : Decoder Int64
  | int n => if -2 ^ 63 ≤ n ∧ n < 2 ^ 63 then .ok (Int64.ofInt n) else .error .mismatch
  | j => .error j.unexpected

/-- A number; a whole one is rounded to the nearest that can be held. -/
def asFloat : Decoder Float
  | real x => .ok x
  | int n => .ok (Float.ofInt n)
  | j => .error j.unexpected

/-- Octets in hexadecimal digits. -/
def asBytes : Decoder Bytes := fun j => do
  match Bytes.ofHex? (← asText j) with
  | some bs => return bs
  | none => throw .mismatch

/-- The objection to a list or record of which something is missing. -/
def atEnd (isWhole : Bool) : Except Refusal Unit := if isWhole then .ok () else .error .malformed

/-- Items one by one. -/
def decodeEach {α : Type} (item : Decoder α) : List Json → Except Refusal (List α)
  | [] => .ok []
  | j :: js => do
    let a ← item j
    return a :: (← decodeEach item js)

/-- A list of like things. -/
def asList {α : Type} (item : Decoder α) : Decoder (List α)
  | list items closed => do
    let as ← decodeEach item items
    atEnd closed
    return as
  | j => .error j.unexpected

/-- Entries one by one, the name before the value. -/
def decodeEntries {κ α : Type} (key : String → Option κ) (item : Decoder α) :
    List (String × Json) → Except Refusal (List (κ × α))
  | [] => .ok []
  | (name, j) :: ms =>
    match key name with
    | none => .error .mismatch
    | some k => do
      let a ← item j
      return (k, a) :: (← decodeEntries key item ms)

/-- A table with known names. -/
def asTable {κ α : Type} (key : String → Option κ) (item : Decoder α) : Decoder (List (κ × α))
  | record members ending => do
    let entries ← decodeEntries key item members
    atEnd (ending.isWhole false)
    return entries
  | j => .error j.unexpected

/-! ## Choices -/

/-- The only member of a record. -/
def onlyMember (choose : String → Decoder α) (members : List (String × Json))
    (ending : Ending) : Except Refusal α :=
  match members with
  | [(name, j)] => do
    let a ← choose name j
    atEnd (ending.isWhole false)
    return a
  | (name, j) :: _ => do
    let _ ← choose name j
    throw .malformed
  | [] => .error .malformed

/-- Null, in place of nothing. -/
def asNull : Decoder Unit
  | null => .ok ()
  | j => .error j.unexpected

/-- One of several names: its text, or a record with this name and null. -/
def asName {α : Type} (ofName? : String → Option α) : Decoder α
  | text s =>
    match ofName? s with
    | some a => .ok a
    | none => .error .mismatch
  | record members ending =>
    onlyMember (fun name j =>
      match ofName? name with
      | some a => (asNull j).map fun _ => a
      | none => .error .mismatch) members ending
  | _ => .error .malformed

/-- One of several alternatives: a record with one member, which is named for the alternative. -/
def asAlternative {α : Type} (alternative? : String → Option (Decoder α)) : Decoder α
  | text _ => .error .mismatch
  | record members ending =>
    onlyMember (fun name j =>
      match alternative? name with
      | some decode => decode j
      | none => .error .mismatch) members ending
  | _ => .error .malformed

/-! ## Structures -/

/-- A description of a structure by its fields. -/
structure Form (α : Type) where
  /-- The fields in order, with a check of their values. -/
  fields : List (String × Decoder Unit)
  /-- Builds the structure from the values of its fields. -/
  build : List (String × Json) → Except Refusal α

namespace Form

variable {α β : Type}

/-- A check that a decoder accepts a value. -/
def check (decode : Decoder α) : Decoder Unit := fun j => (decode j).map fun _ => ()

/-- A field that has to be given. -/
def required (name : String) (decode : Decoder α) : Form α where
  fields := [(name, check decode)]
  build values :=
    match values.lookup name with
    | some j => decode j
    | none => .error .mismatch

/-- A field that may be left out. -/
def optional (name : String) (default : α) (decode : Decoder α) : Form α where
  fields := [(name, check decode)]
  build values :=
    match values.lookup name with
    | some j => decode j
    | none => .ok default

/-- Fields after fields. -/
instance : Applicative Form where
  pure a := ⟨[], fun _ => .ok a⟩
  seq f x :=
    ⟨f.fields ++ (x ()).fields, fun values => do
      let g ← f.build values
      let a ← (x ()).build values
      return g a⟩

/-- The values of fields among members. -/
def ofMembers (fields : List (String × Decoder Unit)) (seen : List (String × Json)) :
    List (String × Json) → Except Refusal (List (String × Json))
  | [] => .ok seen
  | (name, j) :: ms =>
    match fields.lookup name with
    | some check =>
      if (seen.lookup name).isSome then .error .mismatch
      else do
        check j
        ofMembers fields ((name, j) :: seen) ms
    | none => if j.isSkippable then ofMembers fields seen ms else .error .malformed

/-- The values of fields in order.  Too many items are an objection to the text. -/
def ofItems : List (String × Decoder Unit) → List Json → Except Refusal (List (String × Json))
  | _, [] => .ok []
  | [], _ :: _ => .error .malformed
  | (name, check) :: fields, j :: js => do
    check j
    return (name, j) :: (← ofItems fields js)

/-- Reads a structure. -/
def read (form : Form α) : Decoder α
  | record members ending => do
    let values ← ofMembers form.fields [] members
    atEnd (ending.isWhole false)
    form.build values
  | list items closed => do
    let values ← ofItems form.fields items
    atEnd closed
    form.build values
  | j => .error j.unexpected

end Form

end StatRollup.Json
