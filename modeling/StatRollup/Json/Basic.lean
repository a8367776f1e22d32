import StatRollup.Powers
/-!
# JSON values

A value as it is read from a text, also from one that is not well formed.  What cannot be read is
kept in its place: a reader of documents then meets the faults of a text and the faults of its
content in the order in which they stand in the text.
-/
namespace StatRollup

/-- How reading the members of a record came to an end. -/
inductive Ending where
  /-- At the closing brace. -/
  | closed
  /-- At a member whose name is not Unicode; the record can be skipped up to its closing brace. -/
  | obscured
  /-- Before the closing brace. -/
  | cut
  deriving DecidableEq, Repr, Inhabited

/-- Whether nothing is missing.  What is only skipped need not be read. -/
def Ending.isWhole (skipping : Bool) : Ending → Bool
  | closed => true
  | obscured => skipping
  | cut => false

/-- A JSON value, possibly incomplete. -/
inductive Json where
  /-- The word `null`. -/
  | null
  /-- One of the words `true` and `false`. -/
  | bool (b : Bool)
  /-- A number without fraction and exponent that fits 64 bits, signed or unsigned. -/
  | int (n : Int)
  /-- Any other number. -/
  | real (x : Float)
  /-- A text. -/
  | text (s : String)
  /-- Items in brackets; `closed` tells whether the closing bracket was reached. -/
  | list (items : List Json) (closed : Bool)
  /-- Members in braces, as far as they were read. -/
  | record (members : List (String × Json)) (ending : Ending)
  /-- A number that is too large, a text that is not Unicode, or a list or record that lies too
  deep; what follows it can be read. -/
  | unreadable
  /-- Not a value; what follows cannot be read. -/
  | broken
  deriving Repr, Inhabited

namespace Json

/-- A complete list. -/
def listOf (items : List Json) : Json := list items true

/-- A complete record. -/
def recordOf (members : List (String × Json)) : Json := record members .closed

/-- A natural number. -/
def nat (n : Nat) : Json := int n

/-- A number, or null when it is not finite. -/
def finite (x : Float) : Json := if x.isFinite then real x else null

/-- A value, or null when there is none. -/
def orNull (value? : Option Json) : Json := value?.getD null

/-- The member of a record; the last one of a name counts. -/
def member? (name : String) : Json → Option Json
  | record members _ => members.reverse.lookup name
  | _ => none

/-! ## Whole values -/

mutual

/-- Whether a value is complete.  To skip it, it need not be readable. -/
def isWhole (skipping : Bool) : Json → Bool
  | list items closed => areWhole skipping items && closed
  | record members ending => haveWhole skipping members && ending.isWhole skipping
  | unreadable => skipping
  | broken => false
  | _ => true

/-- Whether all items are complete. -/
def areWhole (skipping : Bool) : List Json → Bool
  | [] => true
  | j :: js => j.isWhole skipping && areWhole skipping js

/-- Whether all members are complete. -/
def haveWhole (skipping : Bool) : List (String × Json) → Bool
  | [] => true
  | (_, j) :: ms => j.isWhole skipping && haveWhole skipping ms

end

/-- Whether a value can be skipped. -/
def isSkippable (j : Json) : Bool := j.isWhole true

/-- Whether all of a value can be read. -/
def isReadable (j : Json) : Bool := j.isWhole false

/-! ## Members in order -/

/-- Adds or replaces a member in a list that is sorted by names. -/
def place (name : String) (value : Json) : List (String × Json) → List (String × Json)
  | [] => [(name, value)]
  | (n, v) :: ms =>
    if name < n then (name, value) :: (n, v) :: ms
    else if name = n then (name, value) :: ms
    else (n, v) :: place name value ms

mutual

/-- The same value with the members of all records sorted by name, the last one of a name alone. -/
def canonical : Json → Json
  | list items closed => list (canonicalItems items) closed
  | record members ending => record (canonicalMembers members []) ending
  | j => j

/-- Items one by one. -/
def canonicalItems : List Json → List Json
  | [] => []
  | j :: js => j.canonical :: canonicalItems js

/-- Members placed among sorted ones. -/
def canonicalMembers : List (String × Json) → List (String × Json) → List (String × Json)
  | [], sorted => sorted
  | (name, j) :: ms, sorted => canonicalMembers ms (place name j.canonical sorted)

end

mutual

/-- The same value with every number that has a fraction replaced. -/
def mapReals (f : Float → Json) : Json → Json
  | real x => f x
  | list items closed => list (mapItems f items) closed
  | record members ending => record (mapMembers f members) ending
  | j => j

/-- Items one by one. -/
def mapItems (f : Float → Json) : List Json → List Json
  | [] => []
  | j :: js => j.mapReals f :: mapItems f js

/-- Members one by one. -/
def mapMembers (f : Float → Json) : List (String × Json) → List (String × Json)
  | [] => []
  | (name, j) :: ms => (name, j.mapReals f) :: mapMembers f ms

end

end Json

end StatRollup
