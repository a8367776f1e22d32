/-!
# Media types

A media type is a type and a subtype with a slash between them, and parameters behind semicolons.
A subtype may have a suffix behind its last plus sign.  Case does not matter.
-/
namespace StatRollup.Service

/-- A media type in lower case, without its parameters. -/
structure MediaType where
  /-- The type. -/
  type : String
  /-- The subtype without its suffix. -/
  subtype : String
  /-- The suffix of the subtype. -/
  suffix : Option String
  deriving DecidableEq, Repr

namespace MediaType

/-- The characters besides letters and digits that may stand in names. -/
def marks : List Char := "!#$%&'*+-.^_\x60|~".toList

/-- Whether a character may stand in names. -/
def isToken (c : Char) : Bool := c.isAlphanum || marks.contains c

/-- Whether a character may stand in a quoted value. -/
def isQuotable (c : Char) : Bool := decide (31 < c.toNat ∧ c.toNat < 127 ∧ c ≠ '"')

/-- Drops the name of a parameter and the equals sign behind it. -/
def afterName (cs : List Char) : Option (List Char) :=
  match cs.span isToken with
  | (_ :: _, '=' :: rest) => some rest
  | _ => none

/-- Drops the value of a parameter.  A quoted value has at least one character, which may be a
quote. -/
def afterValue : List Char → Option (List Char)
  | '"' :: c :: cs =>
    match cs.span isQuotable with
    | (_, '"' :: rest) => if isQuotable c ∨ c = '"' then some (rest.dropWhile (· == ' ')) else none
    | _ => none
  | cs =>
    match cs.span isToken with
    | ([], ';' :: _) => none
    | (_, rest) => some rest

/-- Whether a text is a sequence of at most `fuel` parameters. -/
def areParameters : Nat → List Char → Bool
  | 0, _ => false
  | fuel + 1, cs =>
    match cs.dropWhile (· == ' ') with
    | [] => true
    | cs =>
      match (afterName cs).bind afterValue with
      | some [] => true
      | some (';' :: rest) => areParameters fuel rest
      | _ => false

/-- The part before the last plus sign that is not the first character, and the part after it. -/
def cutSuffix (cs : List Char) : List Char × Option (List Char) :=
  match cs.reverse.span (· != '+') with
  | (after, '+' :: before) =>
    if before.isEmpty then (cs, none) else (before.reverse, some after.reverse)
  | _ => (cs, none)

/-- Reads a media type. -/
def ofText? (s : String) : Option MediaType :=
  match s.toList.span isToken with
  | (type@(_ :: _), '/' :: cs) =>
    let (name, rest) := cs.span isToken
    let areFine := match rest with
      | [] => true
      | ';' :: parameters => !name.isEmpty && areParameters (s.length + 1) parameters
      | _ => false
    let lower := fun cs => (String.ofList cs).toLower
    let (subtype, suffix) := cutSuffix name
    if areFine then some ⟨lower type, lower subtype, suffix.map lower⟩ else none
  | _ => none

/-- Whether documents of the type are JSON. -/
def isJson (t : MediaType) : Bool :=
  t.type == "application" && (t.subtype == "json" || t.suffix == some "json")

end MediaType

/-- Whether a header says that a document is JSON. -/
def saysJson (contentType : String) : Bool := (MediaType.ofText? contentType).any MediaType.isJson

/-! ## Examples -/

example : saysJson "Application/Problem+JSON; charset=utf-8" = true := by cbv
example : saysJson "application/json ;charset=utf-8" = false := by cbv
example : saysJson "text/json" = false := by cbv

end StatRollup.Service
