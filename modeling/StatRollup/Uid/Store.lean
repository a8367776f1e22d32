import StatRollup.Uid.Codec
/-!
# Stores of identifiers

A store keeps a forward table from names to identifiers, a reverse table from identifiers to
names, and a sequence.  It is spoken to in single requests, each answered at once or refused.
Mapping a name (`claim`) is the one request that must look and write in one step: it is where
racing creators of a name meet.
-/
namespace StatRollup

namespace Uid

/-- One request to a store. -/
inductive Request where
  /-- The identifier of a name. -/
  | idOf (name : String)
  /-- The name of an identifier. -/
  | nameOf (id : Uid)
  /-- Advance the sequence and tell its new value. -/
  | advance
  /-- Write the name of an identifier. -/
  | putName (id : Uid) (name : String)
  /-- Remove the name of an identifier. -/
  | dropName (id : Uid)
  /-- Map a name to an identifier unless it is mapped, and tell what it is mapped to. -/
  | claim (name : String) (id : Uid)
  /-- Every forward mapping. -/
  | listAll
  deriving DecidableEq, Repr

namespace Request

/-- What a request is answered with. -/
abbrev Answer : Request → Type
  | idOf _ => Option Uid
  | nameOf _ => Option String
  | advance => UInt64
  | putName .. => Unit
  | dropName _ => Unit
  | claim .. => Uid
  | listAll => List (String × Uid)

/-- The kinds of request. -/
inductive Verb where
  /-- See `Request.idOf`. -/
  | idOf
  /-- See `Request.nameOf`. -/
  | nameOf
  /-- See `Request.advance`. -/
  | advance
  /-- See `Request.putName`. -/
  | putName
  /-- See `Request.dropName`. -/
  | dropName
  /-- See `Request.claim`. -/
  | claim
  /-- See `Request.listAll`. -/
  | listAll
  deriving DecidableEq, Repr

namespace Verb

/-- Every kind of request. -/
def all : List Verb := [idOf, nameOf, advance, putName, dropName, claim, listAll]

/-- The word for a kind of request in logs. -/
def word : Verb → String
  | idOf => "get_id"
  | nameOf => "get_name"
  | advance => "next_sequence"
  | putName => "put_reverse"
  | dropName => "delete_reverse"
  | claim => "create_forward_if_absent"
  | listAll => "load_all"

end Verb

/-- The kind of a request. -/
def verb : Request → Verb
  | idOf _ => .idOf
  | nameOf _ => .nameOf
  | advance => .advance
  | putName .. => .putName
  | dropName _ => .dropName
  | claim .. => .claim
  | listAll => .listAll

/-- What a request is about, as text. -/
def subject : Request → String
  | idOf name => name
  | nameOf id => id.text
  | advance => ""
  | putName id name => s!"{id.text} {name}"
  | dropName id => id.text
  | claim name id => s!"{name} {id.text}"
  | listAll => ""

/-- The line of a request in a log. -/
def line (r : Request) : String := s!"{r.verb.word} {r.subject}"

end Request

/-- A kind of store: it holds identifiers of one width and answers requests. -/
class Store (σ : Type) where
  /-- The width of all identifiers. -/
  width : σ → Nat
  /-- Answers one request. -/
  perform : σ → (r : Request) → Except Fault r.Answer × σ

end Uid

end StatRollup
