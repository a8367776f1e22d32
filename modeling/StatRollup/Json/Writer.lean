import StatRollup.Bytes.Hex
import StatRollup.Json.Basic
/-!
# Writing JSON

A value is written on one line without blanks.  In texts, quotes, backslashes and control
characters are escaped and nothing else is.
-/
namespace StatRollup.Json

/-- The characters that stand for a character of a text. -/
def escaped (c : Char) : List Char :=
  if c = '"' then ['\\', '"']
  else if c = '\\' then ['\\', '\\']
  else if c = '\x08' then ['\\', 'b']
  else if c = '\x0c' then ['\\', 'f']
  else if c = '\n' then ['\\', 'n']
  else if c = '\r' then ['\\', 'r']
  else if c = '\t' then ['\\', 't']
  else if c.toNat < 32 then
    ['\\', 'u', '0', '0', Bytes.hexDigit (c.toNat / 16), Bytes.hexDigit (c.toNat % 16)]
  else [c]

/-- A text in quotes. -/
def renderText (s : String) : String :=
  String.ofList ('"' :: s.toList.flatMap escaped ++ ['"'])

mutual

/-- The text of a value; `number` writes numbers with a fraction.  What could not be read is
written as null. -/
def render (number : Float → String) : Json → String
  | null => "null"
  | bool true => "true"
  | bool false => "false"
  | int n => toString n
  | real x => number x
  | text s => renderText s
  | list items _ => "[" ++ ",".intercalate (renderItems number items) ++ "]"
  | record members _ => "\x7b" ++ ",".intercalate (renderMembers number members) ++ "\x7d"
  | unreadable => "null"
  | broken => "null"

/-- The texts of items. -/
def renderItems (number : Float → String) : List Json → List String
  | [] => []
  | j :: js => j.render number :: renderItems number js

/-- The texts of members. -/
def renderMembers (number : Float → String) : List (String × Json) → List String
  | [] => []
  | (name, j) :: ms => (renderText name ++ ":" ++ j.render number) :: renderMembers number ms

end

end StatRollup.Json
