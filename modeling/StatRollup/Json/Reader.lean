import StatRollup.Bytes.Hex
import StatRollup.Json.Basic
/-!
# Reading JSON

The grammar of RFC 8259.  Reading goes on as long as the text is well formed, and marks the place
where it stops.  A function for a part of the grammar gives what it read and the rest of the text,
or no rest when reading stopped.
-/
namespace StatRollup.Json

/-- The rest of a text, if reading can go on. -/
abbrev Rest := Option (List Char)

/-- Whether a character may stand between values. -/
def isSpace (c : Char) : Bool := c == ' ' || c == '\n' || c == '\t' || c == '\r'

/-- Drops characters that may stand between values. -/
def skipSpace (cs : List Char) : List Char := cs.dropWhile isSpace

/-! ## Numbers -/

/-- The number that decimal digits stand for. -/
def ofDigits (cs : List Char) : Nat := cs.foldl (fun n c => 10 * n + (c.toNat - 48)) 0

/-- Digits from the beginning of a text, and the rest. -/
def digits (cs : List Char) : List Char × List Char := cs.span Char.isDigit

/-- Reads an integer part: a zero alone, or digits that do not start with zero. -/
def integerPart (cs : List Char) : Option (List Char × List Char) :=
  match digits cs with
  | ([], _) => none
  | ('0' :: _ :: _, _) => none
  | (ds, rest) => some (ds, rest)

/-- Reads a fraction, if there is one. -/
def fraction : List Char → Option (List Char × List Char)
  | '.' :: cs =>
    match digits cs with
    | ([], _) => none
    | (ds, rest) => some (ds, rest)
  | cs => some ([], cs)

/-- Reads the sign and the digits of an exponent. -/
def signedDigits (negative : Bool) (cs : List Char) : Option (Int × List Char) :=
  match digits cs with
  | ([], _) => none
  | (ds, rest) => some (if negative then -(ofDigits ds : Int) else ofDigits ds, rest)

/-- Reads an exponent, if there is one. -/
def exponent : List Char → Option (Option Int × List Char)
  | c :: cs =>
    if c = 'e' ∨ c = 'E' then
      (match cs with
        | '+' :: cs => signedDigits false cs
        | '-' :: cs => signedDigits true cs
        | cs => signedDigits false cs).map fun (e, rest) => (some e, rest)
    else some (none, c :: cs)
  | [] => some (none, [])

/-- Powers of ten beyond which every number is infinite or zero. -/
def widestExponent : Int := 400

/-- The number nearest to digits times a power of ten, if it is finite.  Digits without leading
zeros tell how large the number is, so that no huge power is computed. -/
def nearest (digits : List Char) (power : Int) : Option Float :=
  let significant := digits.dropWhile (· == '0')
  if significant.isEmpty then some 0
  else if widestExponent < power + significant.length then none
  else if power + significant.length < -widestExponent then some 0
  else
    let x := Float.ofScientific (ofDigits significant) (decide (power < 0)) power.natAbs
    if x.isFinite then some x else none

/-- A number with a sign. -/
def signed (negative : Bool) (x : Float) : Float := if negative then -x else x

/-- The value of a number: whole numbers stay exact as long as they fit 64 bits. -/
def numberOf (negative : Bool) (whole frac : List Char) (power? : Option Int) : Json :=
  let n := ofDigits whole
  let exact := frac.isEmpty && power?.isNone
  if exact ∧ negative = false ∧ n < 2 ^ 64 then int n
  else if exact ∧ negative = true ∧ 0 < n ∧ n ≤ 2 ^ 63 then int (-n)
  else
    match nearest (whole ++ frac) (power?.getD 0 - frac.length) with
    | some x => real (signed negative x)
    | none => unreadable

/-- Reads a number without its sign. -/
def unsignedNumber (negative : Bool) (cs : List Char) : Json × Rest :=
  match integerPart cs with
  | none => (broken, none)
  | some (whole, cs) =>
    match fraction cs with
    | none => (broken, none)
    | some (frac, cs) =>
      match exponent cs with
      | none => (broken, none)
      | some (power?, cs) => (numberOf negative whole frac power?, some cs)

/-- Reads a number. -/
def number : List Char → Json × Rest
  | '-' :: cs => unsignedNumber true cs
  | cs => unsignedNumber false cs

/-! ## Texts -/

/-- A character of a text, or a unit of 16 bits that was written by its number. -/
inductive Piece where
  /-- A character. -/
  | char (c : Char)
  /-- A unit. -/
  | unit (n : Nat)
  deriving DecidableEq, Repr

/-- The unit of four hexadecimal digits. -/
def unit? (a b c d : Char) : Option Piece :=
  match Bytes.hexValue? a, Bytes.hexValue? b, Bytes.hexValue? c, Bytes.hexValue? d with
  | some a, some b, some c, some d => some (.unit (4096 * a + 256 * b + 16 * c + d))
  | _, _, _, _ => none

/-- The character that a letter after a backslash stands for. -/
def escape? : Char → Option Char
  | '"' => some '"'
  | '\\' => some '\\'
  | '/' => some '/'
  | 'b' => some '\x08'
  | 'f' => some '\x0c'
  | 'n' => some '\n'
  | 'r' => some '\r'
  | 't' => some '\t'
  | _ => none

/-- Reads the pieces of a text up to its closing quote, and gives what follows. -/
def pieces : List Char → Option (List Piece × List Char)
  | [] => none
  | '"' :: cs => some ([], cs)
  | '\\' :: 'u' :: a :: b :: c :: d :: cs =>
    match unit? a b c d, pieces cs with
    | some p, some (ps, rest) => some (p :: ps, rest)
    | _, _ => none
  | '\\' :: e :: cs =>
    match escape? e, pieces cs with
    | some c, some (ps, rest) => some (.char c :: ps, rest)
    | _, _ => none
  | c :: cs =>
    if c.toNat < 32 then none
    else (pieces cs).map fun (ps, rest) => (.char c :: ps, rest)

/-- Whether a unit is the first of a pair. -/
def isHigh (n : Nat) : Bool := decide (0xD800 ≤ n ∧ n < 0xDC00)

/-- Whether a unit is the second of a pair. -/
def isLow (n : Nat) : Bool := decide (0xDC00 ≤ n ∧ n < 0xE000)

/-- The characters of pieces, if all units that belong to pairs are paired. -/
def chars? : List Piece → Option (List Char)
  | [] => some []
  | .char c :: ps => (chars? ps).map (c :: ·)
  | .unit n :: .unit m :: ps =>
    if isHigh n ∧ isLow m then
      (chars? ps).map (Char.ofNat (0x10000 + 0x400 * (n - 0xD800) + (m - 0xDC00)) :: ·)
    else if isHigh n ∨ isLow n then none
    else (chars? (.unit m :: ps)).map (Char.ofNat n :: ·)
  | .unit n :: ps =>
    if isHigh n ∨ isLow n then none else (chars? ps).map (Char.ofNat n :: ·)

/-- Reads a text after its opening quote. -/
def quoted (cs : List Char) : Json × Rest :=
  match pieces cs with
  | none => (broken, none)
  | some (ps, rest) =>
    match chars? ps with
    | some cs => (text (String.ofList cs), some rest)
    | none => (unreadable, some rest)

/-! ## Values -/

/-- Reads a given word. -/
def word (w : String) (value : Json) (cs : List Char) : Json × Rest :=
  if w.toList.isPrefixOf cs then (value, some (cs.drop w.length)) else (broken, none)

/-- How many lists and records within each other can be read.  Those that lie deeper can only be
skipped. -/
def deepest : Nat := 127

/-- A list or record inside of `depth` others, with what follows it. -/
def atDepth (depth : Nat) (j : Json) (rest : Rest) : Json × Rest :=
  if depth < deepest then (j, rest)
  else (if rest.isSome then unreadable else broken, rest)

/-- Members of a record, how they end, and what follows the record. -/
abbrev Members := List (String × Json) × Ending × Rest

/-- A member before others.  One whose name is not a text hides itself and all others. -/
def Members.cons (name j : Json) : Members → Members
  | (ms, ending, rest) =>
    match name with
    | text name => ((name, j) :: ms, ending, rest)
    | _ => ([], if rest.isSome then .obscured else .cut, rest)

/-- No members, since reading stopped. -/
def Members.stop : Members := ([], .cut, none)

mutual

/-- Reads a value inside of `depth` lists and records, with at most `fuel` characters. -/
def value : Nat → Nat → List Char → Json × Rest
  | 0, _, _ => (broken, none)
  | fuel + 1, depth, cs =>
    match skipSpace cs with
    | 'n' :: cs => word "ull" null cs
    | 't' :: cs => word "rue" (bool true) cs
    | 'f' :: cs => word "alse" (bool false) cs
    | '"' :: cs => quoted cs
    | '[' :: cs =>
      match skipSpace cs with
      | ']' :: rest => atDepth depth (list [] true) (some rest)
      | cs =>
        let (js, rest) := items fuel (depth + 1) cs
        atDepth depth (list js rest.isSome) rest
    | '\x7b' :: cs =>
      match skipSpace cs with
      | '\x7d' :: rest => atDepth depth (record [] .closed) (some rest)
      | cs =>
        let (ms, ending, rest) := members fuel (depth + 1) cs
        atDepth depth (record ms ending) rest
    | cs => number cs

/-- Reads the items of a list, up to the bracket that closes it. -/
def items : Nat → Nat → List Char → List Json × Rest
  | 0, _, _ => ([], none)
  | fuel + 1, depth, cs =>
    match value fuel depth cs with
    | (j, none) => ([j], none)
    | (j, some cs) =>
      match skipSpace cs with
      | ']' :: rest => ([j], some rest)
      | ',' :: cs => let (js, rest) := items fuel depth cs; (j :: js, rest)
      | _ => ([j], none)

/-- Reads the members of a record, up to the brace that closes it. -/
def members : Nat → Nat → List Char → Members
  | 0, _, _ => .stop
  | fuel + 1, depth, cs =>
    match skipSpace cs with
    | '"' :: cs =>
      match quoted cs with
      | (_, none) => .stop
      | (name, some cs) =>
        match skipSpace cs with
        | ':' :: cs =>
          match value fuel depth cs with
          | (j, none) => .cons name j .stop
          | (j, some cs) =>
            match skipSpace cs with
            | '\x7d' :: rest => .cons name j ([], .closed, some rest)
            | ',' :: cs => .cons name j (members fuel depth cs)
            | _ => .cons name j .stop
        | _ => .cons name broken .stop
    | _ => .stop

end

/-- The value at the beginning of a text. -/
def ofText (s : String) : Json := (value (s.length + 1) 0 s.toList).1

/-! ## Examples -/

example : (ofText "[1, -2]" matches .list [.int 1, .int (-2)] true) = true := by decide +kernel
example : (ofText "[1, ]" matches .list [.int 1, .broken] false) = true := by decide +kernel
/-- A name that is not Unicode hides the members from there on. -/
example : (ofText "\x7b\"\\ud800\": [1]\x7d" matches .record [] .obscured) = true := by
  decide +kernel
/-- A zero is not followed by digits. -/
example : (ofText "01" matches .broken) = true := by decide +kernel
/-- A pair of units is one character. -/
example : (ofText "\"\\ud83d\\ude00\"" matches .text "😀") = true := by decide +kernel
example : (ofText "\"\\ud83d\"" matches .unreadable) = true := by decide +kernel

end StatRollup.Json
