import StatRollup.Bytes.Hex
/-!
# Socket addresses

An address of version 4 is four decimal numbers, one of version 6 is eight hexadecimal groups in
brackets, of which one run of zeros may be left out and the last two may be written like version
4; a socket number follows.  In the written form the longest run of zeros is left out.
-/
namespace StatRollup.Service

/-- Where a service listens. -/
inductive Address where
  /-- Four octets and a socket number. -/
  | v4 (octets : List Nat) (socket : Nat)
  /-- Eight groups of 16 bits, a scope, and a socket number. -/
  | v6 (groups : List Nat) (scope socket : Nat)
  deriving DecidableEq, Repr

namespace Address

/-! ## Reading -/

/-- The number that digits of a radix stand for. -/
def ofDigits (radix : Nat) (cs : List Char) : Nat :=
  cs.foldl (fun n c => radix * n + (Bytes.hexValue? c).getD 0) 0

/-- Whether a character is a digit of a radix. -/
def isDigit (radix : Nat) (c : Char) : Bool := (Bytes.hexValue? c).any (· < radix)

/-- Reads a number below a bound, of at most `longest` digits if there is such a limit. -/
def number (radix bound : Nat) (longest : Option Nat) (zeros : Bool) (cs : List Char) :
    Option (Nat × List Char) :=
  let (ds, rest) := cs.span (isDigit radix)
  let n := ofDigits radix ds
  let isTooLong := longest.any (· < ds.length)
  let hasZeros := !zeros && decide (1 < ds.length) && ds.head? == some '0'
  if ds.isEmpty || isTooLong || hasZeros || decide (bound ≤ n) then none else some (n, rest)

/-- Reads a given character. -/
def char (c : Char) : List Char → Option (List Char)
  | d :: cs => if d = c then some cs else none
  | [] => none

/-- Reads an octet in decimal digits, without superfluous zeros. -/
def octet (cs : List Char) : Option (Nat × List Char) := number 10 256 (some 3) false cs

/-- Reads four octets with points between them. -/
def octets (cs : List Char) : Option (List Nat × List Char) := do
  let (a, cs) ← octet cs
  let (b, cs) ← octet (← char '.' cs)
  let (c, cs) ← octet (← char '.' cs)
  let (d, cs) ← octet (← char '.' cs)
  return ([a, b, c, d], cs)

/-- Reads the colon between two groups. -/
def separator (isFirst : Bool) (cs : List Char) : Option (List Char) :=
  if isFirst then some cs else char ':' cs

/-- Two groups as four octets. -/
def pairOctets : List Nat → List Nat
  | [a, b, c, d] => [256 * a + b, 256 * c + d]
  | _ => []

/-- Reads up to `limit` groups.  The last two may be written as four octets, which the second
component tells. -/
def groups : Nat → Bool → List Char → List Nat × Bool × List Char
  | 0, _, cs => ([], false, cs)
  | limit + 1, isFirst, cs =>
    let four := if limit = 0 then none else (separator isFirst cs).bind octets
    match four with
    | some (os, rest) => (pairOctets os, true, rest)
    | none =>
      match (separator isFirst cs).bind (number 16 65536 (some 4) true) with
      | none => ([], false, cs)
      | some (g, rest) =>
        let (gs, endsInOctets, rest) := groups limit false rest
        (g :: gs, endsInOctets, rest)

/-- Reads eight groups. -/
def eightGroups (cs : List Char) : Option (List Nat × List Char) :=
  match groups 8 true cs with
  | (front, endsInOctets, cs) =>
    if front.length = 8 then some (front, cs)
    else if endsInOctets then none
    else do
      let cs ← char ':' (← char ':' cs)
      let (back, _, cs) := groups (7 - front.length) true cs
      return (front ++ List.replicate (8 - front.length - back.length) 0 ++ back, cs)

/-- Reads a socket number behind its colon. -/
def socketOf (cs : List Char) : Option (Nat × List Char) := do
  number 10 65536 none true (← char ':' cs)

/-- Reads an address of version 4. -/
def v4Of (cs : List Char) : Option (Address × List Char) := do
  let (os, cs) ← octets cs
  let (socket, cs) ← socketOf cs
  return (v4 os socket, cs)

/-- Reads a scope, which is zero when there is none. -/
def scopeOf (cs : List Char) : Nat × List Char :=
  ((char '%' cs).bind (number 10 (2 ^ 32) none true)).getD (0, cs)

/-- Reads an address of version 6. -/
def v6Of (cs : List Char) : Option (Address × List Char) := do
  let (gs, cs) ← eightGroups (← char '[' cs)
  let (scope, cs) := scopeOf cs
  let (socket, cs) ← socketOf (← char ']' cs)
  return (v6 gs scope socket, cs)

/-- Reads an address. -/
def ofText? (s : String) : Option Address :=
  match (v4Of s.toList).orElse fun _ => v6Of s.toList with
  | some (address, []) => some address
  | _ => none

/-! ## Writing -/

/-- The hexadecimal digits of a number, without superfluous zeros. -/
def hexText (n : Nat) : String := String.ofList (Nat.toDigits 16 n)

/-- Numbers with points between them. -/
def dotted (ns : List Nat) : String := ".".intercalate (ns.map toString)

/-- Groups with colons between them. -/
def colons (gs : List Nat) : String := ":".intercalate (gs.map hexText)

/-- How many zeros a list starts with. -/
def zeroRun (gs : List Nat) : Nat := (gs.takeWhile (· == 0)).length

/-- Start and length of the first longest run of zeros. -/
def longestRun (gs : List Nat) : Nat × Nat :=
  (List.range gs.length).foldl
    (fun best i => let run := zeroRun (gs.drop i); if best.2 < run then (i, run) else best) (0, 0)

/-- The text of eight groups. -/
def groupsText (gs : List Nat) : String :=
  match gs with
  | [0, 0, 0, 0, 0, 65535, g, h] => "::ffff:" ++ dotted [g / 256, g % 256, h / 256, h % 256]
  | gs =>
    let (start, length) := longestRun gs
    if 1 < length then colons (gs.take start) ++ "::" ++ colons (gs.drop (start + length))
    else colons gs

/-- The text of an address. -/
def text : Address → String
  | v4 octets socket => s!"{dotted octets}:{socket}"
  | v6 groups scope socket =>
    let scopeText := if scope = 0 then "" else s!"%{scope}"
    s!"[{groupsText groups}{scopeText}]:{socket}"

/-! ## Examples -/

example : (ofText? "127.0.0.1:080") = some (v4 [127, 0, 0, 1] 80) := by decide +kernel
example : (ofText? "127.0.0.01:80") = none := by decide +kernel
example : (ofText? "[1::2:0]:1").map text = some "[1::2:0]:1" := by cbv

end Address

end StatRollup.Service
