import LuaBytecode.Number.Layout

/-!
# JSON text

Documents as values, and two ways to write them: on one line without blanks, and spread over lines
with two blanks for each level.  The members of an object are written in the order they are given.
Only what has to be escaped in a string is escaped, so text in any script stays readable.
-/

namespace LuaBytecode

/-- A JSON document.  A float that is no number has no text in JSON and is written as `null`. -/
inductive Json where
  | null
  | bool (value : Bool)
  | integer (value : Int)
  | float (value : Binary64)
  | string (text : String)
  | array (items : List Json)
  | object (members : List (String × Json))
  deriving Inhabited

namespace Json

/-- A natural number. -/
def nat (n : Nat) : Json := .integer n

/-- Floats in a document have the fewest digits that read back, a tie going to the even digit; from
a hundred-thousandth up to sixteen digits in front of the point they have no exponent part. -/
def floatLayout : Layout where
  lowest := -5
  highest := 15
  plusSign := true
  exponentWidth := 1

/-- A float. -/
def floatText (x : Binary64) : String :=
  if x.isFinite then String.ofList (floatLayout.writeFinite (Decimal.shortest .toEven) x)
  else "null"

/-- What stands for a character in a string. -/
def escape (c : Char) : List Char :=
  match c with
  | '"' => ['\\', '"']
  | '\\' => ['\\', '\\']
  | '\x08' => ['\\', 'b']
  | '\t' => ['\\', 't']
  | '\n' => ['\\', 'n']
  | '\x0c' => ['\\', 'f']
  | '\r' => ['\\', 'r']
  | c =>
      if c.toNat < 0x20 then
        let digit (n : Nat) := Nat.digitChar (n % 16)
        ['\\', 'u', '0', '0', digit (c.toNat / 16), digit c.toNat]
      else [c]

/-- A string between quotes. -/
def quote (text : String) : String :=
  String.ofList ('"' :: text.toList.flatMap escape ++ ['"'])

/-- The start of a line at a level. -/
def indent (level : Nat) : String := String.ofList ('\n' :: List.replicate (2 * level) ' ')

/-- What separates the parts of a document. -/
inductive Spacing where
  /-- Nothing at all. -/
  | compact
  /-- Lines, of which the current one is at this level. -/
  | lines (level : Nat)

namespace Spacing

/-- The spacing one level further in. -/
def inner : Spacing → Spacing
  | .compact => .compact
  | .lines level => .lines (level + 1)

/-- In front of a part. -/
def start : Spacing → String
  | .compact => ""
  | .lines level => indent level

/-- Between the name of a member and its value. -/
def colon : Spacing → String
  | .compact => ":"
  | .lines _ => ": "

end Spacing

mutual

/-- Writes a document behind a text. -/
def write (out : String) (spacing : Spacing) : Json → String
  | .null => out ++ "null"
  | .bool value => out ++ if value then "true" else "false"
  | .integer value => out ++ toString value
  | .float value => out ++ floatText value
  | .string text => out ++ quote text
  | .array [] => out ++ "[]"
  | .array (item :: items) =>
      let first := write (out ++ "[" ++ spacing.inner.start) spacing.inner item
      writeItems first spacing.inner items ++ spacing.start ++ "]"
  | .object [] => out ++ "\x7b\x7d"
  | .object ((name, value) :: members) =>
      let key := out ++ "\x7b" ++ spacing.inner.start ++ quote name ++ spacing.colon
      let first := write key spacing.inner value
      writeMembers first spacing.inner members ++ spacing.start ++ "\x7d"

/-- Writes further items of an array. -/
def writeItems (out : String) (spacing : Spacing) : List Json → String
  | [] => out
  | item :: items => writeItems (write (out ++ "," ++ spacing.start) spacing item) spacing items

/-- Writes further members of an object. -/
def writeMembers (out : String) (spacing : Spacing) : List (String × Json) → String
  | [] => out
  | (name, value) :: members =>
      let key := out ++ "," ++ spacing.start ++ quote name ++ spacing.colon
      writeMembers (write key spacing value) spacing members

end

/-- A document on one line. -/
def compact (j : Json) : String := write "" .compact j

/-- A document spread over lines. -/
def pretty (j : Json) : String := write "" (.lines 0) j

end Json

end LuaBytecode
