import LuaBytecode.Constant.Basic
import LuaBytecode.Instruction.Word
import LuaBytecode.Number.Layout
import LuaBytecode.Text.Quoted

/-!
# Diagnostic texts

The form values have in messages to whoever maintains a program: the kind of the value and its
content, exact and unambiguous, in one line.
-/

namespace LuaBytecode

namespace Diagnostic

/-- A diagnostic writes floats with the fewest digits that read back, a tie going up; from a
ten-thousandth up to sixteen digits in front of the point they have no exponent part. -/
def floatLayout : Layout where
  lowest := -4
  highest := 15
  plusSign := false
  exponentWidth := 1

def float (x : Binary64) : String :=
  if x.isFinite then String.ofList (floatLayout.writeFinite (Decimal.shortest .up) x)
  else if x.isNaN then "NaN"
  else if x.isNegative then "-inf"
  else "inf"

/-- What stands for a character of a string: a control character without a letter of its own is its
number in hexadecimal between braces. -/
def escape (c : Char) : List Char :=
  match c with
  | '"' => ['\\', '"']
  | '\\' => ['\\', '\\']
  | '\n' => ['\\', 'n']
  | '\r' => ['\\', 'r']
  | '\t' => ['\\', 't']
  | '\x00' => ['\\', '0']
  | c =>
      if isControl c then '\\' :: 'u' :: '\x7b' :: Nat.toDigits 16 c.toNat ++ ['\x7d']
      else [c]

/-- A byte string, as the text it encodes, between quotes. -/
def string (bytes : Bytes) : String :=
  String.ofList ('"' :: (Utf8.lossy bytes).toList.flatMap escape ++ ['"'])

def flag (value : Bool) : String := if value then "true" else "false"

/-- A kind with its content. -/
def tagged (kind content : String) : String := kind ++ "(" ++ content ++ ")"

/-- A kind with named fields. -/
def record (kind : String) (fields : List (String × String)) : String :=
  let field (f : String × String) : String := f.1 ++ ": " ++ f.2
  kind ++ " \x7b " ++ ", ".intercalate (fields.map field) ++ " \x7d"

def register (a : UInt8) : String := tagged "Register" (toString a.toNat)

end Diagnostic

open Diagnostic

/-- The diagnostic text of a constant. -/
def Constant.diagnostic : Constant → String
  | .nil => "Nil"
  | .boolean value => tagged "Boolean" (flag value)
  | .float value => tagged "Float" (Diagnostic.float value)
  | .integer value => tagged "Integer" (toString value.toInt)
  | .string bytes => tagged "String" (Diagnostic.string bytes)

/-- The diagnostic text of operands. -/
def Operands.diagnostic : Operands → String
  | .abc a k b c =>
      record "Abc" [("a", register a), ("k", flag k), ("b", toString b.toNat),
        ("c", toString c.toNat)]
  | .abx a bx => record "Abx" [("a", register a), ("bx", toString bx.toNat)]
  | .asbx a sbx => record "AsBx" [("a", register a), ("sbx", toString sbx.toInt)]
  | .ax field => record "Ax" [("ax", toString field.toNat)]
  | .sj offset => record "Sj" [("sj", tagged "JumpOffset" (toString offset.toInt))]

/-- The diagnostic text of an instruction; a word without a known opcode is shown as it is. -/
def Instruction.diagnostic (i : Instruction) : String :=
  tagged "Instruction" <|
    match i.opcode with
    | .ok op => op.name ++ " " ++ (i.operands op.mode).diagnostic
    | .error _ => "0x" ++ String.ofList (hexadecimal 8 i.word.toNat)

end LuaBytecode
