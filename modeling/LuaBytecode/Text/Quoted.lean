import LuaBytecode.Text.Utf8

/-!
# Quoted byte strings

The text a string constant has in a listing: its characters between double quotes.  The quote, the
backslash and the usual layout characters have escapes of one letter; any other control character
is a backslash and its number in decimal, and so is each byte that encodes no character.  What is
between the quotes therefore holds no control character and no bare quote, whatever the bytes.
-/

namespace LuaBytecode

/-- The control characters of Unicode: the first thirty-two, and `U+007F` to `U+009F`. -/
def isControl (c : Char) : Bool := c.toNat < 0x20 || 0x7F ≤ c.toNat && c.toNat < 0xA0

namespace Quoted

/-- A backslash and a number in decimal. -/
def numeric (n : Nat) : List Char := '\\' :: Nat.toDigits 10 n

/-- What stands for a character between quotes. -/
def escape (c : Char) : List Char :=
  match c with
  | '"' => ['\\', '"']
  | '\\' => ['\\', '\\']
  | '\n' => ['\\', 'n']
  | '\r' => ['\\', 'r']
  | '\t' => ['\\', 't']
  | c => if isControl c then numeric c.toNat else [c]

/-- What stands for a part of a byte string between quotes. -/
def piece : Utf8.Piece → List Char
  | .char c => escape c
  | .invalid bytes => bytes.flatMap fun b => numeric b.toNat

/-- A byte string between quotes. -/
def encode (bytes : Bytes) : List Char :=
  '"' :: (Utf8.pieces bytes).flatMap piece ++ ['"']

end Quoted

end LuaBytecode
