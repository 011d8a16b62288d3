import LuaBytecode.Bytes

/-!
# Reading a quoted literal

What a text between double quotes means to Lua: its characters are the bytes of their encoding, and
a backslash starts an escape.  A decimal escape goes on for as long as digits come, up to three of
them, and must fit a byte, so its number is only known when something else follows or the third
digit has come.  That is the one place where the text around an escape matters, and the reason for
the state machine.

The escapes are the decimal ones and those of one letter.  A line break between the quotes, or
behind a backslash, is refused; so are the escapes with a number in hexadecimal.
-/

namespace LuaBytecode

namespace Literal

/-- Where a reader stands. -/
inductive State where
  /-- In front of the literal. -/
  | front
  /-- Between the quotes. -/
  | text
  /-- Behind a backslash. -/
  | escape
  /-- In a decimal escape of this value so far, which may have `room` digits more. -/
  | number (room : Nat) (value : UInt8)
  /-- Behind the literal. -/
  | behind
  deriving DecidableEq, Repr

/-- What an escape of one letter stands for. -/
def letter? : Char → Option UInt8
  | 'a' => some 0x07
  | 'b' => some 0x08
  | 't' => some 0x09
  | 'n' => some 0x0A
  | 'v' => some 0x0B
  | 'f' => some 0x0C
  | 'r' => some 0x0D
  | '"' => some 0x22
  | '\x27' => some 0x27
  | '\\' => some 0x5C
  | _ => none

/-- Reads a character that continues no escape. -/
def readPlain (c : Char) : Option (Bytes × State) :=
  if c = '"' then some ([], .behind)
  else if c = '\\' then some ([], .escape)
  else if c = '\n' ∨ c = '\r' then none
  else some (String.utf8EncodeChar c, .text)

/-- Reads a digit of a decimal escape; the value must fit a byte. -/
def readDigit (room value : Nat) (c : Char) : Option (Bytes × State) :=
  let value := value * 10 + (c.toNat - 0x30)
  if value < 0x100 then some ([], .number room (UInt8.ofNat value)) else none

/-- Reads a character: the bytes that are known then, and where the reader stands. -/
def step (state : State) (c : Char) : Option (Bytes × State) :=
  match state with
  | .front => if c = '"' then some ([], .text) else none
  | .text => readPlain c
  | .escape =>
      if c.isDigit then readDigit 2 0 c else (letter? c).map fun b => ([b], .text)
  | .number room value =>
      if 0 < room ∧ c.isDigit then readDigit (room - 1) value.toNat c
      else (readPlain c).map fun (bytes, next) => (value :: bytes, next)
  | .behind => none

/-- Reads a text: all bytes that are known then, and where the reader stands. -/
def feed : State → List Char → Option (Bytes × State)
  | state, [] => some ([], state)
  | state, c :: rest =>
      (step state c).bind fun (bytes, next) =>
        (feed next rest).map fun (more, last) => (bytes ++ more, last)

/-- The byte string a quoted literal stands for. -/
def read (text : List Char) : Option Bytes :=
  match feed .front text with
  | some (bytes, .behind) => some bytes
  | _ => none

end Literal

end LuaBytecode
