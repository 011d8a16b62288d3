import LuaBytecode.Command.Run
import Mathlib.Algebra.GroupWithZero.Nat

/-!
# What there is to tell of a chunk

The figures of a tree and how they are to be told, by recursion on the tree and without the walks
that collect them: as the beginning of a block, as a text, and as a document.
-/

namespace LuaBytecode

namespace Prototype

/-- How many instructions the functions of a tree have. -/
def totalCode (main : Prototype) : Nat := (main.preorder.map (·.code.length)).sum

/-- How many constants they have. -/
def totalConstants (main : Prototype) : Nat := (main.preorder.map (·.constants.length)).sum

/-- None of them knows a line. -/
def Stripped (main : Prototype) : Prop := ∀ p ∈ main.preorder, p.lineDeltas = []

instance (main : Prototype) : Decidable main.Stripped :=
  inferInstanceAs (Decidable (∀ p ∈ main.preorder, p.lineDeltas = []))

/-- How the block of a function begins: behind a blank line what it is and where it was written, and
then its figures. -/
def blockStart (p : Prototype) : String :=
  let kind := if p.firstLine = 0 then "main" else "function"
  let vararg := if p.isVararg then "+" else ""
  s!"\n{kind} <{Listing.sourceName p.source}:{p.firstLine.toNat},{p.lastLine.toNat}> " ++
  s!"({p.code.length} instructions)\n" ++
  s!"{p.paramCount.toNat}{vararg} params, {p.stackSize.toNat} slots, " ++
  s!"{p.upvalues.length} upvalues, {p.localVars.length} locals, " ++
  s!"{p.constants.length} constants, {p.children.length} functions\n"

/-- The line of a function in the account of a tree. -/
def accountLine (p : Prototype) : String :=
  s!"  <{Utf8.lossy p.source}:{p.firstLine.toNat},{p.lastLine.toNat}>  " ++
  s!"{p.code.length} instructions, {p.constants.length} constants, " ++
  s!"{p.upvalues.length} upvalues, {p.children.length} nested\n"

/-- The account of a tree as a text. -/
def accountText (main : Prototype) : String :=
  let lines := if main.Stripped then "stripped" else "present"
  s!"Source:        {Utf8.lossy main.source}\n" ++
  s!"Functions:     {main.functionCount}\n" ++
  s!"Instructions:  {main.totalCode}\n" ++
  s!"Constants:     {main.totalConstants}\n" ++
  s!"Max depth:     {main.height}\n" ++
  s!"Debug info:    {lines}\n" ++
  "\nFunctions:\n" ++
  String.join (main.preorder.map accountLine)

/-- A function in the account of a tree as a document. -/
def accountEntry (p : Prototype) : Json :=
  .object
    [("source", .string (Utf8.lossy p.source)), ("line_defined", .integer p.firstLine.toNat),
     ("last_line_defined", .integer p.lastLine.toNat), ("instructions", .integer p.code.length),
     ("constants", .integer p.constants.length), ("upvalues", .integer p.upvalues.length),
     ("nested", .integer p.children.length)]

/-- The account of a tree as a document, with the main function in full if that is asked for. -/
def accountDocument (main : Prototype) (full : Bool) : Json :=
  .object <|
    [("source", .string (Utf8.lossy main.source)), ("functions", .integer main.functionCount),
     ("instructions", .integer main.totalCode), ("constants", .integer main.totalConstants),
     ("max_depth", .integer main.height), ("stripped", .bool main.Stripped),
     ("function_list", .array (main.preorder.map accountEntry))] ++
    if full then [("main", main.document)] else []

end Prototype

namespace Listing

/-- How many blank lines a text has; `fresh` says that it goes on at the start of a line. -/
def blankLinesFrom : (fresh : Bool) → List Char → Nat
  | _, [] => 0
  | fresh, c :: cs =>
      (if fresh && c = '\n' then 1 else 0) + blankLinesFrom (c = '\n') cs

/-- How many blank lines a text has. -/
def blankLines (text : String) : Nat := blankLinesFrom true text.toList

end Listing

namespace Command

/-- The bytes that a path leads to, if they can be read. -/
def contentOf? (site : Site) (stdin : ByteStream) (path : String) : Option Bytes :=
  if path = "-" then stdin.collect.toOption else (site.readFile path).toOption

end Command

end LuaBytecode
