import LuaBytecode.Document
import LuaBytecode.Prototype.Walk

/-!
# Summaries

What a chunk holds in numbers: totals over all functions of the tree, and a line for each function,
each before those nested in it.  A summary is written as text or as a JSON document; the document
may hold the main function in full.
-/

namespace LuaBytecode

/-- The figures of one function. -/
structure FunctionSummary where
  source : String
  firstLine : Nat
  lastLine : Nat
  instructions : Nat
  constants : Nat
  upvalues : Nat
  nested : Nat
  deriving DecidableEq, Repr

/-- The figures of a chunk. -/
structure Summary where
  source : String
  functions : List FunctionSummary
  maxDepth : Nat
  /-- No function knows the lines of its instructions. -/
  isStripped : Bool
  deriving DecidableEq, Repr

namespace FunctionSummary

def ofPrototype (p : Prototype) : FunctionSummary where
  source := Utf8.lossy p.source
  firstLine := p.firstLine.toNat
  lastLine := p.lastLine.toNat
  instructions := p.code.length
  constants := p.constants.length
  upvalues := p.upvalues.length
  nested := p.children.length

/-- The line of a function. -/
def text (f : FunctionSummary) : String :=
  s!"  <{f.source}:{f.firstLine},{f.lastLine}>  {f.instructions} instructions, " ++
  s!"{f.constants} constants, {f.upvalues} upvalues, {f.nested} nested\n"

def document (f : FunctionSummary) : Json :=
  .object [("source", .string f.source), ("line_defined", .nat f.firstLine),
    ("last_line_defined", .nat f.lastLine), ("instructions", .nat f.instructions),
    ("constants", .nat f.constants), ("upvalues", .nat f.upvalues), ("nested", .nat f.nested)]

end FunctionSummary

namespace Summary

def ofPrototype (main : Prototype) : Summary where
  source := Utf8.lossy main.source
  functions := main.descendants.map FunctionSummary.ofPrototype
  maxDepth := main.nestingDepth
  isStripped := main.descendants.all (·.lineDeltas.isEmpty)

/-- How many instructions all functions have. -/
def instructions (s : Summary) : Nat := s.functions.foldr (·.instructions + ·) 0

/-- How many constants all functions have. -/
def constants (s : Summary) : Nat := s.functions.foldr (·.constants + ·) 0

def text (s : Summary) : String :=
  let lines := if s.isStripped then "stripped" else "present"
  s!"Source:        {s.source}\n" ++
  s!"Functions:     {s.functions.length}\n" ++
  s!"Instructions:  {s.instructions}\n" ++
  s!"Constants:     {s.constants}\n" ++
  s!"Max depth:     {s.maxDepth}\n" ++
  s!"Debug info:    {lines}\n" ++
  "\nFunctions:\n" ++
  String.join (s.functions.map FunctionSummary.text)

/-- The summary as a document, with the main function behind it if it is given. -/
def document (s : Summary) (main : Option Prototype) : Json :=
  .object <|
    [("source", .string s.source), ("functions", .nat s.functions.length),
     ("instructions", .nat s.instructions), ("constants", .nat s.constants),
     ("max_depth", .nat s.maxDepth), ("stripped", .bool s.isStripped),
     ("function_list", .array (s.functions.map FunctionSummary.document))] ++
    (main.map fun p => ("main", p.document)).toList

end Summary

end LuaBytecode
