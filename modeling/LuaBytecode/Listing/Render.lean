import LuaBytecode.Listing.Note
import LuaBytecode.Prototype.Line
import LuaBytecode.Prototype.Walk

/-!
# Listings

The listing of a chunk is a block for each function of the tree, each function before those nested
in it.  A block is a blank line and two lines of figures, a line for each instruction, and the
tables that are asked for, each with its length in front.
-/

namespace LuaBytecode

/-- Which tables a block has. -/
structure ListingOptions where
  constants : Bool
  localVars : Bool
  upvalues : Bool
  deriving DecidableEq, Repr

/-- All tables. -/
def ListingOptions.all : ListingOptions := ⟨true, true, true⟩

/-- No table. -/
def ListingOptions.codeOnly : ListingOptions := ⟨false, false, false⟩

instance : Inhabited ListingOptions := ⟨.all⟩

namespace Listing

/-- How a source is shown: the name behind its first character if that marks a file or a literal
name; for the text of a program only that it is one. -/
def sourceName : Bytes → String
  | [] => "?"
  | b :: rest =>
      if b = 0x40 ∨ b = 0x3D then Utf8.lossy rest
      else if b = 0x1B then "(bstring)"
      else "(string)"

/-- The blank line and the two lines of figures. -/
def heading (p : Prototype) : String :=
  let kind := if p.isMain then "main" else "function"
  let name := sourceName p.source
  let vararg := if p.isVararg then "+" else ""
  s!"\n{kind} <{name}:{p.firstLine.toNat},{p.lastLine.toNat}> " ++
  s!"({p.code.length} instructions)\n" ++
  s!"{p.paramCount.toNat}{vararg} params, {p.stackSize.toNat} slots, " ++
  s!"{p.upvalues.length} upvalues, {p.localVars.length} locals, " ++
  s!"{p.constants.length} constants, {p.children.length} functions\n"

/-- The line of an instruction. -/
def codeLine (p : Prototype) (pc : Nat) (i : Instruction) : String :=
  let line := match p.lineAt? pc with
    | some line => toString line.toNat
    | none => "-"
  let note := match i.note? p pc with
    | some note => "\t; " ++ note
    | none => ""
  s!"\t{pc + 1}\t[{line}]\t{i.display}{note}\n"

/-- The line of an entry of the constant table. -/
def constantLine (index : Nat) (k : Constant) : String :=
  s!"\t{index}\t{k.kindLetter}\t{k.display}\n"

/-- The line of an entry of the table of local variables; instructions are numbered from one. -/
def localLine (index : Nat) (v : LocalVar) : String :=
  s!"\t{index}\t{Utf8.lossy v.name}\t{v.startPc.toNat + 1}\t{v.endPc.toNat + 1}\n"

/-- The line of an entry of the upvalue table. -/
def upvalueLine (p : Prototype) (index : Nat) (u : Upvalue) : String :=
  let name := ((p.upvalueName? index).map Utf8.lossy).getD "-"
  s!"\t{index}\t{name}\t{u.inStack.toNat}\t{u.index.toNat}\n"

/-- A line for each entry of a table. -/
def lines {α : Type} (line : Nat → α → String) (entries : List α) : String :=
  String.join (entries.mapIdx line)

/-- A table with its length in front. -/
def table {α : Type} (title : String) (line : Nat → α → String) (entries : List α) : String :=
  s!"{title} ({entries.length}):\n" ++ lines line entries

/-- The block of a function. -/
def block (options : ListingOptions) (p : Prototype) : String :=
  heading p ++
  lines (fun pc word => codeLine p pc ⟨word⟩) p.code ++
  (if options.constants then table "constants" constantLine p.constants else "") ++
  (if options.localVars then table "locals" localLine p.localVars else "") ++
  (if options.upvalues then table "upvalues" (upvalueLine p) p.upvalues else "")

/-- The listing of a function and those nested in it. -/
def render (options : ListingOptions) (main : Prototype) : String :=
  String.join (main.descendants.map (block options))

end Listing

end LuaBytecode
