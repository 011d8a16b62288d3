import LuaBytecode.Chunk.Load
import LuaBytecode.Listing.Render
import LuaBytecode.Proofs.Prototype.Walk
import LuaBytecode.Proofs.Text.Printable
import LuaBytecode.Proofs.Text.Utf8
import Mathlib.Algebra.Order.BigOperators.Group.List

/-!
# The lines of a listing

A block is made of lines: what it writes for numbers, constants and instructions has no control
character, and each line it writes ends in a line feed.  Names are another matter.  The source of a
function, the names of its upvalues and those of its local variables are shown as they are, so a
line feed in one of them is one in the listing.  This file counts both.

* `blockLines` — the lines a block is to have.
* `rawNames` — the byte strings that it shows as they are.
* `lineFeeds_lines`, `lineFeeds_table` — a line for each entry, whatever the entries are.
* `lineFeeds_block` — the lines of one block.
* **`lineFeeds_render`** — the lines of a listing, and when they are what its tables make.
-/

namespace LuaBytecode

namespace Listing

/-! ## Line feeds -/

/-- How many line feeds a text has. -/
def lineFeeds (text : String) : Nat := text.toList.count '\n'

/-- How many line feeds some byte strings have. -/
def rawLineFeeds (names : List Bytes) : Nat := (names.map (·.count 0x0A)).sum

theorem lineFeeds_append (s t : String) : lineFeeds (s ++ t) = lineFeeds s + lineFeeds t := by
  rw [lineFeeds, String.toList_append, List.count_append]
  rfl

theorem lineFeeds_newline : lineFeeds "\n" = 1 :=
  rfl

theorem lineFeeds_join (texts : List String) :
    lineFeeds (String.join texts) = (texts.map lineFeeds).sum := by
  induction texts with
  | nil => rfl
  | cons text texts ih => rw [String.join_cons, lineFeeds_append, ih, List.map_cons, List.sum_cons]

theorem lineFeeds_intercalate (texts : List String) :
    lineFeeds (" ".intercalate texts) = (texts.map lineFeeds).sum := by
  induction texts with
  | nil => rfl
  | cons text texts ih =>
      cases texts with
      | nil => rw [String.intercalate_singleton, List.map_singleton, List.sum_singleton]
      | cons next texts =>
          rw [String.intercalate_cons_cons, lineFeeds_append, lineFeeds_append, ih, List.map_cons,
            List.sum_cons]
          rfl

theorem lineFeeds_of_printable {text : String} (h : Printable text.toList) :
    lineFeeds text = 0 :=
  List.count_eq_zero.mpr fun hmem => absurd (h '\n' hmem) (by decide)

theorem lineFeeds_natText (n : Nat) : lineFeeds (toString n) = 0 :=
  lineFeeds_of_printable (printable_natText n)

theorem lineFeeds_lossy (name : Bytes) : lineFeeds (Utf8.lossy name) = name.count 0x0A :=
  Utf8.count_lossy name

theorem rawLineFeeds_append (names names' : List Bytes) :
    rawLineFeeds (names ++ names') = rawLineFeeds names + rawLineFeeds names' := by
  rw [rawLineFeeds, List.map_append, List.sum_append]
  rfl

theorem rawLineFeeds_flatMap {α : Type} (names : α → List Bytes) (entries : List α) :
    rawLineFeeds (entries.flatMap names)
      = (entries.map fun entry => rawLineFeeds (names entry)).sum := by
  rw [rawLineFeeds, List.map_flatMap, List.flatMap_def, List.sum_flatten, List.map_map]
  rfl

theorem lineFeeds_name (name? : Option Bytes) :
    lineFeeds ((name?.map Utf8.lossy).getD "-") = rawLineFeeds name?.toList := by
  cases name? with
  | none => rfl
  | some name => exact lineFeeds_lossy name

/-! ## Names -/

/-- The part of a source that its function's heading shows as it is. -/
def sourceNames : Bytes → List Bytes
  | [] => []
  | b :: rest => if b = 0x40 ∨ b = 0x3D then [rest] else []

/-- The name that an item of a note shows. -/
def itemNames (p : Prototype) : NoteItem → List Bytes
  | .upvalue index => (p.upvalueName? index).toList
  | _ => []

/-- The names that the note on an instruction shows. -/
def noteNames (p : Prototype) (pc : Nat) (i : Instruction) : List Bytes :=
  match i.opcode with
  | .error _ => []
  | .ok op => (NoteItem.ofInstruction pc i op).flatMap (itemNames p)

/-- The names in the table of upvalues. -/
def upvalueTableNames (p : Prototype) : List Bytes :=
  (p.upvalues.mapIdx fun index _ => (p.upvalueName? index).toList).flatten

/-- The byte strings that the block of a function shows as they are, in order. -/
def rawNames (options : ListingOptions) (p : Prototype) : List Bytes :=
  sourceNames p.source ++
  (p.code.mapIdx fun pc word => noteNames p pc ⟨word⟩).flatten ++
  (if options.localVars then p.localVars.map (·.name) else []) ++
  (if options.upvalues then upvalueTableNames p else [])

/-- The lines of the block of a function: the blank line and the two of figures, one for each
instruction, and for each table that is asked for one for its length and one for each entry. -/
def blockLines (options : ListingOptions) (p : Prototype) : Nat :=
  3 + p.code.length +
  (if options.constants then 1 + p.constants.length else 0) +
  (if options.localVars then 1 + p.localVars.length else 0) +
  (if options.upvalues then 1 + p.upvalues.length else 0)

/-! ## The lines of a block -/

variable (p : Prototype)

theorem lineFeeds_sourceName (source : Bytes) :
    lineFeeds (sourceName source) = rawLineFeeds (sourceNames source) := by
  cases source with
  | nil => rfl
  | cons b rest =>
      rw [sourceName, sourceNames]
      split_ifs
      · exact lineFeeds_lossy rest
      · rfl
      · rfl

theorem lineFeeds_heading : lineFeeds (heading p) = 3 + rawLineFeeds (sourceNames p.source) := by
  have hkind : lineFeeds (if p.isMain then "main" else "function") = 0 := by split_ifs <;> rfl
  have hvararg : lineFeeds (if p.isVararg then "+" else "") = 0 := by split_ifs <;> rfl
  have hfirst : lineFeeds " instructions)\n" = 1 := rfl
  have hsecond : lineFeeds " functions\n" = 1 := rfl
  -- unfolding by its equation would first compare the whole text with itself
  delta heading
  simp (disch := decide) only [toString_text, lineFeeds_append, lineFeeds_natText,
    lineFeeds_sourceName, hkind, hvararg, lineFeeds_newline, hfirst, hsecond,
    lineFeeds_of_printable]
  omega

theorem lineFeeds_item (item : NoteItem) :
    lineFeeds (item.text p) = rawLineFeeds (itemNames p item) := by
  cases item with
  | constant index =>
      refine lineFeeds_of_printable ?_
      rw [NoteItem.text]
      cases p.constants[index]? with
      | none => decide
      | some k => exact k.printable_display
  | upvalue index => exact lineFeeds_name _
  | target pc =>
      simp only [NoteItem.text, toString_text, lineFeeds_append, lineFeeds_natText]
      rfl
  | child index =>
      simp only [NoteItem.text, toString_text, lineFeeds_append, lineFeeds_natText]
      rfl

theorem lineFeeds_note (pc : Nat) (i : Instruction) :
    ((i.note? p pc).toList.map lineFeeds).sum = rawLineFeeds (noteNames p pc i) := by
  unfold Instruction.note? noteNames
  cases i.opcode with
  | error fault => rfl
  | ok op =>
      dsimp only
      cases NoteItem.ofInstruction pc i op with
      | nil => rfl
      | cons item items =>
          have hitem : lineFeeds ∘ NoteItem.text p = rawLineFeeds ∘ itemNames p :=
            funext (lineFeeds_item p)
          rw [rawLineFeeds_flatMap, Option.toList_some, List.map_singleton, List.sum_singleton,
            lineFeeds_intercalate, List.map_map, hitem]
          rfl

theorem lineFeeds_codeLine (pc : Nat) (i : Instruction) :
    lineFeeds (codeLine p pc i) = rawLineFeeds (noteNames p pc i) + 1 := by
  have hdisplay := lineFeeds_of_printable i.printable_display
  have hcolumns : ∀ line note : String, lineFeeds line = 0 →
      lineFeeds s!"\t{pc + 1}\t[{line}]\t{i.display}{note}\n" = lineFeeds note + 1 := by
    intro line note hline
    simp only [toString_text, lineFeeds_append, lineFeeds_natText, hline, hdisplay]
    simp [lineFeeds]
  rw [← lineFeeds_note]
  refine (hcolumns _ _ ?_).trans (congrArg (· + 1) ?_)
  · cases p.lineAt? pc with
    | none => rfl
    | some line => exact lineFeeds_natText _
  · cases i.note? p pc with
    | none => rfl
    | some note =>
        rw [lineFeeds_append]
        exact Nat.zero_add _

theorem lineFeeds_constantLine (index : Nat) (k : Constant) :
    lineFeeds (constantLine index k) = 1 := by
  have hletter := lineFeeds_of_printable k.printable_kindLetter
  have hdisplay := lineFeeds_of_printable k.printable_display
  simp only [constantLine, toString_text, lineFeeds_append, lineFeeds_natText, hletter, hdisplay]
  rfl

theorem lineFeeds_localLine (index : Nat) (v : LocalVar) :
    lineFeeds (localLine index v) = rawLineFeeds [v.name] + 1 := by
  simp only [localLine, toString_text, lineFeeds_append, lineFeeds_natText, lineFeeds_lossy]
  simp [lineFeeds, rawLineFeeds]

theorem lineFeeds_upvalueLine (index : Nat) (u : Upvalue) :
    lineFeeds (upvalueLine p index u) = rawLineFeeds (p.upvalueName? index).toList + 1 := by
  simp only [upvalueLine, toString_text, lineFeeds_append, lineFeeds_natText, lineFeeds_name]
  simp [lineFeeds]

/-! ## Tables and blocks -/

section Tables

variable {α : Type}

theorem mapIdx_eq_map {β : Type} (f : α → β) (entries : List α) :
    (entries.mapIdx fun _ entry => f entry) = entries.map f :=
  List.ext_getElem (by simp) fun i _ _ => by simp

/-- **A line for each entry**, and what the names in the lines bring. -/
theorem lineFeeds_lines (entries : List α) :
    ∀ (line : Nat → α → String) (names : Nat → α → List Bytes),
      (∀ index entry, lineFeeds (line index entry) = rawLineFeeds (names index entry) + 1) →
      lineFeeds (lines line entries)
        = entries.length + rawLineFeeds (entries.mapIdx names).flatten := by
  induction entries with
  | nil => exact fun _ _ _ => rfl
  | cons entry entries ih =>
      intro line names h
      have hrest : lineFeeds (String.join (entries.mapIdx fun index => line (index + 1))) = _ :=
        ih (fun index => line (index + 1)) (fun index => names (index + 1)) fun _ => h _
      rw [lines, List.mapIdx_cons, String.join_cons, lineFeeds_append, h, hrest, List.mapIdx_cons,
        List.flatten_cons, rawLineFeeds_append, List.length_cons]
      omega

theorem lineFeeds_table {title : String} (htitle : lineFeeds title = 0) (entries : List α)
    (line : Nat → α → String) (names : Nat → α → List Bytes)
    (h : ∀ index entry, lineFeeds (line index entry) = rawLineFeeds (names index entry) + 1) :
    lineFeeds (table title line entries)
      = 1 + entries.length + rawLineFeeds (entries.mapIdx names).flatten := by
  have hlength : lineFeeds s!"{title} ({entries.length}):\n" = 1 := by
    simp only [toString_text, lineFeeds_append, lineFeeds_natText, htitle]
    rfl
  rw [table, lineFeeds_append, hlength, lineFeeds_lines entries line names h, Nat.add_assoc]

end Tables

theorem lineFeeds_constantTable :
    lineFeeds (table "constants" constantLine p.constants) = 1 + p.constants.length := by
  rw [lineFeeds_table rfl p.constants constantLine (fun _ _ => []) lineFeeds_constantLine,
    mapIdx_eq_map]
  simp [rawLineFeeds]

theorem lineFeeds_localTable :
    lineFeeds (table "locals" localLine p.localVars)
      = 1 + p.localVars.length + rawLineFeeds (p.localVars.map (·.name)) := by
  rw [lineFeeds_table rfl p.localVars localLine (fun _ v => [v.name]) lineFeeds_localLine,
    mapIdx_eq_map, ← List.flatMap_def, List.map_eq_flatMap]

theorem lineFeeds_upvalueTable :
    lineFeeds (table "upvalues" (upvalueLine p) p.upvalues)
      = 1 + p.upvalues.length + rawLineFeeds (upvalueTableNames p) :=
  lineFeeds_table rfl p.upvalues (upvalueLine p) _ (lineFeeds_upvalueLine p)

/-- **The lines of a block are those that its tables make**, and what the names in it bring. -/
theorem lineFeeds_block (options : ListingOptions) (p : Prototype) :
    lineFeeds (block options p) = blockLines options p + rawLineFeeds (rawNames options p) := by
  have hcode := lineFeeds_lines p.code (fun pc word => codeLine p pc ⟨word⟩)
    (fun pc word => noteNames p pc ⟨word⟩) fun pc word => lineFeeds_codeLine p pc ⟨word⟩
  have hempty : lineFeeds "" = 0 := rfl
  have hnone : rawLineFeeds [] = 0 := rfl
  simp only [block, blockLines, rawNames, lineFeeds_append, rawLineFeeds_append, lineFeeds_heading,
    hcode, apply_ite lineFeeds, apply_ite rawLineFeeds, lineFeeds_constantTable,
    lineFeeds_localTable, lineFeeds_upvalueTable, hempty, hnone]
  split_ifs <;> omega

/-! ## Listings -/

theorem lineFeeds_render_eq (options : ListingOptions) (main : Prototype) :
    lineFeeds (render options main) =
      (main.preorder.map (blockLines options)).sum +
        (main.preorder.map fun p => rawLineFeeds (rawNames options p)).sum := by
  have hblock : lineFeeds ∘ block options
      = fun p => blockLines options p + rawLineFeeds (rawNames options p) := by
    funext p
    rw [Function.comp_apply, lineFeeds_block]
  rw [render, lineFeeds_join, List.map_map, Prototype.descendants_eq_preorder, hblock,
    List.sum_map_add]

theorem rawLineFeeds_eq_zero_iff {names : List Bytes} :
    rawLineFeeds names = 0 ↔ ∀ name ∈ names, 0x0A ∉ name := by
  simp only [rawLineFeeds, List.sum_eq_zero_iff, List.forall_mem_map, List.count_eq_zero]

/-- **The lines of a listing.**  A listing has the lines of its blocks, and besides a line feed for
each in a source, an upvalue's name or a local variable's that a block shows.  So it has one line
per instruction and table entry exactly if no name that it shows has a line feed. -/
theorem lineFeeds_render (options : ListingOptions) (main : Prototype) :
    lineFeeds (render options main) =
      (main.preorder.map (blockLines options)).sum +
        (main.preorder.map fun p => rawLineFeeds (rawNames options p)).sum ∧
    (lineFeeds (render options main) = (main.preorder.map (blockLines options)).sum ↔
      ∀ p ∈ main.preorder, ∀ name ∈ rawNames options p, 0x0A ∉ name) := by
  have heq := lineFeeds_render_eq options main
  refine ⟨heq, ?_⟩
  rw [heq, Nat.add_eq_left, List.sum_eq_zero_iff, List.forall_mem_map]
  simp only [rawLineFeeds_eq_zero_iff]

/-- A chunk with one instruction, which reads an upvalue, and a line feed in the name of that
upvalue. -/
def twoLineNameInput : Bytes :=
  Prologue.encode false ++
    [1, 0x80, 0x80, 0x80, 0, 1, 2, 0x81, 0x09, 0, 0, 0, 0x80, 0x81, 1, 0, 0, 0x80, 0x80, 0x80, 0x80,
      0x81, 0x84, 0x61, 0x0A, 0x62]

def twoLineNameMain : Prototype :=
  ⟨[], 0, 0, 0, true, 2, [0x09], [], [⟨true, 0, 0⟩], [], [], [], [], [[0x61, 0x0A, 0x62]]⟩

/-- The name is in the note on the instruction and in the table of upvalues, and breaks both lines:
what has eight lines to have has ten. -/
theorem lineFeeds_render_twoLineName :
    load .standard twoLineNameInput = .ok twoLineNameMain ∧
    lineFeeds (render .all twoLineNameMain) = 10 ∧
    (twoLineNameMain.preorder.map (blockLines .all)).sum = 8 := by
  refine ⟨rfl, ?_, rfl⟩
  rw [lineFeeds_render_eq]
  rfl

end Listing

end LuaBytecode
