import LuaBytecode.Command.Account
import LuaBytecode.Proofs.Listing.Lines

/-!
# The blocks of a listing

A block begins with a blank line, and the other lines that it writes have something in them.  So the
blocks of a listing can be counted in its text, unless a name that is shown breaks a line in two:
there are as many as there are blank lines.

* `block_eq_blockStart` — what a block says first.
* `FullLines` — texts of lines that are not blank; `blankLinesFrom_append` — counting passes them.
* `fullLines_block` — the lines of a block behind its blank one.
* **`blankLines_render`** — a listing has a blank line for each function.
-/

namespace LuaBytecode

namespace Listing

/-- What a block has behind its figures. -/
def blockBody (options : ListingOptions) (p : Prototype) : String :=
  lines (fun pc word => codeLine p pc ⟨word⟩) p.code ++
  (if options.constants then table "constants" constantLine p.constants else "") ++
  (if options.localVars then table "locals" localLine p.localVars else "") ++
  (if options.upvalues then table "upvalues" (upvalueLine p) p.upvalues else "")

theorem block_eq_heading (options : ListingOptions) (p : Prototype) :
    block options p = heading p ++ blockBody options p := by
  simp only [block, blockBody, String.append_assoc]

/-- What a block says first. -/
theorem block_eq_blockStart (options : ListingOptions) (p : Prototype) :
    block options p = p.blockStart ++ blockBody options p := by
  have hheading : heading p = p.blockStart := by
    delta heading Prototype.blockStart Prototype.isMain
    simp only [decide_eq_true_eq]
  rw [block_eq_heading, hheading]

/-! ## Lines that are not blank -/

/-- Texts of lines, each with its line feed and none of them blank. -/
inductive FullLines : String → Prop
  | nil : FullLines ""
  | line {text : String} (hfull : text ≠ "") (hline : lineFeeds text = 0) : FullLines (text ++ "\n")
  | append {s t : String} (hs : FullLines s) (ht : FullLines t) : FullLines (s ++ t)

theorem fullLines_join {texts : List String} (h : ∀ text ∈ texts, FullLines text) :
    FullLines (String.join texts) := by
  induction texts with
  | nil => exact .nil
  | cons text texts ih =>
      rw [List.forall_mem_cons] at h
      rw [String.join_cons]
      exact h.1.append (ih h.2)

theorem toList_newline : ("\n" : String).toList = ['\n'] :=
  rfl

/-- Behind the line that a line feed ends the next one starts. -/
theorem blankLinesFrom_line (fresh : Bool) {line : List Char} (h : '\n' ∉ line)
    (rest : List Char) : blankLinesFrom fresh (line ++ '\n' :: rest)
      = (if fresh && line.isEmpty then 1 else 0) + blankLinesFrom true rest := by
  induction line generalizing fresh with
  | nil => simp [blankLinesFrom]
  | cons c line ih =>
      rw [List.mem_cons, not_or] at h
      have hc : c ≠ '\n' := Ne.symm h.1
      rw [List.cons_append, blankLinesFrom, ih _ h.2]
      simp [hc]

/-- Lines that are not blank may be left out of the count. -/
theorem blankLinesFrom_append {text : String} (h : FullLines text) (rest : List Char) :
    blankLinesFrom true (text.toList ++ rest) = blankLinesFrom true rest := by
  induction h generalizing rest with
  | nil => rfl
  | @line text hfull hline =>
      have hne : text.toList.isEmpty = false := by simpa using hfull
      rw [String.toList_append, toList_newline, List.append_assoc, List.singleton_append,
        blankLinesFrom_line true (List.count_eq_zero.mp hline), hne]
      simp
  | append _ _ ihs iht => rw [String.toList_append, List.append_assoc, ihs, iht]

/-! ## The lines of a block -/

section

variable {p : Prototype}

/-- A text that ends in its only line feed is a line. -/
theorem fullLines_of_lineFeeds {text line : String} (htext : text = line ++ "\n")
    (hfull : line ≠ "") (h : lineFeeds text = 1) : FullLines text := by
  rw [htext, lineFeeds_append, lineFeeds_newline] at h
  rw [htext]
  exact .line hfull (Nat.add_right_cancel h)

theorem fullLines_codeLine {pc : Nat} {i : Instruction} (h : rawLineFeeds (noteNames p pc i) = 0) :
    FullLines (codeLine p pc i) :=
  fullLines_of_lineFeeds rfl (by simp [toString_text]) (by rw [lineFeeds_codeLine, h])

theorem fullLines_constantLine (index : Nat) (k : Constant) : FullLines (constantLine index k) :=
  fullLines_of_lineFeeds rfl (by simp [toString_text]) (lineFeeds_constantLine index k)

theorem fullLines_localLine {index : Nat} {v : LocalVar} (h : rawLineFeeds [v.name] = 0) :
    FullLines (localLine index v) :=
  fullLines_of_lineFeeds rfl (by simp [toString_text]) (by rw [lineFeeds_localLine, h])

theorem fullLines_upvalueLine {index : Nat} {u : Upvalue}
    (h : rawLineFeeds (p.upvalueName? index).toList = 0) : FullLines (upvalueLine p index u) :=
  fullLines_of_lineFeeds rfl (by simp [toString_text]) (by rw [lineFeeds_upvalueLine, h])

/-- The lines of entries are not blank if none of them is. -/
theorem fullLines_lines {α : Type} {line : Nat → α → String} {entries : List α}
    (h : ∀ (i : Nat) (hi : i < entries.length), FullLines (line i entries[i])) :
    FullLines (lines line entries) := by
  refine fullLines_join fun text htext => ?_
  obtain ⟨i, hi, rfl⟩ := List.mem_mapIdx.mp htext
  exact h i hi

theorem fullLines_table {α : Type} {title : String} (htitle : lineFeeds title = 0)
    {line : Nat → α → String} {entries : List α}
    (h : ∀ (i : Nat) (hi : i < entries.length), FullLines (line i entries[i])) :
    FullLines (table title line entries) := by
  have hend : "):\n" = "):" ++ "\n" := by decide
  have hsplit : s!"{title} ({entries.length}):\n" = s!"{title} ({entries.length}):" ++ "\n" := by
    simp only [toString_text, hend, String.append_assoc]
  have hlength : FullLines s!"{title} ({entries.length}):\n" := by
    refine fullLines_of_lineFeeds hsplit (by simp [toString_text]) ?_
    simp only [toString_text, lineFeeds_append, lineFeeds_natText, htitle]
    rfl
  exact hlength.append (fullLines_lines h)

theorem rawLineFeeds_entry {α : Type} {names : Nat → α → List Bytes} {entries : List α}
    (h : rawLineFeeds (entries.mapIdx names).flatten = 0) (i : Nat) (hi : i < entries.length) :
    rawLineFeeds (names i entries[i]) = 0 := by
  rw [rawLineFeeds_eq_zero_iff] at h ⊢
  intro name hname
  exact h name (List.mem_flatten_of_mem (List.mem_mapIdx.mpr ⟨i, hi, rfl⟩) hname)

/-- Behind its blank line a block has two lines of figures. -/
theorem fullLines_heading (h : rawLineFeeds (sourceNames p.source) = 0) :
    ∃ figures, heading p = "\n" ++ figures ∧ FullLines figures := by
  have hends : " instructions)\n" = " instructions)" ++ "\n" ∧
      " functions\n" = " functions" ++ "\n" := by decide
  obtain ⟨first, second, heq, hfirst, hsecond⟩ : ∃ first second : String,
      heading p = "\n" ++ ((first ++ "\n") ++ (second ++ "\n")) ∧ first ≠ "" ∧ second ≠ "" := by
    let kind := if p.isMain then "main" else "function"
    let vararg := if p.isVararg then "+" else ""
    refine ⟨s!"{kind} <{sourceName p.source}:{p.firstLine.toNat},{p.lastLine.toNat}> " ++
      s!"({p.code.length} instructions)",
      s!"{p.paramCount.toNat}{vararg} params, {p.stackSize.toNat} slots, " ++
      s!"{p.upvalues.length} upvalues, {p.localVars.length} locals, " ++
      s!"{p.constants.length} constants, {p.children.length} functions", ?_, ?_, ?_⟩
    · delta heading
      simp only [toString_text, hends, String.append_assoc, kind, vararg]
    · simp [toString_text]
    · simp [toString_text]
  -- the three line feeds of a heading are the ends of its lines, so no line has one of its own
  have hfeeds := lineFeeds_heading p
  rw [h, heq] at hfeeds
  simp only [lineFeeds_append, lineFeeds_newline] at hfeeds
  exact ⟨_, heq, .append (.line hfirst (by omega)) (.line hsecond (by omega))⟩

theorem fullLines_ite {shown : Bool} {text : String} (h : shown = true → FullLines text) :
    FullLines (if shown then text else "") := by
  split_ifs with hshown
  · exact h hshown
  · exact .nil

theorem fullLines_blockBody {options : ListingOptions} (h : rawLineFeeds (rawNames options p) = 0) :
    FullLines (blockBody options p) := by
  simp only [rawNames, rawLineFeeds_append, Nat.add_eq_zero_iff] at h
  obtain ⟨⟨⟨-, hcode⟩, hlocals⟩, hupvalues⟩ := h
  refine .append (.append (.append ?_ ?_) ?_) ?_
  · exact fullLines_lines fun i hi => fullLines_codeLine (rawLineFeeds_entry hcode i hi)
  · exact fullLines_ite fun _ => fullLines_table rfl fun i _ => fullLines_constantLine i _
  · refine fullLines_ite fun hshown => fullLines_table rfl fun i hi => fullLines_localLine ?_
    rw [if_pos hshown, rawLineFeeds_eq_zero_iff] at hlocals
    rw [rawLineFeeds_eq_zero_iff, List.forall_mem_singleton]
    exact hlocals _ (List.mem_map_of_mem (List.getElem_mem hi))
  · refine fullLines_ite fun hshown => fullLines_table rfl fun i hi => fullLines_upvalueLine ?_
    rw [if_pos hshown] at hupvalues
    exact rawLineFeeds_entry hupvalues i hi

/-- **The lines of a block**: behind the blank one none is blank, if no name breaks a line. -/
theorem fullLines_block {options : ListingOptions} (h : rawLineFeeds (rawNames options p) = 0) :
    ∃ rest, block options p = "\n" ++ rest ∧ FullLines rest := by
  have hsource : rawLineFeeds (sourceNames p.source) = 0 := by
    simp only [rawNames, rawLineFeeds_append, Nat.add_eq_zero_iff] at h
    exact h.1.1.1
  obtain ⟨figures, hheading, hfigures⟩ := fullLines_heading hsource
  refine ⟨_, ?_, hfigures.append (fullLines_blockBody h)⟩
  rw [block_eq_heading, hheading, String.append_assoc]

end

/-! ## Counting blocks -/

theorem blankLinesFrom_blocks {blocks : List String}
    (h : ∀ block ∈ blocks, ∃ rest, block = "\n" ++ rest ∧ FullLines rest) :
    blankLinesFrom true (String.join blocks).toList = blocks.length := by
  induction blocks with
  | nil => rfl
  | cons block blocks ih =>
      rw [List.forall_mem_cons] at h
      obtain ⟨⟨rest, rfl, hrest⟩, hblocks⟩ := h
      have hblank : ∀ cs, blankLinesFrom true ('\n' :: cs) = 1 + blankLinesFrom true cs :=
        blankLinesFrom_line true List.not_mem_nil
      rw [String.join_cons, String.toList_append, String.toList_append, toList_newline,
        List.append_assoc, List.singleton_append, hblank, blankLinesFrom_append hrest, ih hblocks,
        List.length_cons, Nat.add_comm]

/-- **A listing has a blank line for each function**, if no name that it shows has a line feed. -/
theorem blankLines_render {options : ListingOptions} {main : Prototype}
    (h : ∀ p ∈ main.preorder, ∀ name ∈ rawNames options p, 0x0A ∉ name) :
    blankLines (render options main) = main.functionCount := by
  rw [blankLines, render, Prototype.descendants_eq_preorder, blankLinesFrom_blocks,
    List.length_map, Prototype.length_preorder]
  rw [List.forall_mem_map]
  exact fun p hp => fullLines_block (rawLineFeeds_eq_zero_iff.mpr (h p hp))

end Listing

end LuaBytecode
