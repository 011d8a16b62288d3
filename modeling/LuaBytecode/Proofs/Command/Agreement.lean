import LuaBytecode.Proofs.Chunk.Depth
import LuaBytecode.Proofs.Command.Checking
import LuaBytecode.Proofs.Listing.Blocks

/-!
# The commands agree about a chunk

Listing, summarising and checking load a chunk in the same way and then go their own ways through
its tree: the listing and the summary visit the functions one by one, the summary asks for the
depth as well, and checking only counts.  Compared with one recursion over the tree, their numbers
are the same numbers.

What they print is compared as well: the beginning of each block of the listing, the account as a
text and as a document, and the line that checking writes.  Of the blocks it can also be said
how many there are without knowing where one begins, by the blank lines of the listing.

* `text_ofPrototype`, `document_ofPrototype` — a summary is the account of the tree.
* `tellOf_act` — what is told of a chunk that was loaded; `failOn_act` — what is left behind
  otherwise.
* **`commands_agree`** — all three load a chunk or none does, and what they tell of it fits.
-/

namespace LuaBytecode

theorem FunctionSummary.text_ofPrototype (p : Prototype) :
    (ofPrototype p).text = p.accountLine := by
  delta FunctionSummary.text Prototype.accountLine ofPrototype
  simp only [toString_text, String.append_assoc]

namespace Summary

variable (main : Prototype)

theorem functions_ofPrototype :
    (ofPrototype main).functions = main.preorder.map FunctionSummary.ofPrototype := by
  rw [ofPrototype, Prototype.descendants_eq_preorder]

theorem instructions_ofPrototype : (ofPrototype main).instructions = main.totalCode := by
  rw [instructions, functions_ofPrototype, List.foldr_map, Prototype.totalCode, List.sum_eq_foldr,
    List.foldr_map]
  rfl

theorem constants_ofPrototype : (ofPrototype main).constants = main.totalConstants := by
  rw [constants, functions_ofPrototype, List.foldr_map, Prototype.totalConstants,
    List.sum_eq_foldr, List.foldr_map]
  rfl

theorem maxDepth_ofPrototype : (ofPrototype main).maxDepth = main.height :=
  main.nestingDepth_eq_height

theorem isStripped_ofPrototype : (ofPrototype main).isStripped = decide main.Stripped := by
  rw [ofPrototype, Prototype.descendants_eq_preorder, Bool.eq_iff_iff, decide_eq_true_iff,
    List.all_eq_true]
  simp only [List.isEmpty_iff, Prototype.Stripped]

theorem source_ofPrototype : (ofPrototype main).source = Utf8.lossy main.source :=
  rfl

/-- **The text of a summary is the account of the tree.** -/
theorem text_ofPrototype : (ofPrototype main).text = main.accountText := by
  have hlines : FunctionSummary.text ∘ FunctionSummary.ofPrototype = Prototype.accountLine :=
    funext FunctionSummary.text_ofPrototype
  -- unfolding by their equations would compare whole texts
  delta text Prototype.accountText
  simp only [source_ofPrototype, instructions_ofPrototype, constants_ofPrototype,
    maxDepth_ofPrototype, isStripped_ofPrototype, functions_ofPrototype, List.length_map,
    Prototype.length_preorder, List.map_map, hlines, decide_eq_true_eq]

/-- **So is the document.** -/
theorem document_ofPrototype (full : Bool) :
    (ofPrototype main).document (if full then some main else none) = main.accountDocument full := by
  have hentries : FunctionSummary.document ∘ FunctionSummary.ofPrototype
      = Prototype.accountEntry := rfl
  rw [document, Prototype.accountDocument, source_ofPrototype, instructions_ofPrototype,
    constants_ofPrototype, maxDepth_ofPrototype, isStripped_ofPrototype, functions_ofPrototype,
    List.length_map, Prototype.length_preorder, List.map_map, hentries]
  cases full <;> rfl

end Summary

namespace Command

/-- What the commands tell of a chunk that was loaded. -/
structure TellOf (lib : Libraries) (s : Settings) (path : String) (main : Prototype)
    (run : Action → Outcome) : Prop where
  /-- A block for each function, each before those nested in it. -/
  list : ∀ codeOnly, ∃ body : Prototype → String, run (.list path codeOnly)
    = ⟨0, String.join (main.preorder.map fun p => p.blockStart ++ body p), ""⟩
  /-- They can be counted, unless a name that is shown breaks a line. -/
  blankLines : ∀ codeOnly, (∀ p ∈ main.preorder,
      ∀ name ∈ Listing.rawNames (if codeOnly then .codeOnly else s.listing) p, 0x0A ∉ name) →
    Listing.blankLines (run (.list path codeOnly)).stdout = main.functionCount
  /-- The account of the tree as a text. -/
  info : ∀ full, run (.info path false full) = ⟨0, main.accountText, ""⟩
  /-- And as a document. -/
  document : ∀ full, ∃ text, lib.writeDocument (main.accountDocument full) = .ok text ∧
    run (.info path true full) = ⟨0, text ++ "\n", ""⟩
  /-- The number of functions. -/
  check : ∀ quiet, run (.check [path] quiet)
    = ⟨0, if quiet then "" else s!"ok      {path} ({main.functionCount} functions)\n", ""⟩

/-- What the commands leave behind of a chunk that was not loaded. -/
structure FailOn (path : String) (run : Action → Outcome) : Prop where
  list : ∀ codeOnly, (run (.list path codeOnly)).exitCode = 1 ∧
    (run (.list path codeOnly)).stdout = ""
  info : ∀ json full, (run (.info path json full)).exitCode = 1 ∧
    (run (.info path json full)).stdout = ""
  check : ∀ quiet, (run (.check [path] quiet)).exitCode = 1

section

variable {lib : Libraries} {site : Site} {s : Settings} {stdin : ByteStream} {path : String}

theorem tellOf_act (hjson : lib.WritesDocuments) {main : Prototype}
    (h : loadChunk site s.loader stdin path = .ok main) :
    TellOf lib s path main (act lib site s stdin) where
  list := by
    intro codeOnly
    refine ⟨Listing.blockBody (if codeOnly then .codeOnly else s.listing), ?_⟩
    rw [act, h]
    dsimp only
    rw [Listing.render, Prototype.descendants_eq_preorder, funext (Listing.block_eq_blockStart _)]
    rfl
  blankLines := by
    intro codeOnly hnames
    rw [act, h]
    exact Listing.blankLines_render hnames
  info := by
    intro full
    rw [act, h, ← Summary.text_ofPrototype]
    rfl
  document := by
    intro full
    obtain ⟨text, htext⟩ := hjson (main.accountDocument full)
    refine ⟨text, htext, ?_⟩
    rw [act, h]
    dsimp only
    rw [if_pos rfl, Summary.document_ofPrototype, present, htext]
    rfl
  check := by
    intro quiet
    rw [act, check, List.foldl_cons, List.foldl_nil, CheckProgress.step]
    simp only [CheckProgress.start, h, Prototype.length_descendants, String.empty_append, if_true]
    rfl

theorem failOn_act {f : Failure} (h : loadChunk site s.loader stdin path = .error f) :
    FailOn path (act lib site s stdin) where
  list := by
    intro codeOnly
    rw [act, h]
    exact ⟨rfl, rfl⟩
  info := by
    intro json full
    rw [act, h]
    exact ⟨rfl, rfl⟩
  check := by
    intro quiet
    rw [act, check, List.foldl_cons, List.foldl_nil, CheckProgress.step]
    simp only [CheckProgress.start, h]
    rfl

end

/-- **The commands agree about a chunk.**  Either all three load it, and then the listing, the
summary and the count all tell of the same tree, which is no deeper than it may be; or none of them
does, and neither listing nor summary writes anything. -/
theorem commands_agree {lib : Libraries} {site : Site} {named : Option String} {s : Settings}
    (hs : settings lib site named = .ok s) (hjson : lib.WritesDocuments) (stdin : ByteStream)
    (path : String) :
    (∃ content main, contentOf? site stdin path = some content ∧
      load s.loader content = .ok main ∧ main.preorder.length = main.functionCount ∧
      main.height ≤ s.loader.maxDepth ∧
      TellOf lib s path main (fun action => perform lib site stdin ⟨named, action⟩)) ∨
    ((∀ content main, contentOf? site stdin path = some content →
        load s.loader content ≠ .ok main) ∧
      FailOn path (fun action => perform lib site stdin ⟨named, action⟩)) := by
  have hperform : ∀ action, perform lib site stdin ⟨named, action⟩ = act lib site s stdin action :=
    fun action => by rw [perform, hs]
  simp only [hperform]
  cases hload : loadChunk site s.loader stdin path with
  | ok main =>
      obtain ⟨content, hcontent, hmain⟩ := (loadChunk_eq_ok_iff site s.loader stdin).mp hload
      refine Or.inl ⟨content, main, hcontent, hmain, main.length_preorder, ?_, ?_⟩
      · rw [← Prototype.nestingDepth_eq_height]
        exact nestingDepth_le_of_load hmain
      · exact tellOf_act hjson hload
  | error f =>
      refine Or.inr ⟨fun content main hcontent hmain => ?_, failOn_act hload⟩
      rw [(loadChunk_eq_ok_iff site s.loader stdin).mpr ⟨content, hcontent, hmain⟩] at hload
      cases hload

/-- A tree of four levels has four functions: so checking and the summary say, and the listing has
as many blank lines. -/
theorem commands_agree_fourLevels :
    settings .plain (siteWith (Prototype.fourLevels.encodeChunk false)) none = .ok .standard ∧
    Libraries.plain.WritesDocuments ∧
    perform .plain (siteWith (Prototype.fourLevels.encodeChunk false)) []
      ⟨none, .check ["a"] false⟩ = ⟨0, "ok      a (4 functions)\n", ""⟩ ∧
    perform .plain (siteWith (Prototype.fourLevels.encodeChunk false)) []
      ⟨none, .info "a" false false⟩ = ⟨0,
        "Source:        @a\nFunctions:     4\nInstructions:  3\nConstants:     3\n" ++
        "Max depth:     3\nDebug info:    present\n\nFunctions:\n" ++
        "  <@a:0,0>  1 instructions, 2 constants, 1 upvalues, 1 nested\n" ++
        "  <@a:1,2>  0 instructions, 1 constants, 0 upvalues, 1 nested\n" ++
        "  <@b:300,301>  1 instructions, 0 constants, 0 upvalues, 1 nested\n" ++
        "  <@b:300,301>  1 instructions, 0 constants, 0 upvalues, 0 nested\n", ""⟩ ∧
    Listing.blankLines (perform .plain (siteWith (Prototype.fourLevels.encodeChunk false)) []
      ⟨none, .list "a" false⟩).stdout = 4 := by
  have hs := settings_siteWith (Prototype.fourLevels.encodeChunk false)
  have hcontent : contentOf? (siteWith (Prototype.fourLevels.encodeChunk false)) [] "a"
      = some (Prototype.fourLevels.encodeChunk false) := rfl
  have hchunk : Grammar.Chunk .standard (Prototype.fourLevels.encodeChunk false)
      (Prototype.fourLevels.withSources []) :=
    Grammar.chunk_encode Prototype.fitsChunk_fourLevels (by decide)
  have hload := load_of_chunk hchunk []
  rw [List.append_nil] at hload
  refine ⟨hs, Libraries.plain_writesDocuments, ?_⟩
  rcases commands_agree hs Libraries.plain_writesDocuments [] "a" with
    ⟨content, main, hcontent', hmain, -, -, htell⟩ | ⟨hnone, -⟩
  · obtain rfl := Option.some.inj (hcontent.symm.trans hcontent')
    obtain rfl := Except.ok.inj (hload.symm.trans hmain)
    refine ⟨htell.check false, (htell.info false).trans ?_, htell.blankLines false ?_⟩
    · decide +kernel
    · decide +kernel
  · exact absurd hload (hnone _ _ hcontent)

end Command

end LuaBytecode
