import LuaBytecode.Chunk.Label
import LuaBytecode.Proofs.Chunk.Canonical
import LuaBytecode.Proofs.Chunk.Language
import LuaBytecode.Proofs.Chunk.Prefix
import LuaBytecode.Proofs.Prototype.Walk

/-!
# What a cut chunk is blamed on

A chunk that is cut off is refused, and the failure names a field and a depth.  This file shows that
they are those of the first byte that is missing, for every cut of every chunk in canonical form.

`Marked x w a marks` says it of one reading: it gives `a` behind `w`, and cut off in front of any
byte of `w` it fails with the mark of that byte.  A field read has one mark for all its bytes
(`Marked.field`), and a sequence has the marks of its parts one behind the other (`Marked.bind`).
The marks of a function surround those of its children, so nothing has to be restored behind a
child: the next field brings its own mark.

* `marked_function`, **`marked_tree`**, `marked_chunk` — the marks of the loader are the labels.
* **`load_take_encodeChunk`** — the statement for loads.
-/

namespace LuaBytecode

namespace Reading

variable {α β : Type}

/-- A failure names the field and the depth of a mark. -/
def BlamedOn (marks : List Label) (m : Nat) (e : LoadError) : Prop :=
  marks[m]? = some (e.field, e.depth)

/-- A reading gives `a` behind `w`, whose bytes have marks, and blames a cut on the first missing
byte. -/
structure Marked (x : Loader α) (w : Bytes) (a : α) (marks : List Label) : Prop where
  length : marks.length = w.length
  decided : ∀ offset, DecidedBy (BlamedOn marks) x offset w (.ok a)

namespace Marked

variable {x : Loader α} {f : α → Loader β} {w v : Bytes} {a : α} {b : β} {marks marks' : List Label}

/-- The bytes and the marks may be written in another way. -/
theorem of_eq (h : Marked x w a marks) (hw : w = v) (hmarks : marks = marks') :
    Marked x v a marks' := by
  rwa [← hw, ← hmarks]

theorem pure (a : α) : Marked (Pure.pure a) [] a [] where
  length := rfl
  decided := fun _ => decidedBy_nil fun _ => rfl

/-- **The marks of a sequence are those of its parts**, one behind the other. -/
theorem bind (hx : Marked x w a marks) (hf : Marked (f a) v b marks') :
    Marked (x >>= f) (w ++ v) b (marks ++ marks') where
  length := by rw [List.length_append, List.length_append, hx.length, hf.length]
  decided := fun offset => by
    refine ((hx.decided offset).imp fun m hm e he => ?_).bind
      ((hf.decided _).imp fun m _ e he => ?_)
    · rw [BlamedOn, List.getElem?_append_left (by rw [hx.length]; exact hm)]
      exact he
    · rw [BlamedOn, ← hx.length, List.getElem?_append_right (Nat.le_add_right _ _),
        Nat.add_sub_cancel_left]
      exact he

/-- **A field read has one mark for all its bytes.** -/
theorem field {read : Decoder α} {L : Bytes → α → Prop} (haccepts : Accepts read L)
    (hprompt : Prompt Fault.IsTruncation read) (hw : L w a) (field : ChunkField) (depth : Nat) :
    Marked (read.within field depth) w a (labelled field depth w) where
  length := List.length_replicate
  decided := fun offset => by
    have hread := haccepts.complete hw offset []
    rw [List.append_nil] at hread
    have hdecided := hprompt.decidedBy_of_ok hread
    refine ⟨fun rest => within_of_ok (hdecided.extend rest), fun m hm => ?_⟩
    obtain ⟨fault, c, hcut, -⟩ := hdecided.cut m hm
    exact ⟨_, c, within_of_error hcut, by rw [BlamedOn, labelled, List.getElem?_replicate_of_lt hm]⟩

theorem table {entry : Decoder α} {L : Bytes → α → Prop} {encode : α → Bytes} {entries : List α}
    (haccepts : Accepts entry L) (hprompt : Prompt Fault.IsTruncation entry)
    (hfits : fitsTable entries) (hencode : ∀ a ∈ entries, L (encode a) a) (field : ChunkField)
    (depth : Nat) :
    Marked (Loader.table entry field depth) (encodeTable encode entries) entries
      (labelled field depth (encodeTable encode entries)) :=
  Marked.field (Varint.accepts_count.entries haccepts) (primitive_prompt.entries hprompt)
    (Grammar.table_encode hfits hencode) field depth

/-- Readings of the same kind, one behind the other. -/
theorem repeatedOnto {γ : Type} {value : γ → α} {encode : γ → Bytes} {label : γ → List Label} :
    ∀ {items : List γ} (done : List α),
      (∀ c ∈ items, Marked x (encode c) (value c) (label c)) →
      Marked (Decoder.repeatedOnto x items.length done) (items.flatMap encode)
        (done.reverse ++ items.map value) (items.flatMap label)
  | [], done, _ => by
      rw [List.map_nil, List.append_nil]
      exact Marked.pure done.reverse
  | c :: items, done, h => by
      rw [List.forall_mem_cons] at h
      have hrest : Marked (Decoder.repeatedOnto x items.length (value c :: done)) _ _ _ :=
        repeatedOnto (value c :: done) h.2
      rw [List.reverse_cons, List.append_assoc] at hrest
      exact h.1.bind (f := fun a => Decoder.repeatedOnto x items.length (a :: done)) hrest

theorem repeated {γ : Type} {value : γ → α} {encode : γ → Bytes} {label : γ → List Label}
    {items : List γ} (h : ∀ c ∈ items, Marked x (encode c) (value c) (label c)) :
    Marked (Decoder.repeated items.length x) (items.flatMap encode) (items.map value)
      (items.flatMap label) :=
  repeatedOnto [] h

end Marked

/-! ## Functions -/

/-- The fields of a function, for any way to read its children. -/
theorem marked_function {p : Prototype} (hfits : p.FitsAlone) (depth : Nat) (enclosing : Bytes)
    {children : Bytes → Loader (List Prototype)} {kids : Bytes} {ps : List Prototype}
    {kidMarks : List Label}
    (hchildren : Marked (children (ownSource enclosing p.source)) kids ps kidMarks) :
    Marked (Loader.function depth children enclosing) (p.encodeHead ++ kids ++ p.encodeTail)
      { p with source := ownSource enclosing p.source, children := ps }
      (p.labelHead depth ++ kidMarks ++ p.labelTail depth) := by
  have hsource := Marked.field accepts_byteString primitive_prompt.byteString
    (Grammar.text_encode hfits.source) .source depth
  have hline := fun (n : UInt32) field => Marked.field Varint.accepts_line primitive_prompt.line
    (Varint.line_encode n) field depth
  have hbyte := fun (n : UInt8) field => Marked.field accepts_byte primitive_prompt.byte
    (rfl : Grammar.Byte [n] n) field depth
  have hflag := Marked.field accepts_flag primitive_prompt.flag (Grammar.flag_encode p.isVararg)
    .varargFlag depth
  have hcode := Marked.table accepts_uint32 primitive_prompt.uint32 hfits.codeTable
    (fun word _ => Grammar.word_littleEndian word.toNat_lt) .code depth
  have hconstants := Marked.table accepts_constant primitive_prompt.constant hfits.constantTable
    (fun k hk => Grammar.constant_encode fun s hs => hfits.strings s (by rw [← hs]; exact hk))
    .constants depth
  have hupvalues := Marked.table accepts_upvalue primitive_prompt.upvalue hfits.upvalueTable
    (fun u _ => Grammar.upvalue_encode u) .upvalues depth
  have hdeltas := Marked.table accepts_byte primitive_prompt.byte hfits.deltaTable
    (fun b _ => (rfl : Grammar.Byte [b] b)) .lineDeltas depth
  have hanchors := Marked.table accepts_lineAnchor primitive_prompt.lineAnchor hfits.anchorTable
    (fun a _ => Grammar.lineAnchor_encode a) .lineAnchors depth
  have hlocals := Marked.table accepts_localVar primitive_prompt.localVar hfits.localTable
    (fun v hv => Grammar.localVar_encode (hfits.localNames v hv)) .localVars depth
  have hnames := Marked.table accepts_byteString primitive_prompt.byteString hfits.nameTable
    (fun s hs => Grammar.text_encode (hfits.upvalueNames s hs)) .upvalueNames depth
  refine Marked.of_eq (hsource.bind ((hline p.firstLine .firstLine).bind
    ((hline p.lastLine .lastLine).bind ((hbyte p.paramCount .paramCount).bind (hflag.bind
    ((hbyte p.stackSize .stackSize).bind (hcode.bind (hconstants.bind (hupvalues.bind
    (hchildren.bind (hdeltas.bind (hanchors.bind (hlocals.bind (hnames.bind
    (Marked.pure _))))))))))))))) ?_ ?_
  · simp only [Prototype.encodeHead, Prototype.encodeTail, List.append_assoc, List.cons_append,
      List.nil_append, List.append_nil]
  · simp only [Prototype.labelHead, Prototype.labelTail, List.append_assoc, List.append_nil]
    rfl

/-- Reading a count and then its functions has the marks of the count and of the functions. -/
theorem marked_count {n : Nat} (h : n < UInt64.size) (depth : Nat) :
    Marked (Decoder.count.within .children depth) (Varint.encode n) n
      (labelled .children depth (Varint.encode n)) :=
  Marked.field Varint.accepts_count primitive_prompt.count (Varint.count_encode h) _ _

/-- **A tree that is not too high has the marks of its labels.**  The induction is on the levels
that may still be entered, which the heights of the children stay within. -/
theorem marked_tree : ∀ (room depth : Nat) (enclosing : Bytes) {p : Prototype}, p.Fits →
    p.height ≤ room →
      Marked (Loader.tree room depth enclosing) p.encode (p.withSources enclosing) (p.labels depth)
  | room, depth, enclosing, p, hfits, hheight => by
      obtain ⟨halone, hchildren⟩ := Prototype.fits_iff.mp hfits
      have hcount := marked_count halone.childTable depth
      have hheights := Prototype.height_le_iff.mp hheight
      rw [Prototype.encode_eq, Prototype.labels_eq, Prototype.withSources_eq,
        List.append_assoc p.encodeHead, List.append_assoc (p.labelHead depth)]
      cases room with
      | zero =>
          have hnone : p.children = [] := by
            refine List.eq_nil_iff_forall_not_mem.mpr fun c hc => ?_
            exact absurd (hheights c hc) (Nat.not_succ_le_zero _)
          refine marked_function halone depth enclosing ?_
          rw [hnone] at hcount ⊢
          exact hcount.bind (Marked.pure [])
      | succ room =>
          refine marked_function halone depth enclosing ?_
          refine hcount.bind (Marked.repeated fun c hc => ?_)
          exact marked_tree room (depth + 1) _ (hchildren c hc)
            (Nat.le_of_succ_le_succ (hheights c hc))

/-! ## Chunks -/

theorem marked_chunk {settings : LoaderSettings} {p : Prototype} (hfits : p.FitsChunk)
    (hheight : p.height ≤ settings.maxDepth) :
    Marked (Loader.chunk settings) (p.encodeChunk settings.checkTypeSizes) (p.withSources [])
      (p.labelsChunk settings.checkTypeSizes) := by
  obtain ⟨htree, hupvalues⟩ := hfits
  have hprologue := Marked.field (accepts_prologue settings.checkTypeSizes)
    (primitive_prompt.prologue _) (a := ()) rfl .prologue 0
  have hdeclared := Marked.field accepts_byte primitive_prompt.byte
    (rfl : Grammar.Byte [UInt8.ofNat p.upvalues.length] _) .upvalueCount 0
  have hmain := marked_tree settings.maxDepth 0 [] htree hheight
  have hsame : (UInt8.ofNat p.upvalues.length).toNat = (p.withSources []).upvalues.length := by
    rw [Prototype.upvalues_withSources, UInt8.toNat_ofNat']
    omega
  have hend : Marked (if (UInt8.ofNat p.upvalues.length).toNat = (p.withSources []).upvalues.length
      then pure (p.withSources [])
      else Loader.fail (.upvalueCountMismatch (UInt8.ofNat p.upvalues.length).toNat
        (p.withSources []).upvalues.length) .upvalueCount 0)
      [] (p.withSources []) [] := by
    rw [if_pos hsame]
    exact Marked.pure _
  refine Marked.of_eq (hprologue.bind (hdeclared.bind (hmain.bind hend))) ?_ ?_
  · simp only [Prototype.encodeChunk, List.append_nil, List.cons_append, List.nil_append]
  · simp only [Prototype.labelsChunk, List.append_nil]
    rfl

end Reading

/-! ## Loads -/

/-- **A cut chunk is blamed on the field of the first missing byte.**  The labels mark every byte of
the canonical form of a tree that can be stored and is not too deep.  Cut off in front of any of
them, the form is refused, and the failure names the field and the depth of that byte's mark. -/
theorem load_take_encodeChunk (settings : LoaderSettings) (p : Prototype) (hfits : p.FitsChunk)
    (hdepth : p.nestingDepth ≤ settings.maxDepth) :
    (p.labelsChunk settings.checkTypeSizes).length
      = (p.encodeChunk settings.checkTypeSizes).length ∧
    ∀ m < (p.encodeChunk settings.checkTypeSizes).length, ∃ e,
      load settings ((p.encodeChunk settings.checkTypeSizes).take m) = .error e ∧
        (p.labelsChunk settings.checkTypeSizes)[m]? = some (e.field, e.depth) := by
  rw [Prototype.nestingDepth_eq_height] at hdepth
  have hmarked := Reading.marked_chunk hfits hdepth
  refine ⟨hmarked.length, fun m hm => ?_⟩
  obtain ⟨e, c, hrun, he⟩ := (hmarked.decided 0).cut m hm
  exact ⟨e, (load_of_error hrun).1, he⟩

/-- A cut behind two functions nested in each other is blamed on the table of the function around
them that it falls into. -/
theorem load_take_encodeChunk_fourLevels :
    Prototype.fourLevels.FitsChunk ∧
    Prototype.fourLevels.nestingDepth ≤ LoaderSettings.standard.maxDepth ∧
    ∃ e, load .standard ((Prototype.fourLevels.encodeChunk false).take 119) = .error e ∧
      e.field = .lineAnchors ∧ e.depth = 1 := by
  have hdepth : Prototype.fourLevels.nestingDepth ≤ LoaderSettings.standard.maxDepth := by
    rw [Prototype.nestingDepth_fourLevels]
    decide
  have hlength : 119 < (Prototype.fourLevels.encodeChunk false).length := by decide +kernel
  have hlabel : (Prototype.fourLevels.labelsChunk false)[119]? = some (.lineAnchors, 1) := by
    decide +kernel
  obtain ⟨e, hload, he⟩ := (load_take_encodeChunk .standard Prototype.fourLevels
    Prototype.fitsChunk_fourLevels hdepth).2 119 hlength
  have hmark := Option.some.inj (hlabel.symm.trans he)
  injection hmark with hfield hdepth'
  exact ⟨Prototype.fitsChunk_fourLevels, hdepth, e, hload, hfield.symm, hdepth'.symm⟩

end LuaBytecode
