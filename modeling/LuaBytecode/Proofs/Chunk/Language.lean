import LuaBytecode.Proofs.Varint

/-!
# The loader accepts the grammar

`Grammar.Chunk` says which bytes stand for which tree without saying how to read them.  This file
shows that the loader succeeds exactly behind the words of that grammar, one relation at a time:
every decoder accepts the relation of its field, a function accepts its fields in their order, and
a tree follows by induction on the levels that may still be entered.

* `accepts_byteString`, `accepts_constant`, … — the entries of tables.
* `accepts_function` — a function, for any way to read its children.
* **`accepts_tree`**, **`accepts_chunk`** — trees and chunks.
* **`load_iff_chunk`** — what a load gives and how much of the input it passes.
-/

namespace LuaBytecode

namespace Reading

variable {α : Type}

/-! ## Bytes and words -/

theorem accepts_take (n : Nat) :
    Accepts (Decoder.take n) (fun w bytes => w = bytes ∧ bytes.length = n) where
  sound := by
    intro offset input bytes c h
    by_cases hn : n ≤ input.length
    · rw [Decoder.take_of_le hn] at h
      cases h
      have hlen := List.length_take_of_le hn
      exact ⟨input.take n, input.drop n, (List.take_append_drop n input).symm, by rw [hlen], rfl,
        hlen⟩
    · rw [Decoder.take_of_lt (Nat.lt_of_not_le hn)] at h
      cases h
  complete := by
    rintro w _ ⟨rfl, rfl⟩ offset rest
    rw [Decoder.take_of_le (by simp only [Cursor.remaining, List.length_append]; omega)]
    simp

theorem accepts_byte : Accepts Decoder.byte Grammar.Byte where
  sound := by
    intro offset input b c h
    cases input with
    | nil => cases h
    | cons b rest =>
        cases h
        exact ⟨[b], rest, rfl, rfl, rfl⟩
  complete := by
    rintro w b rfl offset rest
    rfl

theorem accepts_flag : Accepts Decoder.flag Grammar.Flag := accepts_byte.map (· != 0)

/-- A word of a width is the bytes of that width and no others. -/
theorem accepts_word {width : Nat} (ofNat : Nat → α) (toNat : α → Nat)
    (hof : ∀ a, ofNat (toNat a) = a) (hto : ∀ n, n < Nat.pow 256 width → toNat (ofNat n) = n) :
    Accepts ((ofNat ∘ ofLittleEndian) <$> Decoder.take width)
      (fun w a => Grammar.Word width w (toNat a)) := by
  refine ((accepts_take width).map _).congr fun w a => ?_
  constructor
  · rintro ⟨bytes, ⟨rfl, hlen⟩, rfl⟩
    have hlt := ofLittleEndian_lt w
    rw [hlen] at hlt
    exact ⟨hlen, (hto _ hlt).symm⟩
  · rintro ⟨hlen, hvalue⟩
    refine ⟨w, ⟨rfl, hlen⟩, ?_⟩
    rw [Function.comp_apply, hvalue, hof]

theorem accepts_uint32 :
    Accepts Decoder.uint32 (fun w n => Grammar.Word 4 w n.toNat) :=
  accepts_word UInt32.ofNat UInt32.toNat (fun _ => UInt32.ofNat_toNat)
    fun _ hn => UInt32.toNat_ofNat_of_lt' hn

theorem accepts_uint64 :
    Accepts Decoder.uint64 (fun w n => Grammar.Word 8 w n.toNat) :=
  accepts_word UInt64.ofNat UInt64.toNat (fun _ => UInt64.ofNat_toNat)
    fun _ hn => UInt64.toNat_ofNat_of_lt' hn

theorem accepts_int64 :
    Accepts Decoder.int64 (fun w n => Grammar.Word 8 w n.toUInt64.toNat) := by
  refine (accepts_uint64.map UInt64.toInt64).congr fun w n => ?_
  constructor
  · rintro ⟨m, hm, rfl⟩
    rwa [UInt64.toUInt64_toInt64]
  · intro h
    exact ⟨n.toUInt64, h, n.toInt64_toUInt64.symm⟩

/-! ## Strings and constants -/

/-- What may stand behind a size. -/
def Body : Nat → Bytes → Bytes → Prop
  | 0, w, s => w = [] ∧ s = []
  | n + 1, w, s => w = s ∧ s.length = n

theorem accepts_byteString : Accepts Decoder.byteString Grammar.Text := by
  unfold Decoder.byteString
  refine (Varint.accepts_count.bind (N := Body) fun size => ?_).congr fun w s => ?_
  · cases size with
    | zero => exact Accepts.pure []
    | succ n => exact accepts_take n
  constructor
  · rintro ⟨u, v, size, rfl, hsize, hv⟩
    cases size with
    | zero =>
        obtain ⟨rfl, rfl⟩ := hv
        rw [List.append_nil]
        exact .absent hsize
    | succ n =>
        obtain ⟨rfl, rfl⟩ := hv
        exact .present hsize
  · intro h
    cases h with
    | absent hsize => exact ⟨w, [], 0, (List.append_nil w).symm, hsize, rfl, rfl⟩
    | @present size s hsize => exact ⟨size, s, s.length + 1, rfl, hsize, rfl, rfl⟩

/-- What may stand behind a tag. -/
def Payload : ConstantTag → Bytes → Constant → Prop
  | .nil, w, k => w = [] ∧ k = .nil
  | .boolean, w, k => ∃ value, Grammar.Flag w value ∧ k = .boolean value
  | .float, w, k => ∃ n : UInt64, Grammar.Word 8 w n.toNat ∧ k = .float ⟨n⟩
  | .integer, w, k => ∃ n : Int64, Grammar.Word 8 w n.toUInt64.toNat ∧ k = .integer n
  | .shortString, w, k => ∃ s, Grammar.Text w s ∧ k = .string s
  | .longString, w, k => ∃ s, Grammar.Text w s ∧ k = .string s

theorem accepts_payload (tag : ConstantTag) : Accepts (Decoder.payload tag) (Payload tag) := by
  cases tag with
  | nil => exact Accepts.pure Constant.nil
  | boolean => exact accepts_flag.map _
  | float => exact accepts_uint64.map _
  | integer => exact accepts_int64.map _
  | shortString => exact accepts_byteString.map _
  | longString => exact accepts_byteString.map _

/-- A byte stands for a tag only if it is the byte the tag is stored as. -/
theorem eq_toByte_of_ofByte? {b : UInt8} {tag : ConstantTag}
    (h : ConstantTag.ofByte? b = some tag) : b = tag.toByte := by
  unfold ConstantTag.ofByte? at h
  split_ifs at h with h₀ h₁ h₂ h₃ h₄ h₅ <;> cases h <;> assumption

/-- A constant is a tag with what may stand behind it. -/
theorem constant_iff {w : Bytes} {k : Constant} :
    Grammar.Constant w k ↔ ∃ tag v, w = ConstantTag.toByte tag :: v ∧ Payload tag v k := by
  constructor
  · intro h
    cases h with
    | nil => exact ⟨.nil, [], rfl, rfl, rfl⟩
    | boolean h => exact ⟨.boolean, _, rfl, _, h, rfl⟩
    | @float bytes x h => exact ⟨.float, _, rfl, x.bits, h, rfl⟩
    | integer h => exact ⟨.integer, _, rfl, _, h, rfl⟩
    | shortString h => exact ⟨.shortString, _, rfl, _, h, rfl⟩
    | longString h => exact ⟨.longString, _, rfl, _, h, rfl⟩
  · rintro ⟨tag, v, rfl, h⟩
    cases tag with
    | nil => obtain ⟨rfl, rfl⟩ := h; exact .nil
    | boolean => obtain ⟨value, h, rfl⟩ := h; exact .boolean h
    | float => obtain ⟨n, h, rfl⟩ := h; exact .float h
    | integer => obtain ⟨n, h, rfl⟩ := h; exact .integer h
    | shortString => obtain ⟨s, h, rfl⟩ := h; exact .shortString h
    | longString => obtain ⟨s, h, rfl⟩ := h; exact .longString h

theorem accepts_constant : Accepts Decoder.constant Grammar.Constant := by
  unfold Decoder.constant
  refine (accepts_byte.bind (N := fun b w k =>
    ∃ tag, ConstantTag.ofByte? b = some tag ∧ Payload tag w k) fun b => ?_).congr fun w k => ?_
  · cases htag : ConstantTag.ofByte? b with
    | some tag =>
        refine (accepts_payload tag).congr fun w k => ?_
        simp only [Option.some.injEq, exists_eq_left']
    | none =>
        refine (Accepts.throw _).congr fun w k => ?_
        simp only [reduceCtorEq, false_and, exists_false]
  rw [constant_iff]
  constructor
  · rintro ⟨_, v, b, rfl, rfl, tag, htag, h⟩
    exact ⟨tag, v, by rw [eq_toByte_of_ofByte? htag]; rfl, h⟩
  · rintro ⟨tag, v, rfl, h⟩
    exact ⟨[tag.toByte], v, tag.toByte, rfl, rfl, tag, ConstantTag.ofByte?_toByte tag, h⟩

/-! ## Entries of the other tables -/

theorem accepts_upvalue : Accepts Loader.upvalue Grammar.Upvalue := by
  refine (accepts_flag.bind fun inStack => accepts_byte.bind fun index =>
    accepts_byte.bind fun kind => Accepts.pure (Upvalue.mk inStack index kind)).congr fun w u => ?_
  constructor
  · rintro ⟨front, _, inStack, rfl, hflag, _, _, index, rfl, rfl, _, _, kind, rfl, rfl, rfl, rfl⟩
    exact .mk hflag
  · rintro ⟨hflag⟩
    exact ⟨_, _, _, rfl, hflag, [_], [_], _, rfl, rfl, [_], [], _, rfl, rfl, rfl, rfl⟩

theorem accepts_lineAnchor : Accepts Loader.lineAnchor Grammar.LineAnchor := by
  refine (Varint.accepts_line.bind fun pc => Varint.accepts_line.bind fun line =>
    Accepts.pure (LineAnchor.mk pc line)).congr fun w a => ?_
  constructor
  · rintro ⟨_, _, pc, rfl, hpc, v, _, line, rfl, hline, rfl, rfl⟩
    rw [List.append_nil]
    exact .mk hpc hline
  · rintro ⟨hpc, hline⟩
    exact ⟨_, _, _, rfl, hpc, _, [], _, (List.append_nil _).symm, hline, rfl, rfl⟩

theorem accepts_localVar : Accepts Loader.localVar Grammar.LocalVar := by
  refine (accepts_byteString.bind fun name => Varint.accepts_line.bind fun startPc =>
    Varint.accepts_line.bind fun endPc => Accepts.pure (LocalVar.mk name startPc endPc)).congr
    fun w a => ?_
  constructor
  · rintro ⟨_, _, name, rfl, hname, _, _, startPc, rfl, hstart, _, _, endPc, rfl, hstop, rfl, rfl⟩
    rw [List.append_nil, ← List.append_assoc]
    exact .mk hname hstart hstop
  · rintro ⟨hname, hstart, hstop⟩
    exact ⟨_, _, _, List.append_assoc _ _ _, hname, _, _, _, rfl, hstart, _, [], _,
      (List.append_nil _).symm, hstop, rfl, rfl⟩

theorem accepts_table {entry : Decoder α} {L : Bytes → α → Prop} (h : Accepts entry L)
    (field : ChunkField) (depth : Nat) :
    Accepts (Loader.table entry field depth) (Grammar.Table L) :=
  (Varint.accepts_count.entries h).within field depth

/-! ## Functions -/

/-- A function whose children, as a function of its own source, are in `C`. -/
def FunctionOver (C : Bytes → Bytes → List Prototype → Prop) (enclosing w : Bytes)
    (p : Prototype) : Prop :=
  ∃ stored head children tail, w = head ++ children ++ tail ∧ Grammar.Head stored head p ∧
    p.source = ownSource enclosing stored ∧ C p.source children p.children ∧ Grammar.Tail tail p

/-- **A function is its fields in their order**, for any way to read its children. -/
theorem accepts_function {depth : Nat} {children : Bytes → Loader (List Prototype)}
    {C : Bytes → Bytes → List Prototype → Prop} (hchildren : ∀ s, Accepts (children s) (C s))
    (enclosing : Bytes) :
    Accepts (Loader.function depth children enclosing) (FunctionOver C enclosing) := by
  refine ((accepts_byteString.within .source depth).bind fun stored =>
    (Varint.accepts_line.within .firstLine depth).bind fun firstLine =>
    (Varint.accepts_line.within .lastLine depth).bind fun lastLine =>
    (accepts_byte.within .paramCount depth).bind fun paramCount =>
    (accepts_flag.within .varargFlag depth).bind fun isVararg =>
    (accepts_byte.within .stackSize depth).bind fun stackSize =>
    (accepts_table accepts_uint32 .code depth).bind fun code =>
    (accepts_table accepts_constant .constants depth).bind fun constants =>
    (accepts_table accepts_upvalue .upvalues depth).bind fun upvalues =>
    (hchildren (ownSource enclosing stored)).bind fun children =>
    (accepts_table accepts_byte .lineDeltas depth).bind fun lineDeltas =>
    (accepts_table accepts_lineAnchor .lineAnchors depth).bind fun lineAnchors =>
    (accepts_table accepts_localVar .localVars depth).bind fun localVars =>
    (accepts_table accepts_byteString .upvalueNames depth).bind fun upvalueNames =>
    Accepts.pure (Prototype.mk (ownSource enclosing stored) firstLine lastLine paramCount isVararg
      stackSize code constants upvalues children lineDeltas lineAnchors localVars
      upvalueNames)).congr fun w p => ?_
  constructor
  · -- the fields are taken off in groups, which is much faster than one pattern for all
    rintro ⟨source, _, stored, rfl, hsource, first, _, firstLine, rfl, hfirst, last, _, lastLine,
      rfl, hlast, h⟩
    obtain ⟨params, _, paramCount, rfl, hparams, vararg, _, isVararg, rfl, hvararg, stack, _,
      stackSize, rfl, hstack, h⟩ := h
    obtain ⟨words, _, code, rfl, hcode, values, _, constants, rfl, hconstants, ups, _, upvalues,
      rfl, hupvalues, kids, _, children, rfl, hkids, h⟩ := h
    obtain ⟨deltas, _, lineDeltas, rfl, hdeltas, anchors, _, lineAnchors, rfl, hanchors, locals, _,
      localVars, rfl, hlocals, names, _, upvalueNames, rfl, hnames, rfl, rfl⟩ := h
    refine ⟨stored, _, kids, _, ?_, ⟨hsource, hfirst, hlast, hparams, hvararg, hstack, hcode,
      hconstants, hupvalues⟩, rfl, hkids, ⟨hdeltas, hanchors, hlocals, hnames⟩⟩
    simp only [List.append_assoc, List.append_nil]
  · obtain ⟨_, firstLine, lastLine, paramCount, isVararg, stackSize, code, constants, upvalues,
      children, lineDeltas, lineAnchors, localVars, upvalueNames⟩ := p
    rintro ⟨stored, _, kids, _, rfl, ⟨hsource, hfirst, hlast, hparams, hvararg, hstack, hcode,
      hconstants, hupvalues⟩, rfl, hkids, ⟨hdeltas, hanchors, hlocals, hnames⟩⟩
    refine ⟨_, _, stored, ?_, hsource, _, _, firstLine, rfl, hfirst, _, _, lastLine, rfl, hlast,
      _, _, paramCount, rfl, hparams, _, _, isVararg, rfl, hvararg, _, _, stackSize, rfl, hstack,
      _, _, code, rfl, hcode, _, _, constants, rfl, hconstants, _, _, upvalues, rfl, hupvalues,
      kids, _, children, rfl, hkids, _, _, lineDeltas, rfl, hdeltas, _, _, lineAnchors, rfl,
      hanchors, _, _, localVars, rfl, hlocals, _, [], upvalueNames, rfl, hnames, rfl, rfl⟩
    simp only [List.append_assoc, List.append_nil]

/-- Functions one behind the other are entries like any others. -/
theorem functions_iff_entries {maxDepth depth : Nat} {enclosing : Bytes} {ps : List Prototype} :
    ∀ {w : Bytes}, Grammar.Functions maxDepth depth enclosing w ps ↔
      Grammar.Entries (Grammar.Function maxDepth depth enclosing) w ps := by
  induction ps with
  | nil =>
      intro w
      constructor
      · rintro ⟨⟩; exact .nil
      · rintro ⟨⟩; exact .nil
  | cons p ps ih =>
      intro w
      constructor
      · rintro (_ | ⟨hp, hps⟩)
        exact .cons hp (ih.mp hps)
      · rintro (_ | ⟨hp, hps⟩)
        exact .cons hp (ih.mpr hps)

/-- The children of a function: their number, none at the greatest depth, and the functions. -/
def Children (maxDepth depth : Nat) (source w : Bytes) (ps : List Prototype) : Prop :=
  ∃ size rest, w = size ++ rest ∧ Grammar.Count size ps.length ∧ (ps ≠ [] → depth < maxDepth) ∧
    Grammar.Functions maxDepth (depth + 1) source rest ps

theorem function_iff {maxDepth depth : Nat} {enclosing w : Bytes} {p : Prototype} :
    Grammar.Function maxDepth depth enclosing w p ↔
      FunctionOver (Children maxDepth depth) enclosing w p := by
  constructor
  · rintro ⟨hhead, hsource, hsize, hdepth, hchildren, htail⟩
    refine ⟨_, _, _, _, ?_, hhead, hsource, ⟨_, _, rfl, hsize, hdepth, hchildren⟩, htail⟩
    simp only [List.append_assoc]
  · rintro ⟨stored, head, _, tail, rfl, hhead, hsource, ⟨size, rest, rfl, hsize, hdepth,
      hchildren⟩, htail⟩
    rw [← List.append_assoc head]
    exact .mk hhead hsource hsize hdepth hchildren htail

/-- At the greatest depth the count of the children has to be zero. -/
theorem accepts_noChildren (depth : Nat) (source : Bytes) :
    Accepts (noChildren depth) (Children depth depth source) := by
  refine ((Varint.accepts_count.within .children depth).bind fun n =>
    (Accepts.pure []).guarded (p := n = 0) ((Accepts.throw _).within _ _)).congr fun w ps => ?_
  constructor
  · rintro ⟨size, _, n, rfl, hsize, rfl, rfl, rfl⟩
    exact ⟨size, [], rfl, hsize, fun h => absurd rfl h, .nil⟩
  · rintro ⟨size, rest, rfl, hsize, hdepth, hps⟩
    cases ps with
    | nil => cases hps; exact ⟨size, [], 0, rfl, hsize, rfl, rfl, rfl⟩
    | cons p ps => exact absurd (hdepth (List.cons_ne_nil p ps)) (Nat.lt_irrefl depth)

/-- Above the greatest depth the count of the children is followed by the children. -/
theorem accepts_children {maxDepth depth : Nat} (hdepth : depth < maxDepth)
    {child : Loader Prototype} {source : Bytes}
    (hchild : Accepts child (Grammar.Function maxDepth (depth + 1) source)) :
    Accepts (do
      let n ← Decoder.count.within .children depth
      Decoder.repeated n child)
      (Children maxDepth depth source) := by
  refine ((Varint.accepts_count.within .children depth).bind fun n =>
    hchild.repeated n).congr fun w ps => ?_
  constructor
  · rintro ⟨size, rest, n, rfl, hsize, rfl, hps⟩
    exact ⟨size, rest, rfl, hsize, fun _ => hdepth, functions_iff_entries.mpr hps⟩
  · rintro ⟨size, rest, rfl, hsize, -, hps⟩
    exact ⟨size, rest, ps.length, rfl, hsize, rfl, functions_iff_entries.mp hps⟩

/-- **A tree of functions is a word of the grammar.**  The induction is on the levels that may still
be entered: the greatest depth stays the same while the depth grows towards it. -/
theorem accepts_tree : ∀ (room depth : Nat) (enclosing : Bytes),
    Accepts (Loader.tree room depth enclosing) (Grammar.Function (depth + room) depth enclosing)
  | 0, depth, enclosing =>
      (accepts_function (accepts_noChildren depth) enclosing).congr fun _ _ => function_iff.symm
  | room + 1, depth, enclosing => by
      have hroom : depth + 1 + room = depth + (room + 1) := by omega
      have hchild := fun source => accepts_tree room (depth + 1) source
      rw [hroom] at hchild
      exact (accepts_function (fun source => accepts_children (by omega) (hchild source))
        enclosing).congr fun _ _ => function_iff.symm

/-! ## Chunks -/

theorem accepts_checkFields : ∀ fields : List (PrologueField × Bytes),
    Accepts (Prologue.checkFields fields) (fun w _ => w = fields.flatMap (·.2))
  | [] => (Accepts.pure ()).congr fun w _ => by simp
  | (field, expected) :: rest => by
      refine (((accepts_take expected.length).bind fun found =>
        (Accepts.pure ()).guarded (p := found = expected) (Accepts.throw _)).bind fun _ =>
        accepts_checkFields rest).congr fun w _ => ?_
      constructor
      · rintro ⟨_, v, _, rfl, ⟨_, _, found, rfl, ⟨rfl, -⟩, rfl, rfl, -⟩, rfl⟩
        simp
      · rintro rfl
        exact ⟨expected, rest.flatMap (·.2), (), rfl,
          ⟨expected, [], expected, (List.append_nil _).symm, ⟨rfl, rfl⟩, rfl, rfl, rfl⟩, rfl⟩

theorem accepts_prologue (withSizes : Bool) :
    Accepts (Prologue.check withSizes) (fun w _ => w = Prologue.encode withSizes) :=
  accepts_checkFields _

/-- **A chunk is a word of the grammar.** -/
theorem accepts_chunk (settings : LoaderSettings) :
    Accepts (Loader.chunk settings) (Grammar.Chunk settings) := by
  have hmain := accepts_tree settings.maxDepth 0 []
  rw [Nat.zero_add] at hmain
  refine (((accepts_prologue settings.checkTypeSizes).within .prologue 0).bind fun _ =>
    (accepts_byte.within .upvalueCount 0).bind fun declared => hmain.bind fun main =>
    (Accepts.pure main).guarded (p := declared.toNat = main.upvalues.length)
      ((Accepts.throw _).within _ _)).congr fun w p => ?_
  constructor
  · rintro ⟨_, _, _, rfl, rfl, _, _, declared, rfl, rfl, _, _, main, rfl, hp, hdeclared, rfl,
      rfl⟩
    rw [List.append_nil]
    exact .mk hdeclared hp
  · rintro ⟨hdeclared, hp⟩
    exact ⟨_, _, (), rfl, rfl, [_], _, _, rfl, rfl, _, [], p, (List.append_nil _).symm, hp,
      hdeclared, rfl, rfl⟩

end Reading

/-! ## Loads -/

/-- What a load gives and how far it reaches is what the loader does from the start of the input. -/
theorem load_eq_ok_iff {settings : LoaderSettings} {input : Bytes} {main : Prototype} {k : Nat} :
    load settings input = .ok main ∧ reach settings input = k ↔
      ∃ c, Loader.chunk settings (Cursor.start input) = .ok main c ∧ c.offset = k := by
  constructor
  · rintro ⟨hload, rfl⟩
    cases h : Loader.chunk settings (Cursor.start input) with
    | ok p c =>
        rw [(load_of_ok h).1] at hload
        injection hload with hp
        exact ⟨c, by rw [hp], (load_of_ok h).2.symm⟩
    | error e c => rw [(load_of_error h).1] at hload; cases hload
  · rintro ⟨c, h, rfl⟩
    exact load_of_ok h

theorem load_eq_error_iff {settings : LoaderSettings} {input : Bytes} {e : LoadError} :
    load settings input = .error e ↔
      ∃ c, Loader.chunk settings (Cursor.start input) = .error e c := by
  constructor
  · intro hload
    cases h : Loader.chunk settings (Cursor.start input) with
    | ok p c => rw [(load_of_ok h).1] at hload; cases hload
    | error e' c =>
        rw [(load_of_error h).1] at hload
        injection hload with he
        exact ⟨c, by rw [he]⟩
  · rintro ⟨c, h⟩
    exact (load_of_error h).1

/-- **A load succeeds exactly on the grammar.**  It gives `main` and passes `k` bytes if and only if
the first `k` bytes are a form of a chunk with `main` as its main function.  No other prefix of the
input is a form of any chunk. -/
theorem load_iff_chunk (settings : LoaderSettings) (input : Bytes) :
    (∀ (main : Prototype) (k : Nat),
      load settings input = .ok main ∧ reach settings input = k ↔
        k ≤ input.length ∧ Grammar.Chunk settings (input.take k) main) ∧
    (∀ (j k : Nat) (p q : Prototype), j ≤ input.length → k ≤ input.length →
      Grammar.Chunk settings (input.take j) p → Grammar.Chunk settings (input.take k) q →
        j = k ∧ p = q) := by
  have haccepts := Reading.accepts_chunk settings
  constructor
  · intro main k
    rw [load_eq_ok_iff]
    constructor
    · rintro ⟨c, h, rfl⟩
      obtain ⟨w, rest, rfl, rfl, hw⟩ := haccepts.sound h
      rw [Nat.zero_add, List.take_left, List.length_append]
      exact ⟨Nat.le_add_right _ _, hw⟩
    · rintro ⟨hk, hw⟩
      have h := haccepts.complete hw 0 (input.drop k)
      rw [List.take_append_drop, List.length_take_of_le hk, Nat.zero_add] at h
      exact ⟨_, h, rfl⟩
  · intro j k p q hj hk hp hq
    have heq : input.take j ++ input.drop j = input.take k ++ input.drop k := by
      rw [List.take_append_drop, List.take_append_drop]
    obtain ⟨htake, hpq⟩ := haccepts.unique hp hq heq
    have hlen := congrArg List.length htake
    rw [List.length_take_of_le hj, List.length_take_of_le hk] at hlen
    exact ⟨hlen, hpq⟩

/-- A chunk that no writer makes: sizes start with groups of zeros, the empty source has the size of
an empty string, the flag is seven, and a short string has the long tag. -/
def paddedInput : Bytes :=
  Prologue.encode false ++ [0, 0x00, 0x81, 0x80, 0x80, 0, 7, 2, 0x00, 0x80, 0x81, 0x14, 0x82, 0x78,
    0x80, 0x80, 0x80, 0x80, 0x80, 0x80]

def paddedMain : Prototype :=
  ⟨[], 0, 0, 0, true, 2, [], [.string [0x78]], [], [], [], [], [], []⟩

/-- With a byte behind it, it is the only prefix that is a form of a chunk. -/
theorem load_iff_chunk_padded :
    Grammar.Chunk .standard paddedInput paddedMain ∧
    ∀ (j : Nat) (q : Prototype), j ≤ (paddedInput ++ [7]).length →
      Grammar.Chunk .standard ((paddedInput ++ [7]).take j) q → j = 48 ∧ q = paddedMain := by
  have hload : load .standard (paddedInput ++ [7]) = .ok paddedMain := rfl
  have hreach : reach .standard (paddedInput ++ [7]) = 48 := rfl
  obtain ⟨hiff, hunique⟩ := load_iff_chunk .standard (paddedInput ++ [7])
  obtain ⟨hlength, hchunk⟩ := (hiff paddedMain 48).mp ⟨hload, hreach⟩
  exact ⟨hchunk, fun j q hj hq => hunique j 48 q paddedMain hj hlength hq hchunk⟩

end LuaBytecode
