import LuaBytecode.Chunk.Size
import LuaBytecode.Proofs.Prototype.Walk
import LuaBytecode.Proofs.Varint

/-!
# The canonical form is a form

The writer picks one form of everything: the shortest form of a number, zero or one for a flag, size
zero for the empty string, the tag by the length of a string.  This file shows that what it writes
is among the forms of the grammar, from numbers up to chunks.

A written tree stands for a tree with its sources filled in, since a stored source that is empty
means the enclosing one: **`function_encode`** and **`chunk_encode`** say so.
-/

namespace LuaBytecode

namespace Grammar

/-! ## Entries -/

theorem word_littleEndian {width n : Nat} (h : n < Nat.pow 256 width) :
    Word width (littleEndian width n) n :=
  ⟨length_littleEndian width n, by rw [ofLittleEndian_littleEndian, Nat.mod_eq_of_lt h]⟩

theorem flag_encode (value : Bool) : Flag [encodeFlag value] value :=
  ⟨encodeFlag value, rfl, by cases value <;> rfl⟩

theorem text_encode {s : Bytes} (h : fitsString s) : Text (encodeString s) s := by
  unfold fitsString at h
  cases s with
  | nil => exact .absent (Varint.count_encode (by decide))
  | cons b s => exact .present (Varint.count_encode (by omega))

theorem constant_encode {k : LuaBytecode.Constant} (h : ∀ s, k = .string s → fitsString s) :
    Constant k.encode k := by
  cases k with
  | nil => exact .nil
  | boolean value => exact .boolean (flag_encode value)
  | float value => exact .float (word_littleEndian value.bits.toNat_lt)
  | integer value => exact .integer (word_littleEndian value.toUInt64.toNat_lt)
  | string s =>
      have htext := text_encode (h s rfl)
      by_cases hlong : maxShortLength < s.length
      · have htag : (Constant.string s).tag = .longString := if_pos hlong
        rw [Constant.encode, htag]
        exact .longString htext
      · have htag : (Constant.string s).tag = .shortString := if_neg hlong
        rw [Constant.encode, htag]
        exact .shortString htext

theorem upvalue_encode (u : LuaBytecode.Upvalue) : Upvalue u.encode u := .mk (flag_encode u.inStack)

theorem lineAnchor_encode (a : LuaBytecode.LineAnchor) : LineAnchor a.encode a :=
  .mk (Varint.line_encode a.pc) (Varint.line_encode a.line)

theorem localVar_encode {v : LuaBytecode.LocalVar} (h : fitsString v.name) : LocalVar v.encode v :=
  .mk (text_encode h) (Varint.line_encode v.startPc) (Varint.line_encode v.endPc)

/-! ## Tables -/

section Table

variable {α : Type} {L : Bytes → α → Prop} {entry : α → Bytes} {entries : List α}

theorem entries_flatMap (h : ∀ a ∈ entries, L (entry a) a) :
    Entries L (entries.flatMap entry) entries := by
  induction entries with
  | nil => exact .nil
  | cons a entries ih =>
      rw [List.forall_mem_cons] at h
      rw [List.flatMap_cons]
      exact .cons h.1 (ih h.2)

theorem table_encode (hfits : fitsTable entries) (h : ∀ a ∈ entries, L (entry a) a) :
    Table L (encodeTable entry entries) entries :=
  .mk (Varint.count_encode hfits) (entries_flatMap h)

end Table

/-! ## Functions -/

variable {p : Prototype}

theorem head_encode (h : p.FitsAlone) : Head p.source p.encodeHead p := by
  have hsplit : p.encodeHead = encodeString p.source ++ encodeLine p.firstLine ++
      encodeLine p.lastLine ++ [p.paramCount] ++ [encodeFlag p.isVararg] ++ [p.stackSize] ++
      encodeTable (fun word => littleEndian 4 word.toNat) p.code ++
      encodeTable Constant.encode p.constants ++ encodeTable Upvalue.encode p.upvalues := by
    simp [Prototype.encodeHead]
  rw [hsplit]
  exact .mk (text_encode h.source) (Varint.line_encode _) (Varint.line_encode _) rfl
    (flag_encode _) rfl
    (table_encode h.codeTable fun word _ => word_littleEndian word.toNat_lt)
    (table_encode h.constantTable fun k hk =>
      constant_encode fun s hs => h.strings s (by rw [← hs]; exact hk))
    (table_encode h.upvalueTable fun u _ => upvalue_encode u)

theorem tail_encode (h : p.FitsAlone) : Tail p.encodeTail p :=
  .mk (table_encode h.deltaTable fun _ _ => rfl)
    (table_encode h.anchorTable fun a _ => lineAnchor_encode a)
    (table_encode h.localTable fun v hv => localVar_encode (h.localNames v hv))
    (table_encode h.nameTable fun s hs => text_encode (h.upvalueNames s hs))

/-- The fields in front of the children are read apart from the source and the children. -/
theorem Head.withSources {stored w : Bytes} (h : Head stored w p) (enclosing : Bytes) :
    Head stored w (p.withSources enclosing) := by
  rw [Prototype.withSources_eq]
  obtain ⟨hsource, hfirst, hlast, hparams, hvararg, hstack, hcode, hconstants, hupvalues⟩ := h
  exact .mk hsource hfirst hlast hparams hvararg hstack hcode hconstants hupvalues

theorem Tail.withSources {w : Bytes} (h : Tail w p) (enclosing : Bytes) :
    Tail w (p.withSources enclosing) := by
  rw [Prototype.withSources_eq]
  obtain ⟨hdeltas, hanchors, hlocals, hnames⟩ := h
  exact .mk hdeltas hanchors hlocals hnames

/-- Functions one behind the other, each written and each with its sources filled in. -/
theorem functions_encode {maxDepth depth : Nat} {source : Bytes} {ps : List Prototype}
    (h : ∀ c ∈ ps, Function maxDepth depth source c.encode (c.withSources source)) :
    Functions maxDepth depth source (ps.flatMap Prototype.encode)
      (ps.map (Prototype.withSources source)) := by
  induction ps with
  | nil => exact .nil
  | cons p ps ih =>
      rw [List.forall_mem_cons] at h
      rw [List.flatMap_cons, List.map_cons]
      exact .cons h.1 (ih h.2)

/-- **A written function is a form of itself with its sources filled in**, wherever its height
leaves room below the greatest depth. -/
theorem function_encode {maxDepth : Nat} (p : Prototype) : ∀ {depth : Nat} (enclosing : Bytes),
    p.Fits → depth + p.height ≤ maxDepth →
      Function maxDepth depth enclosing p.encode (p.withSources enclosing) := by
  induction p using Prototype.treeInduction with
  | node p ih =>
      intro depth enclosing hfits hheight
      obtain ⟨halone, hchildren⟩ := Prototype.fits_iff.mp hfits
      have hroom : ∀ c ∈ p.children, depth + 1 + c.height ≤ maxDepth := fun c hc => by
        have := Prototype.height_lt_of_mem_children hc
        omega
      have hkids := Prototype.children_withSources enclosing p
      rw [Prototype.encode_eq]
      refine .mk ((head_encode halone).withSources enclosing)
        (Prototype.source_withSources enclosing p) ?_ ?_ ?_
        ((tail_encode halone).withSources enclosing)
      · rw [hkids, List.length_map]
        exact Varint.count_encode halone.childTable
      · rw [hkids]
        intro hne
        have hsome : p.children ≠ [] := fun h => hne (by rw [h, List.map_nil])
        obtain ⟨c, hc⟩ := List.exists_mem_of_ne_nil p.children hsome
        have := hroom c hc
        omega
      · rw [hkids, Prototype.source_withSources]
        exact functions_encode fun c hc => ih c hc _ (hchildren c hc) (hroom c hc)

/-- **A written chunk is a form of the chunk** whose main function has its sources filled in. -/
theorem chunk_encode {settings : LoaderSettings} (hfits : p.FitsChunk)
    (hheight : p.height ≤ settings.maxDepth) :
    Chunk settings (p.encodeChunk settings.checkTypeSizes) (p.withSources []) := by
  obtain ⟨htree, hupvalues⟩ := hfits
  refine .mk ?_ (function_encode p [] htree (by rwa [Nat.zero_add]))
  rw [Prototype.upvalues_withSources, UInt8.toNat_ofNat']
  omega

end Grammar

/-! ## A tree to look at -/

namespace Prototype

/-- A tree of four levels, the first and the third with a source of their own. -/
def fourLevels : Prototype :=
  ⟨[0x40, 0x61], 0, 0, 0, true, 2, [0x51], [.string [0x68, 0x69], .float ⟨0x7FF8000000000001⟩],
    [⟨true, 0, 0⟩],
    [⟨[], 1, 2, 1, false, 3, [], [.nil], [],
      [⟨[0x40, 0x62], 300, 301, 0, false, 2, [0x47], [], [],
        [⟨[], 300, 301, 0, false, 2, [0x47], [], [], [], [1], [], [], []⟩],
        [1], [], [], []⟩],
      [0x80], [⟨0, 1⟩], [⟨[0x78], 0, 1⟩], []⟩],
    [1], [], [], [[0x5F]]⟩

theorem fitsChunk_fourLevels : fourLevels.FitsChunk := by
  refine ⟨fun q hq => ?_, by decide⟩
  simp only [fourLevels, preorder, preorderAll, List.append_nil, List.mem_cons, List.not_mem_nil,
    or_false] at hq
  rcases hq with rfl | rfl | rfl | rfl <;> constructor <;> simp [fitsString, fitsTable, UInt64.size]

theorem nestingDepth_fourLevels : fourLevels.nestingDepth = 3 := by
  rw [nestingDepth_eq_height]
  decide

end Prototype

end LuaBytecode
