import LuaBytecode.Chunk.Count
import LuaBytecode.Proofs.Chunk.RoundTrip
import Mathlib.Algebra.BigOperators.Group.List.Basic

/-!
# What is loaded is paid for

A chunk can declare any length for any table, but every entry of every table takes bytes of its
own.  The grammar says how many at least: each relation is given the least size of its words, and
that of a function adds up to `leastOwnSize` for its fields and `leastSize` with those nested in it.

The same bounds settle a question about the counts.  A loader that refuses a count as soon as the
bytes behind it cannot hold that many entries (`Decoder.affordable`) is safe against any count;
here it is shown to refuse no chunk, because whoever succeeds behind the count has found the
entries there.

* `Function.leastSize_le` — a form of a tree is no shorter than what the tree takes at least.
* **`agree_chunk`** — checking every count changes no success.
* **`load_cost`** — both for loads.
-/

namespace LuaBytecode

namespace Prototype

theorem leastSize_eq (p : Prototype) :
    p.leastSize = p.leastOwnSize + (p.children.map leastSize).sum := by
  rw [leastSize, preorder_eq, List.map_cons, List.sum_cons, List.map_flatMap, List.flatMap_def,
    List.sum_flatten, List.map_map]
  rfl

theorem leastOwnSize_eq (p : Prototype) :
    p.leastOwnSize = 14 + 4 * p.code.length + p.constants.length + 3 * p.upvalues.length +
      p.lineDeltas.length + 2 * p.lineAnchors.length + 3 * p.localVars.length +
      p.upvalueNames.length + (p.constants.map Constant.textSize).sum +
      (p.localVars.map (·.name.length)).sum + (p.upvalueNames.map List.length).sum := rfl

end Prototype

/-! ## The least size of a word -/

namespace Grammar

variable {w : Bytes}

theorem Number.length_pos {limit n : Nat} (h : Number limit w n) : 1 ≤ w.length := by
  obtain ⟨groups, last, rfl, -⟩ := h
  rw [List.length_append, List.length_singleton]
  exact Nat.le_add_left _ _

theorem Byte.length_eq {b : UInt8} (h : Byte w b) : w.length = 1 := by
  rw [h, List.length_singleton]

theorem Flag.length_eq {value : Bool} (h : Flag w value) : w.length = 1 := by
  obtain ⟨b, rfl, -⟩ := h
  rfl

theorem Text.least {s : Bytes} (h : Text w s) : 1 + s.length ≤ w.length := by
  cases h with
  | absent hsize => exact hsize.length_pos
  | present hsize =>
      have := Number.length_pos hsize
      rw [List.length_append]
      omega

theorem Constant.least {k : LuaBytecode.Constant} (h : Constant w k) :
    1 + k.textSize ≤ w.length := by
  cases h with
  | nil => exact Nat.le_refl 1
  | boolean h => exact Nat.le_add_left _ _
  | float h => exact Nat.le_add_left _ _
  | integer h => exact Nat.le_add_left _ _
  | shortString h => have := h.least; simp only [Constant.textSize, List.length_cons]; omega
  | longString h => have := h.least; simp only [Constant.textSize, List.length_cons]; omega

theorem Upvalue.least {u : LuaBytecode.Upvalue} (h : Upvalue w u) : 3 ≤ w.length := by
  obtain ⟨hflag⟩ := h
  rw [List.length_append, hflag.length_eq]
  exact Nat.le_refl 3

theorem LineAnchor.least {a : LuaBytecode.LineAnchor} (h : LineAnchor w a) : 2 ≤ w.length := by
  obtain ⟨hpc, hline⟩ := h
  have := Number.length_pos hpc
  have := Number.length_pos hline
  rw [List.length_append]
  omega

theorem LocalVar.least {v : LuaBytecode.LocalVar} (h : LocalVar w v) :
    3 + v.name.length ≤ w.length := by
  obtain ⟨hname, hstart, hstop⟩ := h
  have := hname.least
  have := Number.length_pos hstart
  have := Number.length_pos hstop
  simp only [List.length_append]
  omega

section Table

variable {α : Type} {L : Bytes → α → Prop} {entries : List α}

/-- Entries take what each of them takes: a part that all have, and one that depends on the
entry. -/
theorem Entries.least (k : Nat) (cost : α → Nat) (h : Entries L w entries) :
    (∀ a ∈ entries, ∀ u, L u a → k + cost a ≤ u.length) →
      k * entries.length + (entries.map cost).sum ≤ w.length := by
  induction h with
  | nil => exact fun _ => Nat.le_refl 0
  | @cons front rest a as ha _ ih =>
      intro hentry
      rw [List.forall_mem_cons] at hentry
      have hfront := hentry.1 front ha
      have hrest := ih hentry.2
      rw [List.length_cons, Nat.mul_succ, List.map_cons, List.sum_cons, List.length_append]
      omega

/-- A table takes a byte for its length as well. -/
theorem Table.least (k : Nat) (cost : α → Nat) (hentry : ∀ u a, L u a → k + cost a ≤ u.length)
    (h : Table L w entries) : 1 + k * entries.length + (entries.map cost).sum ≤ w.length := by
  obtain ⟨hsize, has⟩ := h
  have hcount := Number.length_pos hsize
  have hentries := has.least k cost fun a _ u hu => hentry u a hu
  rw [List.length_append]
  omega

/-- Entries of which no more is said than what each takes at least. -/
theorem Table.least_of_length {k : Nat} (hentry : ∀ u a, L u a → k ≤ u.length)
    (h : Table L w entries) : 1 + k * entries.length ≤ w.length := by
  have := h.least k (fun _ => 0) hentry
  omega

end Table

/-- The fields in front of the nested functions: a byte for each of nine, and the entries. -/
theorem Head.least {stored : Bytes} {p : Prototype} (h : Head stored w p) :
    9 + 4 * p.code.length + p.constants.length + 3 * p.upvalues.length +
      (p.constants.map Constant.textSize).sum ≤ w.length := by
  obtain ⟨hsource, hfirst, hlast, hparams, hvararg, hstack, hcode, hconstants, hupvalues⟩ := h
  have := hsource.least
  have := Number.length_pos hfirst
  have := Number.length_pos hlast
  have := hparams.length_eq
  have := hvararg.length_eq
  have := hstack.length_eq
  have := hcode.least_of_length fun u _ hu => Nat.le_of_eq hu.1.symm
  have := hconstants.least 1 Constant.textSize fun u k hk => hk.least
  have := hupvalues.least_of_length fun u a ha => ha.least
  simp only [List.length_append]
  omega

/-- The fields behind the nested functions: a byte for each of four, and the entries. -/
theorem Tail.least {p : Prototype} (h : Tail w p) :
    4 + p.lineDeltas.length + 2 * p.lineAnchors.length + 3 * p.localVars.length +
      p.upvalueNames.length + (p.localVars.map (·.name.length)).sum +
      (p.upvalueNames.map List.length).sum ≤ w.length := by
  obtain ⟨hdeltas, hanchors, hlocals, hnames⟩ := h
  have := hdeltas.least_of_length fun u a ha => Nat.le_of_eq ha.length_eq.symm
  have := hanchors.least_of_length fun u a ha => ha.least
  have := hlocals.least 3 (·.name.length) fun u v hv => hv.least
  have := hnames.least 1 List.length fun u s hs => hs.least
  simp only [List.length_append]
  omega

/-- **A form of a tree is no shorter than what the tree takes at least.** -/
theorem Function.leastSize_le {maxDepth : Nat} (p : Prototype) :
    ∀ {depth : Nat} {enclosing w : Bytes}, Function maxDepth depth enclosing w p →
      p.leastSize ≤ w.length := by
  induction p using Prototype.treeInduction with
  | node p ih =>
      rintro depth enclosing _ ⟨hhead, -, hsize, -, hchildren, htail⟩
      rw [Reading.functions_iff_entries] at hchildren
      have hkids := hchildren.least 0 Prototype.leastSize fun c hc u hu => by
        rw [Nat.zero_add]
        exact ih c hc hu
      have hfront := hhead.least
      have hcount := Number.length_pos hsize
      have hbehind := htail.least
      rw [Prototype.leastSize_eq, Prototype.leastOwnSize_eq]
      simp only [List.length_append]
      omega

theorem Function.fourteen_le {maxDepth depth : Nat} {enclosing : Bytes} {p : Prototype}
    (h : Function maxDepth depth enclosing w p) : 14 ≤ w.length := by
  have hsize := Function.leastSize_le p h
  rw [Prototype.leastSize_eq, Prototype.leastOwnSize_eq] at hsize
  omega

/-- **A form of a chunk is no shorter than the prologue, a count and what the tree takes.** -/
theorem Chunk.leastSize_le {settings : LoaderSettings} {p : Prototype} (h : Chunk settings w p) :
    (Prologue.encode settings.checkTypeSizes).length + 1 + p.leastSize ≤ w.length := by
  obtain ⟨-, hmain⟩ := h
  have hsize := Function.leastSize_le p hmain
  rw [List.length_append, List.length_cons]
  omega

end Grammar

/-! ## Checking every count -/

namespace Reading

variable {ε α β : Type}

/-- Two readings succeed alike: from the same places, with the same value, to the same place. -/
def Agree (x y : Reading ε α) : Prop := ∀ (c c' : Cursor) (a : α), x c = .ok a c' ↔ y c = .ok a c'

theorem Agree.refl (x : Reading ε α) : Agree x x := fun _ _ _ => Iff.rfl

theorem parallel_agree : Parallel (fun _ x y => Agree (ε := ε) x y) where
  pure := fun a => Agree.refl (pure a)
  bind := by
    intro α β x y f g hxy hfg c c' b
    rw [bind_eq_ok_iff, bind_eq_ok_iff]
    constructor
    · rintro ⟨a, d, hx, hf⟩
      exact ⟨a, d, (hxy c d a).mp hx, (hfg a d c' b).mp hf⟩
    · rintro ⟨a, d, hy, hg⟩
      exact ⟨a, d, (hxy c d a).mpr hy, (hfg a d c' b).mpr hg⟩

theorem within_eq_ok_iff {read : Decoder α} {field : ChunkField} {depth : Nat} {c c' : Cursor}
    {a : α} : read.within field depth c = .ok a c' ↔ read c = .ok a c' := by
  cases h : read c with
  | ok b d => rw [within_of_ok h]; simp only [EStateM.Result.ok.injEq]
  | error fault d => rw [within_of_error h]; simp only [reduceCtorEq]

theorem Agree.within {x y : Decoder α} (h : Agree x y) (field : ChunkField) (depth : Nat) :
    Agree (x.within field depth) (y.within field depth) := by
  intro c c' a
  rw [within_eq_ok_iff, within_eq_ok_iff]
  exact h c c' a

/-! ### Counts that the bytes behind them can hold -/

/-- A reading of counts that refuses what the bytes behind a count cannot hold. -/
def Checks (least : Nat) (plain checked : Reading ε Nat) : Prop :=
  ∀ (c c' : Cursor) (n : Nat), checked c = .ok n c' ↔
    plain c = .ok n c' ∧ n ≤ c'.remaining / least

theorem affordable_of_ok {field : ChunkField} {c c' : Cursor} {n : Nat}
    (h : Decoder.count c = .ok n c') :
    Decoder.affordable field c =
      if n ≤ c'.remaining / field.leastEntry then .ok n c'
      else .error (.unexpectedEnd c'.offset (n * field.leastEntry) c'.remaining) c' := by
  have hget : (get : Decoder Cursor) c' = .ok c' c' := rfl
  rw [Decoder.affordable, bind_of_ok h, bind_of_ok hget]
  split_ifs <;> rfl

theorem checks_affordable (field : ChunkField) :
    Checks field.leastEntry Decoder.count (Decoder.affordable field) := by
  intro c c' n
  cases hcount : Decoder.count c with
  | ok m d =>
      rw [affordable_of_ok hcount]
      split_ifs with hle
      · constructor
        · rintro ⟨⟩
          exact ⟨rfl, hle⟩
        · exact And.left
      · refine iff_of_false (fun h => by cases h) ?_
        rintro ⟨⟨⟩, h⟩
        exact hle h
  | error fault d =>
      rw [Decoder.affordable, bind_of_error hcount]
      exact iff_of_false (fun h => by cases h) fun h => by cases h.1

theorem Checks.within {least : Nat} {plain checked : Decoder Nat} (h : Checks least plain checked)
    (field : ChunkField) (depth : Nat) :
    Checks least (plain.within field depth) (checked.within field depth) := by
  intro c c' n
  rw [within_eq_ok_iff, within_eq_ok_iff]
  exact h c c' n

section Counted

variable {least : Nat} {plain checked : Reading ε Nat}

/-- A count need not be checked in front of what succeeds only behind counts that pass. -/
theorem Checks.agree (hchecks : Checks least plain checked) {f g : Nat → Reading ε β}
    (hfg : ∀ n, Agree (f n) (g n))
    (hroom : ∀ {n : Nat} {c c' : Cursor} {b : β}, f n c = .ok b c' → n ≤ c.remaining / least) :
    Agree (plain >>= f) (checked >>= g) := by
  intro c c' b
  rw [bind_eq_ok_iff, bind_eq_ok_iff]
  constructor
  · rintro ⟨n, d, hn, hf⟩
    exact ⟨n, d, (hchecks c d n).mpr ⟨hn, hroom hf⟩, (hfg n d c' b).mp hf⟩
  · rintro ⟨n, d, hn, hg⟩
    exact ⟨n, d, ((hchecks c d n).mp hn).1, (hfg n d c' b).mpr hg⟩

/-- **Whoever finds the entries behind a count could have checked it**: the entries are bytes of
the input, and each of them takes the least size of an entry. -/
theorem Checks.entries (hchecks : Checks least plain checked) (hleast : 0 < least)
    {x y : Reading ε α} (hxy : Agree x y) {L : Bytes → α → Prop} (haccepts : Accepts x L)
    (hentry : ∀ w a, L w a → least ≤ w.length) :
    Agree (do Decoder.repeated (← plain) x) (do Decoder.repeated (← checked) y) := by
  refine hchecks.agree (fun n => parallel_agree.repeated hxy n) fun {n c c' as} has => ?_
  obtain ⟨w, rest, hrest, -, hlength, hw⟩ := (haccepts.repeated n).sound has
  have hsize := hw.least least (fun _ => 0) fun a _ u hu => hentry u a hu
  rw [hlength, Nat.mul_comm] at hsize
  rw [Nat.le_div_iff_mul_le hleast, Cursor.remaining, hrest, List.length_append]
  omega

end Counted

/-! ### The loader -/

theorem agree_table {entry : Decoder α} {L : Bytes → α → Prop} (haccepts : Accepts entry L)
    (field : ChunkField) (hleast : 0 < field.leastEntry)
    (hentry : ∀ w a, L w a → field.leastEntry ≤ w.length) (depth : Nat) :
    Agree (Loader.table entry field depth)
      (Loader.tableBy Decoder.affordable entry field depth) :=
  ((checks_affordable field).entries hleast (Agree.refl entry) haccepts hentry).within field depth

/-- The fields of one function: the entries of every table take what its field says. -/
theorem agree_function {depth : Nat} {f g : Bytes → Loader (List Prototype)}
    (hchildren : ∀ s, Agree (f s) (g s)) (enclosing : Bytes) :
    Agree (Loader.function depth f enclosing)
      (Loader.functionBy Decoder.affordable depth g enclosing) :=
  have hP := parallel_agree
  hP.bind (Agree.refl _) fun _ => hP.bind (Agree.refl _) fun _ => hP.bind (Agree.refl _) fun _ =>
  hP.bind (Agree.refl _) fun _ => hP.bind (Agree.refl _) fun _ => hP.bind (Agree.refl _) fun _ =>
  hP.bind (agree_table accepts_uint32 .code (by decide)
    (fun _ _ h => Nat.le_of_eq h.1.symm) depth) fun _ =>
  hP.bind (agree_table accepts_constant .constants (by decide)
    (fun _ _ h => Nat.le_trans (Nat.le_add_right 1 _) h.least) depth) fun _ =>
  hP.bind (agree_table accepts_upvalue .upvalues (by decide) (fun _ _ h => h.least) depth) fun _ =>
  hP.bind (hchildren _) fun _ =>
  hP.bind (agree_table accepts_byte .lineDeltas (by decide)
    (fun _ _ h => Nat.le_of_eq h.length_eq.symm) depth) fun _ =>
  hP.bind (agree_table accepts_lineAnchor .lineAnchors (by decide)
    (fun _ _ h => h.least) depth) fun _ =>
  hP.bind (agree_table accepts_localVar .localVars (by decide)
    (fun _ _ h => Nat.le_trans (Nat.le_add_right 3 _) h.least) depth) fun _ =>
  hP.bind (agree_table accepts_byteString .upvalueNames (by decide)
    (fun _ _ h => Nat.le_trans (Nat.le_add_right 1 _) h.least) depth) fun _ =>
  hP.pure _

/-- **A tree succeeds with every count checked as it does without.**  The induction is on the levels
that may still be entered; at the last level a count that gets through is zero. -/
theorem agree_tree : ∀ (room depth : Nat) (enclosing : Bytes),
    Agree (Loader.tree room depth enclosing)
      (Loader.treeBy Decoder.affordable room depth enclosing)
  | 0, depth, enclosing => by
      refine agree_function (fun source => ?_) enclosing
      refine ((checks_affordable .children).within .children depth).agree
        (fun n => Agree.refl _) fun {n c c' ps} h => ?_
      split_ifs at h with hn
      · rw [hn]
        exact Nat.zero_le _
      · cases h
  | room + 1, depth, enclosing => by
      refine agree_function (fun source => ?_) enclosing
      exact ((checks_affordable .children).within .children depth).entries (by decide)
        (agree_tree room (depth + 1) source) (accepts_tree room (depth + 1) source)
        fun _ _ h => h.fourteen_le

/-- **Checking every count changes no success of the loader.** -/
theorem agree_chunk (settings : LoaderSettings) :
    Agree (Loader.chunk settings) (Loader.chunkBy Decoder.affordable settings) :=
  have hP := parallel_agree
  hP.bind (Agree.refl _) fun _ => hP.bind (Agree.refl _) fun _ =>
  hP.bind (agree_tree settings.maxDepth 0 []) fun _ => Agree.refl _

end Reading

/-! ## Loads -/

/-- **What is loaded is paid for by the input.**  A load that succeeds has passed no more than the
input and no less than a prologue, a count and what the tree takes at least.  And no count of the
chunk was more than the bytes behind it could hold: a loader that refuses such counts where they
stand loads the chunk all the same. -/
theorem load_cost (settings : LoaderSettings) (input : Bytes) (main : Prototype)
    (h : load settings input = .ok main) :
    reach settings input ≤ input.length ∧
    (if settings.checkTypeSizes then 31 else 28) + 1 + main.leastSize ≤ reach settings input ∧
    loadBy Decoder.affordable settings input = .ok main := by
  obtain ⟨c, hrun, hreach⟩ := load_eq_ok_iff.mp ⟨h, rfl⟩
  obtain ⟨w, rest, hinput, hc, hw⟩ := (Reading.accepts_chunk settings).sound hrun
  have hlength : reach settings input = w.length := by
    rw [← hreach, hc, Nat.zero_add]
  refine ⟨?_, ?_, ?_⟩
  · rw [hlength, hinput, List.length_append]
    exact Nat.le_add_right _ _
  · rw [hlength, ← Prologue.length_encode]
    exact hw.leastSize_le
  · have hchecked := (Reading.agree_chunk settings (Cursor.start input) c main).mp hrun
    simp only [loadBy, hchecked]

/-- Zeros in front of its numbers make a chunk longer than it need be: it could be three bytes
shorter, and the byte behind it is not part of it. -/
theorem load_cost_padded :
    load .standard (paddedInput ++ [7]) = .ok paddedMain ∧
    reach .standard (paddedInput ++ [7]) ≤ 49 ∧
    28 + 1 + paddedMain.leastSize ≤ reach .standard (paddedInput ++ [7]) ∧
    28 + 1 + paddedMain.leastSize = 45 ∧
    loadBy Decoder.affordable .standard (paddedInput ++ [7]) = .ok paddedMain := by
  have hload : load .standard (paddedInput ++ [7]) = .ok paddedMain := rfl
  obtain ⟨hlength, hsize, hchecked⟩ :=
    load_cost .standard (paddedInput ++ [7]) paddedMain hload
  exact ⟨hload, hlength, hsize, by decide, hchecked⟩

end LuaBytecode
