import LuaBytecode.Proofs.Chunk.Language
import LuaBytecode.Proofs.Reading.Passing

/-!
# What a failed load says of its input is true

An error is put together in two places.  The read that fails knows the cause and where the cursor
is; the loader knows which field it is in and how deep.  `LoadError.TrueOf` is what the two halves
together claim about the bytes, and this file shows that they never claim anything false.

What an error claims of the bytes is about those that have just been passed.  So the readings are
followed from place to place in the input: `Accepts.passed` says that what lies between two places
is a word for the value that was read there, which is what the checks behind a read compare.

* `Blames` — from any place in the input a reading fails with nothing false.
* `elementary_blames` — so do the reads that all others are made of, in every field and at every
  depth that is allowed.
* `blames_constant`, `blames_checkField`, `truthful_noChildren` — so do the three checks that find
  a failure in bytes already passed.
* **`load_error_trueOf`** — so does every load.
-/

namespace LuaBytecode

/-! ## The claims of an error -/

/-- What an error claims about the input that was read.  Offsets count from its start, and
`input.extract i j` are its bytes from `i` up to `j`. -/
def LoadError.TrueOf (settings : LoaderSettings) (input : Bytes) (e : LoadError) : Prop :=
  e.offset ≤ input.length ∧ e.depth ≤ settings.maxDepth ∧
  match e.fault with
  | .unexpectedEnd start needed available =>
      start = e.offset ∧ available = input.length - e.offset ∧ available < needed
  | .malformedVarint start =>
      start ≤ e.offset ∧ e.offset = input.length ∧ ∀ b ∈ input.extract start e.offset, b < 0x80
  | .integerOverflow start limit =>
      (limit = UInt32.size - 1 ∨ limit = UInt64.size - 1) ∧ start < e.offset ∧
        (∀ b ∈ input.extract start (e.offset - 1), b < 0x80) ∧
        Varint.value (input.extract start (e.offset - 1)) ≤ limit ∧
        limit < Varint.value (input.extract start e.offset)
  | .prologueMismatch field =>
      e.field = .prologue ∧ e.depth = 0 ∧
        ∃ expected, (field, expected) ∈ Prologue.fields settings.checkTypeSizes ∧
          expected.length ≤ e.offset ∧
          input.extract (e.offset - expected.length) e.offset ≠ expected
  | .unknownConstantTag tag =>
      e.field = .constants ∧ 0 < e.offset ∧ input[e.offset - 1]? = some tag ∧
        tag ∉ [0x00, 0x01, 0x03, 0x04, 0x13, 0x14]
  | .upvalueCountMismatch declared actual =>
      e.field = .upvalueCount ∧ e.depth = 0 ∧ declared ≠ actual ∧
        ∃ b main, input[(Prologue.encode settings.checkTypeSizes).length]? = some b ∧
          b.toNat = declared ∧ main.upvalues.length = actual ∧
          Grammar.Function settings.maxDepth 0 []
            (input.extract ((Prologue.encode settings.checkTypeSizes).length + 1) e.offset) main
  | .nestingTooDeep limit =>
      e.field = .children ∧ e.depth = limit ∧ limit = settings.maxDepth ∧
        ∃ start n, start ≤ e.offset ∧ Grammar.Count (input.extract start e.offset) n ∧ n ≠ 0
  | .unknownOpcode _ => False
  | .brokenStream _ => False

theorem ConstantTag.not_mem_of_ofByte? {b : UInt8} (h : ofByte? b = none) :
    b ∉ [0x00, 0x01, 0x03, 0x04, 0x13, 0x14] := by
  intro hb
  simp only [List.mem_cons, List.not_mem_nil, or_false] at hb
  rcases hb with rfl | rfl | rfl | rfl | rfl | rfl <;> cases h

theorem getElem?_of_extract {input : Bytes} {i : Nat} {b : UInt8}
    (h : input.extract i (i + 1) = [b]) : input[i]? = some b := by
  rw [List.extract_eq_take_drop, Nat.add_sub_cancel_left] at h
  have hfirst : ((input.drop i).take 1)[0]? = some b := by rw [h]; rfl
  rwa [List.getElem?_take_of_lt Nat.one_pos, List.getElem?_drop, Nat.add_zero] at hfirst

namespace Reading

variable {ε α β : Type} {input : Bytes}

/-- **The stretch of the input that a reading has passed is a word** for what it gives. -/
theorem Accepts.passed {x : Reading ε α} {L : Bytes → α → Prop} (h : Accepts x L) {c c' : Cursor}
    (hc : Placed input c) {a : α} (hx : x c = .ok a c') :
    ∃ w, c'.offset = c.offset + w.length ∧ input.extract c.offset c'.offset = w ∧ L w a := by
  obtain ⟨w, rest, hrest, rfl, hw⟩ := h.sound hx
  exact ⟨w, rfl, hc.extract hrest, hw⟩

/-! ## Readings whose failures are true -/

/-- A failure says something true about where it leaves the cursor. -/
def FailsWith (claim : ε → Cursor → Prop) : EStateM.Result ε Cursor α → Prop
  | .ok _ _ => True
  | .error e c => claim e c

/-- A reading that stays in the input, and from no place in it fails with anything false. -/
structure Blames (input : Bytes) (claim : ε → Cursor → Prop) (x : Reading ε α) : Prop where
  passes : Passes x
  failsWith : ∀ {c}, Placed input c → FailsWith claim (x c)

variable {claim : ε → Cursor → Prop} {x : Reading ε α} {f : α → Reading ε β} {c : Cursor}

theorem FailsWith.bind (hx : FailsWith claim (x c))
    (hf : ∀ a c', x c = .ok a c' → FailsWith claim (f a c')) : FailsWith claim ((x >>= f) c) := by
  cases h : x c with
  | ok a c' =>
      rw [bind_of_ok h]
      exact hf a c' h
  | error e c' =>
      rw [h] at hx
      rw [bind_of_error h]
      exact hx

theorem sequential_blames : Sequential (fun _ x => Blames (ε := ε) input claim x) where
  pure := fun a => ⟨sequential_passes.pure a, fun _ => trivial⟩
  bind := fun hx hf =>
    ⟨sequential_passes.bind hx.passes fun a => (hf a).passes, fun hc =>
      (hx.failsWith hc).bind fun a _ h => (hf a).failsWith (hx.passes.placed hc h)⟩

/-! ## The decoders -/

/-- What a cause claims when it is found in a field at a depth. -/
def TrueIn (settings : LoaderSettings) (input : Bytes) (field : ChunkField) (depth : Nat)
    (fault : Fault) (c : Cursor) : Prop :=
  LoadError.TrueOf settings input ⟨fault, field, depth, c.offset⟩

section Decoders

variable {settings : LoaderSettings} {field : ChunkField} {depth : Nat}

theorem blames_take (hdepth : depth ≤ settings.maxDepth) (n : Nat) :
    Blames input (TrueIn settings input field depth) (Decoder.take n) := by
  refine ⟨passes_take n, fun {c} hc => ?_⟩
  by_cases hn : n ≤ c.remaining
  · rw [Decoder.take_of_le hn]
    trivial
  · have hlt := Nat.lt_of_not_le hn
    have havailable : c.remaining = input.length - c.offset :=
      Nat.eq_sub_of_add_eq' hc.length_rest
    rw [Decoder.take_of_lt hlt]
    exact ⟨hc.offset_le, hdepth, rfl, havailable, hlt⟩

theorem blames_byte (hdepth : depth ≤ settings.maxDepth) :
    Blames input (TrueIn settings input field depth) Decoder.byte := by
  refine ⟨passes_byte, fun {c} hc => ?_⟩
  obtain ⟨offset, rest⟩ := c
  cases rest with
  | nil => exact ⟨hc.offset_le, hdepth, rfl, Nat.eq_sub_of_add_eq' hc.length_rest, Nat.one_pos⟩
  | cons b rest => trivial

/-- A number that does not end, or one that its last group makes too large. -/
theorem blames_unsigned (hdepth : depth ≤ settings.maxDepth) {limit : UInt64}
    (hlimit : limit.toNat = UInt32.size - 1 ∨ limit.toNat = UInt64.size - 1) :
    Blames input (TrueIn settings input field depth) (Decoder.unsigned limit) := by
  refine ⟨passes_unsigned limit, fun {c} hc => ?_⟩
  have hend := passes_unsigned limit c
  cases h : Decoder.unsigned limit c with
  | ok n c' => trivial
  | error fault c' =>
      rw [h] at hend
      have hc' : Placed input c' := hc.trans hend
      rcases Varint.unsigned_error h with ⟨rfl, rfl, hrest⟩ |
        ⟨groups, last, rest, hrest, rfl, rfl, hgroups, hbefore, hafter⟩
      · refine ⟨hc'.offset_le, hdepth, Nat.le_add_right _ _, hc.length_rest, fun b hb => ?_⟩
        rw [hc.extract (List.append_nil c.rest).symm] at hb
        exact Varint.lt_of_isLast (hrest b hb)
      · have hstretch := hc.extract hrest
        have hwhole : input.extract c.offset (c.offset + groups.length + 1) = groups ++ [last] := by
          have hahead : c.rest = (groups ++ [last]) ++ rest := by
            rw [hrest, List.append_assoc, List.singleton_append]
          have hextract := hc.extract hahead
          rwa [List.length_append, List.length_singleton, ← Nat.add_assoc] at hextract
        have hpassed : c.offset < c.offset + groups.length + 1 := by omega
        rw [← hstretch] at hgroups hbefore
        rw [← hwhole] at hafter
        exact ⟨hc'.offset_le, hdepth, hlimit, hpassed,
          fun b hb => Varint.lt_of_isLast (hgroups b hb), hbefore, hafter⟩

/-- **The reads that all others are made of blame the input for what is true of it.** -/
theorem elementary_blames (hdepth : depth ≤ settings.maxDepth) :
    Elementary (fun _ x => Blames input (TrueIn settings input field depth) x) where
  toSequential := sequential_blames
  take := blames_take hdepth
  byte := blames_byte hdepth
  count := sequential_blames.map _ (blames_unsigned hdepth (Or.inr rfl))
  line := sequential_blames.map _ (blames_unsigned hdepth (Or.inl rfl))

/-- A constant of no kind: its tag is the byte that has just been passed. -/
theorem blames_constant (hdepth : depth ≤ settings.maxDepth) :
    Blames input (TrueIn settings input .constants depth) Decoder.constant := by
  have hbyte : Blames input (TrueIn settings input .constants depth) Decoder.byte :=
    blames_byte hdepth
  refine ⟨primitive_passes.constant, fun {c} hc => ?_⟩
  refine (hbyte.failsWith hc).bind fun b c' h => ?_
  have hc' := passes_byte.placed hc h
  cases htag : ConstantTag.ofByte? b with
  | some tag => exact ((elementary_blames hdepth).payload tag).failsWith hc'
  | none =>
      obtain ⟨_, hoffset, hstretch, rfl⟩ := accepts_byte.passed hc h
      rw [hoffset] at hstretch
      refine ⟨hc'.offset_le, hdepth, rfl, ?_, ?_, ConstantTag.not_mem_of_ofByte? htag⟩
      · show 0 < c'.offset
        rw [hoffset]
        exact Nat.succ_pos _
      · show input[c'.offset - 1]? = some b
        rw [hoffset]
        exact getElem?_of_extract hstretch

/-- A field of the prologue: its bytes are those that have just been passed. -/
theorem blames_checkField {field : PrologueField} {expected : Bytes}
    (hmem : (field, expected) ∈ Prologue.fields settings.checkTypeSizes) :
    Blames input (TrueIn settings input .prologue 0) (Prologue.checkField field expected) := by
  have hdepth := Nat.zero_le settings.maxDepth
  have htake : Blames input (TrueIn settings input .prologue 0) (Decoder.take expected.length) :=
    blames_take hdepth _
  have hpasses : Passes (Prologue.checkField field expected) := by
    refine sequential_passes.bind (passes_take _) fun found => ?_
    split_ifs
    · exact sequential_passes.pure ()
    · exact passes_throw _
  refine ⟨hpasses, fun {c} hc => (htake.failsWith hc).bind fun found c' h => ?_⟩
  split_ifs with hfound
  · trivial
  · obtain ⟨_, hoffset, hstretch, rfl, hlength⟩ := (accepts_take expected.length).passed hc h
    have hc' := (passes_take _).placed hc h
    rw [hlength] at hoffset
    refine ⟨hc'.offset_le, hdepth, rfl, rfl, expected, hmem, ?_, ?_⟩
    · show expected.length ≤ c'.offset
      omega
    · show input.extract (c'.offset - expected.length) c'.offset ≠ expected
      rw [show c'.offset - expected.length = c.offset by omega, hstretch]
      exact hfound

theorem blames_prologue (settings : LoaderSettings) :
    Blames input (TrueIn settings input .prologue 0) (Prologue.check settings.checkTypeSizes) :=
  sequential_blames.checkFields fun _ _ hmem => blames_checkField hmem

end Decoders

/-! ## The loaders -/

/-- Readings whose errors are true of the input, wherever they leave the cursor. -/
abbrev Truthful (settings : LoaderSettings) (input : Bytes) (x : Loader α) : Prop :=
  Blames input (fun e _ => e.TrueOf settings input) x

variable {settings : LoaderSettings} {depth : Nat}

/-- Naming the field and the depth makes what is true of a cause in them true of the error. -/
theorem Blames.within {read : Decoder α} {field : ChunkField}
    (h : Blames input (TrueIn settings input field depth) read) :
    Truthful settings input (read.within field depth) := by
  refine ⟨h.passes.within field depth, fun {c} hc => ?_⟩
  have hfails := h.failsWith hc
  cases hread : read c with
  | ok a c' =>
      rw [within_of_ok hread]
      trivial
  | error fault c' =>
      rw [hread] at hfails
      rw [within_of_error hread]
      exact hfails

theorem truthful_field (hdepth : depth ≤ settings.maxDepth) {field : ChunkField} {read : Decoder α}
    (h : FieldRead field read) : Truthful settings input (read.within field depth) := by
  refine Blames.within ((elementary_blames hdepth).fieldRead (fun hfield => ?_) h)
  subst hfield
  exact blames_constant hdepth

/-- Where no function may be entered, a number of children other than zero has just been passed. -/
theorem truthful_noChildren (settings : LoaderSettings) :
    Truthful settings input (noChildren settings.maxDepth) := by
  have hdepth := Nat.le_refl settings.maxDepth
  have hcount : Truthful settings input (Decoder.count.within .children settings.maxDepth) :=
    truthful_field hdepth .children
  have hpasses : Passes (noChildren settings.maxDepth) := by
    refine sequential_passes.bind hcount.passes fun n => ?_
    split_ifs
    · exact sequential_passes.pure []
    · exact passes_fail _ _ _
  refine ⟨hpasses, fun {c} hc => (hcount.failsWith hc).bind fun n c' h => ?_⟩
  split_ifs with hn
  · trivial
  · obtain ⟨_, hoffset, rfl, hword⟩ := (Varint.accepts_count.within _ _).passed hc h
    have hc' := hcount.passes.placed hc h
    have hpassed : c.offset ≤ c'.offset := by omega
    exact ⟨hc'.offset_le, hdepth, rfl, rfl, rfl, c.offset, n, hpassed, hword, hn⟩

/-- **A tree of functions blames the input for what is true of it**, at every depth. -/
theorem truthful_tree (room depth : Nat) (enclosing : Bytes) (h : depth + room = settings.maxDepth) :
    Truthful settings input (Loader.tree room depth enclosing) :=
  sequential_blames.treeUpTo (fun hdepth hread => truthful_field hdepth hread)
    (truthful_noChildren settings) room depth enclosing h

/-- The upvalues of the main function are compared when it has been read whole, so by then the
prologue, the byte behind it and the main function have been passed one behind the other. -/
theorem failsWith_chunk (settings : LoaderSettings) (input : Bytes) :
    FailsWith (fun e _ => e.TrueOf settings input)
      (Loader.chunk settings (Cursor.start input)) := by
  have hdepth := Nat.zero_le settings.maxDepth
  have hstart := placed_start input
  have hprologue : Truthful settings input ((Prologue.check settings.checkTypeSizes).within _ 0) :=
    (blames_prologue settings).within
  have hbyte : Truthful settings input (Decoder.byte.within .upvalueCount 0) :=
    (blames_byte hdepth).within
  have hmain : Truthful settings input (Loader.tree settings.maxDepth 0 []) :=
    truthful_tree _ _ _ (Nat.zero_add _)
  refine (hprologue.failsWith hstart).bind fun _ c₁ h₁ => ?_
  have hc₁ := hprologue.passes.placed hstart h₁
  refine (hbyte.failsWith hc₁).bind fun declared c₂ h₂ => ?_
  have hc₂ := hbyte.passes.placed hc₁ h₂
  refine (hmain.failsWith hc₂).bind fun main c₃ h₃ => ?_
  have hc₃ := hmain.passes.placed hc₂ h₃
  split_ifs with hcount
  · trivial
  · obtain ⟨_, hoffset₁, -, rfl⟩ := ((accepts_prologue _).within _ _).passed hstart h₁
    obtain ⟨_, hoffset₂, hstretch₂, rfl⟩ := (accepts_byte.within _ _).passed hc₁ h₂
    obtain ⟨_, -, rfl, hword⟩ := (accepts_tree _ _ _).passed hc₂ h₃
    rw [Cursor.start, Nat.zero_add] at hoffset₁
    rw [Nat.zero_add] at hword
    rw [hoffset₂, hoffset₁] at hstretch₂ hword
    exact ⟨hc₃.offset_le, hdepth, rfl, rfl, hcount, declared, main, getElem?_of_extract hstretch₂,
      rfl, rfl, hword⟩

end Reading

/-! ## Loads -/

/-- **A failed load says only what is true**: of the bytes that were read, of the field and the depth
it names, and of how far reading had come. -/
theorem load_error_trueOf {settings : LoaderSettings} {input : Bytes} {e : LoadError}
    (h : load settings input = .error e) : e.TrueOf settings input := by
  obtain ⟨c, hrun⟩ := load_eq_error_iff.mp h
  have hchunk := Reading.failsWith_chunk settings input
  rw [hrun] at hchunk
  exact hchunk

/-- A chunk whose first line is one more than a line can be. -/
def lateLineInput : Bytes :=
  Prologue.encode false ++ [0, 0x80, 0x10, 0x00, 0x00, 0x00, 0x80, 7, 7]

/-- The number starts behind the empty source, and its fifth group is the one that is too much. -/
theorem load_error_trueOf_lateLine :
    load .standard lateLineInput
      = .error ⟨.integerOverflow 30 4294967295, .firstLine, 0, 35⟩ ∧
    LoadError.TrueOf .standard lateLineInput
      ⟨.integerOverflow 30 4294967295, .firstLine, 0, 35⟩ := by
  have h : load .standard lateLineInput
      = .error ⟨.integerOverflow 30 4294967295, .firstLine, 0, 35⟩ := rfl
  exact ⟨h, load_error_trueOf h⟩

end LuaBytecode
