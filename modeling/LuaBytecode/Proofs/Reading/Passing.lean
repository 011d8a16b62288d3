import LuaBytecode.Proofs.Reading.Sequencing

/-!
# A reading moves forward over what it passes

However a reading ends, the cursor it leaves lies further on in the same input: the bytes between
are those that have been passed, and the offset has grown by their number.

* `sequential_passes` — sequencing keeps it.
* `Placed` — the places in an input that readings come to.
* `primitive_passes` — every decoder has it.
* **`passes_tree`** — so do the loaders of trees.
* `reach_eq_endOf` — the reach of a load is where the loader ends.
-/

namespace LuaBytecode

namespace Reading

variable {ε α β : Type}

/-- Where a reading ends, well or not. -/
def endOf : EStateM.Result ε Cursor α → Cursor
  | .ok _ c => c
  | .error _ c => c

/-- A place further on in the same input, or the same place. -/
def Leads (c c' : Cursor) : Prop :=
  ∃ w, c.rest = w ++ c'.rest ∧ c'.offset = c.offset + w.length

theorem Leads.refl (c : Cursor) : Leads c c := ⟨[], rfl, rfl⟩

theorem Leads.trans {c c' c'' : Cursor} (h : Leads c c') (h' : Leads c' c'') : Leads c c'' := by
  obtain ⟨w, hrest, hoffset⟩ := h
  obtain ⟨v, hrest', hoffset'⟩ := h'
  refine ⟨w ++ v, ?_, ?_⟩
  · rw [List.append_assoc, ← hrest', hrest]
  · rw [hoffset', hoffset, List.length_append, Nat.add_assoc]

theorem Leads.offset_le {c c' : Cursor} (h : Leads c c') : c.offset ≤ c'.offset := by
  obtain ⟨w, -, hoffset⟩ := h
  omega

theorem leads_cons (offset : Nat) (b : UInt8) (rest : Bytes) :
    Leads ⟨offset, b :: rest⟩ ⟨offset + 1, rest⟩ := ⟨[b], rfl, rfl⟩

/-- A reading ends further on in its input. -/
def Passes (x : Reading ε α) : Prop := ∀ c : Cursor, Leads c (endOf (x c))

theorem sequential_passes : Sequential (fun _ x => Passes (ε := ε) x) where
  pure := fun a c => Leads.refl c
  bind := by
    intro α β x f hx hf c
    have hfirst := hx c
    cases hxc : x c with
    | error e c' =>
        rw [hxc] at hfirst
        rw [bind_of_error hxc]
        exact hfirst
    | ok a c' =>
        rw [hxc] at hfirst
        rw [bind_of_ok hxc]
        exact hfirst.trans (hf a c')

/-- A sequence goes at least as far as its first part. -/
theorem endOf_le_bind {x : Reading ε α} {f : α → Reading ε β} (hf : ∀ a, Passes (f a))
    (c : Cursor) : (endOf (x c)).offset ≤ (endOf ((x >>= f) c)).offset := by
  cases h : x c with
  | ok a c' =>
      rw [bind_of_ok h]
      exact (hf a c').offset_le
  | error e c' =>
      rw [bind_of_error h]
      exact Nat.le_refl _

theorem passes_throw (e : ε) : Passes (throw e : Reading ε α) := fun c => Leads.refl c

/-! ## Places in the input -/

section Placed

variable {input : Bytes} {c c' : Cursor}

/-- A place in the input: what lies ahead is the input without what lies behind. -/
def Placed (input : Bytes) (c : Cursor) : Prop := Leads (Cursor.start input) c

theorem placed_start (input : Bytes) : Placed input (Cursor.start input) := Leads.refl _

theorem Placed.rest_eq (h : Placed input c) : c.rest = input.drop c.offset := by
  obtain ⟨w, hinput, hoffset⟩ := h
  rw [hoffset, show input = w ++ c.rest from hinput, Cursor.start, Nat.zero_add, List.drop_left]

theorem Placed.length_rest (h : Placed input c) : c.offset + c.rest.length = input.length := by
  obtain ⟨w, hinput, hoffset⟩ := h
  rw [hoffset, show input = w ++ c.rest from hinput, Cursor.start, Nat.zero_add,
    List.length_append]

theorem Placed.offset_le (h : Placed input c) : c.offset ≤ input.length := by
  have := h.length_rest
  omega

/-- What lies ahead up to another place is a stretch of the input. -/
theorem Placed.extract (h : Placed input c) {w rest : Bytes} (hrest : c.rest = w ++ rest) :
    input.extract c.offset (c.offset + w.length) = w := by
  rw [List.extract_eq_take_drop, ← h.rest_eq, hrest, Nat.add_sub_cancel_left, List.take_left]

/-- From a place in the input a reading ends at one. -/
theorem Passes.placed_endOf {x : Reading ε α} (hx : Passes x) (hc : Placed input c) :
    Placed input (endOf (x c)) := hc.trans (hx c)

theorem Passes.placed {x : Reading ε α} (hx : Passes x) (hc : Placed input c) {a : α}
    (h : x c = .ok a c') : Placed input c' := by
  have hend := hx.placed_endOf hc
  rwa [h] at hend

end Placed

/-! ## The decoders -/

theorem passes_take (n : Nat) : Passes (Decoder.take n) := by
  intro c
  by_cases hn : n ≤ c.remaining
  · rw [Decoder.take_of_le hn]
    refine ⟨c.rest.take n, (List.take_append_drop n c.rest).symm, ?_⟩
    rw [List.length_take_of_le hn, endOf]
  · rw [Decoder.take_of_lt (Nat.lt_of_not_le hn)]
    exact Leads.refl c

theorem passes_byte : Passes Decoder.byte := by
  rintro ⟨offset, input⟩
  cases input with
  | nil => exact Leads.refl _
  | cons b input => exact leads_cons offset b input

/-- A scan passes one group and, if the number goes on, what the rest of the scan passes. -/
theorem leads_scan (limit : UInt64) (start : Nat) (input : Bytes) : ∀ acc offset,
    Leads ⟨offset, input⟩ (endOf (Varint.scan limit start acc offset input)) := by
  induction input with
  | nil => exact fun _ _ => Leads.refl _
  | cons b input ih =>
      intro acc offset
      have hgroup := leads_cons offset b input
      rw [Varint.scan]
      split_ifs
      · exact hgroup
      · exact hgroup
      · exact hgroup
      · exact hgroup.trans (ih _ _)

theorem passes_unsigned (limit : UInt64) : Passes (Decoder.unsigned limit) :=
  fun c => leads_scan limit c.offset c.rest 0 c.offset

/-- **Every decoder passes what lies between.** -/
theorem primitive_passes : Primitive (fun _ x => Passes x) where
  toSequential := sequential_passes
  take := passes_take
  byte := passes_byte
  unsigned := passes_unsigned
  unknownTag := fun _ => passes_throw _
  mismatch := fun _ => passes_throw _

/-! ## The loaders -/

/-- Naming the field and the depth moves no cursor. -/
theorem endOf_within (read : Decoder α) (field : ChunkField) (depth : Nat) (c : Cursor) :
    endOf (read.within field depth c) = endOf (read c) := by
  cases h : read c with
  | ok a c' => rw [within_of_ok h]; rfl
  | error fault c' => rw [within_of_error h]; rfl

theorem Passes.within {read : Decoder α} (h : Passes read) (field : ChunkField) (depth : Nat) :
    Passes (read.within field depth) := by
  intro c
  rw [endOf_within]
  exact h c

theorem passes_fail (fault : Fault) (field : ChunkField) (depth : Nat) :
    Passes (Loader.fail fault field depth : Loader α) :=
  (passes_throw fault).within field depth

theorem passes_tree (room depth : Nat) (enclosing : Bytes) :
    Passes (Loader.tree room depth enclosing) :=
  sequential_passes.tree
    (fun depth hread => (primitive_passes.fieldRead hread).within _ depth)
    (fun depth => passes_fail _ _ depth) room depth enclosing

end Reading

/-! ## Loads -/

theorem reach_eq_endOf (settings : LoaderSettings) (input : Bytes) :
    reach settings input
      = (Reading.endOf (Loader.chunk settings (Cursor.start input))).offset := by
  cases h : Loader.chunk settings (Cursor.start input) with
  | ok main c => exact (load_of_ok h).2
  | error e c => exact (load_of_error h).2

end LuaBytecode
