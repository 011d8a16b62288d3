import LuaBytecode.Proofs.Reading.Sequencing

/-!
# A reading depends on what lies ahead and not on where it stands

The bytes behind a cursor are gone, and its offset is only ever reported.  So a reading that stands
`k` bytes further on, with the same bytes ahead, has the same outcome with every offset in it moved
by `k`: that of the cursor, and those that a failure carries.

* `sequential_shifts` — sequencing keeps it.
* `primitive_shifts` — every decoder has it.
* **`shifts_behindPrologue`** — so has the loader of all that stands behind the prologue.
-/

namespace LuaBytecode

/-- The same place with `k` more bytes before it. -/
def Cursor.shift (k : Nat) (c : Cursor) : Cursor := ⟨c.offset + k, c.rest⟩

/-- The same cause, found `k` bytes further on.  The other causes name no place in the input. -/
def Fault.shift (k : Nat) : Fault → Fault
  | .unexpectedEnd offset needed available => .unexpectedEnd (offset + k) needed available
  | .malformedVarint offset => .malformedVarint (offset + k)
  | .integerOverflow offset limit => .integerOverflow (offset + k) limit
  | fault => fault

def LoadError.shift (k : Nat) (e : LoadError) : LoadError :=
  ⟨e.fault.shift k, e.field, e.depth, e.offset + k⟩

namespace Reading

variable {ε α : Type}

/-- An outcome `k` bytes further on, where `move` says what this makes of a failure. -/
def shiftResult (move : Nat → ε → ε) (k : Nat) :
    EStateM.Result ε Cursor α → EStateM.Result ε Cursor α
  | .ok a c => .ok a (c.shift k)
  | .error e c => .error (move k e) (c.shift k)

/-- Further on, a reading does what it does here. -/
def Shifts (move : Nat → ε → ε) (x : Reading ε α) : Prop :=
  ∀ k c, x (c.shift k) = shiftResult move k (x c)

theorem sequential_shifts (move : Nat → ε → ε) : Sequential (fun _ x => Shifts move x) where
  pure := fun _ _ _ => rfl
  bind := by
    intro α β x f hx hf k c
    have hfirst := hx k c
    cases hxc : x c with
    | ok a c' =>
        rw [hxc] at hfirst
        rw [bind_of_ok hxc, bind_of_ok hfirst]
        exact hf a k c'
    | error e c' =>
        rw [hxc] at hfirst
        rw [bind_of_error hxc, bind_of_error hfirst]
        rfl

/-! ## The decoders -/

theorem shifts_take (n : Nat) : Shifts Fault.shift (Decoder.take n) := by
  intro k c
  by_cases hn : n ≤ c.remaining
  · rw [Decoder.take_of_le hn, Decoder.take_of_le (show n ≤ (c.shift k).remaining from hn)]
    simp [shiftResult, Cursor.shift, Nat.add_right_comm]
  · have hlt := Nat.lt_of_not_le hn
    rw [Decoder.take_of_lt hlt, Decoder.take_of_lt (show (c.shift k).remaining < n from hlt)]
    rfl

theorem shifts_byte : Shifts Fault.shift Decoder.byte := by
  rintro k ⟨offset, input⟩
  cases input with
  | nil => rfl
  | cons b input => simp [Decoder.byte, shiftResult, Cursor.shift, Nat.add_right_comm]

/-- A scan counts on from where it stands and remembers where it started: both move. -/
theorem scan_shift (limit : UInt64) (start k : Nat) (input : Bytes) : ∀ acc offset,
    Varint.scan limit (start + k) acc (offset + k) input
      = shiftResult Fault.shift k (Varint.scan limit start acc offset input) := by
  induction input with
  | nil => exact fun _ _ => rfl
  | cons b input ih =>
      intro acc offset
      rw [Varint.scan, Varint.scan, Nat.add_right_comm offset k 1]
      split_ifs
      · rfl
      · rfl
      · rfl
      · exact ih _ _

theorem shifts_unsigned (limit : UInt64) : Shifts Fault.shift (Decoder.unsigned limit) :=
  fun k c => scan_shift limit c.offset k c.rest 0 c.offset

/-- **Every decoder does further on what it does here.** -/
theorem primitive_shifts : Primitive (fun _ x => Shifts Fault.shift x) where
  toSequential := sequential_shifts _
  take := shifts_take
  byte := shifts_byte
  unsigned := shifts_unsigned
  unknownTag := fun _ _ _ => rfl
  mismatch := fun _ _ _ => rfl

/-! ## The loader -/

theorem Shifts.within {read : Decoder α} (h : Shifts Fault.shift read) (field : ChunkField)
    (depth : Nat) : Shifts LoadError.shift (read.within field depth) := by
  intro k c
  have hread := h k c
  cases hc : read c with
  | ok a c' =>
      rw [hc] at hread
      rw [within_of_ok hc, within_of_ok hread]
      rfl
  | error fault c' =>
      rw [hc] at hread
      rw [within_of_error hc, within_of_error hread]
      rfl

theorem shifts_behindPrologue (maxDepth : Nat) :
    Shifts LoadError.shift (behindPrologue maxDepth) :=
  (sequential_shifts _).behindPrologue
    (fun depth hread => (primitive_shifts.fieldRead hread).within _ depth)
    (fun _ _ _ => rfl) (primitive_shifts.byte.within _ _) (fun _ _ _ _ => rfl) maxDepth

end Reading

end LuaBytecode
