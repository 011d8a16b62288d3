import LuaBytecode.Prologue.Values
import LuaBytecode.Proofs.Chunk.Layout
import LuaBytecode.Proofs.Number.Binary64
import LuaBytecode.Proofs.Reading.Session
import Mathlib.Order.Basic

/-!
# The check of a prologue blames the first field that is wrong

The fields stand one behind the other, so a field has its place behind the widths of those in front
of it.  The check reads them in order and stops at the first that is not there as it must be, cut
short or different; how many others are wrong as well, or missing, does not matter.

The check compares bytes.  That decides the values too: no bytes but the stored form of a value are
read as it, since neither a number nor the bits of a float lose anything of the bytes that they are
read from.

* `checkValues_eq` — reading and comparing values is the same check.
* `place`, `Stands` — where a field is, and that it is there; `prefix_take_succ_iff` takes one field
  after the other.
* `checkField_of_lt`, `checkField_of_ne` — a field that is cut short, and one that differs.
* **`check_blames_first`** — when the check passes, and what it blames otherwise.
-/

namespace LuaBytecode

/-- The place some bytes further on. -/
def Cursor.skip (c : Cursor) (n : Nat) : Cursor := ⟨c.offset + n, c.rest.drop n⟩

theorem Cursor.skip_skip (c : Cursor) (m n : Nat) : (c.skip m).skip n = c.skip (m + n) := by
  rw [skip, skip, skip, List.drop_drop, Nat.add_assoc]

namespace Prologue

open Reading

/-! ## Values -/

example : sentinelFloat.toRat = 741 / 2 := by
  have hexponent : sentinelFloat.exponentField = 1031 := by decide
  have hfraction : sentinelFloat.fractionField = 0x7280000000000 := by decide
  have hsign : sentinelFloat.isNegative = false := by decide
  rw [Binary64.toRat, Binary64.size, hexponent, hfraction, hsign]
  norm_num

/-- Comparing the value of a field is comparing its bytes. -/
theorem checkValue_eq (f : TypedField) :
    checkValue f = checkField f.field (f.read.encode f.value) := by
  funext c
  rw [checkValue, checkField, f.length_encode]
  by_cases hle : f.read.width ≤ c.remaining
  · have htaken : (c.rest.take f.read.width).length = f.read.width := List.length_take_of_le hle
    rw [bind_of_ok (FixedRead.decoder_of_le hle), bind_of_ok (Decoder.take_of_le hle),
      if_congr (FixedRead.ofBytes_eq_iff htaken) rfl rfl]
  · have hlt := Nat.lt_of_not_le hle
    rw [bind_of_error (FixedRead.decoder_of_lt hlt), bind_of_error (Decoder.take_of_lt hlt)]

theorem forM_checkValue (fs : List TypedField) :
    fs.forM checkValue = checkFields (fs.map fun f => (f.field, f.read.encode f.value)) := by
  induction fs with
  | nil => rfl
  | cons f fs ih =>
      rw [List.map_cons, checkFields, ← checkValue_eq, ← ih]
      rfl

/-- **Reading the prologue value by value is the same check.** -/
theorem checkValues_eq (withSizes : Bool) : checkValues withSizes = check withSizes := by
  rw [checkValues, forM_checkValue, check]
  cases withSizes <;> rfl

/-! ## Fields in their places -/

section Places

variable (fs : List (PrologueField × Bytes)) (input : Bytes) (i : Nat)

/-- Where a field starts: behind those in front of it. -/
def place : Nat := ((fs.take i).flatMap (·.2)).length

/-- The field is in its place, whole and as it must be. -/
def Stands : Prop :=
  ∀ entry ∈ fs[i]?, (input.drop (place fs i)).take entry.2.length = entry.2

/-- The field is the first that is not in its place. -/
structure FirstWrong (field : PrologueField) (expected : Bytes) : Prop where
  listed : fs[i]? = some (field, expected)
  before : ∀ j < i, Stands fs input j
  wrong : ¬ Stands fs input i

instance : Decidable (Stands fs input i) :=
  inferInstanceAs (Decidable (∀ entry ∈ fs[i]?, _))

variable {fs input i}

theorem FirstWrong.ne {field : PrologueField} {expected : Bytes}
    (h : FirstWrong fs input i field expected) :
    (input.drop (place fs i)).take expected.length ≠ expected := by
  intro heq
  refine h.wrong fun entry hentry => ?_
  obtain rfl := Option.some.inj (h.listed.symm.trans hentry)
  exact heq

/-- **The fields up to one are in front of the input if those before it are and it is in its
place.** -/
theorem prefix_take_succ_iff : (fs.take (i + 1)).flatMap (·.2) <+: input ↔
    (fs.take i).flatMap (·.2) <+: input ∧ Stands fs input i := by
  rw [List.take_add_one]
  cases hentry : fs[i]? with
  | none => simp [Stands, hentry]
  | some entry =>
      have hstands : Stands fs input i ↔ entry.2 <+: input.drop (place fs i) := by
        simp [Stands, hentry, List.prefix_iff_eq_take, eq_comm]
      rw [hstands, place]
      simp only [Option.toList_some, List.flatMap_append, List.flatMap_singleton]
      constructor
      · rintro ⟨rest, rfl⟩
        rw [List.append_assoc, List.drop_left]
        exact ⟨List.prefix_append _ _, List.prefix_append _ _⟩
      · rintro ⟨⟨rest, rfl⟩, hentry⟩
        rw [List.drop_left] at hentry
        exact (List.prefix_append_right_inj _).mpr hentry

theorem prefix_take_iff :
    (fs.take i).flatMap (·.2) <+: input ↔ ∀ j < i, Stands fs input j := by
  induction i with
  | zero => simp
  | succ i ih => rw [prefix_take_succ_iff, ih, Nat.forall_lt_succ_right]

/-- If the fields are not all in front of the input, there is a first that is wrong. -/
theorem exists_firstWrong (h : ¬ fs.flatMap (·.2) <+: input) :
    ∃ i field expected, FirstWrong fs input i field expected := by
  have hsome : ∃ i, ¬ Stands fs input i := by
    by_contra hall
    rw [not_exists_not] at hall
    have hfront := prefix_take_iff.mpr fun j (_ : j < fs.length) => hall j
    rw [List.take_length] at hfront
    exact h hfront
  classical
  obtain ⟨i, hwrong, hbefore⟩ : ∃ i, ¬ Stands fs input i ∧ ∀ j < i, Stands fs input j :=
    ⟨Nat.find hsome, Nat.find_spec hsome, fun j hj => not_not.mp (Nat.find_min hsome hj)⟩
  cases hentry : fs[i]? with
  | none => exact absurd (by simp [Stands, hentry]) hwrong
  | some entry => exact ⟨i, entry.1, entry.2, hentry, hbefore, hwrong⟩

end Places

/-! ## One field -/

section Field

variable {field : PrologueField} {expected : Bytes} {c : Cursor}

/-- A field that is cut short is not passed. -/
theorem checkField_of_lt (h : c.remaining < expected.length) : checkField field expected c
    = .error (.unexpectedEnd c.offset expected.length c.remaining) c := by
  rw [checkField, bind_of_error (Decoder.take_of_lt h)]

/-- A field that differs is passed whole. -/
theorem checkField_of_ne (hle : expected.length ≤ c.remaining)
    (hne : c.rest.take expected.length ≠ expected) :
    checkField field expected c = .error (.prologueMismatch field) (c.skip expected.length) := by
  rw [checkField, bind_of_ok (Decoder.take_of_le hle), if_neg hne]
  rfl

end Field

/-! ## The first wrong field -/

/-- The check comes to the first wrong field, and does there what it does with that field alone. -/
theorem checkFields_of_firstWrong {fs : List (PrologueField × Bytes)} {i : Nat}
    {field : PrologueField} {expected : Bytes} {c c' : Cursor} {fault : Fault}
    (h : FirstWrong fs c.rest i field expected)
    (hfield : checkField field expected (c.skip (place fs i)) = .error fault c') :
    checkFields fs c = .error fault c' := by
  obtain ⟨rest, hrest⟩ := prefix_take_iff.mpr h.before
  obtain ⟨hi, hentry⟩ := List.getElem?_eq_some_iff.mp h.listed
  have hplace : c.skip (place fs i) = ⟨c.offset + place fs i, rest⟩ := by
    rw [Cursor.skip, place, ← hrest, List.drop_left]
  have hpassed := checkFields_of_front (fs.take i) (fs.drop i) c.offset rest
  rw [List.take_append_drop, hrest, List.drop_eq_getElem_cons hi, hentry, checkFields] at hpassed
  rw [hplace] at hfield
  exact hpassed.trans (bind_of_error hfield)

/-- **The check of a prologue passes exactly if the fields are in front of what is left, one behind
the other, and passes no byte more.  Otherwise it blames the first field that is not in its place**:
it stays in front of a field that is cut short, and says how much of it is there; a field that
differs it has passed.  Comparing the values of the fields is the same check. -/
theorem check_blames_first (withSizes : Bool) (c : Cursor) :
    checkValues withSizes = check withSizes ∧
    ((∃ c', check withSizes c = .ok () c') ↔ encode withSizes <+: c.rest) ∧
    (encode withSizes <+: c.rest →
      check withSizes c = .ok () (c.skip (encode withSizes).length)) ∧
    (¬ encode withSizes <+: c.rest →
      ∃ i field expected, FirstWrong (fields withSizes) c.rest i field expected) ∧
    ∀ i field expected, FirstWrong (fields withSizes) c.rest i field expected →
      let start := place (fields withSizes) i
      (c.remaining < start + expected.length → check withSizes c
        = .error (.unexpectedEnd (c.offset + start) expected.length (c.remaining - start))
            (c.skip start)) ∧
      (start + expected.length ≤ c.remaining → check withSizes c
        = .error (.prologueMismatch field) (c.skip (start + expected.length))) := by
  have haccepts := accepts_prologue withSizes
  have hpass : encode withSizes <+: c.rest →
      check withSizes c = .ok () (c.skip (encode withSizes).length) := by
    rintro ⟨rest, hrest⟩
    have h := haccepts.complete (a := ()) rfl c.offset rest
    rw [hrest] at h
    rw [Cursor.skip, ← hrest, List.drop_left]
    exact h
  refine ⟨checkValues_eq withSizes, ⟨?_, fun h => ⟨_, hpass h⟩⟩, hpass, exists_firstWrong, ?_⟩
  · rintro ⟨c', h⟩
    obtain ⟨_, rest, hrest, -, rfl⟩ := haccepts.sound h
    exact ⟨rest, hrest.symm⟩
  · intro i field expected h
    have hleft : (c.skip (place (fields withSizes) i)).remaining
        = c.remaining - place (fields withSizes) i := List.length_drop
    have hstart : place (fields withSizes) i ≤ c.remaining :=
      (prefix_take_iff.mpr h.before).length_le
    refine ⟨fun hlt => checkFields_of_firstWrong h ?_, fun hle => checkFields_of_firstWrong h ?_⟩
    · rw [checkField_of_lt (by omega), hleft]
      rfl
    · rw [checkField_of_ne (by omega) h.ne, Cursor.skip_skip]

/-- A prologue of another version and another format, which ends in the platform data, as a reader
finds it behind two bytes. -/
def otherVersion : Cursor := ⟨2, [0x1B, 0x4C, 0x75, 0x61, 0x53, 0x01, 0x19, 0x93]⟩

/-- The same with the version and the format that it should have. -/
def cutPlatformData : Cursor := ⟨2, [0x1B, 0x4C, 0x75, 0x61, 0x54, 0x00, 0x19, 0x93]⟩

/-- The version is blamed although more is wrong behind it, and with the right one the field that is
cut short. -/
theorem check_blames_first_otherVersion :
    FirstWrong (fields true) otherVersion.rest 1 .version [0x54] ∧
    check true otherVersion
      = .error (.prologueMismatch .version) ⟨7, [0x01, 0x19, 0x93]⟩ ∧
    FirstWrong (fields true) cutPlatformData.rest 3 .platformData
      [0x19, 0x93, 0x0D, 0x0A, 0x1A, 0x0A] ∧
    check true cutPlatformData = .error (.unexpectedEnd 8 6 2) ⟨8, [0x19, 0x93]⟩ ∧
    check true ⟨2, encode true ++ [7]⟩ = .ok () ⟨33, [7]⟩ := by
  have hversion : FirstWrong (fields true) otherVersion.rest 1 .version [0x54] :=
    ⟨rfl, by decide, by decide⟩
  have hplatform : FirstWrong (fields true) cutPlatformData.rest 3 .platformData
      [0x19, 0x93, 0x0D, 0x0A, 0x1A, 0x0A] :=
    ⟨rfl, by decide, by decide⟩
  obtain ⟨-, -, -, -, hdiffers⟩ := check_blames_first true otherVersion
  obtain ⟨-, -, -, -, hcut⟩ := check_blames_first true cutPlatformData
  obtain ⟨-, -, hpass, -⟩ := check_blames_first true ⟨2, encode true ++ [7]⟩
  exact ⟨hversion, (hdiffers _ _ _ hversion).2 (by decide),
    hplatform, (hcut _ _ _ hplatform).1 (by decide), hpass (List.prefix_append _ _)⟩

end Prologue

end LuaBytecode
