import LuaBytecode.Chunk.Load
import LuaBytecode.Instruction.Reference
import LuaBytecode.Listing.Note
import Mathlib.Data.List.Infix

/-!
# What the note on an instruction resolves

The meaning of an opcode names the constants and upvalues that an instruction uses;
`Instruction.references` reads them off.  A note is to say what each of them is.  This file shows
for which opcodes it does: for all but two.  `SETTABLE` and `SETI` store a value that may be a
constant, as `SETFIELD` and `SETTABUP` do, but have no note at all.

* `ofInstruction_eq` — apart from those two, the note has an item for each reference, in order.
* `resolves_of_item` — an item of a note is read in its text.
* **`note?_resolves_iff`** — the instructions whose references are all resolved.
-/

namespace LuaBytecode

/-- What stands for a reference in a note: the constant as a listing shows it, the name of the
upvalue. -/
def Reference.text (p : Prototype) : Reference → String
  | .constant index =>
      match p.constants[index]? with
      | some k => k.display
      | none => "?"
  | .upvalue index =>
      match p.upvalueName? index with
      | some name => Utf8.lossy name
      | none => "-"

/-- The item of a note that resolves a reference. -/
def Reference.item : Reference → NoteItem
  | .constant index => .constant index
  | .upvalue index => .upvalue index

theorem Reference.text_item (p : Prototype) (r : Reference) : r.item.text p = r.text p := by
  cases r with
  | constant index => rw [item, NoteItem.text, text]; cases p.constants[index]? <;> rfl
  | upvalue index => rw [item, NoteItem.text, text]; cases p.upvalueName? index <;> rfl

/-- A part of a text is read in it, whatever stands between the parts. -/
theorem infix_intercalate (separator : String) {part : String} {parts : List String}
    (h : part ∈ parts) : part.toList <:+: (separator.intercalate parts).toList := by
  induction parts with
  | nil => cases h
  | cons first parts ih =>
      cases parts with
      | nil =>
          rw [String.intercalate_singleton, List.mem_singleton.mp h]
      | cons next parts =>
          rw [String.intercalate_cons_cons, String.toList_append, String.toList_append]
          rcases List.mem_cons.mp h with rfl | h
          · rw [List.append_assoc]
            exact (List.prefix_append _ _).isInfix
          · exact (ih h).trans (List.suffix_append _ _).isInfix

namespace Instruction

variable {p : Prototype} {pc : Nat} {i : Instruction} {op : Opcode}

/-- The note on an instruction says what a reference is. -/
def Resolves (p : Prototype) (pc : Nat) (i : Instruction) (r : Reference) : Prop :=
  ∃ note, i.note? p pc = some note ∧ (r.text p).toList <:+: note.toList

/-- An opcode that stores a value, of which the flag says whether it is a constant, and has no note
on it. -/
def StoresSilently (op : Opcode) : Prop := op = .setTable ∨ op = .setI

/-- **Apart from the silent stores a note has an item for each reference**, in the order in which
the meaning of the opcode names them. -/
theorem ofInstruction_eq (hop : ¬StoresSilently op) (hreferences : i.references op ≠ []) :
    NoteItem.ofInstruction pc i op = (i.references op).map Reference.item := by
  have hflagged : NoteItem.flaggedConstant i = i.constantOfC.map Reference.item := by
    unfold NoteItem.flaggedConstant constantOfC
    cases i.k <;> rfl
  cases op
  case setTable => exact absurd (Or.inl rfl) hop
  case setI => exact absurd (Or.inr rfl) hop
  case setTabUp => exact congrArg (_ :: _ :: ·) hflagged
  case setField => exact congrArg (_ :: ·) hflagged
  case self => exact hflagged
  all_goals first | rfl | exact absurd rfl hreferences

/-- The note on an instruction with items is their texts with blanks between them. -/
theorem note?_eq_some (hop : i.opcode = .ok op) (hitems : NoteItem.ofInstruction pc i op ≠ []) :
    i.note? p pc
      = some (" ".intercalate ((NoteItem.ofInstruction pc i op).map (NoteItem.text p))) := by
  unfold note?
  rw [hop]
  dsimp only
  cases h : NoteItem.ofInstruction pc i op with
  | nil => exact absurd h hitems
  | cons item items => rfl

theorem resolves_of_item {r : Reference} (hop : i.opcode = .ok op)
    (hr : r.item ∈ NoteItem.ofInstruction pc i op) : Resolves p pc i r := by
  refine ⟨_, note?_eq_some hop (List.ne_nil_of_mem hr), infix_intercalate " " ?_⟩
  rw [← r.text_item]
  exact List.mem_map_of_mem hr

/-- A silent store has no note, also where it stores a constant. -/
theorem note?_of_storesSilently (hop : i.opcode = .ok op) (hstore : StoresSilently op) :
    i.note? p pc = none := by
  unfold note?
  rw [hop]
  rcases hstore with rfl | rfl <;> rfl

theorem not_resolves_of_note?_eq_none {r : Reference} (h : i.note? p pc = none) :
    ¬Resolves p pc i r := by
  rintro ⟨note, hnote, -⟩
  rw [h] at hnote
  cases hnote

/-- **The references of an instruction are resolved in its note**, all of them, unless the
instruction stores a constant silently: then there is one reference and no note. -/
theorem note?_resolves_iff (p : Prototype) (pc : Nat) (i : Instruction) :
    ((∀ op, i.opcode = .ok op → ∀ r ∈ i.references op, Resolves p pc i r) ↔
      ∀ op, i.opcode = .ok op → StoresSilently op → i.k = false) ∧
    (∀ op, i.opcode = .ok op → StoresSilently op → i.k = true →
      i.references op = [.constant i.c.toNat] ∧ i.note? p pc = none) := by
  have hsilent : ∀ op, StoresSilently op → i.references op = i.constantOfC := by
    rintro op (rfl | rfl) <;> rfl
  refine ⟨⟨fun hall op hop hstore => ?_, fun hnone op hop r hr => ?_⟩, fun op hop hstore hk => ?_⟩
  · by_contra hk
    have hr : Reference.constant i.c.toNat ∈ i.references op := by
      rw [hsilent op hstore, constantOfC, if_pos (eq_true_of_ne_false hk)]
      exact List.mem_singleton_self _
    exact not_resolves_of_note?_eq_none (note?_of_storesSilently hop hstore) (hall op hop _ hr)
  · by_cases hstore : StoresSilently op
    · rw [hsilent op hstore, constantOfC, hnone op hop hstore] at hr
      cases hr
    · refine resolves_of_item hop ?_
      rw [ofInstruction_eq hstore (List.ne_nil_of_mem hr)]
      exact List.mem_map_of_mem hr
  · rw [hsilent op hstore, constantOfC, if_pos hk]
    exact ⟨rfl, note?_of_storesSilently hop hstore⟩

/-- A chunk with one constant, the string `v`, and two instructions, which store it in a table:
under a key from a register and under the key zero. -/
def silentStoresInput : Bytes :=
  Prologue.encode false ++
    [0, 0x80, 0x80, 0x80, 0, 1, 2, 0x82, 0x10, 0x80, 0, 0, 0x11, 0x80, 0, 0, 0x81, 0x04, 0x82, 0x76,
      0x80, 0x80, 0x80, 0x80, 0x80, 0x80]

def silentStoresMain : Prototype :=
  ⟨[], 0, 0, 0, true, 2, [0x8010, 0x8011], [.string [0x76]], [], [], [], [], [], []⟩

/-- Both instructions use the constant, and neither has a note that says what it is. -/
theorem not_resolves_silentStores :
    load .standard silentStoresInput = .ok silentStoresMain ∧
    (⟨0x8010⟩ : Instruction).opcode = .ok .setTable ∧
    (⟨0x8010⟩ : Instruction).references .setTable = [.constant 0] ∧
    ¬Resolves silentStoresMain 0 ⟨0x8010⟩ (.constant 0) ∧
    (⟨0x8011⟩ : Instruction).opcode = .ok .setI ∧
    (⟨0x8011⟩ : Instruction).references .setI = [.constant 0] ∧
    ¬Resolves silentStoresMain 1 ⟨0x8011⟩ (.constant 0) := by
  have htable : note? silentStoresMain 0 ⟨0x8010⟩ = none := rfl
  have hindex : note? silentStoresMain 1 ⟨0x8011⟩ = none := rfl
  exact ⟨rfl, rfl, rfl, not_resolves_of_note?_eq_none htable, rfl, rfl,
    not_resolves_of_note?_eq_none hindex⟩

end Instruction

end LuaBytecode
