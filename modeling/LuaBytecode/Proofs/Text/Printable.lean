import LuaBytecode.Constant.Display
import LuaBytecode.Instruction.Display
import LuaBytecode.Proofs.Text.Numeral
import Mathlib.Data.List.Basic
import Mathlib.Tactic.SplitIfs

/-!
# Texts without control characters

Whatever an instruction or a constant is, what a listing writes for it stays on its line and leaves
the columns alone: numbers are digits and signs, mnemonics are letters, and what a string has of
control characters is escaped.

* `Printable` — no control character.
* `printable_toDigits`, `printable_hexadecimal` — whole numbers.
* `Quoted.printable_encode` — strings between quotes, whatever their bytes.
* **`Constant.printable_display`**, **`Instruction.printable_display`** — what a listing writes for
  constants and instructions.
-/

namespace LuaBytecode

/-- A text without control characters. -/
def Printable (text : List Char) : Prop := ∀ c ∈ text, isControl c = false

-- named outright: the search finds one that goes through all characters instead of the text
instance (text : List Char) : Decidable (Printable text) :=
  List.decidableBAll (fun c => isControl c = false) text

section Printable

variable {α : Type} {c : Char} {s t : List Char}

@[simp] theorem printable_nil : Printable [] := List.forall_mem_nil _

@[simp] theorem printable_cons : Printable (c :: t) ↔ isControl c = false ∧ Printable t :=
  List.forall_mem_cons

@[simp] theorem printable_append : Printable (s ++ t) ↔ Printable s ∧ Printable t :=
  List.forall_mem_append

theorem printable_replicate (hc : isControl c = false) (n : Nat) :
    Printable (List.replicate n c) := by
  intro d hd
  rwa [List.eq_of_mem_replicate hd]

theorem printable_flatMap {f : α → List Char} {as : List α} (h : ∀ a ∈ as, Printable (f a)) :
    Printable (as.flatMap f) := by
  intro c hc
  obtain ⟨a, ha, hc⟩ := List.mem_flatMap.mp hc
  exact h a ha c hc

end Printable

/-! ## Numbers -/

theorem isControl_of_isDigit {c : Char} (h : c.isDigit) : isControl c = false := by
  have hrange := isDigit_iff.mp h
  simp only [isControl, Bool.or_eq_false_iff, Bool.and_eq_false_iff, decide_eq_false_iff_not]
  omega

theorem printable_toDigits (n : Nat) : Printable (Nat.toDigits 10 n) := fun _ hc =>
  isControl_of_isDigit (Nat.isDigit_of_mem_toDigits (by decide) (by decide) hc)

theorem printable_natText (n : Nat) : Printable (toString n).toList := fun _ hc =>
  isControl_of_isDigit (isDigit_of_mem_natText hc)

theorem printable_intText (i : Int) : Printable (toString i).toList := by
  intro c hc
  rcases of_mem_intText hc with hdigit | rfl
  · exact isControl_of_isDigit hdigit
  · decide

theorem printable_hexadecimal (width n : Nat) : Printable (hexadecimal width n) := by
  induction width generalizing n with
  | zero => exact printable_nil
  | succ width ih =>
      have hdigit : ∀ d < 16, isControl (Nat.digitChar d) = false := by decide
      rw [hexadecimal, printable_append, printable_cons]
      exact ⟨ih _, hdigit _ (Nat.mod_lt n (by decide)), printable_nil⟩

/-! ## Strings between quotes -/

namespace Quoted

theorem printable_numeric (n : Nat) : Printable (numeric n) :=
  printable_cons.mpr ⟨by decide, printable_toDigits n⟩

theorem printable_escape (c : Char) : Printable (escape c) := by
  unfold escape
  split
  · decide
  · decide
  · decide
  · decide
  · decide
  · split_ifs with hc
    · exact printable_numeric _
    · exact printable_cons.mpr ⟨eq_false_of_ne_true hc, printable_nil⟩

theorem printable_piece (piece : Utf8.Piece) : Printable (Quoted.piece piece) := by
  cases piece with
  | char c => exact printable_escape c
  | invalid bytes => exact printable_flatMap fun b _ => printable_numeric b.toNat

theorem printable_encode (bytes : Bytes) : Printable (encode bytes) := by
  rw [encode, printable_append, printable_cons]
  exact ⟨⟨by decide, printable_flatMap fun piece _ => printable_piece piece⟩, by decide⟩

end Quoted

/-! ## Constants and instructions -/

/-- **A constant in a listing has no control character**, whatever its value. -/
theorem Constant.printable_display (k : Constant) : Printable k.display.toList := by
  have hmarks : Printable ['.', 'e', '+', '-'] := by decide
  cases k with
  | nil => decide
  | boolean value => cases value <;> decide
  | float value =>
      rw [display, String.toList_ofList]
      unfold displayFloat
      split_ifs
      · exact Layout.forall_mem_writeFinite (fun _ => isControl_of_isDigit) hmarks _ _ _
      · decide
      · decide
      · decide
  | integer value => exact printable_intText _
  | string bytes =>
      rw [display, String.toList_ofList]
      exact Quoted.printable_encode bytes

theorem Constant.printable_kindLetter (k : Constant) : Printable k.kindLetter.toList := by
  cases k <;> rw [kindLetter] <;> decide

theorem Opcode.printable_name (op : Opcode) : Printable op.name.toList := by
  cases op <;> decide

namespace Instruction

variable (i : Instruction)

theorem printable_displayOperands (op : Opcode) : Printable (i.displayOperands op).toList := by
  have hblank : Printable " ".toList := by decide
  have hflag : Printable (if i.k then "k" else "").toList := by split_ifs <;> decide
  unfold displayOperands
  cases op.mode with
  | abc =>
      simp only [String.toList_append, toString_text, printable_append]
      exact ⟨⟨⟨⟨⟨printable_natText _, hblank⟩, printable_intText _⟩, hblank⟩, printable_intText _⟩,
        hflag⟩
  | abx =>
      simp only [String.toList_append, toString_text, printable_append]
      exact ⟨⟨printable_natText _, hblank⟩, printable_natText _⟩
  | asbx =>
      simp only [String.toList_append, toString_text, printable_append]
      exact ⟨⟨printable_natText _, hblank⟩, printable_intText _⟩
  | ax => exact printable_natText _
  | sj => exact printable_intText _

/-- **An instruction in a listing has no control character**, whatever its word. -/
theorem printable_display : Printable i.display.toList := by
  unfold display
  cases i.opcode with
  | ok op =>
      have hfill : Printable (List.replicate (mnemonicWidth - op.name.length) ' ') :=
        printable_replicate (by decide) _
      simp only [padRight, String.toList_append, String.toList_ofList, printable_append]
      exact ⟨⟨op.printable_name, hfill⟩, i.printable_displayOperands op⟩
  | error fault =>
      simp only [String.toList_append, String.toList_ofList, printable_append]
      exact ⟨by decide, printable_hexadecimal 8 _⟩

end Instruction

end LuaBytecode
