import LuaBytecode.Proofs.Listing.Notes
import LuaBytecode.Proofs.Text.Delimited
import LuaBytecode.Proofs.Text.Printable
import Mathlib.Data.List.Basic

/-!
# A note is read in one way

A note puts the texts of its items side by side with a blank between them.  The text of a string
constant may hold blanks, and so may the name of an upvalue, which is not even quoted; still nothing
is lost.  Constants come last in a note, and the text of a constant is seen from its end: a quoted
text starts at the nearest quote without a backslash in front of it, and any other constant behind
the nearest blank.  What is in front of the constants is then the rest.

* `Delimited` — the two forms of the text of a constant; `delimited_constant` is that there are no
  others.
* **`Delimited.append_inj`** — such a text at the end of a text is cut off in one way.
* `HoldPair.at_end`, `toList_intercalate_pair` — two constants stand at the end of their note.
* **`string_selfDelimiting`** — a string is printable and ends at its last character, and two notes
  that hold two constants and read the same have the same texts.
-/

namespace LuaBytecode

open Quoted

/-! ## The text of a constant -/

/-- A text without a blank and without a quote. -/
def IsWord (t : List Char) : Prop := ∀ c ∈ t, c ≠ ' ' ∧ c ≠ '"'

-- named outright, as for `Printable`
instance (t : List Char) : Decidable (IsWord t) :=
  List.decidableBAll (fun c => c ≠ ' ' ∧ c ≠ '"') t

/-- A text that shows its start to a reader from the end: a word, or a quoted text. -/
inductive Delimited : List Char → Prop where
  | word {t : List Char} (h : IsWord t) : Delimited t
  | quoted {inner : List Char} (h : Enclosed inner) : Delimited ('"' :: inner ++ ['"'])

/-- A text behind which another can start: an empty one, or one that ends in a blank. -/
def Opens (t : List Char) : Prop := ∀ c ∈ t.getLast?, c = ' '

namespace Delimited

variable {s t u v : List Char}

/-- A delimited text does not stand behind a blank in another: a word has no blank, and in a quoted
text no quote stands behind one. -/
theorem ne_append_blank (ht : Delimited t) (hs : Delimited s) : s ≠ u ++ ' ' :: t := by
  intro hwhole
  cases hs with
  | word h =>
      have hblank : ' ' ∈ s := hwhole ▸ List.mem_append_right u List.mem_cons_self
      exact (h ' ' hblank).1 rfl
  | @quoted inner hinner =>
      cases ht with
      | word h =>
          have hlast := congrArg List.getLast? hwhole
          rw [List.getLast?_concat, List.getLast?_append_cons] at hlast
          rcases List.mem_cons.mp (List.mem_of_getLast? hlast.symm) with hquote | hmem
          · cases hquote
          · exact (h '"' hmem).2 rfl
      | @quoted inside _ =>
          have hclosed : ('"' :: inner) ++ ['"'] = (u ++ ' ' :: '"' :: inside) ++ ['"'] := by
            simpa using hwhole
          have hfront := List.append_cancel_right hclosed
          cases u with
          | nil => cases hfront
          | cons d u =>
              have hinside : inner = (u ++ [' ']) ++ '"' :: inside := by
                simpa using (List.cons.inj hfront).2
              have hslash := hinner.guarded (u ++ [' ']) inside hinside
              rw [List.getLast?_concat] at hslash
              cases hslash

/-- What stands between two places where a delimited text can start, both up to one end, is
nothing. -/
theorem eq_nil_of_opens (ht : Delimited t) (hs : Delimited (v ++ t)) (h : Opens (u ++ v)) :
    v = [] := by
  rcases List.eq_nil_or_concat v with hv | ⟨w, c, rfl⟩
  · exact hv
  · have hc : c = ' ' := h c (by simp)
    subst hc
    exact absurd (by simp) (ht.ne_append_blank (u := w) hs)

/-- **A delimited text at the end of a text is cut off in one way.** -/
theorem append_inj (hs : Delimited s) (ht : Delimited t) (hu : Opens u) (hv : Opens v)
    (h : u ++ s = v ++ t) : u = v ∧ s = t := by
  rcases List.append_eq_append_iff.mp h with ⟨w, rfl, rfl⟩ | ⟨w, rfl, rfl⟩
  · obtain rfl := ht.eq_nil_of_opens hs hv
    exact ⟨(List.append_nil u).symm, rfl⟩
  · obtain rfl := hs.eq_nil_of_opens ht hu
    exact ⟨List.append_nil v, rfl⟩

end Delimited

/-- No number has a blank or a quote in it. -/
theorem Constant.delimited_display (k : Constant) : Delimited k.display.toList := by
  have hdigit : ∀ c : Char, c.isDigit → c ≠ ' ' ∧ c ≠ '"' := fun c hc =>
    ⟨ne_of_isDigit hc (by decide), ne_of_isDigit hc (by decide)⟩
  have hmarks : IsWord ['.', 'e', '+', '-'] := by decide
  cases k with
  | nil => exact .word (by decide)
  | boolean value => cases value <;> exact .word (by decide)
  | float value =>
      rw [display, String.toList_ofList]
      unfold displayFloat
      refine .word ?_
      split_ifs
      · exact Layout.forall_mem_writeFinite hdigit hmarks _ _ _
      · decide
      · decide
      · decide
  | integer value =>
      refine .word fun c hc => ?_
      rcases of_mem_intText hc with hc | rfl
      · exact hdigit c hc
      · decide
  | string bytes =>
      rw [display, String.toList_ofList]
      exact .quoted (enclosed_body bytes)

namespace NoteItem

theorem delimited_constant (p : Prototype) (index : Nat) :
    Delimited ((constant index).text p).toList := by
  rw [text]
  cases p.constants[index]? with
  | none => exact .word (by decide)
  | some k => exact k.delimited_display

/-! ## Two constants in a note -/

/-- Two constants stand side by side. -/
def HoldPair (items : List NoteItem) : Prop := ∃ a b, [constant a, constant b] <:+: items

theorem not_holdPair_upvalue (index a : Nat) : ¬ HoldPair [upvalue index, constant a] := by
  rintro ⟨b, c, hpair⟩
  cases hpair.eq_of_length rfl

/-- **Two constants stand at the end of a note**, behind at most one item. -/
theorem HoldPair.at_end {pc : Nat} {i : Instruction} {op : Opcode}
    (h : HoldPair (ofInstruction pc i op)) : ∃ front a b, front.length ≤ 1 ∧
      ofInstruction pc i op = front ++ [constant a, constant b] := by
  have hflagged : flaggedConstant i = [] ∨ flaggedConstant i = [constant i.c.toNat] := by
    unfold flaggedConstant
    cases i.k
    · exact Or.inl rfl
    · exact Or.inr rfl
  have hlength : 2 ≤ (ofInstruction pc i op).length := by
    obtain ⟨a, b, hpair⟩ := h
    exact hpair.length_le
  cases op
  case getTabUp => exact absurd h (not_holdPair_upvalue _ _)
  case setTabUp =>
    rcases hflagged with hnone | hsome
    · rw [ofInstruction, hnone] at h
      exact absurd h (not_holdPair_upvalue _ _)
    · have hitems : ofInstruction pc i .setTabUp
          = [upvalue i.a.toNat] ++ [constant i.b.toNat, constant i.c.toNat] := by
        rw [ofInstruction, hsome]
        rfl
      exact ⟨[upvalue i.a.toNat], _, _, Nat.le_refl 1, hitems⟩
  case setField =>
    rcases hflagged with hnone | hsome
    · rw [ofInstruction, hnone] at hlength
      exact absurd hlength (Nat.not_succ_le_self 1)
    · have hitems : ofInstruction pc i .setField
          = [] ++ [constant i.b.toNat, constant i.c.toNat] := by
        rw [ofInstruction, hsome]
        rfl
      exact ⟨[], _, _, Nat.zero_le 1, hitems⟩
  case self =>
    rw [ofInstruction] at hlength
    rcases hflagged with hnone | hsome
    · rw [hnone] at hlength
      exact absurd hlength (Nat.not_succ_le_zero 1)
    · rw [hsome] at hlength
      exact absurd hlength (Nat.not_succ_le_self 1)
  case jump =>
    rw [ofInstruction] at hlength
    have hone := Option.length_toList_le (o := (jumpTarget? i.sj pc).map target)
    exact absurd (Nat.le_trans hlength hone) (Nat.not_succ_le_self 1)
  all_goals first
    | exact absurd hlength (Nat.not_succ_le_zero 1)
    | exact absurd hlength (Nat.not_succ_le_self 1)

end NoteItem

/-- Texts with a blank behind each. -/
def blanked (texts : List String) : List Char := texts.flatMap fun t => t.toList ++ [' ']

theorem opens_blanked (texts : List String) : Opens (blanked texts) := by
  intro c hc
  rcases List.eq_nil_or_concat texts with rfl | ⟨texts, last, rfl⟩
  · cases hc
  · simp [blanked] at hc
    exact hc.symm

/-- A line of texts that ends in two of them. -/
theorem toList_intercalate_pair (front : List String) (s t : String) :
    (" ".intercalate (front ++ [s, t])).toList
      = (blanked front ++ s.toList ++ [' ']) ++ t.toList := by
  induction front with
  | nil =>
      rw [List.nil_append, String.intercalate_cons_cons, String.intercalate_singleton,
        String.toList_append, String.toList_append]
      rfl
  | cons first front ih =>
      obtain ⟨next, rest, hrest⟩ : ∃ next rest, front ++ [s, t] = next :: rest :=
        List.exists_cons_of_ne_nil (by simp)
      rw [List.cons_append, hrest, String.intercalate_cons_cons, ← hrest, String.toList_append,
        String.toList_append, ih]
      simp [blanked]

theorem blanked_inj {s t : List String} (hs : s.length ≤ 1) (ht : t.length ≤ 1)
    (h : blanked s = blanked t) : s = t := by
  have hone : ∀ t : String, blanked [t] = t.toList ++ [' '] := fun t => List.append_nil _
  match s, t with
  | [], [] => rfl
  | [], [t] => exact absurd h.symm (by rw [hone]; exact List.concat_ne_nil _ _)
  | [s], [] => exact absurd h (by rw [hone]; exact List.concat_ne_nil _ _)
  | [s], [t] =>
      rw [hone, hone] at h
      rw [String.toList_inj.mp (List.append_cancel_right h)]

open NoteItem

/-- **A string constant in a listing is printable and ends where a reader from the front expects
it**, at the first quote that is not part of an escape, whatever follows.  **Where a note holds two
constants it says which two**: two notes that do so and read the same have the same texts, item by
item. -/
theorem string_selfDelimiting :
    (∀ s : Bytes, (Constant.string s).display.toList.head? = some '"' ∧
      Printable (Constant.string s).display.toList ∧
      ∀ rest, split? ((Constant.string s).display.toList ++ rest)
        = some ((Constant.string s).display.toList, rest)) ∧
    ∀ (p q : Prototype) (pc pc' : Nat) (i j : Instruction) (op op' : Opcode),
      i.opcode = .ok op → j.opcode = .ok op' →
      HoldPair (ofInstruction pc i op) → HoldPair (ofInstruction pc' j op') →
      i.note? p pc = j.note? q pc' →
        (ofInstruction pc i op).map (text p) = (ofInstruction pc' j op').map (text q) := by
  refine ⟨fun s => ⟨?_, (Constant.string s).printable_display, fun rest => ?_⟩, ?_⟩
  · rw [Constant.display, String.toList_ofList]
    rfl
  · rw [Constant.display, String.toList_ofList]
    exact split?_encode_append s rest
  · intro p q pc pc' i j op op' hop hop' hpair hpair' hnote
    obtain ⟨front, a, b, hfront, hitems⟩ := hpair.at_end
    obtain ⟨front', a', b', hfront', hitems'⟩ := hpair'.at_end
    rw [Instruction.note?_eq_some hop (by rw [hitems]; simp),
      Instruction.note?_eq_some hop' (by rw [hitems']; simp), Option.some.injEq,
      ← String.toList_inj, hitems, hitems', List.map_append, List.map_append] at hnote
    simp only [List.map_cons, List.map_nil, toList_intercalate_pair] at hnote
    have hopens : ∀ t : List Char, Opens (t ++ [' ']) := fun t c hc => by simpa using hc.symm
    obtain ⟨hbefore, hlast⟩ := (delimited_constant p b).append_inj (delimited_constant q b')
      (hopens _) (hopens _) hnote
    obtain ⟨hopening, hfirst⟩ := (delimited_constant p a).append_inj (delimited_constant q a')
      (opens_blanked _) (opens_blanked _) (List.append_cancel_right hbefore)
    have htexts := blanked_inj (by simpa using hfront) (by simpa using hfront') hopening
    rw [hitems, hitems', List.map_append, List.map_append, htexts]
    simp only [List.map_cons, List.map_nil, String.toList_inj.mp hfirst, String.toList_inj.mp hlast]

/-- A function with two strings, which hold a blank, quotes, a backslash and bytes that encode no
printable character, and with an upvalue whose name looks like a string and more. -/
def quotedName (constants : List Constant) : Prototype :=
  { (default : Prototype) with constants, upvalueNames := [[0x61, 0x20, 0x22, 0x62, 0x22]] }

def spacedKey : Constant := .string [0x61, 0x20, 0x22, 0x20, 0x22]

def unprintableValue : Constant := .string [0x22, 0x5C, 0xC2, 0x85, 0xFF, 0x5C]

/-- Two functions have these constants in opposite order, and in each an instruction stores the one
under the other in a table that is an upvalue: the notes read the same and have the same texts. -/
theorem string_selfDelimiting_quotedName :
    (⟨0x0100800F⟩ : Instruction).opcode = .ok .setTabUp ∧
    HoldPair (ofInstruction 0 ⟨0x0100800F⟩ .setTabUp) ∧
    (⟨0x0100800F⟩ : Instruction).note? (quotedName [spacedKey, unprintableValue]) 0
      = (⟨0x0001800F⟩ : Instruction).note? (quotedName [unprintableValue, spacedKey]) 0 ∧
    (ofInstruction 0 ⟨0x0100800F⟩ .setTabUp).map (text (quotedName [spacedKey, unprintableValue]))
      = (ofInstruction 0 ⟨0x0001800F⟩ .setTabUp).map
          (text (quotedName [unprintableValue, spacedKey])) := by
  have hop : (⟨0x0100800F⟩ : Instruction).opcode = .ok .setTabUp := rfl
  have hop' : (⟨0x0001800F⟩ : Instruction).opcode = .ok .setTabUp := rfl
  have hpair : HoldPair (ofInstruction 0 ⟨0x0100800F⟩ .setTabUp) := ⟨0, 1, [.upvalue 0], [], rfl⟩
  have hpair' : HoldPair (ofInstruction 0 ⟨0x0001800F⟩ .setTabUp) := ⟨1, 0, [.upvalue 0], [], rfl⟩
  have hnote : (⟨0x0100800F⟩ : Instruction).note? (quotedName [spacedKey, unprintableValue]) 0
      = (⟨0x0001800F⟩ : Instruction).note? (quotedName [unprintableValue, spacedKey]) 0 := rfl
  obtain ⟨-, htexts⟩ := string_selfDelimiting
  exact ⟨hop, hpair, hnote, htexts _ _ 0 0 _ _ _ _ hop hop' hpair hpair' hnote⟩

end LuaBytecode
