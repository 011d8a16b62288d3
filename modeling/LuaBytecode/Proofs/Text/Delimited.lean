import LuaBytecode.Proofs.Text.Quoted
import Mathlib.Data.List.Basic

/-!
# Where a quoted text ends

A quote inside a quoted text is always the second character of an escape.  So a reader from the
front, who takes a backslash and the next character together, meets no quote of its own before the
last character; and a reader from the back meets no quote without a backslash in front of it before
the first.  Both hold of each escape, and of a text if they hold of its parts, since every escape is
whole: none ends in the backslash that would take the next character along.

* `split?` — the reader from the front.
* `Enclosed` — what a text between quotes is to the two readers; it holds of parts put together.
* `enclosed_escape` — it holds of what stands for a character.
* **`enclosed_body`**, **`split?_encode_append`** — it holds of what stands for a byte string, which
  is split off whatever follows.
-/

namespace LuaBytecode

namespace Quoted

/-- The text behind an opening quote up to the first quote that is not part of an escape, with what
is behind it; a backslash takes the next character along. -/
def closing : List Char → Option (List Char × List Char)
  | [] => none
  | '"' :: rest => some (['"'], rest)
  | ['\\'] => none
  | '\\' :: c :: rest => (closing rest).map fun p => ('\\' :: c :: p.1, p.2)
  | c :: rest => (closing rest).map fun p => (c :: p.1, p.2)

/-- The quoted text in front of a text, with what is behind it. -/
def split? : List Char → Option (List Char × List Char)
  | '"' :: rest => (closing rest).map fun p => ('"' :: p.1, p.2)
  | _ => none

/-- **A text in which neither reader meets a quote of its own**: from the front it is passed whole
and takes nothing along, and every quote has a backslash in front of it. -/
structure Enclosed (x : List Char) : Prop where
  passed : ∀ rest, closing (x ++ rest) = (closing rest).map fun p => (x ++ p.1, p.2)
  guarded : ∀ front behind, x = front ++ '"' :: behind → front.getLast? = some '\\'

variable {x y : List Char} {c : Char}

/-! ## Parts put together -/

theorem enclosed_nil : Enclosed [] where
  passed := fun _ => Option.map_id'.symm
  guarded := by
    rintro front behind h
    exact absurd h.symm (List.append_ne_nil_of_right_ne_nil front (List.cons_ne_nil _ _))

theorem Enclosed.append (hx : Enclosed x) (hy : Enclosed y) : Enclosed (x ++ y) where
  passed := by
    intro rest
    rw [List.append_assoc, hx.passed, hy.passed, Option.map_map]
    refine congrArg (Option.map · _) (funext fun p => ?_)
    rw [Function.comp_apply, List.append_assoc]
  guarded := by
    intro front behind h
    rcases List.append_eq_append_iff.mp h with ⟨between, rfl, hbehind⟩ | ⟨between, rfl, hbehind⟩
    · rw [List.getLast?_append, hy.guarded between behind hbehind]
      rfl
    · cases between with
      | nil => cases hy.guarded [] behind hbehind.symm
      | cons d between =>
          obtain ⟨rfl, -⟩ := List.cons.inj hbehind
          exact hx.guarded front between rfl

theorem enclosed_flatMap {α : Type} {f : α → List Char} {as : List α}
    (h : ∀ a ∈ as, Enclosed (f a)) : Enclosed (as.flatMap f) := by
  induction as with
  | nil => exact enclosed_nil
  | cons a as ih =>
      obtain ⟨ha, has⟩ := List.forall_mem_cons.mp h
      exact ha.append (ih has)

/-! ## Escapes -/

theorem enclosed_plain (hquote : c ≠ '"') (hslash : c ≠ '\\') : Enclosed [c] where
  passed := by
    intro rest
    rw [List.singleton_append, closing.eq_5]
    · rfl
    · exact hquote
    · exact fun h => (hslash h).elim
    · exact fun _ _ h => (hslash h).elim
  guarded := by
    intro front behind h
    have hmem : '"' ∈ [c] := h ▸ List.mem_append_right front List.mem_cons_self
    exact absurd (List.mem_singleton.mp hmem).symm hquote

/-- Behind a backslash any character is passed, a quote and another backslash as well. -/
theorem enclosed_escaped (c : Char) : Enclosed ['\\', c] where
  passed := fun _ => rfl
  guarded := by
    intro front behind h
    match front with
    | [] => simp at h
    | [d] =>
        obtain ⟨rfl, -⟩ := List.cons.inj h
        rfl
    | d :: e :: front =>
        have hlength := congrArg List.length h
        simp at hlength

/-- The first digit of a number is the one that the backslash takes along. -/
theorem enclosed_numeric (n : Nat) : Enclosed (numeric n) := by
  have hdigits : ∀ c ∈ Nat.toDigits 10 n, Enclosed [c] := by
    intro c hc
    have hdigit := Nat.isDigit_of_mem_toDigits (by decide) (by decide) hc
    exact enclosed_plain (ne_of_isDigit hdigit (by decide)) (ne_of_isDigit hdigit (by decide))
  rw [numeric]
  cases h : Nat.toDigits 10 n with
  | nil => exact absurd h Nat.toDigits_ne_nil
  | cons d digits =>
      rw [h] at hdigits
      have hrest := enclosed_flatMap fun c hc => hdigits c (List.mem_cons_of_mem d hc)
      rw [List.flatMap_singleton'] at hrest
      exact (enclosed_escaped d).append hrest

theorem enclosed_escape (c : Char) : Enclosed (escape c) := by
  rcases escape_cases c with ⟨-, letter, hescape, -, -⟩ | ⟨-, -, hescape⟩ | ⟨hplain, -, hescape⟩
  · rw [hescape]
    exact enclosed_escaped letter
  · rw [hescape]
    exact enclosed_numeric c.toNat
  · rw [hescape]
    simp only [List.mem_cons, not_or] at hplain
    exact enclosed_plain hplain.1 hplain.2.1

/-! ## Quoted texts -/

/-- **What stands between the quotes is enclosed by them**, whatever the bytes. -/
theorem enclosed_body (bytes : Bytes) : Enclosed (body bytes) := by
  refine enclosed_flatMap fun p _ => ?_
  cases p with
  | char c => exact enclosed_escape c
  | invalid bytes => exact enclosed_flatMap fun b _ => enclosed_numeric b.toNat

/-- **A quoted text ends at its last character**, whatever follows. -/
theorem split?_encode_append (bytes : Bytes) (rest : List Char) :
    split? (encode bytes ++ rest) = some (encode bytes, rest) := by
  have hencode : encode bytes = '"' :: (body bytes ++ ['"']) := rfl
  rw [hencode, List.cons_append, List.append_assoc, split?, (enclosed_body bytes).passed]
  rfl

end Quoted

end LuaBytecode
