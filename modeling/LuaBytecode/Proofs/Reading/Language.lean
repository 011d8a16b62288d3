import LuaBytecode.Chunk.Grammar
import LuaBytecode.Proofs.Reading.Sequencing

/-!
# Readings and languages

`Accepts x L` says that a reading and a relation between bytes and values are the same thing seen
from two sides: the reading succeeds exactly behind a word of `L`, gives the value of that word and
leaves what follows untouched.  Both directions are needed to put readings together.  Soundness
says where the second reading starts, completeness that the first does not take bytes that belong
to the second.

* `Accepts.bind` — the language of a sequence: a word of the first part and then one of the second,
  which may depend on the value of the first.
* **`Accepts.unique`** — an input has at most one prefix in an accepted language, and it has one
  value.
* `Accepts.repeated`, `Accepts.entries` — runs of entries, and runs with their length in front.
-/

namespace LuaBytecode

namespace Reading

variable {ε α β : Type} {x : Reading ε α} {f : α → Reading ε β} {L M : Bytes → α → Prop}

/-- A reading succeeds exactly behind the words of a language. -/
structure Accepts (x : Reading ε α) (L : Bytes → α → Prop) : Prop where
  /-- What has been passed is a word for the value. -/
  sound : ∀ {offset : Nat} {input : Bytes} {a : α} {c : Cursor}, x ⟨offset, input⟩ = .ok a c →
    ∃ w rest, input = w ++ rest ∧ c = ⟨offset + w.length, rest⟩ ∧ L w a
  /-- A word is passed and no byte more. -/
  complete : ∀ {w : Bytes} {a : α}, L w a → ∀ (offset : Nat) (rest : Bytes),
    x ⟨offset, w ++ rest⟩ = .ok a ⟨offset + w.length, rest⟩

/-- A word of one language and then one of a second, which may depend on the value of the first. -/
def Behind (L : Bytes → α → Prop) (M : α → Bytes → β → Prop) (w : Bytes) (b : β) : Prop :=
  ∃ u v a, w = u ++ v ∧ L u a ∧ M a v b

namespace Accepts

/-- **At most one prefix of an input is a word**, and it has one value. -/
theorem unique (h : Accepts x L) {u v s t : Bytes} {a b : α} (hu : L u a) (hv : L v b)
    (heq : u ++ s = v ++ t) : u = v ∧ a = b := by
  have h₁ := h.complete hu 0 s
  rw [heq, h.complete hv 0 t] at h₁
  injection h₁ with hab hc
  injection hc with hlen hrest
  subst hrest
  exact ⟨List.append_cancel_right heq, hab.symm⟩

theorem congr (h : Accepts x L) (hLM : ∀ w a, L w a ↔ M w a) : Accepts x M where
  sound := by
    intro offset input a c hx
    obtain ⟨w, rest, hinput, hc, hw⟩ := h.sound hx
    exact ⟨w, rest, hinput, hc, (hLM w a).mp hw⟩
  complete := fun hw => h.complete ((hLM _ _).mpr hw)

theorem pure (a : α) : Accepts (Pure.pure a : Reading ε α) (fun w b => w = [] ∧ b = a) where
  sound := by
    intro offset input b c h
    cases h
    exact ⟨[], input, rfl, rfl, rfl, rfl⟩
  complete := by
    rintro w b ⟨rfl, rfl⟩ offset rest
    rfl

/-- A reading that always fails accepts nothing. -/
theorem throw (e : ε) : Accepts (MonadExcept.throw e : Reading ε α) (fun _ _ => False) where
  sound := fun h => by cases h
  complete := fun h => h.elim

/-- A check in front of a reading: what it refuses is no word of anything. -/
theorem guarded {p : Prop} [Decidable p] {refuse : Reading ε α} (hx : Accepts x L)
    (hrefuse : Accepts refuse fun _ _ => False) :
    Accepts (if p then x else refuse) (fun w a => p ∧ L w a) := by
  split_ifs with h
  · exact hx.congr fun w a => (and_iff_right h).symm
  · exact hrefuse.congr fun w a => iff_of_false id fun hw => h hw.1

/-- **The language of a sequence.** -/
theorem bind {N : α → Bytes → β → Prop} (hx : Accepts x L) (hf : ∀ a, Accepts (f a) (N a)) :
    Accepts (x >>= f) (Behind L N) where
  sound := by
    intro offset input b c h
    obtain ⟨a, c', hxa, hfa⟩ := bind_eq_ok_iff.mp h
    obtain ⟨u, rest, rfl, rfl, hu⟩ := hx.sound hxa
    obtain ⟨v, rest, rfl, rfl, hv⟩ := (hf a).sound hfa
    refine ⟨u ++ v, rest, (List.append_assoc u v rest).symm, ?_, u, v, a, rfl, hu, hv⟩
    rw [List.length_append, Nat.add_assoc]
  complete := by
    rintro _ b ⟨u, v, a, rfl, hu, hv⟩ offset rest
    rw [List.append_assoc, bind_of_ok (hx.complete hu offset (v ++ rest)),
      (hf a).complete hv, List.length_append, Nat.add_assoc]

theorem map (hx : Accepts x L) (g : α → β) :
    Accepts (g <$> x) (fun w b => ∃ a, L w a ∧ b = g a) := by
  refine (hx.bind fun a => Accepts.pure (g a)).congr fun w b => ?_
  constructor
  · rintro ⟨u, v, a, rfl, hu, rfl, rfl⟩
    exact ⟨a, by rwa [List.append_nil], rfl⟩
  · rintro ⟨a, hw, rfl⟩
    exact ⟨w, [], a, (List.append_nil w).symm, hw, rfl, rfl⟩

/-- Naming the field and the depth changes no success. -/
theorem within {read : Decoder α} (h : Accepts read L) (field : ChunkField) (depth : Nat) :
    Accepts (read.within field depth) L where
  sound := by
    intro offset input a c hx
    refine h.sound ?_
    cases hread : read ⟨offset, input⟩ with
    | ok b c' => rw [within_of_ok hread] at hx; injection hx with hb hc; rw [hb, hc]
    | error fault c' => rw [within_of_error hread] at hx; cases hx
  complete := fun hw offset rest => within_of_ok (h.complete hw offset rest)

/-! ## Runs of entries -/

/-- The worker of `repeated` gives what had been read and then the entries of its words. -/
theorem repeatedOnto (h : Accepts x L) : ∀ (n : Nat) (done : List α),
    Accepts (Decoder.repeatedOnto x n done)
      (fun w as => ∃ new, as = done.reverse ++ new ∧ new.length = n ∧ Grammar.Entries L w new)
  | 0, done => by
      refine (Accepts.pure done.reverse).congr fun w as => ?_
      constructor
      · rintro ⟨rfl, rfl⟩
        exact ⟨[], (List.append_nil _).symm, rfl, .nil⟩
      · rintro ⟨new, rfl, hlen, hnew⟩
        obtain rfl := List.length_eq_zero_iff.mp hlen
        cases hnew
        exact ⟨rfl, List.append_nil _⟩
  | n + 1, done => by
      refine (h.bind fun a => repeatedOnto h n (a :: done)).congr fun w as => ?_
      constructor
      · rintro ⟨u, v, a, rfl, ha, new, rfl, rfl, hnew⟩
        exact ⟨a :: new, by simp, rfl, .cons ha hnew⟩
      · rintro ⟨new, rfl, hlen, hnew⟩
        cases hnew with
        | nil => cases hlen
        | @cons u v a new ha hnew =>
            exact ⟨u, v, a, rfl, ha, new, by simp, Nat.succ.inj hlen, hnew⟩

theorem repeated (h : Accepts x L) (n : Nat) :
    Accepts (Decoder.repeated n x) (fun w as => as.length = n ∧ Grammar.Entries L w as) := by
  refine (h.repeatedOnto n []).congr fun w as => ?_
  simp

/-- **A length and as many entries** make a table. -/
theorem entries {count : Reading ε Nat} (hcount : Accepts count Grammar.Count) (h : Accepts x L) :
    Accepts (do Decoder.repeated (← count) x) (Grammar.Table L) := by
  refine (hcount.bind fun n => h.repeated n).congr fun w as => ?_
  constructor
  · rintro ⟨u, v, n, rfl, hsize, rfl, has⟩
    exact .mk hsize has
  · rintro ⟨hsize, has⟩
    exact ⟨_, _, _, rfl, hsize, rfl, has⟩

end Accepts

end Reading

end LuaBytecode
