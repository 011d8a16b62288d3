import Mathlib.Data.List.TakeWhile

/-!
# The front of a list

What a list has before its first entry of some kind.  A search that goes through a list from the
start ends there, and a form that closes with an entry of a kind of its own shows its end there.
-/

namespace LuaBytecode

section Front

variable {α : Type} {f : α → Bool}

/-- What holds of entries at the front of a list only is found by a search that stops where it
fails. -/
theorem takeWhile_eq_filter {l : List α} (h : l.Pairwise fun a b => f b = true → f a = true) :
    l.takeWhile f = l.filter f := by
  induction l with
  | nil => rfl
  | cons a l ih =>
      obtain ⟨hfirst, hrest⟩ := List.pairwise_cons.mp h
      cases ha : f a with
      | true => rw [List.takeWhile_cons_of_pos ha, List.filter_cons_of_pos ha, ih hrest]
      | false =>
          have hnone : ∀ b ∈ a :: l, ¬f b = true := by
            intro b hb
            rcases List.mem_cons.mp hb with rfl | hb
            · simp [ha]
            · exact fun hfb => by simp [hfirst b hb hfb] at ha
          rw [List.takeWhile_cons_of_neg (hnone a List.mem_cons_self),
            List.filter_eq_nil_iff.mpr hnone]

/-- **Where a front ends is seen in the list**: it goes up to the first entry of another kind, if
anything is behind it. -/
theorem append_front_inj {s t u v : List α} (hs : ∀ c ∈ s, f c = false)
    (hu : ∀ c ∈ u.head?, f c = true) (ht : ∀ c ∈ t, f c = false) (hv : ∀ c ∈ v.head?, f c = true)
    (h : s ++ u = t ++ v) : s = t ∧ u = v := by
  have hfront : ∀ {s u : List α}, (∀ c ∈ s, f c = false) → (∀ c ∈ u.head?, f c = true) →
      (s ++ u).takeWhile (!f ·) = s := by
    intro s u hs hu
    rw [List.takeWhile_append_of_pos (fun c hc => by simp [hs c hc])]
    cases u with
    | nil => exact List.append_nil s
    | cons a u => rw [List.takeWhile_cons_of_neg (by simp [hu a rfl]), List.append_nil]
  have heq : s = t := by
    rw [← hfront hs hu, h, hfront ht hv]
  subst heq
  exact ⟨rfl, List.append_cancel_left h⟩

theorem append_first_inj {s t u v : List α} {a b : α} (hs : ∀ c ∈ s, f c = false) (ha : f a = true)
    (ht : ∀ c ∈ t, f c = false) (hb : f b = true) (h : s ++ a :: u = t ++ b :: v) :
    s = t ∧ a = b ∧ u = v := by
  obtain ⟨hfront, hrest⟩ := append_front_inj hs (by simpa using ha) ht (by simpa using hb) h
  exact ⟨hfront, List.cons.inj hrest⟩

end Front

end LuaBytecode
