import LuaBytecode.Proofs.Prototype.Walk
import Mathlib.Data.List.Basic

/-!
# Each function of a tree is visited once

Two functions of a tree can be equal, so how often one of them is visited cannot be read off the
functions alone.  What tells them apart is the way to them from the root: which child to go to, at
each function on the way.  This file lists the ways of a tree and says of the list what makes it an
enumeration in preorder: it is in lexicographic order, so no way is in it twice and the way to a
function comes before those that go on from there, and it has every way that leads anywhere.

* `follow?` — where a way leads, `ways` — the ways of a tree.
* `pairwise_ways`, `mem_ways` — the ways are in order and complete.
* **`map_follow?_ways`** — the walk visits what they lead to, one function after the other.
* `nestingDepth_eq` — what the other walk finds, by the children.
-/

namespace LuaBytecode

namespace Prototype

/-- The function that a way leads to, if it leads to one: a way says which child to go to, at each
function from the root of the tree on. -/
def follow? : Prototype → List Nat → Option Prototype
  | p, [] => some p
  | p, i :: way => p.children[i]?.bind fun c => follow? c way

mutual

/-- The ways to the functions of a tree. -/
def ways : Prototype → List (List Nat)
  | ⟨_, _, _, _, _, _, _, _, _, children, _, _, _, _⟩ => [] :: waysFrom 0 children

/-- The ways through several trees, of which the first is child number `i`. -/
def waysFrom (i : Nat) : List Prototype → List (List Nat)
  | [] => []
  | p :: ps => (ways p).map (i :: ·) ++ waysFrom (i + 1) ps

end

theorem ways_eq (p : Prototype) : p.ways = [] :: waysFrom 0 p.children := by
  cases p
  rw [ways]

/-- A way through several trees goes to one of them first. -/
theorem mem_waysFrom {i : Nat} {ps : List Prototype} {way : List Nat} :
    way ∈ waysFrom i ps ↔ ∃ j c rest, ps[j]? = some c ∧ rest ∈ c.ways ∧ way = (i + j) :: rest := by
  induction ps generalizing i with
  | nil => simp [waysFrom]
  | cons p ps ih =>
      rw [waysFrom, List.mem_append, List.mem_map, ih]
      constructor
      · rintro (⟨rest, hrest, rfl⟩ | ⟨j, c, rest, hc, hrest, rfl⟩)
        · exact ⟨0, p, rest, rfl, hrest, rfl⟩
        · exact ⟨j + 1, c, rest, hc, hrest, by rw [Nat.add_assoc, Nat.add_comm 1]⟩
      · rintro ⟨_ | j, c, rest, hc, hrest, rfl⟩
        · exact Or.inl ⟨rest, Option.some.inj hc ▸ hrest, rfl⟩
        · exact Or.inr ⟨j, c, rest, hc, hrest, by rw [Nat.add_assoc, Nat.add_comm 1]⟩

/-- **The ways are in order**: the way to a function comes before those that go on from there, and
those to one child before those to the next. -/
theorem pairwise_ways (p : Prototype) : p.ways.Pairwise (· < ·) := by
  induction p using treeInduction with
  | node p ih =>
      have hall : ∀ (ps : List Prototype) (i : Nat), (∀ c ∈ ps, c.ways.Pairwise (· < ·)) →
          (waysFrom i ps).Pairwise (· < ·) := by
        intro ps
        induction ps with
        | nil => exact fun _ _ => List.Pairwise.nil
        | cons c ps ihs =>
            intro i hps
            rw [List.forall_mem_cons] at hps
            rw [waysFrom, List.pairwise_append]
            refine ⟨?_, ihs (i + 1) hps.2, ?_⟩
            · rw [List.pairwise_map]
              exact hps.1.imp fun h => List.cons_lt_cons_iff.mpr (Or.inr ⟨rfl, h⟩)
            · intro way hway way' hway'
              obtain ⟨rest, -, rfl⟩ := List.mem_map.mp hway
              obtain ⟨j, _, rest', -, -, rfl⟩ := mem_waysFrom.mp hway'
              exact List.cons_lt_cons_iff.mpr (Or.inl (by omega))
      rw [ways_eq, List.pairwise_cons]
      refine ⟨fun way hway => ?_, hall p.children 0 ih⟩
      obtain ⟨_, _, _, -, -, rfl⟩ := mem_waysFrom.mp hway
      exact List.nil_lt_cons _ _

/-- **The ways are all that lead to a function.** -/
theorem mem_ways {p : Prototype} {way : List Nat} : way ∈ p.ways ↔ (p.follow? way).isSome := by
  induction way generalizing p with
  | nil => simp [ways_eq, follow?]
  | cons i way ih =>
      have hway : i :: way ∈ p.ways ↔ ∃ c, p.children[i]? = some c ∧ way ∈ c.ways := by
        rw [ways_eq, List.mem_cons, mem_waysFrom]
        simp
      rw [hway, follow?]
      cases hc : p.children[i]? with
      | none => simp
      | some c => simp [ih]

/-- **A tree's functions in preorder are what its ways lead to**, one after the other. -/
theorem map_follow?_ways (p : Prototype) : p.ways.map p.follow? = p.preorder.map some := by
  induction p using treeInduction with
  | node p ih =>
      -- going to a child and on is following the rest of the way in the child
      have hall : ∀ (ps : List Prototype) (i : Nat) (go : List Nat → Option Prototype),
          (∀ c ∈ ps, c.ways.map c.follow? = c.preorder.map some) →
          (∀ j c, ps[j]? = some c → ∀ rest, go ((i + j) :: rest) = c.follow? rest) →
          (waysFrom i ps).map go = (ps.flatMap preorder).map some := by
        intro ps
        induction ps with
        | nil => exact fun _ _ _ _ => rfl
        | cons c ps ihs =>
            intro i go hps hgo
            rw [List.forall_mem_cons] at hps
            have hfirst : (c.ways.map (i :: ·)).map go = c.ways.map c.follow? := by
              rw [List.map_map]
              exact List.map_congr_left fun rest _ => hgo 0 c rfl rest
            have hrest := ihs (i + 1) go hps.2 fun j d hd rest => by
              rw [Nat.add_assoc, Nat.add_comm 1]
              exact hgo (j + 1) d hd rest
            rw [waysFrom, List.map_append, hfirst, hrest, hps.1, List.flatMap_cons,
              List.map_append]
      have hchildren := hall p.children 0 p.follow? ih fun j c hc rest => by
        rw [Nat.zero_add, follow?, hc, Option.bind_some]
      rw [ways_eq, preorder_eq, List.map_cons, List.map_cons, hchildren, follow?]

/-- The greatest depth is one more than the greatest among the children, and zero if there are
none. -/
theorem nestingDepth_eq (p : Prototype) :
    p.nestingDepth = (p.children.map nestingDepth).max?.elim 0 (1 + ·) := by
  have hheight : p.children.map nestingDepth = p.children.map height :=
    List.map_congr_left fun c _ => c.nestingDepth_eq_height
  rw [nestingDepth_eq_height, hheight]
  cases hmax : (p.children.map height).max? with
  | none =>
      have hnone := List.map_eq_nil_iff.mp (List.max?_eq_none_iff.mp hmax)
      exact Nat.le_zero.mp (height_le_iff.mpr (by simp [hnone]))
  | some deepest =>
      obtain ⟨hmem, hmost⟩ := List.max?_eq_some_iff.mp hmax
      obtain ⟨c, hc, rfl⟩ := List.mem_map.mp hmem
      refine Nat.le_antisymm (height_le_iff.mpr fun d hd => ?_) ?_
      · have hle := hmost d.height (List.mem_map.mpr ⟨d, hd, rfl⟩)
        show d.height + 1 ≤ 1 + c.height
        omega
      · have hlt := height_lt_of_mem_children hc
        show 1 + c.height ≤ p.height
        omega

end Prototype

end LuaBytecode
