import LuaBytecode.Prototype.Walk

/-!
# The walks visit the tree

The walks of `Prototype.Walk` keep a list of what is still to be visited; the recursions beside them
follow the tree.  A walk is compared with a recursion by what its list stands for: each entry of it
is a tree that has not been looked into.

* **`descendants_eq_preorder`** — the walk visits each function before those nested in it.
* `length_preorder` — and each function once.
* **`nestingDepth_eq_height`** — the depth the walk finds is the height of the tree, although it
  visits the children of a function last to first.
-/

namespace LuaBytecode

namespace Prototype

/-- **What the walk's list stands for**: the functions of its trees, tree by tree. -/
theorem visit_eq (done pending : List Prototype) :
    visit done pending = done.reverse ++ pending.flatMap preorder := by
  induction done, pending using visit.induct with
  | case1 done => rw [visit, List.flatMap_nil, List.append_nil]
  | case2 done p pending ih =>
      rw [visit, ih, List.flatMap_append, List.flatMap_cons, preorder_eq p, List.reverse_cons]
      simp

/-- **The walk visits each function before those nested in it.** -/
theorem descendants_eq_preorder (p : Prototype) : p.descendants = p.preorder := by
  rw [descendants, visit_eq, List.flatMap_cons, List.flatMap_nil, List.append_nil]
  rfl

theorem functionCount_eq (p : Prototype) :
    p.functionCount = functionCountAll p.children + 1 := by
  cases p
  rw [functionCount]

/-- A tree has as many functions as its preorder has entries. -/
theorem length_preorder (p : Prototype) : p.preorder.length = p.functionCount := by
  induction p using treeInduction with
  | node p ih =>
      have hall : ∀ ps : List Prototype, (∀ c ∈ ps, c.preorder.length = c.functionCount) →
          (ps.flatMap preorder).length = functionCountAll ps := by
        intro ps hps
        induction ps with
        | nil => rfl
        | cons c ps ihs =>
            rw [List.forall_mem_cons] at hps
            rw [List.flatMap_cons, List.length_append, functionCountAll, hps.1, ihs hps.2]
      rw [preorder_eq, List.length_cons, functionCount_eq, hall p.children ih]

theorem length_descendants (p : Prototype) : p.descendants.length = p.functionCount := by
  rw [descendants_eq_preorder, length_preorder]

theorem height_lt_of_mem_children {c p : Prototype} (h : c ∈ p.children) : c.height < p.height :=
  height_le_iff.mp (Nat.le_refl p.height) c h

theorem mem_pushAll {depth : Nat} {ps : List Prototype} {pending : List (Prototype × Nat)}
    {q : Prototype × Nat} :
    q ∈ pushAll depth ps pending ↔ (∃ p ∈ ps, q = (p, depth)) ∨ q ∈ pending := by
  induction ps generalizing pending with
  | nil => simp [pushAll]
  | cons p ps ih =>
      simp only [pushAll, ih, List.mem_cons, exists_eq_or_imp]
      rw [or_assoc, or_left_comm]

/-- **What the walk's list stands for**: the depth found so far, and for each tree still to be
visited its depth and its height together. -/
theorem deepen_le_iff (deepest : Nat) (pending : List (Prototype × Nat)) (n : Nat) :
    deepen deepest pending ≤ n ↔ deepest ≤ n ∧ ∀ q ∈ pending, q.2 + q.1.height ≤ n := by
  induction deepest, pending using deepen.induct with
  | case1 deepest => simp [deepen]
  | case2 deepest p depth pending ih =>
      have hsplit : (∀ q ∈ pushAll (depth + 1) p.children pending, q.2 + q.1.height ≤ n) ↔
          (∀ c ∈ p.children, depth + 1 + c.height ≤ n) ∧ ∀ q ∈ pending, q.2 + q.1.height ≤ n := by
        constructor
        · intro h
          exact ⟨fun c hc => h (c, depth + 1) (mem_pushAll.mpr (Or.inl ⟨c, hc, rfl⟩)),
            fun q hq => h q (mem_pushAll.mpr (Or.inr hq))⟩
        · rintro ⟨hchildren, hpending⟩ q hq
          rcases mem_pushAll.mp hq with ⟨c, hc, rfl⟩ | hq
          · exact hchildren c hc
          · exact hpending q hq
      have hheight : depth + p.height ≤ n ↔
          depth ≤ n ∧ ∀ c ∈ p.children, depth + 1 + c.height ≤ n := by
        constructor
        · intro h
          have hp : p.height ≤ n - depth := by omega
          refine ⟨by omega, fun c hc => ?_⟩
          have := height_le_iff.mp hp c hc
          omega
        · rintro ⟨hdepth, hchildren⟩
          have hp : p.height ≤ n - depth := height_le_iff.mpr fun c hc => by
            have := hchildren c hc
            omega
          omega
      rw [deepen, ih, hsplit, Nat.max_le, List.forall_mem_cons, hheight]
      simp only [and_assoc]

/-- **The depth the walk finds is the height of the tree.** -/
theorem nestingDepth_eq_height (p : Prototype) : p.nestingDepth = p.height := by
  have hle : ∀ n, p.nestingDepth ≤ n ↔ p.height ≤ n := fun n => by
    rw [nestingDepth, deepen_le_iff]
    simp
  exact Nat.le_antisymm ((hle _).mpr (Nat.le_refl _)) ((hle _).mp (Nat.le_refl _))

end Prototype

end LuaBytecode
