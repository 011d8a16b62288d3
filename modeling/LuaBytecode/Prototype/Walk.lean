import LuaBytecode.Prototype.Basic

/-!
# Walks through the tree

A tree can be as deep and as wide as a chunk makes it, so the walks keep their own list of what is
still to be visited and need no room that grows with the tree.  `descendants` visits every function
of the tree, each before the functions nested in it, and `nestingDepth` finds how deep the tree
is.  `preorder`, `functionCount` and `height` say the same by recursion on the tree.
-/

namespace LuaBytecode

namespace Prototype

/-! ## The size that a walk uses up -/

theorem sizeOf_children_lt (p : Prototype) : sizeOf p.children < sizeOf p := by
  cases p
  simp only [Prototype.mk.sizeOf_spec]
  omega

theorem sizeOf_append (as bs : List Prototype) :
    sizeOf (as ++ bs) + 1 = sizeOf as + sizeOf bs := by
  induction as with
  | nil => simp; omega
  | cons a as ih => simp only [List.cons_append, List.cons.sizeOf_spec]; omega

/-- Putting the children of a function in its place makes what is to be visited smaller. -/
theorem sizeOf_children_append_lt (p : Prototype) (pending : List Prototype) :
    sizeOf (p.children ++ pending) < sizeOf (p :: pending) := by
  have h₁ := sizeOf_append p.children pending
  have h₂ := sizeOf_children_lt p
  simp only [List.cons.sizeOf_spec]
  omega

theorem sizeOf_lt_of_mem_children {c p : Prototype} (h : c ∈ p.children) : sizeOf c < sizeOf p :=
  Nat.lt_trans (List.sizeOf_lt_of_mem h) (sizeOf_children_lt p)

/-- What a function has if all its children have it, every function has. -/
@[elab_as_elim]
theorem treeInduction {motive : Prototype → Prop}
    (node : ∀ p : Prototype, (∀ c ∈ p.children, motive c) → motive p) (p : Prototype) : motive p :=
  node p fun c _ => treeInduction node c
termination_by sizeOf p
decreasing_by exact sizeOf_lt_of_mem_children ‹_›

/-! ## The walks -/

/-- The worker of `descendants`: `pending` is still to be visited, `done` has been, last first. -/
def visit (done : List Prototype) : (pending : List Prototype) → List Prototype
  | [] => done.reverse
  | p :: pending => visit (p :: done) (p.children ++ pending)
termination_by pending => sizeOf pending
decreasing_by exact sizeOf_children_append_lt p pending

/-- The functions of the tree, each before the functions nested in it. -/
def descendants (p : Prototype) : List Prototype := visit [] [p]

/-- The size of a list of functions that are marked with their depths. -/
noncomputable def pendingSize (pending : List (Prototype × Nat)) : Nat := sizeOf (pending.map (·.1))

/-- Marks functions with a depth and puts them, last first, in front of others. -/
def pushAll (depth : Nat) : List Prototype → List (Prototype × Nat) → List (Prototype × Nat)
  | [], pending => pending
  | p :: ps, pending => pushAll depth ps ((p, depth) :: pending)

theorem pendingSize_pushAll (depth : Nat) (ps : List Prototype)
    (pending : List (Prototype × Nat)) :
    pendingSize (pushAll depth ps pending) + 1 = sizeOf ps + pendingSize pending := by
  induction ps generalizing pending with
  | nil => simp [pushAll]; omega
  | cons p ps ih =>
      rw [pushAll, ih]
      simp only [pendingSize, List.map_cons, List.cons.sizeOf_spec]
      omega

/-- The worker of `nestingDepth`: `deepest` is the greatest depth met so far. -/
def deepen (deepest : Nat) : (pending : List (Prototype × Nat)) → Nat
  | [] => deepest
  | (p, depth) :: pending =>
      deepen (max deepest depth) (pushAll (depth + 1) p.children pending)
termination_by pending => pendingSize pending
decreasing_by
  have h₁ := pendingSize_pushAll (depth + 1) p.children pending
  have h₂ := sizeOf_children_lt p
  simp only [pendingSize, List.map_cons, List.cons.sizeOf_spec] at h₁ ⊢
  omega

/-- How many functions enclose the innermost one. -/
def nestingDepth (p : Prototype) : Nat := deepen 0 [(p, 0)]

/-! ## The same by recursion -/

mutual

/-- A function, then the functions of its children's trees in order. -/
def preorder : Prototype → List Prototype
  | p@⟨_, _, _, _, _, _, _, _, _, children, _, _, _, _⟩ => p :: preorderAll children

/-- The functions of several trees, tree by tree. -/
def preorderAll : List Prototype → List Prototype
  | [] => []
  | p :: ps => preorder p ++ preorderAll ps

end

mutual

/-- Zero without children, otherwise one more than the highest child. -/
def height : Prototype → Nat
  | ⟨_, _, _, _, _, _, _, _, _, children, _, _, _, _⟩ => heightAll children

/-- One more than the highest of several trees; zero for none. -/
def heightAll : List Prototype → Nat
  | [] => 0
  | p :: ps => max (height p + 1) (heightAll ps)

end

mutual

/-- How many functions a tree has. -/
def functionCount : Prototype → Nat
  | ⟨_, _, _, _, _, _, _, _, _, children, _, _, _, _⟩ => functionCountAll children + 1

/-- How many functions several trees have. -/
def functionCountAll : List Prototype → Nat
  | [] => 0
  | p :: ps => functionCount p + functionCountAll ps

end

theorem preorderAll_eq (ps : List Prototype) : preorderAll ps = ps.flatMap preorder := by
  induction ps with
  | nil => rfl
  | cons p ps ih => rw [preorderAll, ih, List.flatMap_cons]

theorem preorder_eq (p : Prototype) : p.preorder = p :: p.children.flatMap preorder := by
  cases p
  rw [preorder, preorderAll_eq]

theorem heightAll_le_iff {ps : List Prototype} {n : Nat} :
    heightAll ps ≤ n ↔ ∀ c ∈ ps, c.height + 1 ≤ n := by
  induction ps with
  | nil => simp [heightAll]
  | cons p ps ih => rw [heightAll, Nat.max_le, ih, List.forall_mem_cons]

theorem height_le_iff {p : Prototype} {n : Nat} :
    p.height ≤ n ↔ ∀ c ∈ p.children, c.height + 1 ≤ n := by
  cases p
  rw [height, heightAll_le_iff]

end Prototype

end LuaBytecode
