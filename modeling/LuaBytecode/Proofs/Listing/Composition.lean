import LuaBytecode.Listing.Render
import LuaBytecode.Proofs.Prototype.Ways

/-!
# A listing is made of the listings of its parts

The listing of a function is its own block and behind it the listings of the functions nested in
it.  Nothing in the writing of a listing says so, since it goes through the functions of the tree as
the walk visits them and knows of no nesting; it follows from the order of the walk.

* `descendants_eq` — the walk of a tree is its root and then the walks of its children.
* `render_eq` — the same for listings.
* **`walks_follow_tree`** — both walks and the listing, by recursion on the tree.
-/

namespace LuaBytecode

namespace Prototype

theorem descendants_eq (p : Prototype) :
    p.descendants = p :: p.children.flatMap descendants := by
  have hwalk : descendants = preorder := funext descendants_eq_preorder
  rw [hwalk, preorder_eq]

end Prototype

namespace Listing

/-- A listing of several trees, walked one after the other, is their listings joined. -/
theorem join_flatMap_descendants (options : ListingOptions) (ps : List Prototype) :
    String.join ((ps.flatMap Prototype.descendants).map (block options))
      = String.join (ps.map (render options)) := by
  induction ps with
  | nil => rw [List.flatMap_nil, List.map_nil, List.map_nil]
  | cons p ps ih =>
      rw [List.flatMap_cons, List.map_append, String.join_append, ih, List.map_cons, String.join_cons,
        render]

theorem render_eq (options : ListingOptions) (p : Prototype) :
    render options p = block options p ++ String.join (p.children.map (render options)) := by
  rw [render, Prototype.descendants_eq, List.map_cons, String.join_cons, join_flatMap_descendants]

/-- **The walks follow the tree.**  A tree's functions are visited as its root and then those of its
children, child by child; each way into the tree is walked once, in order, and no other.  The depth
is zero without children and otherwise one more than the greatest among them.  So the listing of a
tree is the block of its root and the listings of its children, whatever tables are asked for. -/
theorem walks_follow_tree (p : Prototype) :
    p.descendants = p :: p.children.flatMap Prototype.descendants ∧
    p.descendants.map some = p.ways.map p.follow? ∧
    p.ways.Pairwise (· < ·) ∧ (∀ way, way ∈ p.ways ↔ (p.follow? way).isSome) ∧
    p.nestingDepth = (p.children.map Prototype.nestingDepth).max?.elim 0 (1 + ·) ∧
    ∀ options,
      render options p = block options p ++ String.join (p.children.map (render options)) := by
  refine ⟨p.descendants_eq, ?_, p.pairwise_ways, fun _ => Prototype.mem_ways, p.nestingDepth_eq,
    fun options => render_eq options p⟩
  rw [p.map_follow?_ways, p.descendants_eq_preorder]

end Listing

end LuaBytecode
