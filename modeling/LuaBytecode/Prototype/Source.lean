import LuaBytecode.Prototype.Basic

/-!
# Where a function was compiled from

A nested function usually comes from the same place as the function around it, and a chunk then
stores an empty source for it.  `ownSource` is the rule for one function and `withSources` its
consequence for a tree: the source of the nearest enclosing function that has one.

`omitSources` goes the other way and leaves out sources that the rule would fill in again.  Which of
them is left open: a compiler may leave out all or none.
-/

namespace LuaBytecode

/-- The source of a function that is stored with `stored`, inside a function from `enclosing`. -/
def ownSource (enclosing stored : Bytes) : Bytes := if stored.isEmpty then enclosing else stored

/-- A source that has been filled in stays as it is. -/
theorem ownSource_ownSource (enclosing stored : Bytes) :
    ownSource enclosing (ownSource enclosing stored) = ownSource enclosing stored := by
  cases stored with
  | nil => cases enclosing <;> rfl
  | cons b stored => rfl

namespace Prototype

mutual

/-- A tree with every empty source filled in. -/
def withSources (enclosing : Bytes) : Prototype → Prototype
  | ⟨source, firstLine, lastLine, paramCount, isVararg, stackSize, code, constants, upvalues,
      children, lineDeltas, lineAnchors, localVars, upvalueNames⟩ =>
    ⟨ownSource enclosing source, firstLine, lastLine, paramCount, isVararg, stackSize, code,
      constants, upvalues, withSourcesAll (ownSource enclosing source) children, lineDeltas,
      lineAnchors, localVars, upvalueNames⟩

/-- Several trees below a function from `enclosing`. -/
def withSourcesAll (enclosing : Bytes) : List Prototype → List Prototype
  | [] => []
  | p :: ps => withSources enclosing p :: withSourcesAll enclosing ps

end

theorem withSourcesAll_eq (enclosing : Bytes) (ps : List Prototype) :
    withSourcesAll enclosing ps = ps.map (withSources enclosing) := by
  induction ps with
  | nil => rfl
  | cons p ps ih => rw [withSourcesAll, ih, List.map_cons]

/-- Only the source changes, and the children by the source of the function they are in. -/
theorem withSources_eq (enclosing : Bytes) (p : Prototype) :
    p.withSources enclosing = { p with
      source := ownSource enclosing p.source
      children := p.children.map (withSources (ownSource enclosing p.source)) } := by
  cases p
  rw [withSources, withSourcesAll_eq]

theorem source_withSources (enclosing : Bytes) (p : Prototype) :
    (p.withSources enclosing).source = ownSource enclosing p.source := by
  rw [withSources_eq]

theorem upvalues_withSources (enclosing : Bytes) (p : Prototype) :
    (p.withSources enclosing).upvalues = p.upvalues := by
  rw [withSources_eq]

theorem children_withSources (enclosing : Bytes) (p : Prototype) :
    (p.withSources enclosing).children
      = p.children.map (withSources (ownSource enclosing p.source)) := by
  rw [withSources_eq]

/-- A tree whose sources are filled in already stays as it is. -/
theorem withSources_of_filled {enclosing : Bytes} {p : Prototype}
    (hsource : ownSource enclosing p.source = p.source)
    (hchildren : ∀ c ∈ p.children, c.withSources p.source = c) : p.withSources enclosing = p := by
  rw [withSources_eq, hsource, List.map_congr_left hchildren, List.map_id']
  cases p
  rfl

/-! ## Leaving sources out -/

mutual

/-- A tree with the sources left out of those chosen functions that come from the same source as
the function around them.  A function is chosen by the way to it: which child to go to, at each
function from the root of the tree on. -/
def omitSources (chosen : List Nat → Bool) (enclosing : Bytes) : Prototype → Prototype
  | ⟨source, firstLine, lastLine, paramCount, isVararg, stackSize, code, constants, upvalues,
      children, lineDeltas, lineAnchors, localVars, upvalueNames⟩ =>
    ⟨if chosen [] ∧ source = enclosing then [] else source, firstLine, lastLine, paramCount,
      isVararg, stackSize, code, constants, upvalues, omitSourcesFrom chosen 0 source children,
      lineDeltas, lineAnchors, localVars, upvalueNames⟩

/-- Several trees below a function from `enclosing`, the first of them its child number `i`. -/
def omitSourcesFrom (chosen : List Nat → Bool) (i : Nat) (enclosing : Bytes) :
    List Prototype → List Prototype
  | [] => []
  | p :: ps => omitSources (fun way => chosen (i :: way)) enclosing p ::
      omitSourcesFrom chosen (i + 1) enclosing ps

end

theorem omitSourcesFrom_eq (chosen : List Nat → Bool) (enclosing : Bytes) (ps : List Prototype) :
    ∀ i, omitSourcesFrom chosen i enclosing ps
      = ps.mapIdx fun j p => p.omitSources (fun way => chosen ((i + j) :: way)) enclosing := by
  induction ps with
  | nil => exact fun _ => rfl
  | cons p ps ih =>
      intro i
      rw [omitSourcesFrom, ih, List.mapIdx_cons]
      simp only [Nat.add_zero, Nat.add_assoc, Nat.add_comm 1]

/-- Only sources change, and those of the children by the source of the function they are in. -/
theorem omitSources_eq (chosen : List Nat → Bool) (enclosing : Bytes) (p : Prototype) :
    p.omitSources chosen enclosing = { p with
      source := if chosen [] ∧ p.source = enclosing then [] else p.source
      children := p.children.mapIdx fun i c =>
        c.omitSources (fun way => chosen (i :: way)) p.source } := by
  cases p
  rw [omitSources, omitSourcesFrom_eq]
  simp only [Nat.zero_add]

end Prototype

end LuaBytecode
