import LuaBytecode.Proofs.Chunk.RoundTrip

/-!
# Inherited sources

A chunk may leave out the source of a function that comes from where the function around it comes
from.  Two facts make this harmless.  The trees that loads give are closed: a function without a
source is in no function with one.  And for closed trees leaving out and filling in cancel,
whichever sources are left out: what travels down is the source that has been filled in, so a run
of functions without one gets it from the last function that has one, and a function with another
source changes it for those below and for no others.

* `withSources_omitSources` — filling in undoes leaving out.
* `Grammar.Chunk.sourcesClosed` — loaded trees are closed.
* **`load_omitSources`** — both for loads.
-/

namespace LuaBytecode

namespace Prototype

/-- A function without a source is only ever in functions without one. -/
def SourcesClosed (p : Prototype) : Prop :=
  ∀ f ∈ p.preorder, ∀ c ∈ f.children, c.source = [] → f.source = []

theorem sourcesClosed_iff {p : Prototype} :
    p.SourcesClosed ↔
      (∀ c ∈ p.children, c.source = [] → p.source = []) ∧ ∀ c ∈ p.children, c.SourcesClosed := by
  unfold SourcesClosed
  rw [preorder_eq, List.forall_mem_cons, List.forall_mem_flatMap]

/-! ## Filling in -/

/-- A source that stays as it is when it is filled in is empty only in a function without one. -/
theorem eq_nil_of_ownSource {enclosing source : Bytes} (h : ownSource enclosing source = source)
    (hsource : source = []) : enclosing = [] := by
  subst hsource
  exact h

/-- A tree that filling in does not change is closed. -/
theorem sourcesClosed_of_withSources (p : Prototype) : ∀ {enclosing : Bytes},
    p.withSources enclosing = p → p.SourcesClosed := by
  induction p using treeInduction with
  | node p ih =>
      intro enclosing h
      have hsource : ownSource enclosing p.source = p.source := by
        rw [← source_withSources, h]
      have hchildren : ∀ c ∈ p.children, c.withSources p.source = c := by
        have hmap : p.children.map (withSources p.source) = p.children.map id := by
          rw [List.map_id, ← hsource, ← children_withSources, h]
        exact List.map_inj_left.mp hmap
      refine sourcesClosed_iff.mpr ⟨fun c hc => ?_, fun c hc => ih c hc (hchildren c hc)⟩
      refine eq_nil_of_ownSource ?_
      rw [← source_withSources, hchildren c hc]

/-! ## Leaving out -/

variable {chosen : List Nat → Bool} {enclosing : Bytes}

/-- What has been left out is what filling in puts there. -/
theorem ownSource_omitted {source : Bytes} (hsource : source = [] → enclosing = []) {P : Prop}
    [Decidable P] : ownSource enclosing (if P ∧ source = enclosing then [] else source) = source := by
  split_ifs with h
  · exact h.2.symm
  · cases source with
    | nil => exact hsource rfl
    | cons b source => rfl

/-- **Filling in undoes leaving out**, in closed trees.  The induction is on the tree: the source
that a child gets is the one its parent has before any is left out. -/
theorem withSources_omitSources (p : Prototype) : ∀ {chosen : List Nat → Bool} {enclosing : Bytes},
    p.SourcesClosed → (p.source = [] → enclosing = []) →
      (p.omitSources chosen enclosing).withSources enclosing = p := by
  induction p using treeInduction with
  | node p ih =>
      intro chosen enclosing hclosed hsource
      obtain ⟨hbelow, hchildren⟩ := sourcesClosed_iff.mp hclosed
      rw [withSources_eq, omitSources_eq, ownSource_omitted hsource]
      have hkids : (p.children.mapIdx fun i c =>
          c.omitSources (fun way => chosen (i :: way)) p.source).map (withSources p.source)
            = p.children := by
        refine List.ext_getElem (by simp) fun i _ hi => ?_
        have hc := List.getElem_mem hi
        rw [List.getElem_map, List.getElem_mapIdx]
        exact ih _ hc (hchildren _ hc) (hbelow _ hc)
      rw [hkids]
      cases p
      rfl

theorem mem_children_omitSources {p c : Prototype}
    (h : c ∈ (p.omitSources chosen enclosing).children) :
    ∃ d ∈ p.children, ∃ below, c = d.omitSources below p.source := by
  rw [omitSources_eq, List.mem_mapIdx] at h
  obtain ⟨i, hi, rfl⟩ := h
  exact ⟨_, List.getElem_mem hi, _, rfl⟩

theorem height_omitSources_le (p : Prototype) : ∀ {chosen : List Nat → Bool} {enclosing : Bytes},
    (p.omitSources chosen enclosing).height ≤ p.height := by
  induction p using treeInduction with
  | node p ih =>
      intro chosen enclosing
      refine height_le_iff.mpr fun c hc => ?_
      obtain ⟨d, hd, below, rfl⟩ := mem_children_omitSources hc
      exact Nat.le_trans (Nat.succ_le_succ (ih d hd)) (height_lt_of_mem_children hd)

theorem fitsAlone_omitSources {p : Prototype} (h : p.FitsAlone) :
    (p.omitSources chosen enclosing).FitsAlone := by
  rw [omitSources_eq]
  exact { h with
    source := by
      split_ifs
      · exact (by decide : 0 < UInt64.size - 1)
      · exact h.source
    childTable := by
      rw [fitsTable, List.length_mapIdx]
      exact h.childTable }

theorem fits_omitSources (p : Prototype) : ∀ {chosen : List Nat → Bool} {enclosing : Bytes},
    p.Fits → (p.omitSources chosen enclosing).Fits := by
  induction p using treeInduction with
  | node p ih =>
      intro chosen enclosing hfits
      obtain ⟨halone, hchildren⟩ := fits_iff.mp hfits
      refine fits_iff.mpr ⟨fitsAlone_omitSources halone, fun c hc => ?_⟩
      obtain ⟨d, hd, below, rfl⟩ := mem_children_omitSources hc
      exact ih d hd (hchildren d hd)

theorem fitsChunk_omitSources {p : Prototype} (h : p.FitsChunk) :
    (p.omitSources chosen enclosing).FitsChunk := by
  refine ⟨fits_omitSources p h.1, ?_⟩
  rw [omitSources_eq]
  exact h.2

end Prototype

/-! ## Loads -/

theorem Grammar.Chunk.sourcesClosed {settings : LoaderSettings} {w : Bytes} {p : Prototype}
    (h : Grammar.Chunk settings w p) : p.SourcesClosed :=
  p.sourcesClosed_of_withSources h.derived.2.2

/-- **Inheritance of sources is closed and loses nothing.**  In a loaded tree a function without a
source is in none with one.  And a tree in which this holds, that can be stored and is not too deep,
comes back whole from a chunk that leaves out the sources of any functions that have the source of
the function around them. -/
theorem load_omitSources (settings : LoaderSettings) :
    (∀ (input : Bytes) (p : Prototype), load settings input = .ok p → p.SourcesClosed) ∧
    (∀ (p : Prototype) (chosen : List Nat → Bool), p.SourcesClosed → p.FitsChunk →
      p.nestingDepth ≤ settings.maxDepth →
        load settings ((p.omitSources chosen []).encodeChunk settings.checkTypeSizes) = .ok p) := by
  constructor
  · intro input p h
    obtain ⟨w, rest, -, hw⟩ := chunk_of_load h
    exact hw.sourcesClosed
  · intro p chosen hclosed hfits hdepth
    rw [Prototype.nestingDepth_eq_height] at hdepth
    have hchunk : Grammar.Chunk settings _ ((p.omitSources chosen []).withSources []) :=
      Grammar.chunk_encode (Prototype.fitsChunk_omitSources hfits)
        (Nat.le_trans (Prototype.height_omitSources_le p) hdepth)
    rw [Prototype.withSources_omitSources p hclosed fun _ => rfl] at hchunk
    have hload := load_of_chunk hchunk []
    rwa [List.append_nil] at hload

/-- A function with nothing but a source and functions nested in it. -/
def bareFunction (source : Bytes) (children : List Prototype) : Prototype :=
  ⟨source, 0, 0, 0, false, 2, [], [], [], children, [], [], [], []⟩

theorem fits_bareFunction {source : Bytes} {children : List Prototype}
    (hsource : source.length < UInt64.size - 1) (htable : children.length < UInt64.size)
    (hchildren : ∀ c ∈ children, c.Fits) : (bareFunction source children).Fits := by
  refine Prototype.fits_iff.mpr ⟨?_, hchildren⟩
  constructor <;> simp_all [bareFunction, fitsString, fitsTable, UInt64.size]

/-- Three functions in one, all from the same source but the second, which has one nested in it. -/
def renamedSibling : Prototype :=
  bareFunction [0x40, 0x61] [
    bareFunction [0x40, 0x61] [],
    bareFunction [0x40, 0x62] [bareFunction [0x40, 0x62] []],
    bareFunction [0x40, 0x61] []]

theorem fitsChunk_renamedSibling : renamedSibling.FitsChunk := by
  have hleaf : ∀ b, (bareFunction [0x40, b] []).Fits := fun b =>
    fits_bareFunction (by decide : 2 < UInt64.size - 1) (by decide) fun c hc =>
      absurd hc List.not_mem_nil
  refine ⟨fits_bareFunction (by decide) (by decide) fun c hc => ?_, by decide⟩
  rw [List.mem_cons, List.mem_cons, List.mem_singleton] at hc
  rcases hc with rfl | rfl | rfl
  · exact hleaf 0x61
  · refine fits_bareFunction (by decide) (by decide) fun c hc => ?_
    rw [List.mem_singleton.mp hc]
    exact hleaf 0x62
  · exact hleaf 0x61

/-- Left out are the source behind the function that has another, and the one inside it. -/
theorem load_omitSources_renamedSibling :
    renamedSibling.SourcesClosed ∧ renamedSibling.FitsChunk ∧
    renamedSibling.nestingDepth ≤ LoaderSettings.standard.maxDepth ∧
    (renamedSibling.omitSources (fun way => way = [2] || way = [1, 0]) []).preorder.map (·.source)
      = [[0x40, 0x61], [0x40, 0x61], [0x40, 0x62], [], []] ∧
    load .standard ((renamedSibling.omitSources (fun way => way = [2] || way = [1, 0]) []).encodeChunk
      false) = .ok renamedSibling := by
  have hclosed : renamedSibling.SourcesClosed := by
    unfold Prototype.SourcesClosed
    decide
  have hfits := fitsChunk_renamedSibling
  have hdepth : renamedSibling.nestingDepth ≤ LoaderSettings.standard.maxDepth := by
    rw [Prototype.nestingDepth_eq_height]
    decide
  exact ⟨hclosed, hfits, hdepth, by decide,
    (load_omitSources .standard).2 renamedSibling _ hclosed hfits hdepth⟩

end LuaBytecode
