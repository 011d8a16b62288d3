import LuaBytecode.Proofs.Chunk.RoundTrip
import LuaBytecode.Proofs.Reading.Passing

/-!
# The depth limit

Two loads of one input under two limits do the same until one of them meets a function that it may
not enter.  `Capped limit x y` says this of two readings: `x` does what `y` does, or it stops for
the limit at a place that `y` passes.  Sequencing keeps it, and the only place where the two
loaders differ is the number of children of a function at the smaller limit.

That a load is refused only for the depth of what it would have given is a fact about the grammar:
a form of a tree under one limit is a form of it under every limit that the tree is within.

* **`capped_tree`**, `capped_chunk` — the smaller limit caps the greater.
* `Grammar.Chunk.relimit` — the limit says nothing but how deep the tree is.
* **`load_maxDepth`** — what two loads under two limits have to do with each other.
-/

namespace LuaBytecode

namespace Reading

variable {α : Type}

/-! ## A reading that may stop for the limit -/

/-- The outcome of a reading that stops for the limit, not behind a given place. -/
def StopsFor (limit : Nat) (last : Cursor) (r : EStateM.Result LoadError Cursor α) : Prop :=
  ∃ c, r = .error ⟨.nestingTooDeep limit, .children, limit, c.offset⟩ c ∧ c.offset ≤ last.offset

/-- The first reading does what the second does, or it stops for the limit where the second passes
on. -/
structure Capped (limit : Nat) (x y : Loader α) : Prop where
  passes : Passes y
  same_or_stops : ∀ c, x c = y c ∨ StopsFor limit (endOf (y c)) (x c)

theorem Capped.refl {limit : Nat} {x : Loader α} (h : Passes x) : Capped limit x x :=
  ⟨h, fun _ => Or.inl rfl⟩

/-- **Sequencing keeps it.**  Where the first parts agree the second parts are compared; where one
stops, what the other does behind it only moves on. -/
theorem parallel_capped (limit : Nat) : Parallel (fun _ x y => Capped limit x y) where
  pure := fun a => Capped.refl (sequential_passes.pure a)
  bind := by
    intro α β x y f g hxy hfg
    have hg : ∀ a, Passes (g a) := fun a => (hfg a).passes
    refine ⟨sequential_passes.bind hxy.passes hg, fun c => ?_⟩
    rcases hxy.same_or_stops c with hsame | ⟨c', hstop, hle⟩
    · cases hy : y c with
      | ok a c' =>
          rw [bind_of_ok (hsame.trans hy), bind_of_ok hy]
          exact (hfg a).same_or_stops c'
      | error e c' =>
          rw [bind_of_error (hsame.trans hy), bind_of_error hy]
          exact Or.inl rfl
    · exact Or.inr ⟨c', bind_of_error hstop, Nat.le_trans hle (endOf_le_bind hg c)⟩

/-- A refusal for the limit caps whatever would be read instead. -/
theorem capped_refusal (limit : Nat) {y : Loader α} (hy : Passes y) :
    Capped limit (Loader.fail (.nestingTooDeep limit) .children limit) y :=
  ⟨hy, fun c => Or.inr ⟨c, rfl, (hy c).offset_le⟩⟩

/-! ## Trees and chunks -/

/-- Functions that differ only in what stands behind the number of their children. -/
theorem capped_function {limit depth : Nat} {f g : Bytes → Nat → Loader (List Prototype)}
    (h : ∀ source n, Capped limit (f source n) (g source n)) (enclosing : Bytes) :
    Capped limit
      (Loader.function depth (fun s => Decoder.count.within .children depth >>= f s) enclosing)
      (Loader.function depth (fun s => Decoder.count.within .children depth >>= g s) enclosing) := by
  have hfield : ∀ {α : Type} {field : ChunkField} {read : Decoder α}, FieldRead field read →
      Capped limit (read.within field depth) (read.within field depth) :=
    fun hread => Capped.refl ((primitive_passes.fieldRead hread).within _ depth)
  exact (parallel_capped limit).function hfield
    (fun source => (parallel_capped limit).bind (hfield .children) (h source)) enclosing

/-- **A tree under a smaller limit.**  The induction is on the levels that may still be entered
under it: the depth grows towards the limit, and at the limit itself a function with children is
refused by the one and read by the other. -/
theorem capped_tree : ∀ {room room' : Nat} (depth : Nat) (enclosing : Bytes), room ≤ room' →
    Capped (depth + room) (Loader.tree room depth enclosing) (Loader.tree room' depth enclosing)
  | 0, 0, depth, enclosing, _ => Capped.refl (passes_tree 0 depth enclosing)
  | 0, room' + 1, depth, enclosing, _ => by
      refine capped_function (fun source n => ?_) enclosing
      have hchildren : Passes (Decoder.repeated n (Loader.tree room' (depth + 1) source)) :=
        sequential_passes.repeated (passes_tree room' (depth + 1) source) n
      split_ifs with hn
      · -- reading no children at all is what the greater limit does as well
        subst hn
        exact Capped.refl hchildren
      · exact capped_refusal depth hchildren
  | room + 1, room' + 1, depth, enclosing, hle => by
      refine capped_function (fun source n => ?_) enclosing
      have hchild := capped_tree (depth + 1) source (Nat.le_of_succ_le_succ hle)
      have hlimit : depth + 1 + room = depth + (room + 1) := by omega
      rw [hlimit] at hchild
      exact (parallel_capped _).repeated hchild n

theorem capped_chunk (withSizes : Bool) {d d' : Nat} (hle : d ≤ d') :
    Capped d (Loader.chunk ⟨withSizes, d⟩) (Loader.chunk ⟨withSizes, d'⟩) := by
  have hmain := capped_tree 0 [] hle
  rw [Nat.zero_add] at hmain
  refine (parallel_capped d).bind
    (Capped.refl ((primitive_passes.prologue withSizes).within _ _)) fun _ => ?_
  exact (parallel_capped d).behindPrologue (Capped.refl (primitive_passes.byte.within _ _)) hmain
    fun _ _ => Capped.refl (passes_fail _ _ _)

end Reading

/-! ## The limit in the grammar -/

namespace Grammar

theorem Entries.imp {α : Type} {L M : Bytes → α → Prop} {w : Bytes} {entries : List α}
    (h : Entries L w entries) : (∀ a ∈ entries, ∀ u, L u a → M u a) → Entries M w entries := by
  induction h with
  | nil => exact fun _ => .nil
  | cons ha _ ih =>
      intro himp
      rw [List.forall_mem_cons] at himp
      exact .cons (himp.1 _ ha) (ih himp.2)

/-- **The limit says nothing but how deep a tree is**: a form of it is a form of it under every
limit that it is within. -/
theorem Function.relimit {m n : Nat} (p : Prototype) : ∀ {depth : Nat} {enclosing w : Bytes},
    Function m depth enclosing w p → depth + p.height ≤ n → Function n depth enclosing w p := by
  induction p using Prototype.treeInduction with
  | node p ih =>
      rintro depth enclosing _ ⟨hhead, hsource, hsize, -, hchildren, htail⟩ hheight
      have hroom : ∀ c ∈ p.children, depth + 1 + c.height ≤ n := fun c hc => by
        have := Prototype.height_lt_of_mem_children hc
        omega
      refine .mk hhead hsource hsize (fun hne => ?_) ?_ htail
      · obtain ⟨c, hc⟩ := List.exists_mem_of_ne_nil p.children hne
        have := hroom c hc
        omega
      · rw [Reading.functions_iff_entries] at hchildren ⊢
        exact hchildren.imp fun c hc u hu => ih c hc hu (hroom c hc)

theorem Chunk.relimit {withSizes : Bool} {m n : Nat} {w : Bytes} {p : Prototype}
    (h : Chunk ⟨withSizes, m⟩ w p) (hheight : p.height ≤ n) : Chunk ⟨withSizes, n⟩ w p := by
  obtain ⟨hdeclared, hmain⟩ := h
  exact .mk hdeclared (Function.relimit p hmain (by rwa [Nat.zero_add]))

end Grammar

/-! ## Loads -/

variable {withSizes : Bool} {d d' : Nat} {input : Bytes} {p : Prototype}

/-- A load under a limit fails for the limit, at the number of the children of a function that is as
deep as the limit allows, when it has passed at most `n` bytes. -/
def StoppedByDepth (withSizes : Bool) (limit : Nat) (input : Bytes) (n : Nat) : Prop :=
  ∃ offset ≤ n,
    load ⟨withSizes, limit⟩ input = .error ⟨.nestingTooDeep limit, .children, limit, offset⟩

theorem nestingDepth_le_of_load (h : load ⟨withSizes, d⟩ input = .ok p) : p.nestingDepth ≤ d := by
  obtain ⟨w, rest, -, hw⟩ := chunk_of_load h
  rw [Prototype.nestingDepth_eq_height]
  exact hw.derived.2.1

/-- What is not too deep for a limit is loaded under it. -/
theorem load_relimit (h : load ⟨withSizes, d'⟩ input = .ok p) (hdepth : p.nestingDepth ≤ d) :
    load ⟨withSizes, d⟩ input = .ok p := by
  obtain ⟨w, rest, rfl, hw⟩ := chunk_of_load h
  rw [Prototype.nestingDepth_eq_height] at hdepth
  exact load_of_chunk (hw.relimit hdepth) rest

theorem load_same_or_stopped (withSizes : Bool) (input : Bytes) (hle : d ≤ d') :
    (load ⟨withSizes, d⟩ input = load ⟨withSizes, d'⟩ input ∧
      reach ⟨withSizes, d⟩ input = reach ⟨withSizes, d'⟩ input) ∨
    StoppedByDepth withSizes d input (reach ⟨withSizes, d'⟩ input) := by
  rcases (Reading.capped_chunk withSizes hle).same_or_stops (Cursor.start input) with
    hsame | ⟨c, hstop, hoffset⟩
  · left
    simp only [load, reach, hsame, and_self]
  · right
    rw [← reach_eq_endOf] at hoffset
    exact ⟨c.offset, hoffset, (load_of_error hstop).1⟩

/-- **A limit only ever stops a load, and exactly the loads of what is too deep for it.**  A load
under a limit is the load under a greater one, or it is stopped by the limit no further on.  What
the greater limit lets through is within the greater limit, and the smaller limit lets it through
exactly if it is within the smaller. -/
theorem load_maxDepth (withSizes : Bool) (input : Bytes) {d d' : Nat} (hle : d ≤ d') :
    ((load ⟨withSizes, d⟩ input = load ⟨withSizes, d'⟩ input ∧
        reach ⟨withSizes, d⟩ input = reach ⟨withSizes, d'⟩ input) ∨
      StoppedByDepth withSizes d input (reach ⟨withSizes, d'⟩ input)) ∧
    ∀ p, load ⟨withSizes, d'⟩ input = .ok p →
      p.nestingDepth ≤ d' ∧
      (p.nestingDepth ≤ d → load ⟨withSizes, d⟩ input = .ok p) ∧
      (d < p.nestingDepth → StoppedByDepth withSizes d input (reach ⟨withSizes, d'⟩ input)) := by
  have hcases := load_same_or_stopped withSizes input hle
  refine ⟨hcases, fun p h => ⟨nestingDepth_le_of_load h, load_relimit h, fun hdeep => ?_⟩⟩
  rcases hcases with ⟨hsame, -⟩ | hstopped
  · have hdepth := nestingDepth_le_of_load (hsame.trans h)
    omega
  · exact hstopped

/-- Four levels are three below the first: the limit three lets them through and the limit two does
not. -/
theorem load_maxDepth_fourLevels :
    load ⟨false, 3⟩ (Prototype.fourLevels.encodeChunk false)
      = .ok (Prototype.fourLevels.withSources []) ∧
    StoppedByDepth false 2 (Prototype.fourLevels.encodeChunk false)
      (reach ⟨false, 3⟩ (Prototype.fourLevels.encodeChunk false)) := by
  have hfits := Prototype.fitsChunk_fourLevels
  have hchunk : Grammar.Chunk ⟨false, 3⟩ (Prototype.fourLevels.encodeChunk false)
      (Prototype.fourLevels.withSources []) := Grammar.chunk_encode hfits (by decide)
  have hload := load_of_chunk hchunk []
  rw [List.append_nil] at hload
  have hdepth : 2 < (Prototype.fourLevels.withSources []).nestingDepth := by
    rw [Prototype.nestingDepth_eq_height]
    decide
  obtain ⟨-, hthrough⟩ := load_maxDepth false (Prototype.fourLevels.encodeChunk false)
    (show 2 ≤ 3 by decide)
  exact ⟨hload, (hthrough _ hload).2.2 hdepth⟩

end LuaBytecode
