import LuaBytecode.Proofs.Chunk.Canonical
import LuaBytecode.Proofs.Chunk.Language
import LuaBytecode.Proofs.Prototype.Walk

/-!
# Writing and loading

Loading undoes writing, and what has been loaded can be written again.  The first half says that the
canonical form of a tree is a form of it (`Grammar.chunk_encode`) and that the loader accepts every
form.  For the second half this file shows what the grammar says of a tree it derives: its strings
and tables have lengths that can be stored, it is no higher than the greatest depth, and its sources
are filled in already.  So the trees that loads give are exactly those the first half sends to
themselves.

**`load_encodeChunk`** has both halves.
-/

namespace LuaBytecode

namespace Grammar

/-! ## Lengths that can be stored -/

theorem Text.fits {w s : Bytes} (h : Text w s) : fitsString s := by
  unfold fitsString
  cases h with
  | absent hsize => decide
  | present hsize => have := hsize.lt; omega

theorem Constant.fits {w : Bytes} {k : LuaBytecode.Constant} (h : Constant w k) {s : Bytes}
    (hk : k = .string s) : fitsString s := by
  subst hk
  cases h with
  | shortString h => exact h.fits
  | longString h => exact h.fits

theorem LocalVar.fits {w : Bytes} {v : LuaBytecode.LocalVar} (h : LocalVar w v) :
    fitsString v.name := by
  obtain ⟨hname, -, -⟩ := h
  exact hname.fits

section Table

variable {α : Type} {L : Bytes → α → Prop} {w : Bytes} {entries : List α}

/-- Every entry has a form of its own. -/
theorem Entries.exists_form (h : Entries L w entries) : ∀ a ∈ entries, ∃ u, L u a := by
  induction h with
  | nil => exact fun a ha => absurd ha List.not_mem_nil
  | cons ha _ ih => exact List.forall_mem_cons.mpr ⟨⟨_, ha⟩, ih⟩

theorem Table.exists_form (h : Table L w entries) : ∀ a ∈ entries, ∃ u, L u a := by
  obtain ⟨-, has⟩ := h
  exact has.exists_form

theorem Table.fits (h : Table L w entries) : fitsTable entries := by
  obtain ⟨hsize, -⟩ := h
  exact hsize.lt

end Table

/-- What the fields of a function say of its strings and tables. -/
theorem fitsAlone_of_fields {p : Prototype} {stored head size tail : Bytes}
    (hsource : fitsString p.source) (hhead : Head stored head p)
    (hsize : Count size p.children.length) (htail : Tail tail p) : p.FitsAlone := by
  obtain ⟨-, -, -, -, -, -, hcode, hconstants, hupvalues⟩ := hhead
  obtain ⟨hdeltas, hanchors, hlocals, hnames⟩ := htail
  exact
    { source := hsource
      strings := fun s hs => by
        obtain ⟨u, hu⟩ := hconstants.exists_form _ hs
        exact hu.fits rfl
      localNames := fun v hv => by
        obtain ⟨u, hu⟩ := hlocals.exists_form v hv
        exact hu.fits
      upvalueNames := fun s hs => by
        obtain ⟨u, hu⟩ := hnames.exists_form s hs
        exact hu.fits
      codeTable := hcode.fits
      constantTable := hconstants.fits
      upvalueTable := hupvalues.fits
      childTable := hsize.lt
      deltaTable := hdeltas.fits
      anchorTable := hanchors.fits
      localTable := hlocals.fits
      nameTable := hnames.fits }

/-! ## Derived trees -/

theorem fitsString_ownSource {enclosing stored : Bytes} (henclosing : fitsString enclosing)
    (hstored : fitsString stored) : fitsString (ownSource enclosing stored) := by
  cases stored with
  | nil => exact henclosing
  | cons b stored => exact hstored

theorem Functions.exists_form {maxDepth depth : Nat} {source w : Bytes} {ps : List Prototype}
    (h : Functions maxDepth depth source w ps) :
    ∀ c ∈ ps, ∃ u, Function maxDepth depth source u c :=
  (Reading.functions_iff_entries.mp h).exists_form

/-- **What the grammar says of a function it derives**, inside a function from `enclosing`.  The
induction is on the tree; that the depth is within the limit is what a child gets from the number
of children not being zero. -/
theorem derived {maxDepth : Nat} (p : Prototype) : ∀ {depth : Nat} {enclosing w : Bytes},
    Function maxDepth depth enclosing w p → fitsString enclosing → depth ≤ maxDepth →
      p.Fits ∧ depth + p.height ≤ maxDepth ∧ p.withSources enclosing = p := by
  induction p using Prototype.treeInduction with
  | node p ih =>
      rintro depth enclosing _ ⟨hhead, hsource, hsize, hdepth, hchildren, htail⟩ henclosing hle
      have hown : fitsString p.source := by
        rw [hsource]
        obtain ⟨hstored, -⟩ := hhead
        exact fitsString_ownSource henclosing hstored.fits
      have hforms : ∀ c ∈ p.children, c.Fits ∧ depth + 1 + c.height ≤ maxDepth ∧
          c.withSources p.source = c := by
        intro c hc
        obtain ⟨u, hu⟩ := hchildren.exists_form c hc
        exact ih c hc hu hown (hdepth (List.ne_nil_of_mem hc))
      refine ⟨Prototype.fits_iff.mpr
        ⟨fitsAlone_of_fields hown hhead hsize htail, fun c hc => (hforms c hc).1⟩, ?_, ?_⟩
      · have hheight : p.height ≤ maxDepth - depth := Prototype.height_le_iff.mpr fun c hc => by
          have := (hforms c hc).2.1
          omega
        omega
      · refine Prototype.withSources_of_filled ?_ fun c hc => (hforms c hc).2.2
        rw [hsource, ownSource_ownSource]

/-- The same for a chunk, which stands in no function. -/
theorem Chunk.derived {settings : LoaderSettings} {w : Bytes} {p : Prototype}
    (h : Chunk settings w p) :
    p.FitsChunk ∧ p.height ≤ settings.maxDepth ∧ p.withSources [] = p := by
  obtain ⟨hdeclared, hmain⟩ := h
  have hnil : fitsString [] := (by decide : 0 < UInt64.size - 1)
  obtain ⟨hfits, hheight, hsources⟩ := Grammar.derived p hmain hnil (Nat.zero_le _)
  refine ⟨⟨hfits, ?_⟩, by omega, hsources⟩
  rw [← hdeclared]
  exact Nat.le_of_lt_succ (UInt8.toNat_lt _)

end Grammar

/-! ## Loads -/

/-- A load of a form of a chunk gives the tree, whatever follows it. -/
theorem load_of_chunk {settings : LoaderSettings} {w : Bytes} {p : Prototype}
    (h : Grammar.Chunk settings w p) (rest : Bytes) : load settings (w ++ rest) = .ok p :=
  (load_of_ok ((Reading.accepts_chunk settings).complete h 0 rest)).1

/-- A load that succeeds has found a form of a chunk. -/
theorem chunk_of_load {settings : LoaderSettings} {input : Bytes} {p : Prototype}
    (h : load settings input = .ok p) :
    ∃ w rest, input = w ++ rest ∧ Grammar.Chunk settings w p := by
  obtain ⟨c, hrun, -⟩ := load_eq_ok_iff.mp ⟨h, rfl⟩
  obtain ⟨w, rest, hinput, -, hw⟩ := (Reading.accepts_chunk settings).sound hrun
  exact ⟨w, rest, hinput, hw⟩

/-- **Loading undoes writing, and writing undoes loading.**  A tree that can be stored and is not
too deep comes back from its canonical form with its sources filled in and unchanged otherwise,
whatever follows the form.  A tree that any load has given can be stored, is not too deep, and comes
back as it is. -/
theorem load_encodeChunk (settings : LoaderSettings) :
    (∀ (p : Prototype) (rest : Bytes), p.FitsChunk → p.nestingDepth ≤ settings.maxDepth →
      load settings (p.encodeChunk settings.checkTypeSizes ++ rest) = .ok (p.withSources [])) ∧
    (∀ (input : Bytes) (q : Prototype), load settings input = .ok q →
      q.FitsChunk ∧ q.nestingDepth ≤ settings.maxDepth ∧
        load settings (q.encodeChunk settings.checkTypeSizes) = .ok q) := by
  have hback : ∀ (p : Prototype) (rest : Bytes), p.FitsChunk → p.height ≤ settings.maxDepth →
      load settings (p.encodeChunk settings.checkTypeSizes ++ rest) = .ok (p.withSources []) :=
    fun p rest hfits hheight => load_of_chunk (Grammar.chunk_encode hfits hheight) rest
  constructor
  · intro p rest hfits hdepth
    rw [Prototype.nestingDepth_eq_height] at hdepth
    exact hback p rest hfits hdepth
  · intro input q h
    obtain ⟨w, rest, -, hw⟩ := chunk_of_load h
    obtain ⟨hfits, hheight, hsources⟩ := hw.derived
    have hload := hback q [] hfits hheight
    rw [List.append_nil, hsources] at hload
    rw [Prototype.nestingDepth_eq_height]
    exact ⟨hfits, hheight, hload⟩

/-- Both halves on a tree of four levels: the second comes back with the source of the first, the
fourth with that of the third, and written again they come back as they are. -/
theorem load_encodeChunk_fourLevels :
    Prototype.fourLevels.FitsChunk ∧
    Prototype.fourLevels.nestingDepth ≤ LoaderSettings.standard.maxDepth ∧
    (Prototype.fourLevels.withSources []).preorder.map (·.source)
      = [[0x40, 0x61], [0x40, 0x61], [0x40, 0x62], [0x40, 0x62]] ∧
    load .standard (Prototype.fourLevels.encodeChunk false ++ [7])
      = .ok (Prototype.fourLevels.withSources []) ∧
    load .standard ((Prototype.fourLevels.withSources []).encodeChunk false)
      = .ok (Prototype.fourLevels.withSources []) := by
  have hdepth : Prototype.fourLevels.nestingDepth ≤ LoaderSettings.standard.maxDepth := by
    rw [Prototype.nestingDepth_fourLevels]
    decide
  have hload := (load_encodeChunk .standard).1 Prototype.fourLevels [7]
    Prototype.fitsChunk_fourLevels hdepth
  exact ⟨Prototype.fitsChunk_fourLevels, hdepth, by decide, hload,
    ((load_encodeChunk .standard).2 _ _ hload).2.2⟩

end LuaBytecode
