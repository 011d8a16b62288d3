import LuaBytecode.Proofs.Chunk.RoundTrip
import LuaBytecode.Proofs.Reading.Shift

/-!
# The two layouts of the prologue

The layouts agree up to the place of the sizes and behind it.  Three bytes of sizes stand there in
one of them, and the sentinels in both.  So an input of one layout becomes an input of the other
when the sizes are put in or taken out; the loader then reads the same bytes three places further
on, and by `Reading.Shifts` it does there what it does here.

What stands at the place of the sizes also tells the layouts apart: the first size is not the first
byte of the first sentinel.

* `chunk_behindSizes` — a load that has passed the sizes has only moved.
* **`load_layouts`** — the outcomes are three bytes apart, and no input is a chunk of both layouts.
-/

namespace LuaBytecode

namespace Prologue

/-- The fields up to the place of the sizes, and the sizes. -/
def frontFields (withSizes : Bool) : List (PrologueField × Bytes) :=
  (fields withSizes).take (if withSizes then 7 else 4)

/-- The fields behind the place of the sizes. -/
def sentinels : List (PrologueField × Bytes) := (fields false).drop 4

theorem fields_eq (withSizes : Bool) : fields withSizes = frontFields withSizes ++ sentinels := by
  cases withSizes <;> rfl

/-- The first twelve bytes, which have one value in both layouts. -/
def common : Bytes := (encode false).take 12

example : common = [0x1B, 0x4C, 0x75, 0x61, 0x54, 0x00, 0x19, 0x93, 0x0D, 0x0A, 0x1A, 0x0A] := rfl

/-- The sizes of instructions, integers and floats. -/
def sizes : Bytes := [4, 8, 8]

theorem checkFields_append (front behind : List (PrologueField × Bytes)) :
    checkFields (front ++ behind) = checkFields front >>= fun _ => checkFields behind := by
  induction front with
  | nil => rfl
  | cons field front ih =>
      rw [List.cons_append, checkFields, checkFields, ih, bind_assoc]

/-- Fields that are as they must be are passed. -/
theorem checkFields_of_front (front behind : List (PrologueField × Bytes)) (offset : Nat)
    (rest : Bytes) :
    checkFields (front ++ behind) ⟨offset, front.flatMap (·.2) ++ rest⟩
      = checkFields behind ⟨offset + (front.flatMap (·.2)).length, rest⟩ := by
  rw [checkFields_append]
  exact Reading.bind_of_ok
    ((Reading.accepts_checkFields front).complete (a := ()) rfl offset rest)

end Prologue

namespace Reading

/-- What is left of a chunk behind the place of the sizes. -/
def behindSizes (maxDepth : Nat) : Loader Prototype := do
  (Prologue.checkFields Prologue.sentinels).within .prologue 0
  behindPrologue maxDepth

theorem shifts_behindSizes (maxDepth : Nat) :
    Shifts LoadError.shift (behindSizes maxDepth) :=
  (sequential_shifts _).bind ((primitive_shifts.checkFields _).within _ _) fun _ =>
    shifts_behindPrologue maxDepth

/-- The loader comes to the sentinels by passing what stands in front of them. -/
theorem chunk_behindSizes (settings : LoaderSettings) (rest : Bytes) :
    Loader.chunk settings (Cursor.start
        ((Prologue.frontFields settings.checkTypeSizes).flatMap (·.2) ++ rest))
      = behindSizes settings.maxDepth
          ⟨((Prologue.frontFields settings.checkTypeSizes).flatMap (·.2)).length, rest⟩ := by
  have hcheck := Prologue.checkFields_of_front (Prologue.frontFields settings.checkTypeSizes)
    Prologue.sentinels 0 rest
  rw [← Prologue.fields_eq, Nat.zero_add] at hcheck
  rw [chunk_eq, behindSizes]
  simp only [bind, EStateM.bind, Decoder.within, Prologue.check, Cursor.start, hcheck]

/-- With the sizes put in, the loader does the same three bytes further on. -/
theorem chunk_sizes (maxDepth : Nat) (rest : Bytes) :
    Loader.chunk ⟨true, maxDepth⟩ (Cursor.start (Prologue.common ++ Prologue.sizes ++ rest))
      = shiftResult LoadError.shift 3
          (Loader.chunk ⟨false, maxDepth⟩ (Cursor.start (Prologue.common ++ rest))) := by
  have hwith := chunk_behindSizes ⟨true, maxDepth⟩ rest
  have hwithout := chunk_behindSizes ⟨false, maxDepth⟩ rest
  refine hwith.trans ?_
  rw [show Prologue.common = (Prologue.frontFields false).flatMap (·.2) from rfl, hwithout]
  exact shifts_behindSizes maxDepth 3 ⟨12, rest⟩

end Reading

/-! ## Loads -/

/-- No bytes are the prologue of one layout with something behind it and of the other as well. -/
theorem not_both_layouts (rest rest' : Bytes) :
    Prologue.encode true ++ rest ≠ Prologue.encode false ++ rest' := by
  intro h
  have hsize : (Prologue.encode true ++ rest)[12]? = (Prologue.encode false ++ rest')[12]? := by
    rw [h]
  cases hsize

/-- **The layouts are three bytes apart and never overlap.**  Behind the common bytes, the sizes
change nothing about a load but that every offset of a failure, and how far it comes, is three
bytes greater.  And no input is loaded in both layouts. -/
theorem load_layouts :
    (∀ (maxDepth : Nat) (rest : Bytes),
      load ⟨true, maxDepth⟩ (Prologue.common ++ Prologue.sizes ++ rest)
          = (load ⟨false, maxDepth⟩ (Prologue.common ++ rest)).mapError (LoadError.shift 3) ∧
        reach ⟨true, maxDepth⟩ (Prologue.common ++ Prologue.sizes ++ rest)
          = reach ⟨false, maxDepth⟩ (Prologue.common ++ rest) + 3) ∧
    ∀ (m n : Nat) (input : Bytes) (p q : Prototype),
      ¬(load ⟨true, m⟩ input = .ok p ∧ load ⟨false, n⟩ input = .ok q) := by
  constructor
  · intro maxDepth rest
    have hrun := Reading.chunk_sizes maxDepth rest
    cases h : Loader.chunk ⟨false, maxDepth⟩ (Cursor.start (Prologue.common ++ rest)) with
    | ok main c =>
        rw [h] at hrun
        obtain ⟨hload, hreach⟩ := load_of_ok h
        obtain ⟨hloadSizes, hreachSizes⟩ := load_of_ok hrun
        rw [hload, hreach, hloadSizes, hreachSizes]
        exact ⟨rfl, rfl⟩
    | error e c =>
        rw [h] at hrun
        obtain ⟨hload, hreach⟩ := load_of_error h
        obtain ⟨hloadSizes, hreachSizes⟩ := load_of_error hrun
        rw [hload, hreach, hloadSizes, hreachSizes]
        exact ⟨rfl, rfl⟩
  · rintro m n input p q ⟨hp, hq⟩
    obtain ⟨w, rest, rfl, hw⟩ := chunk_of_load hp
    obtain ⟨w', rest', heq, hw'⟩ := chunk_of_load hq
    obtain ⟨-, -⟩ := hw
    obtain ⟨-, -⟩ := hw'
    rw [List.append_assoc, List.append_assoc] at heq
    exact not_both_layouts _ _ heq

end LuaBytecode
