import LuaBytecode.Chunk.Stream
import LuaBytecode.Proofs.Chunk.Language

/-!
# What is loaded from a stream

All of a stream is taken before anything of it is loaded, so a load sees the bytes and neither where
they were cut nor that they came one after another.  That is also why a stream that breaks gives
nothing: the loader has not started, and what it would have found in the bytes that had come does
not matter.

Every stream is some pieces with bytes in them and then its end or its break.  `collectOnto` takes
the pieces one by one; the bytes so far, last first, are what it carries.

* `exists_pieces` — what streams there are.
* `collectOnto_pieces` — a run of pieces is taken as if it were one.
* **`loadStream_pieces`** — a stream that ends is loaded as its bytes are, and one that breaks is
  not loaded.
-/

namespace LuaBytecode

namespace ByteStream

/-- Nothing more comes: the next piece is empty, or there is none. -/
def Ended : ByteStream → Prop
  | [] => True
  | .piece bytes :: _ => bytes = []
  | .broken _ :: _ => False

/-- Pieces with bytes in them, which together are these bytes. -/
structure Cut (bytes : Bytes) (pieces : List Bytes) : Prop where
  nonempty : ∀ piece ∈ pieces, piece ≠ []
  flatten_eq : pieces.flatten = bytes

/-- **Every stream is pieces with bytes in them, then its end or a break.** -/
theorem exists_pieces (stream : ByteStream) : ∃ (pieces : List Bytes) (behind : ByteStream),
    (∀ piece ∈ pieces, piece ≠ []) ∧ stream = pieces.map .piece ++ behind ∧
      (Ended behind ∨ ∃ reason rest, behind = .broken reason :: rest) := by
  induction stream with
  | nil => exact ⟨[], [], List.forall_mem_nil _, rfl, Or.inl trivial⟩
  | cons delivery stream ih =>
      cases delivery with
      | broken reason => exact ⟨[], _, List.forall_mem_nil _, rfl, Or.inr ⟨reason, stream, rfl⟩⟩
      | piece bytes =>
          by_cases hbytes : bytes = []
          · exact ⟨[], .piece bytes :: stream, List.forall_mem_nil _, rfl, Or.inl hbytes⟩
          · obtain ⟨pieces, behind, hpieces, rfl, hbehind⟩ := ih
            have hall : ∀ piece ∈ bytes :: pieces, piece ≠ [] :=
              List.forall_mem_cons.mpr ⟨hbytes, hpieces⟩
            exact ⟨bytes :: pieces, behind, hall, rfl, hbehind⟩

variable {done bytes : Bytes} {pieces : List Bytes} {behind : ByteStream}

/-! ## Taking the pieces -/

theorem collectOnto_ended (h : Ended behind) : collectOnto done behind = .ok done.reverse := by
  cases behind with
  | nil => rfl
  | cons delivery behind =>
      cases delivery with
      | broken reason => exact h.elim
      | piece bytes =>
          obtain rfl : bytes = [] := h
          rfl

theorem collectOnto_piece (h : bytes ≠ []) :
    collectOnto done (.piece bytes :: behind) = collectOnto (bytes.reverse ++ done) behind := by
  cases bytes with
  | nil => exact absurd rfl h
  | cons b bytes => rw [collectOnto, List.reverseAux_eq]

/-- **A run of pieces is taken as if it were one.** -/
theorem collectOnto_pieces (h : ∀ piece ∈ pieces, piece ≠ []) :
    collectOnto done (pieces.map .piece ++ behind)
      = collectOnto (pieces.flatten.reverse ++ done) behind := by
  induction pieces generalizing done with
  | nil => rfl
  | cons piece pieces ih =>
      obtain ⟨hpiece, hpieces⟩ := List.forall_mem_cons.mp h
      rw [List.map_cons, List.cons_append, collectOnto_piece hpiece, ih hpieces, List.flatten_cons,
        List.reverse_append, List.append_assoc]

theorem collect_of_ended (h : ∀ piece ∈ pieces, piece ≠ []) (hbehind : Ended behind) :
    collect (pieces.map .piece ++ behind) = .ok pieces.flatten := by
  rw [collect, collectOnto_pieces h, collectOnto_ended hbehind, List.append_nil,
    List.reverse_reverse]

theorem collect_of_broken (h : ∀ piece ∈ pieces, piece ≠ []) (reason : String) :
    collect (pieces.map .piece ++ .broken reason :: behind) = .error reason := by
  rw [collect, collectOnto_pieces h, collectOnto]

/-- What has been taken does not come again. -/
theorem collect_spent (stream : ByteStream) :
    stream.spent.collect = (fun _ => []) <$> stream.collect := by
  rw [spent]
  cases stream.collect <;> rfl

end ByteStream

open ByteStream

/-- **A chunk from a stream is loaded as the same chunk in one piece, and a stream that breaks never
gives one.**  However the bytes are cut, a stream that ends has the outcome that they have; one that
breaks fails for that reason, whatever had come before.  There are no other streams. -/
theorem loadStream_pieces (settings : LoaderSettings) :
    (∀ (bytes : Bytes) (pieces : List Bytes) (behind : ByteStream),
      Cut bytes pieces → Ended behind →
        loadStream settings (pieces.map .piece ++ behind) = load settings bytes) ∧
    (∀ (bytes : Bytes) (pieces : List Bytes) (reason : String) (behind : ByteStream),
      Cut bytes pieces →
        loadStream settings (pieces.map .piece ++ .broken reason :: behind)
          = .error ⟨.brokenStream reason, .input, 0, 0⟩) ∧
    ∀ stream : ByteStream, ∃ (bytes : Bytes) (pieces : List Bytes) (behind : ByteStream),
      Cut bytes pieces ∧ stream = pieces.map .piece ++ behind ∧
        (Ended behind ∨ ∃ reason rest, behind = .broken reason :: rest) := by
  refine ⟨?_, ?_, fun stream => ?_⟩
  · rintro bytes pieces behind ⟨hpieces, rfl⟩ hbehind
    rw [loadStream, collect_of_ended hpieces hbehind]
  · rintro bytes pieces reason behind ⟨hpieces, -⟩
    rw [loadStream, collect_of_broken hpieces]
  · obtain ⟨pieces, behind, hpieces, hstream, hbehind⟩ := exists_pieces stream
    exact ⟨_, pieces, behind, ⟨hpieces, rfl⟩, hstream, hbehind⟩

/-- A whole chunk in two pieces, and a third with a byte that does not belong to it. -/
def paddedPieces : List Bytes := [paddedInput.take 5, paddedInput.drop 5, [7]]

/-- Behind an empty piece nothing can break; behind the last byte of the chunk something can, and
then the chunk is not loaded although it had come. -/
theorem loadStream_pieces_lateBreak :
    Cut (paddedInput ++ [7]) paddedPieces ∧
    Ended [.piece [], .broken "connection reset"] ∧
    load .standard (paddedInput ++ [7]) = .ok paddedMain ∧
    loadStream .standard (paddedPieces.map .piece ++ [.piece [], .broken "connection reset"])
      = .ok paddedMain ∧
    loadStream .standard (paddedPieces.map .piece ++ [.broken "connection reset"])
      = .error ⟨.brokenStream "connection reset", .input, 0, 0⟩ := by
  have hcut : Cut (paddedInput ++ [7]) paddedPieces := ⟨by decide, by decide⟩
  have hempty : Ended [.piece [], .broken "connection reset"] := rfl
  have hload : load .standard (paddedInput ++ [7]) = .ok paddedMain := rfl
  obtain ⟨hended, hbroken, -⟩ := loadStream_pieces .standard
  exact ⟨hcut, hempty, hload, (hended _ _ _ hcut hempty).trans hload, hbroken _ _ _ [] hcut⟩

end LuaBytecode
