import LuaBytecode.Proofs.Reading.Sequencing

/-!
# A reading looks at nothing it has not passed

A reading ends in one of two ways.  Either the input ends before the reading has seen enough, and
then it says so; or some prefix of the input decides it: with that prefix in front the outcome is
the same whatever follows, and with less of the prefix the reading only finds that the input ends.
`Prompt` says that no input makes a third way.  The second half is what rules out a reading that
judges too early or looks too far ahead.

* **`sequential_prompt`** — sequencing keeps it: the prefix that decides a sequence is the one that
  decides its first part, with the one that decides its second part behind it.
* `primitive_prompt` — every decoder is prompt.
* **`prompt_chunk`** — so is the loader.
-/

namespace LuaBytecode

/-- The causes that say no more than that the input ends. -/
def Fault.IsTruncation : Fault → Prop
  | .unexpectedEnd _ _ _ => True
  | .malformedVarint _ => True
  | _ => False

namespace Reading

variable {ε α β : Type} {short : ε → Prop} {cutAt : Nat → ε → Prop} {x : Reading ε α}
  {f : α → Reading ε β} {offset : Nat}

/-! ## Outcomes that a prefix decides -/

/-- A verdict, reached at a place. -/
def reachedAt : Except ε α → Cursor → EStateM.Result ε Cursor α
  | .ok a, c => .ok a c
  | .error e, c => .error e c

/-- A reading fails because the input is too short. -/
def EndsShort (short : ε → Prop) (x : Reading ε α) (c : Cursor) : Prop :=
  ∃ e c', x c = .error e c' ∧ short e

/-- The bytes `w` decide a reading at `offset`, and no fewer of them do: cut off behind `m` bytes,
it fails in a way that `cutAt m` describes. -/
structure DecidedBy (cutAt : Nat → ε → Prop) (x : Reading ε α) (offset : Nat) (w : Bytes)
    (verdict : Except ε α) : Prop where
  /-- Whatever follows, the verdict is the same and reached behind `w`. -/
  extend : ∀ rest, x ⟨offset, w ++ rest⟩ = reachedAt verdict ⟨offset + w.length, rest⟩
  /-- With less of `w`, the input is too short. -/
  cut : ∀ m < w.length, EndsShort (cutAt m) x ⟨offset, w.take m⟩

/-- Every input is too short for the reading or starts with bytes that decide it. -/
def Prompt (short : ε → Prop) (x : Reading ε α) : Prop :=
  ∀ offset input, EndsShort short x ⟨offset, input⟩ ∨
    ∃ w rest verdict, input = w ++ rest ∧ DecidedBy (fun _ => short) x offset w verdict

/-! ## Sequences -/

theorem EndsShort.bind {c : Cursor} (h : EndsShort short x c) : EndsShort short (x >>= f) c := by
  obtain ⟨e, c', hx, he⟩ := h
  exact ⟨e, c', bind_of_error hx, he⟩

theorem endsShort_bind_of_ok {a : α} {c c' : Cursor} (hx : x c = .ok a c')
    (h : EndsShort short (f a) c') : EndsShort short (x >>= f) c := by
  obtain ⟨e, c'', hf, he⟩ := h
  exact ⟨e, c'', by rw [bind_of_ok hx, hf], he⟩

theorem decidedBy_nil {verdict : Except ε α}
    (h : ∀ rest, x ⟨offset, rest⟩ = reachedAt verdict ⟨offset, rest⟩) :
    DecidedBy cutAt x offset [] verdict where
  extend := h
  cut := fun m hm => absurd hm (Nat.not_lt_zero m)

/-- One byte decides a reading that fails without it. -/
theorem decidedBy_singleton {b : UInt8} {verdict : Except ε α}
    (h : ∀ rest, x ⟨offset, b :: rest⟩ = reachedAt verdict ⟨offset + 1, rest⟩)
    (hnone : EndsShort short x ⟨offset, []⟩) :
    DecidedBy (fun _ => short) x offset [b] verdict where
  extend := h
  cut := fun m hm => by
    obtain rfl : m = 0 := Nat.lt_one_iff.mp hm
    exact hnone

/-- The failures of the cuts may be described more loosely. -/
theorem DecidedBy.imp {w : Bytes} {verdict : Except ε α} {cutAt' : Nat → ε → Prop}
    (h : DecidedBy cutAt x offset w verdict) (himp : ∀ m < w.length, ∀ e, cutAt m e → cutAt' m e) :
    DecidedBy cutAt' x offset w verdict where
  extend := h.extend
  cut := fun m hm => by
    obtain ⟨e, c, hx, he⟩ := h.cut m hm
    exact ⟨e, c, hx, himp m hm e he⟩

theorem DecidedBy.bind_error {w : Bytes} {e : ε} (hx : DecidedBy cutAt x offset w (.error e)) :
    DecidedBy cutAt (x >>= f) offset w (.error e) where
  extend := fun rest => bind_of_error (hx.extend rest)
  cut := fun m hm => (hx.cut m hm).bind

/-- **The prefixes of the parts, one behind the other, decide a sequence.**  A cut falls into one
of them: in the first, the first part finds the input short; in the second, the first part has all
of its prefix and the second finds the input short. -/
theorem DecidedBy.bind {w v : Bytes} {a : α} {verdict : Except ε β}
    (hx : DecidedBy cutAt x offset w (.ok a))
    (hf : DecidedBy (fun m => cutAt (w.length + m)) (f a) (offset + w.length) v verdict) :
    DecidedBy cutAt (x >>= f) offset (w ++ v) verdict where
  extend := fun rest => by
    rw [List.append_assoc, bind_of_ok (hx.extend (v ++ rest)), hf.extend rest, List.length_append,
      Nat.add_assoc]
  cut := fun m hm => by
    by_cases hmw : m < w.length
    · rw [List.take_append_of_le_length (Nat.le_of_lt hmw)]
      exact (hx.cut m hmw).bind
    · rw [List.length_append] at hm
      have hcut := hf.cut (m - w.length) (by omega)
      rw [Nat.add_sub_cancel' (Nat.le_of_not_lt hmw)] at hcut
      rw [List.take_append, List.take_of_length_le (Nat.le_of_not_lt hmw)]
      exact endsShort_bind_of_ok (hx.extend _) hcut

/-- **Sequencing keeps promptness.** -/
theorem sequential_prompt (short : ε → Prop) :
    Sequential (fun _ x => Prompt (ε := ε) short x) where
  pure := fun a offset input =>
    Or.inr ⟨[], input, .ok a, rfl, decidedBy_nil fun _ => rfl⟩
  bind := by
    intro α β x f hx hf offset input
    rcases hx offset input with hshort | ⟨w, rest, verdict, rfl, hw⟩
    · exact Or.inl hshort.bind
    cases verdict with
    | error e => exact Or.inr ⟨w, rest, .error e, rfl, hw.bind_error⟩
    | ok a =>
        rcases hf a (offset + w.length) rest with hshort | ⟨v, rest, verdict, rfl, hv⟩
        · exact Or.inl (endsShort_bind_of_ok (hw.extend rest) hshort)
        · exact Or.inr ⟨w ++ v, rest, verdict, (List.append_assoc w v rest).symm, hw.bind hv⟩

/-- What is read to its end decides a prompt reading that succeeds there. -/
theorem Prompt.decidedBy_of_ok {w : Bytes} {a : α} (h : Prompt short x)
    (hx : x ⟨offset, w⟩ = .ok a ⟨offset + w.length, []⟩) :
    DecidedBy (fun _ => short) x offset w (.ok a) := by
  rcases h offset w with ⟨e, c, hshort, -⟩ | ⟨u, rest, verdict, rfl, hu⟩
  · rw [hx] at hshort
    cases hshort
  · have hverdict := (hu.extend rest).symm.trans hx
    cases verdict with
    | error e => cases hverdict
    | ok b =>
        injection hverdict with hb hc
        injection hc with _ hrest
        rw [← hb, hrest, List.append_nil]
        exact hu

theorem prompt_throw (short : ε → Prop) (e : ε) : Prompt short (throw e : Reading ε α) :=
  fun _ input => Or.inr ⟨[], input, .error e, rfl, decidedBy_nil fun _ => rfl⟩

/-! ## The reads that touch the input -/

theorem prompt_take (n : Nat) : Prompt Fault.IsTruncation (Decoder.take n) := by
  intro offset input
  by_cases hn : n ≤ input.length
  · refine Or.inr ⟨input.take n, input.drop n, .ok (input.take n),
      (List.take_append_drop n input).symm, ?_, fun m hm => ?_⟩
    · intro rest
      have hlen : (input.take n).length = n := List.length_take_of_le hn
      rw [Decoder.take_of_le (by simp only [Cursor.remaining, List.length_append]; omega)]
      simp [reachedAt, hlen]
    · rw [List.length_take_of_le hn] at hm
      exact ⟨_, _, Decoder.take_of_lt (by simp only [Cursor.remaining, List.length_take]; omega),
        trivial⟩
  · exact Or.inl ⟨_, _, Decoder.take_of_lt (Nat.lt_of_not_le hn), trivial⟩

theorem prompt_byte : Prompt Fault.IsTruncation Decoder.byte := by
  intro offset input
  cases input with
  | nil => exact Or.inl ⟨_, _, rfl, trivial⟩
  | cons b rest =>
      exact Or.inr ⟨[b], rest, .ok b, rfl,
        decidedBy_singleton (fun _ => rfl) ⟨_, _, rfl, trivial⟩⟩

/-- A scan takes one group at a time: the group settles the number, or the rest of the input has
to. -/
theorem prompt_scan (limit : UInt64) (start : Nat) :
    ∀ acc, Prompt Fault.IsTruncation
      (fun c : Cursor => Varint.scan limit start acc c.offset c.rest) := by
  intro acc offset input
  induction input generalizing acc offset with
  | nil => exact Or.inl ⟨_, _, rfl, trivial⟩
  | cons b input ih =>
      by_cases hlarge : limit >>> 7 < acc
      · have hrefuse : ∀ rest, Varint.scan limit start acc offset (b :: rest)
            = .error (.integerOverflow start limit.toNat) ⟨offset + 1, rest⟩ := fun rest => by
          rw [Varint.scan, if_pos hlarge]
        exact Or.inr ⟨[b], input, .error _, rfl,
          decidedBy_singleton hrefuse ⟨_, _, rfl, trivial⟩⟩
      by_cases hover : limit < Varint.push acc b
      · have hrefuse : ∀ rest, Varint.scan limit start acc offset (b :: rest)
            = .error (.integerOverflow start limit.toNat) ⟨offset + 1, rest⟩ := fun rest => by
          rw [Varint.scan, if_neg hlarge, if_pos hover]
        exact Or.inr ⟨[b], input, .error _, rfl,
          decidedBy_singleton hrefuse ⟨_, _, rfl, trivial⟩⟩
      by_cases hlast : Varint.isLast b = true
      · have hend : ∀ rest, Varint.scan limit start acc offset (b :: rest)
            = .ok (Varint.push acc b) ⟨offset + 1, rest⟩ := fun rest => by
          rw [Varint.scan, if_neg hlarge, if_neg hover, if_pos hlast]
        exact Or.inr ⟨[b], input, .ok _, rfl, decidedBy_singleton hend ⟨_, _, rfl, trivial⟩⟩
      have hstep : ∀ rest, Varint.scan limit start acc offset (b :: rest)
          = Varint.scan limit start (Varint.push acc b) (offset + 1) rest := fun rest => by
        rw [Varint.scan, if_neg hlarge, if_neg hover, if_neg hlast]
      rcases ih (Varint.push acc b) (offset + 1) with
        ⟨e, c, hshort, he⟩ | ⟨w, rest, verdict, rfl, hw⟩
      · exact Or.inl ⟨e, c, by rw [← hshort]; exact hstep input, he⟩
      · refine Or.inr ⟨b :: w, rest, verdict, rfl, fun rest => ?_, fun m hm => ?_⟩
        · refine (hstep (w ++ rest)).trans ?_
          rw [hw.extend rest, List.length_cons, Nat.add_assoc, Nat.add_comm 1]
        · cases m with
          | zero => exact ⟨_, _, rfl, trivial⟩
          | succ m =>
              obtain ⟨e, c, hcut, he⟩ := hw.cut m (Nat.lt_of_succ_lt_succ hm)
              exact ⟨e, c, (hstep (w.take m)).trans hcut, he⟩

theorem prompt_unsigned (limit : UInt64) : Prompt Fault.IsTruncation (Decoder.unsigned limit) := by
  intro offset input
  -- the scan remembers where it started, so it is a reading of its own at each offset
  rcases prompt_scan limit offset 0 offset input with hshort | ⟨w, rest, verdict, hw, hdec⟩
  · exact Or.inl hshort
  · exact Or.inr ⟨w, rest, verdict, hw, hdec.extend, hdec.cut⟩

/-- **Every decoder is prompt.** -/
theorem primitive_prompt : Primitive (fun _ x => Prompt Fault.IsTruncation x) where
  toSequential := sequential_prompt _
  take := prompt_take
  byte := prompt_byte
  unsigned := prompt_unsigned
  unknownTag := fun _ => prompt_throw _ _
  mismatch := fun _ => prompt_throw _ _

/-! ## The loader -/

theorem EndsShort.within {read : Decoder α} {c : Cursor} (field : ChunkField) (depth : Nat)
    (h : EndsShort Fault.IsTruncation read c) :
    EndsShort (fun e => e.fault.IsTruncation) (read.within field depth) c := by
  obtain ⟨fault, c', hread, hfault⟩ := h
  exact ⟨_, c', within_of_error hread, hfault⟩

/-- Naming the field and the depth changes nothing but the failure. -/
theorem Prompt.within {read : Decoder α} (h : Prompt Fault.IsTruncation read) (field : ChunkField)
    (depth : Nat) : Prompt (fun e => e.fault.IsTruncation) (read.within field depth) := by
  intro offset input
  rcases h offset input with hshort | ⟨w, rest, verdict, rfl, hw⟩
  · exact Or.inl (hshort.within field depth)
  · refine Or.inr ⟨w, rest, verdict.mapError (⟨·, field, depth, offset + w.length⟩), rfl,
      fun rest => ?_, fun m hm => (hw.cut m hm).within field depth⟩
    cases verdict with
    | ok a => exact within_of_ok (hw.extend rest)
    | error fault => exact within_of_error (hw.extend rest)

/-- A failure between two reads is decided by what has been read. -/
theorem prompt_fail (fault : Fault) (field : ChunkField) (depth : Nat) :
    Prompt (fun e => e.fault.IsTruncation) (Loader.fail fault field depth : Loader α) :=
  (prompt_throw _ fault).within field depth

/-- **The loader is prompt.** -/
theorem prompt_chunk (settings : LoaderSettings) :
    Prompt (fun e => e.fault.IsTruncation) (Loader.chunk settings) :=
  (sequential_prompt _).chunk
    (fun depth hread => (primitive_prompt.fieldRead hread).within _ depth)
    (fun depth => prompt_fail _ _ depth)
    ((primitive_prompt.prologue _).within _ _)
    (primitive_prompt.byte.within _ _)
    (fun _ _ => prompt_fail _ _ _)

end Reading

end LuaBytecode
