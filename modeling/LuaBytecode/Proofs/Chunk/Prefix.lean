import LuaBytecode.Proofs.Reading.Prefix

/-!
# The outcome of a load is decided by the bytes it passes

`Reading.prompt_chunk` speaks of some prefix that decides the loader.  Here that prefix is found: it
is what the load has passed when it ends, and for a failed load its length is the offset the
failure reports (`told_chunk`).

**`load_decided_by_reach`** collects what follows for a load that does not end for want of input.
It has looked at nothing behind its reach, so trailing bytes never matter and of several faults only
the first can be reported.  And it has needed every byte up to there: whatever is cut off, the load
reports a truncation and nothing else.
-/

namespace LuaBytecode

namespace Reading

variable {α : Type}

/-! ## The offset of a failure -/

/-- A failure reports the place where the reading stopped. -/
def Told (x : Loader α) : Prop := ∀ {c c' : Cursor} {e : LoadError}, x c = .error e c' →
  e.offset = c'.offset

theorem sequential_told : Sequential (fun _ x => Told x) where
  pure := fun a c c' e h => by cases h
  bind := by
    intro α β x f hx hf c c' e h
    cases hxc : x c with
    | ok a d => rw [bind_of_ok hxc] at h; exact hf a h
    | error d c'' =>
        rw [bind_of_error hxc] at h
        cases h
        exact hx hxc

theorem told_within (read : Decoder α) (field : ChunkField) (depth : Nat) :
    Told (read.within field depth) := by
  intro c c' e h
  cases hread : read c with
  | ok a d => rw [within_of_ok hread] at h; cases h
  | error fault d => rw [within_of_error hread] at h; cases h; rfl

/-- **The loader reports the offset it stopped at.** -/
theorem told_chunk (settings : LoaderSettings) : Told (Loader.chunk settings) :=
  sequential_told.chunk (fun depth _ => told_within _ _ depth) (fun _ => told_within _ _ _)
    (told_within _ _ _) (told_within _ _ _) fun _ _ => told_within _ _ _

end Reading

/-! ## Loads -/

variable {settings : LoaderSettings} {input : Bytes}

/-- A failed load reports how far it came. -/
theorem offset_of_load_error {e : LoadError} (h : load settings input = .error e) :
    e.offset = reach settings input := by
  cases hrun : Loader.chunk settings (Cursor.start input) with
  | ok main c => rw [(load_of_ok hrun).1] at h; cases h
  | error e' c =>
      obtain ⟨hload, hreach⟩ := load_of_error hrun
      rw [hload] at h
      cases h
      rw [hreach]
      exact Reading.told_chunk settings hrun

/-- A load that finds the input short says so. -/
theorem load_of_endsShort
    (h : Reading.EndsShort (fun e => e.fault.IsTruncation) (Loader.chunk settings)
      (Cursor.start input)) :
    ∃ e, load settings input = .error e ∧ e.fault.IsTruncation := by
  obtain ⟨e, c, hrun, he⟩ := h
  exact ⟨e, (load_of_error hrun).1, he⟩

/-- Behind the bytes that decide it, a load has their verdict and reaches their end. -/
theorem load_of_decidedBy {w : Bytes} {verdict : Except LoadError Prototype}
    {cutAt : Nat → LoadError → Prop}
    (h : Reading.DecidedBy cutAt (Loader.chunk settings) 0 w verdict) (rest : Bytes) :
    load settings (w ++ rest) = verdict ∧ reach settings (w ++ rest) = w.length := by
  have hrun : Loader.chunk settings (Cursor.start (w ++ rest)) = _ := h.extend rest
  rw [Nat.zero_add] at hrun
  cases verdict with
  | ok main => exact load_of_ok hrun
  | error e => exact load_of_error hrun

/-- **The shortest prefix that decides a load is what the load has passed.**  If a load succeeds, or
fails for another reason than that the input ends, then its reach lies in the input and is the
offset that a failure reports; with the bytes up to there in front, every input has the same
outcome at the same place; and with fewer of them the load fails because the input ends. -/
theorem load_decided_by_reach (settings : LoaderSettings) (input : Bytes)
    (hdecided : ∀ e, load settings input = .error e → ¬e.fault.IsTruncation) :
    reach settings input ≤ input.length ∧
    (∀ e, load settings input = .error e → e.offset = reach settings input) ∧
    (∀ rest, load settings (input.take (reach settings input) ++ rest) = load settings input ∧
      reach settings (input.take (reach settings input) ++ rest) = reach settings input) ∧
    (∀ m < reach settings input,
      ∃ e, load settings (input.take m) = .error e ∧ e.fault.IsTruncation) := by
  rcases Reading.prompt_chunk settings 0 input with hshort | ⟨w, rest, verdict, rfl, hw⟩
  · obtain ⟨e, he, hfault⟩ := load_of_endsShort hshort
    exact absurd hfault (hdecided e he)
  obtain ⟨hload, hreach⟩ := load_of_decidedBy hw rest
  rw [hload, hreach, List.take_left, List.length_append]
  refine ⟨Nat.le_add_right _ _, fun e he => ?_, load_of_decidedBy hw, fun m hm => ?_⟩
  · rw [← hreach]
    exact offset_of_load_error (hload.trans he)
  · rw [List.take_append_of_le_length (Nat.le_of_lt hm)]
    exact load_of_endsShort (hw.cut m hm)

/-- A chunk with a tag that no constant has, and bytes behind it that would be faults as well. -/
def unknownTagInput : Bytes :=
  Prologue.encode false ++ [0, 0x80, 0x80, 0x80, 0, 1, 2, 0x80, 0x82, 0x00, 0x42, 0x43, 0x44]

/-- The load of it is decided behind the tag: what follows may be anything, and no byte less shows
the tag. -/
theorem load_decided_by_reach_unknownTag :
    (∀ e, load .standard unknownTagInput = .error e → ¬e.fault.IsTruncation) ∧
    (∀ rest, load .standard (unknownTagInput.take 39 ++ rest)
      = .error ⟨.unknownConstantTag 0x42, .constants, 0, 39⟩) ∧
    (∀ m < 39, ∃ e, load .standard (unknownTagInput.take m) = .error e ∧ e.fault.IsTruncation) := by
  have hload : load .standard unknownTagInput
      = .error ⟨.unknownConstantTag 0x42, .constants, 0, 39⟩ := rfl
  have hreach : reach .standard unknownTagInput = 39 := rfl
  have hdecided : ∀ e, load .standard unknownTagInput = .error e → ¬e.fault.IsTruncation := by
    intro e he
    rw [hload] at he
    cases he
    exact id
  obtain ⟨-, -, hextend, hcut⟩ := load_decided_by_reach .standard unknownTagInput hdecided
  rw [hreach] at hextend hcut
  exact ⟨hdecided, fun rest => (hextend rest).1.trans hload, hcut⟩

end LuaBytecode
