import LuaBytecode.Proofs.Reading.Passing
import LuaBytecode.Proofs.Reading.Prefix
import LuaBytecode.Proofs.Reading.Shift
import LuaBytecode.Session
import Mathlib.Tactic.ByContra

/-!
# Sessions stay sound

Whatever a reader is asked for, and however often it fails, it stands at a place in its input: a
request only moves the cursor forward over bytes that are there.  From there on every request means
what it means at the front of an input, since a reading depends on the bytes that it passes and on
nothing else.

What a failed read leaves behind is another matter.  A read of a known length takes all of its bytes
or none.  The other reads are made of parts, and have passed the first before they fail at a later
one.

* `FixedRead.decoder_of_le`, `FixedRead.decoder_of_lt` — a read of a known length, both ways.
* **`Read.unmoved_iff`** — the failed reads that leave the cursor where it was.
* `placed_afterAll` — a session stays in its input.
* `Prompt.alone` — what a reading passes is enough for it, and all of it is needed.
* **`session_sound`** — what can be asked for anywhere in a session.
-/

namespace LuaBytecode

/-! ## Reads of a known length -/

namespace FixedRead

/-- What bytes of the right number are taken for. -/
def ofBytes : (r : FixedRead) → Bytes → r.Value
  | .byte, w => UInt8.ofNat (ofLittleEndian w)
  | .bytes _, w => w
  | .uint32, w => UInt32.ofNat (ofLittleEndian w)
  | .uint64, w => UInt64.ofNat (ofLittleEndian w)
  | .int64, w => (UInt64.ofNat (ofLittleEndian w)).toInt64
  | .float64, w => ⟨UInt64.ofNat (ofLittleEndian w)⟩

/-- Taking the bytes is all that a read of a known length does with the input. -/
theorem decoder_eq (r : FixedRead) (c : Cursor) :
    r.decoder c = (r.ofBytes <$> Decoder.take r.width) c := by
  cases r with
  | byte =>
      obtain ⟨offset, input⟩ := c
      cases input with
      | nil => rfl
      | cons b input =>
          have hb : UInt8.ofNat (ofLittleEndian [b]) = b := UInt8.ofNat_toNat
          change EStateM.Result.ok b _ = EStateM.Result.ok (UInt8.ofNat (ofLittleEndian [b])) _
          rw [hb]
          rfl
  | bytes n => exact (congrFun (id_map (Decoder.take n)) c).symm
  | uint32 => rfl
  | uint64 => rfl
  | int64 => simp only [decoder, Decoder.int64, Decoder.uint64, ← comp_map]; rfl
  | float64 => simp only [decoder, Decoder.uint64, ← comp_map]; rfl

/-- Nothing of the bytes is lost. -/
theorem encode_ofBytes (r : FixedRead) {w : Bytes} (hw : w.length = r.width) :
    r.encode (r.ofBytes w) = w := by
  have hword : ∀ {width n : Nat}, w.length = width → n = ofLittleEndian w →
      littleEndian width n = w := by
    rintro width n rfl rfl
    exact littleEndian_ofLittleEndian w
  have hlt := ofLittleEndian_lt w
  rw [hw] at hlt
  cases r with
  | byte =>
      obtain ⟨b, rfl⟩ := List.length_eq_one_iff.mp hw
      exact congrArg (fun b => [b]) UInt8.ofNat_toNat
  | bytes n => rfl
  | uint32 => exact hword hw (UInt32.toNat_ofNat_of_lt' hlt)
  | uint64 => exact hword hw (UInt64.toNat_ofNat_of_lt' hlt)
  | int64 =>
      refine hword hw ?_
      rw [ofBytes, UInt64.toUInt64_toInt64]
      exact UInt64.toNat_ofNat_of_lt' hlt
  | float64 => exact hword hw (UInt64.toNat_ofNat_of_lt' hlt)

/-- Nothing of a value is lost either. -/
theorem ofBytes_encode (r : FixedRead) (value : r.Value) : r.ofBytes (r.encode value) = value := by
  have hword : ∀ {width n : Nat}, n < Nat.pow 256 width →
      ofLittleEndian (littleEndian width n) = n := fun {width n} h =>
    (ofLittleEndian_littleEndian width n).trans (Nat.mod_eq_of_lt h)
  cases r with
  | byte => exact UInt8.ofNat_toNat
  | bytes n => rfl
  | uint32 =>
      rw [encode, ofBytes, hword value.toNat_lt, UInt32.ofNat_toNat]
  | uint64 =>
      rw [encode, ofBytes, hword value.toNat_lt, UInt64.ofNat_toNat]
  | int64 =>
      rw [encode, ofBytes, hword value.toUInt64.toNat_lt, UInt64.ofNat_toNat, Int64.toInt64_toUInt64]
  | float64 =>
      rw [encode, ofBytes, hword value.bits.toNat_lt, UInt64.ofNat_toNat]

variable {r : FixedRead} {c : Cursor}

/-- Bytes are taken for a value exactly if it is stored as them. -/
theorem ofBytes_eq_iff {w : Bytes} {value : r.Value} (hw : w.length = r.width) :
    r.ofBytes w = value ↔ w = r.encode value := by
  constructor
  · rintro rfl
    exact (r.encode_ofBytes hw).symm
  · rintro rfl
    exact r.ofBytes_encode value

theorem decoder_of_le (h : r.width ≤ c.remaining) :
    r.decoder c
      = .ok (r.ofBytes (c.rest.take r.width)) ⟨c.offset + r.width, c.rest.drop r.width⟩ := by
  rw [decoder_eq]
  simp only [Functor.map, EStateM.map, Decoder.take_of_le h]

theorem decoder_of_lt (h : c.remaining < r.width) :
    r.decoder c = .error (.unexpectedEnd c.offset r.width c.remaining) c := by
  rw [decoder_eq]
  simp only [Functor.map, EStateM.map, Decoder.take_of_lt h]

end FixedRead

/-! ## Reads that fail -/

namespace Reading

variable {ε α β : Type}

/-- Where there is a byte, a reading passes it, however it ends. -/
def Advances (x : Reading ε α) : Prop := ∀ c : Cursor, c.rest ≠ [] → c.offset < (endOf (x c)).offset

theorem Advances.bind {x : Reading ε α} {f : α → Reading ε β} (hx : Advances x)
    (hf : ∀ a, Passes (f a)) : Advances (x >>= f) :=
  fun c hc => Nat.lt_of_lt_of_le (hx c hc) (endOf_le_bind hf c)

theorem advances_byte : Advances Decoder.byte := by
  rintro ⟨offset, input⟩ hc
  cases input with
  | nil => exact absurd rfl hc
  | cons b input => exact Nat.lt_succ_self offset

/-- A number has passed its first group whatever it finds there. -/
theorem advances_unsigned (limit : UInt64) : Advances (Decoder.unsigned limit) := by
  rintro ⟨offset, input⟩ hc
  cases input with
  | nil => exact absurd rfl hc
  | cons b input =>
      change offset < (endOf (Varint.scan limit offset 0 offset (b :: input))).offset
      rw [Varint.scan]
      split_ifs
      · exact Nat.lt_succ_self offset
      · exact Nat.lt_succ_self offset
      · exact Nat.lt_succ_self offset
      · exact Nat.lt_of_succ_le (leads_scan limit offset input _ (offset + 1)).offset_le

theorem advances_count : Advances Decoder.count :=
  (advances_unsigned _).bind fun n => sequential_passes.pure n.toNat

/-- At the end of its input a reading stays. -/
theorem Passes.eq_of_rest_eq_nil {x : Reading ε α} (hx : Passes x) {c : Cursor} (hc : c.rest = []) :
    endOf (x c) = c := by
  obtain ⟨w, hrest, hoffset⟩ := hx c
  rw [hc] at hrest
  obtain ⟨rfl, hnil⟩ := List.append_eq_nil_iff.mp hrest.symm
  obtain ⟨offset, rest⟩ := c
  exact Cursor.mk.injEq .. ▸ ⟨hoffset, hnil.trans hc.symm⟩

end Reading

/-! ## What holds of every request -/

namespace Reading

theorem Elementary.fixedRead {P : ∀ α : Type, Decoder α → Prop} (hP : Elementary P)
    (r : FixedRead) : P r.Value r.decoder := by
  cases r with
  | byte => exact hP.byte
  | bytes n => exact hP.take n
  | uint32 => exact hP.uint32
  | uint64 => exact hP.uint64
  | int64 => exact hP.int64
  | float64 => exact hP.map _ hP.uint64

namespace Primitive

variable {P : ∀ α : Type, Decoder α → Prop}

theorem read (hP : Primitive P) (r : Read) : P r.Value r.decoder := by
  cases r with
  | fixed r => exact hP.toElementary.fixedRead r
  | unsigned limit => exact hP.unsigned limit
  | count => exact hP.count
  | line => exact hP.line
  | string => exact hP.byteString
  | constant => exact hP.constant

/-- **A primitive property holds of every request.** -/
theorem request (hP : Primitive P) (q : ReaderRequest) : P q.Value q.decoder := by
  cases q with
  | read r => exact hP.read r
  | prologue withSizes => exact hP.prologue withSizes

end Primitive

end Reading

/-! ## Reads that leave the cursor -/

namespace Read

open Reading

/-- A read that is made of parts passes a byte where there is one. -/
theorem advances {r : Read} (hr : ∀ fixed, r ≠ .fixed fixed) : Advances r.decoder := by
  cases r with
  | fixed fixed => exact absurd rfl (hr fixed)
  | unsigned limit => exact advances_unsigned limit
  | count => exact advances_count
  | line => exact (advances_unsigned _).bind fun n => sequential_passes.pure n.toUInt32
  | string =>
      refine advances_count.bind fun size => ?_
      cases size with
      | zero => exact sequential_passes.pure []
      | succ size => exact passes_take size
  | constant =>
      refine advances_byte.bind fun b => ?_
      cases ConstantTag.ofByte? b with
      | some tag => exact primitive_passes.payload tag
      | none => exact passes_throw _

variable {r : Read} {c c' : Cursor} {fault : Fault}

/-- **A failed read leaves the cursor where it was exactly if it takes a known number of bytes or
nothing is left.** -/
theorem unmoved_iff (h : r.decoder c = .error fault c') :
    c' = c ↔ (∃ fixed, r = .fixed fixed) ∨ c.rest = [] := by
  have hend : endOf (r.decoder c) = c' := by rw [h]; rfl
  constructor
  · rintro rfl
    by_contra hcase
    obtain ⟨hfixed, hrest⟩ := not_or.mp hcase
    have hmoved := advances (fun fixed hr => hfixed ⟨fixed, hr⟩) c' hrest
    rw [hend] at hmoved
    exact Nat.lt_irrefl _ hmoved
  · rintro (⟨fixed, rfl⟩ | hrest)
    · change fixed.decoder c = _ at h
      by_cases hle : fixed.width ≤ c.remaining
      · rw [FixedRead.decoder_of_le hle] at h
        cases h
      · rw [FixedRead.decoder_of_lt (Nat.lt_of_not_le hle)] at h
        cases h
        rfl
    · rw [← hend]
      exact (primitive_passes.read r).eq_of_rest_eq_nil hrest

/-- A string that is cut off behind its size fails at its second part: the size has been passed. -/
theorem unmoved_iff_cutString :
    string.decoder (Cursor.start [0x85, 0x61]) = .error (.unexpectedEnd 1 4 1) ⟨1, [0x61]⟩ ∧
    ((⟨1, [0x61]⟩ : Cursor) = Cursor.start [0x85, 0x61] ↔
      (∃ fixed, string = .fixed fixed) ∨ (Cursor.start [0x85, 0x61]).rest = []) := by
  have h : string.decoder (Cursor.start [0x85, 0x61])
      = .error (.unexpectedEnd 1 4 1) ⟨1, [0x61]⟩ := rfl
  exact ⟨h, unmoved_iff h⟩

/-- A number, a string and a constant that fail behind their first byte, and not where they
started. -/
theorem moved_on_failure :
    (unsigned 1000).decoder (Cursor.start [0x01, 0x02]) = .error (.malformedVarint 0) ⟨2, []⟩ ∧
    string.decoder (Cursor.start [0x85, 0x61]) = .error (.unexpectedEnd 1 4 1) ⟨1, [0x61]⟩ ∧
    constant.decoder (Cursor.start [0x02]) = .error (.unknownConstantTag 0x02) ⟨1, []⟩ ∧
    ¬∀ (r : Read) (c c' : Cursor) (fault : Fault), r.decoder c = .error fault c' → c' = c := by
  have hconstant : constant.decoder (Cursor.start [0x02])
      = .error (.unknownConstantTag 0x02) ⟨1, []⟩ := rfl
  refine ⟨rfl, rfl, hconstant, fun hall => ?_⟩
  exact absurd (hall constant _ _ _ hconstant) (by decide)

end Read

/-! ## Sessions -/

namespace Reading

variable {α : Type}

/-- What is read somewhere is read the same at the front of an input. -/
theorem Shifts.ok_start {x : Decoder α} (hshifts : Shifts Fault.shift x) {offset : Nat} {w : Bytes}
    {a : α} (h : x ⟨offset, w⟩ = .ok a ⟨offset + w.length, []⟩) :
    x (Cursor.start w) = .ok a ⟨w.length, []⟩ := by
  have hmoved := hshifts offset (Cursor.start w)
  rw [Cursor.shift, Cursor.start, Nat.zero_add, h] at hmoved
  rw [Cursor.start]
  cases hfront : x ⟨0, w⟩ with
  | ok b c =>
      rw [hfront] at hmoved
      obtain ⟨front, rest⟩ := c
      injection hmoved with hvalue hcursor
      injection hcursor with hoffset hrest
      dsimp only at hoffset hrest
      obtain rfl : front = w.length := by omega
      rw [hvalue, hrest]
  | error e c =>
      rw [hfront] at hmoved
      cases hmoved

/-- **What a reading passes is enough for it, and all of it is needed**: on those bytes alone it
gives the same and comes to their end. -/
theorem Prompt.alone {short : Fault → Prop} {x : Decoder α} (hprompt : Prompt short x)
    (hshifts : Shifts Fault.shift x) {c c' : Cursor} {a : α} (hx : x c = .ok a c') :
    ∃ w, c.rest = w ++ c'.rest ∧ c'.offset = c.offset + w.length ∧
      x (Cursor.start w) = .ok a ⟨w.length, []⟩ := by
  obtain ⟨offset, input⟩ := c
  rcases hprompt offset input with ⟨e, c, hshort, -⟩ | ⟨w, rest, verdict, rfl, hw⟩
  · rw [hx] at hshort
    cases hshort
  · have hverdict := hx.symm.trans (hw.extend rest)
    cases verdict with
    | error e => cases hverdict
    | ok b =>
        cases hverdict
        have hhere := hw.extend []
        rw [List.append_nil] at hhere
        exact ⟨w, rfl, rfl, hshifts.ok_start hhere⟩

end Reading

open Reading

theorem ReaderRequest.after_eq_endOf (q : ReaderRequest) (c : Cursor) :
    q.after c = endOf (q.decoder c) := by
  unfold ReaderRequest.after
  cases q.decoder c <;> rfl

/-- **A session stays in its input**, from one request to the next. -/
theorem placed_afterAll {input : Bytes} (requests : List ReaderRequest) :
    ∀ {c : Cursor}, Placed input c → Placed input (c.afterAll requests) := by
  induction requests with
  | nil => exact id
  | cons q requests ih =>
      intro c hc
      refine ih ?_
      change Placed input (q.after c)
      rw [q.after_eq_endOf]
      exact (primitive_passes.request q).placed_endOf hc

/-- What holds where a reader stands in its input. -/
structure SoundAt (input : Bytes) (c : Cursor) : Prop where
  /-- What is behind and what is left are the input. -/
  covers : c.offset + c.remaining = input.length
  atEnd_iff : c.atEnd = true ↔ c.remaining = 0
  /-- No request moves the cursor back or out of the input. -/
  forward : ∀ q : ReaderRequest, c.offset ≤ (q.after c).offset ∧ (q.after c).offset ≤ input.length
  /-- In words of 64 bits the difference that is left does not wrap, and neither does the sum behind
  a read that there are bytes for. -/
  words : input.length < UInt64.size →
    (UInt64.ofNat input.length - UInt64.ofNat c.offset).toNat = c.remaining ∧
    ∀ n : UInt64, n.toNat ≤ c.remaining →
      (UInt64.ofNat c.offset + n).toNat = c.offset + n.toNat
  /-- A read of a known length gives exactly the next bytes if there are enough. -/
  fixed_of_le : ∀ r : FixedRead, r.width ≤ c.remaining →
    ∃ value, r.decoder c = .ok value ⟨c.offset + r.width, input.drop (c.offset + r.width)⟩ ∧
      r.encode value = input.extract c.offset (c.offset + r.width)
  /-- Otherwise it says what it needs and what there is, and stays. -/
  fixed_of_lt : ∀ r : FixedRead, c.remaining < r.width →
    r.decoder c = .error (.unexpectedEnd c.offset r.width c.remaining) c
  /-- What a request passes is all that it depends on, and all of it is needed. -/
  alone : ∀ (q : ReaderRequest) (value : q.Value) (c' : Cursor), q.decoder c = .ok value c' →
    q.decoder (Cursor.start (input.extract c.offset c'.offset))
      = .ok value ⟨c'.offset - c.offset, []⟩

theorem soundAt_of_placed {input : Bytes} {c : Cursor} (hc : Placed input c) : SoundAt input c where
  covers := hc.length_rest
  atEnd_iff := by rw [Cursor.atEnd, List.isEmpty_iff, Cursor.remaining, List.length_eq_zero_iff]
  forward := fun q => by
    have hpasses := primitive_passes.request q
    rw [q.after_eq_endOf]
    exact ⟨(hpasses c).offset_le, (hpasses.placed_endOf hc).offset_le⟩
  words := fun hsize => by
    have hlength : c.offset + c.remaining = input.length := hc.length_rest
    have hinput : (UInt64.ofNat input.length).toNat = input.length :=
      UInt64.toNat_ofNat_of_lt' hsize
    have hoffset : (UInt64.ofNat c.offset).toNat = c.offset :=
      UInt64.toNat_ofNat_of_lt' (Nat.lt_of_le_of_lt hc.offset_le hsize)
    refine ⟨?_, fun n hn => ?_⟩
    · rw [UInt64.toNat_sub_of_le _ _ (UInt64.le_iff_toNat_le.mpr (by omega)), hinput, hoffset]
      omega
    · rw [UInt64.toNat_add, hoffset]
      exact Nat.mod_eq_of_lt (Nat.lt_of_le_of_lt (by omega) hsize)
  fixed_of_le := fun r hr => by
    have htaken : (c.rest.take r.width).length = r.width := List.length_take_of_le hr
    refine ⟨r.ofBytes (c.rest.take r.width), ?_, ?_⟩
    · rw [FixedRead.decoder_of_le hr, hc.rest_eq, List.drop_drop]
    · rw [r.encode_ofBytes htaken, List.extract_eq_take_drop, ← hc.rest_eq, Nat.add_sub_cancel_left]
  fixed_of_lt := fun _ hr => FixedRead.decoder_of_lt hr
  alone := fun q value c' h => by
    obtain ⟨w, hrest, hoffset, halone⟩ :=
      (primitive_prompt.request q).alone (primitive_shifts.request q) h
    rw [hoffset, hc.extract hrest, Nat.add_sub_cancel_left]
    exact halone

/-- **A reader stays sound over any run of requests**, those that fail included. -/
theorem session_sound (input : Bytes) (requests : List ReaderRequest) :
    SoundAt input ((Cursor.start input).afterAll requests) :=
  soundAt_of_placed (placed_afterAll requests (placed_start input))

/-- A word is not there, a byte is, and a number does not end. -/
example : (Cursor.start [1, 2, 3]).afterAll
    [.read (.fixed .uint32), .read (.fixed .byte), .read .count] = ⟨3, []⟩ := rfl

end LuaBytecode
