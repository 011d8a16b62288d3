import LuaBytecode.Chunk.Encode
import LuaBytecode.Proofs.Reading.Language

/-!
# Numbers of variable length, exactly

The reader of a number works in a 64-bit word and compares twice: once before it makes room for a
group, once after.  This file shows that the two comparisons are one comparison of unbounded
numbers and that no bit is lost in between, so that what is read is the value of the groups or
nothing.

* `toNat_shift`, **`toNat_push`** — behind the first comparison the shift drops nothing, and taking a
  group in is exact.
* **`refused_iff`** — the two comparisons together refuse exactly a value above the limit.
* `accepts_scan`, `accepts_unsigned` — the reader accepts the numbers up to its limit, in every
  form: any groups without the top bit, then one with it.
* `scan_error`, `unsigned_error` — how it fails.
* `value_encode`, **`number_encode`** — the shortest form of a number is one of its forms.
-/

namespace LuaBytecode

namespace Grammar

variable {w : Bytes} {n : Nat}

theorem Number.le_limit {limit : Nat} (h : Number limit w n) : n ≤ limit := by
  obtain ⟨-, -, -, -, -, -, hlimit⟩ := h
  exact hlimit

theorem Count.lt (h : Count w n) : n < UInt64.size :=
  Nat.lt_of_le_sub_one (by decide) (Number.le_limit h)

end Grammar

namespace Varint

/-! ## One group -/

theorem lt_of_isLast {b : UInt8} (h : isLast b = false) : b < 0x80 :=
  UInt8.not_le.mp (of_decide_eq_false h)

/-- **Behind the first comparison the shift drops nothing**: it has room for all bits of the word. -/
theorem toNat_shift {limit acc : UInt64} (h : ¬limit >>> 7 < acc) :
    (acc <<< 7).toNat = acc.toNat * 128 := by
  have hacc : acc.toNat ≤ limit.toNat / 128 := by
    rw [UInt64.lt_iff_toNat_lt, UInt64.toNat_shiftRight] at h
    simp only [UInt64.reduceToNat, Nat.reduceMod, Nat.shiftRight_eq_div_pow] at h
    omega
  have hlimit : limit.toNat < 2 ^ 64 := limit.toNat_lt
  rw [UInt64.toNat_shiftLeft]
  simp only [UInt64.reduceToNat, Nat.reduceMod, Nat.shiftLeft_eq]
  exact Nat.mod_eq_of_lt (by omega)

/-- **Behind the first comparison a group is taken in exactly**: its bits fall where the shift left
zeros. -/
theorem toNat_push {limit acc : UInt64} (h : ¬limit >>> 7 < acc) (b : UInt8) :
    (push acc b).toNat = acc.toNat * 128 + b.toNat % 128 := by
  have hshift : (acc <<< 7).toNat = acc.toNat <<< 7 := by
    rw [toNat_shift h, Nat.shiftLeft_eq]
  have hgroup : (b &&& 0x7F).toUInt64.toNat = b.toNat % 128 := by
    rw [UInt8.toNat_toUInt64, UInt8.toNat_and]
    exact Nat.and_two_pow_sub_one_eq_mod b.toNat 7
  rw [push, UInt64.toNat_or, hshift, hgroup,
    ← Nat.shiftLeft_add_eq_or_of_lt (Nat.mod_lt b.toNat (by decide : 0 < 2 ^ 7)), Nat.shiftLeft_eq]

/-- **The two comparisons are one**: a group is refused exactly when the number with it is above the
limit. -/
theorem refused_iff (limit acc : UInt64) (b : UInt8) :
    (limit >>> 7 < acc ∨ limit < push acc b) ↔ limit.toNat < acc.toNat * 128 + b.toNat % 128 := by
  by_cases h : limit >>> 7 < acc
  · refine iff_of_true (Or.inl h) ?_
    rw [UInt64.lt_iff_toNat_lt, UInt64.toNat_shiftRight] at h
    simp only [UInt64.reduceToNat, Nat.reduceMod, Nat.shiftRight_eq_div_pow] at h
    omega
  · rw [or_iff_right h, UInt64.lt_iff_toNat_lt, toNat_push h]

section Scan

variable {limit acc : UInt64} {start offset : Nat} {b : UInt8} {rest : Bytes}

/-- A group that leaves the number within the limit passes both comparisons. -/
theorem not_refused (h : acc.toNat * 128 + b.toNat % 128 ≤ limit.toNat) :
    ¬limit >>> 7 < acc ∧ ¬limit < push acc b :=
  not_or.mp (mt (refused_iff limit acc b).mp (Nat.not_lt.mpr h))

/-- A group that is not refused is taken in exactly. -/
theorem toNat_push_of_le (h : acc.toNat * 128 + b.toNat % 128 ≤ limit.toNat) :
    (push acc b).toNat = acc.toNat * 128 + b.toNat % 128 :=
  toNat_push (not_refused h).1 b

theorem scan_of_lt (h : limit.toNat < acc.toNat * 128 + b.toNat % 128) :
    scan limit start acc offset (b :: rest)
      = .error (.integerOverflow start limit.toNat) ⟨offset + 1, rest⟩ := by
  rw [scan]
  rcases (refused_iff limit acc b).mpr h with hlarge | hover
  · rw [if_pos hlarge]
  · split_ifs <;> rfl

theorem scan_of_last (h : acc.toNat * 128 + b.toNat % 128 ≤ limit.toNat)
    (hlast : isLast b = true) :
    scan limit start acc offset (b :: rest) = .ok (push acc b) ⟨offset + 1, rest⟩ := by
  rw [scan, if_neg (not_refused h).1, if_neg (not_refused h).2, if_pos hlast]

theorem scan_of_not_last (h : acc.toNat * 128 + b.toNat % 128 ≤ limit.toNat)
    (hlast : isLast b = false) :
    scan limit start acc offset (b :: rest)
      = scan limit start (push acc b) (offset + 1) rest := by
  rw [scan, if_neg (not_refused h).1, if_neg (not_refused h).2,
    if_neg (by rw [hlast]; decide)]

end Scan

/-! ## Runs of groups -/

/-- The number that groups stand for behind groups that stand for `acc`. -/
def valueFrom (acc : Nat) (bytes : Bytes) : Nat :=
  bytes.foldl (fun acc b => acc * 128 + b.toNat % 128) acc

@[simp] theorem valueFrom_nil (acc : Nat) : valueFrom acc [] = acc := rfl

@[simp] theorem valueFrom_cons (acc : Nat) (b : UInt8) (bytes : Bytes) :
    valueFrom acc (b :: bytes) = valueFrom (acc * 128 + b.toNat % 128) bytes := rfl

theorem valueFrom_append (acc : Nat) (front bytes : Bytes) :
    valueFrom acc (front ++ bytes) = valueFrom (valueFrom acc front) bytes :=
  List.foldl_append

/-- Groups only make a number larger, so one that stays below the limit was below it all along. -/
theorem le_valueFrom (bytes : Bytes) : ∀ acc, acc ≤ valueFrom acc bytes := by
  induction bytes with
  | nil => exact fun acc => Nat.le_refl acc
  | cons b bytes ih =>
      intro acc
      have h := ih (acc * 128 + b.toNat % 128)
      rw [valueFrom_cons]
      omega

/-- A number up to a limit behind groups that stand for `acc`. -/
def NumberFrom (acc limit : Nat) (w : Bytes) (n : Nat) : Prop :=
  ∃ groups last, w = groups ++ [last] ∧ (∀ b ∈ groups, isLast b = false) ∧ isLast last = true ∧
    valueFrom acc w = n ∧ n ≤ limit

/-- A number starts with its last group, or with another group and goes on from there. -/
theorem numberFrom_cons {acc limit : Nat} {b : UInt8} {w : Bytes} {n : Nat} :
    NumberFrom acc limit (b :: w) n ↔
      isLast b = true ∧ w = [] ∧ acc * 128 + b.toNat % 128 = n ∧ n ≤ limit ∨
      isLast b = false ∧ NumberFrom (acc * 128 + b.toNat % 128) limit w n := by
  constructor
  · rintro ⟨groups, last, hw, hgroups, hlast, hvalue, hlimit⟩
    cases groups with
    | nil =>
        obtain ⟨rfl, rfl⟩ := List.cons.inj hw
        exact Or.inl ⟨hlast, rfl, hvalue, hlimit⟩
    | cons g groups =>
        obtain ⟨rfl, rfl⟩ := List.cons.inj hw
        rw [List.forall_mem_cons] at hgroups
        exact Or.inr ⟨hgroups.1, groups, last, rfl, hgroups.2, hlast, hvalue, hlimit⟩
  · rintro (⟨hlast, rfl, hvalue, hlimit⟩ | ⟨hb, groups, last, rfl, hgroups, hlast, hvalue, hlimit⟩)
    · exact ⟨[], b, rfl, List.forall_mem_nil _, hlast, hvalue, hlimit⟩
    · exact ⟨b :: groups, last, rfl, List.forall_mem_cons.mpr ⟨hb, hgroups⟩, hlast, hvalue, hlimit⟩

theorem not_numberFrom_nil {acc limit n : Nat} : ¬NumberFrom acc limit [] n := by
  rintro ⟨groups, last, hw, -⟩
  exact List.append_ne_nil_of_right_ne_nil groups (List.cons_ne_nil last []) hw.symm

theorem NumberFrom.le_limit {acc limit : Nat} {w : Bytes} {n : Nat}
    (h : NumberFrom acc limit w n) : acc ≤ limit := by
  obtain ⟨groups, last, -, -, -, rfl, hlimit⟩ := h
  exact Nat.le_trans (le_valueFrom _ acc) hlimit

/-! ## The reader -/

/-- **The scan accepts the numbers behind what it has taken in.**  The induction is on the bytes;
a group that ends the number, one that does not and one that is refused are the three cases. -/
theorem accepts_scan (limit : UInt64) (start : Nat) (acc : UInt64) :
    Reading.Accepts (fun c : Cursor => scan limit start acc c.offset c.rest)
      (fun w n => NumberFrom acc.toNat limit.toNat w n.toNat) where
  sound := by
    intro offset input
    induction input generalizing acc offset with
    | nil => intro n c h; cases h
    | cons b input ih =>
        intro n c h
        change scan limit start acc offset (b :: input) = .ok n c at h
        by_cases hle : acc.toNat * 128 + b.toNat % 128 ≤ limit.toNat
        · have hpush := toNat_push_of_le hle
          cases hlast : isLast b with
          | true =>
              rw [scan_of_last hle hlast] at h
              cases h
              exact ⟨[b], input, rfl, rfl,
                numberFrom_cons.mpr (Or.inl ⟨hlast, rfl, hpush.symm, by rw [hpush]; exact hle⟩)⟩
          | false =>
              rw [scan_of_not_last hle hlast] at h
              obtain ⟨w, rest, rfl, rfl, hw⟩ := ih (push acc b) h
              rw [hpush] at hw
              refine ⟨b :: w, rest, rfl, ?_, numberFrom_cons.mpr (Or.inr ⟨hlast, hw⟩)⟩
              rw [List.length_cons, Nat.add_assoc, Nat.add_comm 1]
        · rw [scan_of_lt (Nat.lt_of_not_le hle)] at h
          cases h
  complete := by
    intro w
    induction w generalizing acc with
    | nil => exact fun h => absurd h not_numberFrom_nil
    | cons b w ih =>
        intro n h offset rest
        change scan limit start acc offset (b :: (w ++ rest)) = _
        rcases numberFrom_cons.mp h with ⟨hlast, rfl, hvalue, hlimit⟩ | ⟨hlast, hw⟩
        · have hle : acc.toNat * 128 + b.toNat % 128 ≤ limit.toNat := by rw [hvalue]; exact hlimit
          have hn : push acc b = n :=
            UInt64.toNat_inj.mp (by rw [toNat_push_of_le hle]; exact hvalue)
          rw [scan_of_last hle hlast, hn]
          rfl
        · have hle := hw.le_limit
          rw [← toNat_push_of_le hle] at hw
          rw [scan_of_not_last hle hlast]
          refine (ih (push acc b) hw (offset + 1) rest).trans ?_
          rw [List.length_cons, Nat.add_assoc, Nat.add_comm 1]

/-- The reader of a number accepts the numbers up to its limit. -/
theorem accepts_unsigned (limit : UInt64) :
    Reading.Accepts (Decoder.unsigned limit)
      (fun w n => Grammar.Number limit.toNat w n.toNat) where
  sound := fun {offset} _ _ _ h => (accepts_scan limit offset 0).sound h
  complete := fun hw offset rest => (accepts_scan limit offset 0).complete hw offset rest

/-- **How a scan fails**: all groups that are left say that the number goes on, or it comes to a
group that makes the number too large, and to no earlier one.  Each group is taken in only if the
number with it is within the limit, which is what the induction carries. -/
theorem scan_error {limit : UInt64} {start : Nat} {fault : Fault} {c : Cursor} (input : Bytes) :
    ∀ {acc : UInt64} {offset : Nat}, acc ≤ limit →
      scan limit start acc offset input = .error fault c →
      (fault = .malformedVarint start ∧ c = ⟨offset + input.length, []⟩ ∧
        ∀ b ∈ input, isLast b = false) ∨
      ∃ groups last rest, input = groups ++ last :: rest ∧
        fault = .integerOverflow start limit.toNat ∧ c = ⟨offset + groups.length + 1, rest⟩ ∧
        (∀ b ∈ groups, isLast b = false) ∧ valueFrom acc.toNat groups ≤ limit.toNat ∧
        limit.toNat < valueFrom acc.toNat (groups ++ [last]) := by
  induction input with
  | nil =>
      intro acc offset _ h
      cases h
      exact Or.inl ⟨rfl, rfl, List.forall_mem_nil _⟩
  | cons b input ih =>
      intro acc offset hacc h
      by_cases hle : acc.toNat * 128 + b.toNat % 128 ≤ limit.toNat
      · have hpush := toNat_push_of_le hle
        cases hlast : isLast b with
        | true => rw [scan_of_last hle hlast] at h; cases h
        | false =>
            rw [scan_of_not_last hle hlast] at h
            have hnext : push acc b ≤ limit := by rw [UInt64.le_iff_toNat_le, hpush]; exact hle
            rcases ih hnext h with ⟨hfault, hc, hall⟩ |
              ⟨groups, last, rest, rfl, hfault, hc, hgroups, hbefore, hafter⟩
            · refine Or.inl ⟨hfault, ?_, List.forall_mem_cons.mpr ⟨hlast, hall⟩⟩
              rw [hc, List.length_cons, Nat.add_assoc, Nat.add_comm 1]
            · rw [hpush] at hbefore hafter
              refine Or.inr ⟨b :: groups, last, rest, rfl, hfault, ?_,
                List.forall_mem_cons.mpr ⟨hlast, hgroups⟩, hbefore, hafter⟩
              rw [hc, List.length_cons, Nat.add_assoc offset 1, Nat.add_comm 1]
      · rw [scan_of_lt (Nat.lt_of_not_le hle)] at h
        cases h
        exact Or.inr ⟨[], b, input, rfl, rfl, rfl, List.forall_mem_nil _,
          UInt64.le_iff_toNat_le.mp hacc, Nat.lt_of_not_le hle⟩

/-- How reading a number fails: the input ends inside it, or it is too large. -/
theorem unsigned_error {limit : UInt64} {fault : Fault} {c c' : Cursor}
    (h : Decoder.unsigned limit c = .error fault c') :
    (fault = .malformedVarint c.offset ∧ c' = ⟨c.offset + c.rest.length, []⟩ ∧
      ∀ b ∈ c.rest, isLast b = false) ∨
    ∃ groups last rest, c.rest = groups ++ last :: rest ∧
      fault = .integerOverflow c.offset limit.toNat ∧
      c' = ⟨c.offset + groups.length + 1, rest⟩ ∧ (∀ b ∈ groups, isLast b = false) ∧
      value groups ≤ limit.toNat ∧ limit.toNat < value (groups ++ [last]) :=
  scan_error c.rest UInt64.zero_le h

theorem accepts_count : Reading.Accepts Decoder.count Grammar.Count := by
  refine ((accepts_unsigned 0xFFFFFFFFFFFFFFFF).map UInt64.toNat).congr fun w n => ?_
  constructor
  · rintro ⟨m, hm, rfl⟩
    exact hm
  · intro h
    have hn : (UInt64.ofNat n).toNat = n := UInt64.toNat_ofNat_of_lt' h.lt
    refine ⟨UInt64.ofNat n, ?_, hn.symm⟩
    rw [hn]
    exact h

theorem accepts_line : Reading.Accepts Decoder.line Grammar.Line := by
  refine ((accepts_unsigned 0xFFFFFFFF).map UInt64.toUInt32).congr fun w n => ?_
  constructor
  · rintro ⟨m, hm, rfl⟩
    have hsmall : m.toNat < UInt32.size := Nat.lt_of_le_sub_one (by decide) hm.le_limit
    have hnarrow : m.toUInt32.toNat = m.toNat := by
      rw [UInt64.toNat_toUInt32]
      exact Nat.mod_eq_of_lt hsmall
    rw [Grammar.Line, hnarrow]
    exact hm
  · intro h
    refine ⟨n.toUInt64, ?_, n.toUInt32_toUInt64.symm⟩
    rw [UInt32.toNat_toUInt64]
    exact h

/-! ## The shortest form -/

/-- The groups in front of the last one have no top bit. -/
theorem isLast_of_mem_leadingGroups {b : UInt8} (n : Nat) :
    b ∈ leadingGroups n → isLast b = false := by
  induction n using Nat.strongRecOn with
  | ind n ih =>
      rw [leadingGroups]
      split_ifs with hn
      · exact fun h => absurd h List.not_mem_nil
      · rw [List.mem_append, List.mem_singleton]
        rintro (h | rfl)
        · exact ih (n / 128) (by omega) h
        · have hlow : (UInt8.ofNat (n % 128)).toNat = n % 128 := by
            rw [UInt8.toNat_ofNat']
            omega
          have hsmall : ¬(0x80 : UInt8) ≤ UInt8.ofNat (n % 128) := by
            rw [UInt8.le_iff_toNat_le, hlow]
            change ¬128 ≤ n % 128
            omega
          exact decide_eq_false hsmall

theorem value_leadingGroups (n : Nat) : valueFrom 0 (leadingGroups n) = n := by
  induction n using Nat.strongRecOn with
  | ind n ih =>
      rw [leadingGroups]
      split_ifs with hn
      · exact hn.symm
      · have hlow : (UInt8.ofNat (n % 128)).toNat = n % 128 := by
          rw [UInt8.toNat_ofNat']
          omega
        rw [valueFrom_append, ih (n / 128) (by omega), valueFrom_cons, valueFrom_nil, hlow]
        omega

theorem toNat_lastGroup (n : Nat) : (UInt8.ofNat (n % 128 + 128)).toNat = n % 128 + 128 := by
  rw [UInt8.toNat_ofNat']
  omega

theorem value_encode (n : Nat) : value (encode n) = n := by
  change valueFrom 0 (leadingGroups (n / 128) ++ _) = n
  rw [valueFrom_append, value_leadingGroups, valueFrom_cons, valueFrom_nil, toNat_lastGroup]
  omega

/-- **The shortest form is a form**, of every number up to the limit. -/
theorem number_encode {limit n : Nat} (h : n ≤ limit) : Grammar.Number limit (encode n) n := by
  have hlast : isLast (UInt8.ofNat (n % 128 + 128)) = true := by
    refine decide_eq_true ?_
    rw [UInt8.le_iff_toNat_le, toNat_lastGroup]
    exact Nat.le_add_left _ _
  exact ⟨leadingGroups (n / 128), UInt8.ofNat (n % 128 + 128), rfl,
    fun b hb => isLast_of_mem_leadingGroups _ hb, hlast, value_encode n, h⟩

theorem count_encode {n : Nat} (h : n < UInt64.size) : Grammar.Count (encode n) n :=
  number_encode (Nat.le_sub_one_of_lt h)

theorem line_encode (n : UInt32) : Grammar.Line (encodeLine n) n :=
  number_encode (Nat.le_sub_one_of_lt n.toNat_lt_size)

end Varint

end LuaBytecode
