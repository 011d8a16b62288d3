import LuaBytecode.Text.Literal

/-!
# What a reader of a quoted literal knows and owes

Behind a decimal escape that is short of its third digit the byte is owed, not known: a digit that
comes next would change it.  So a part of a literal has been read right when what was owed before
it and its bytes are what is known and owed behind it, and this is what goes from part to part.  A
part that is not read right has lost bytes, since nothing ever gives more than it should: that is
how the whole is seen to be wrong from one part of it.

* `State.Inside`, `State.IsOpen` — where a part of a literal may start.
* `Yields` — a part has been read right; `Yields.append_iff` puts two together.
* `Gives` — a bound on what a part gives, right or wrong.
* `feed_digit`, `yields_plain`, `yields_letter` — single parts.
* **`read_iff`** — a literal is read right exactly if what is between its quotes is.
-/

namespace LuaBytecode

namespace Literal

/-! ## States -/

namespace State

/-- Between the quotes, in front of or behind an escape. -/
def Inside : State → Prop
  | .text => True
  | .number _ _ => True
  | _ => False

/-- Behind an escape that a digit would continue. -/
def IsOpen : State → Prop
  | .number room _ => 0 < room
  | _ => False

/-- The byte of the escape the reader is in or behind, which is known as soon as it has ended. -/
def owed : State → Bytes
  | .number _ value => [value]
  | _ => []

end State

variable {state next last : State} {x y : List Char} {a b : Bytes} {c : Char}

/-- A character that continues no escape ends the one in front of it. -/
theorem step_of_inside (hinside : state.Inside) (hc : state.IsOpen → ¬ c.isDigit) :
    step state c = (readPlain c).map fun p => (state.owed ++ p.1, p.2) := by
  cases state with
  | text => exact Option.map_id'.symm
  | number room value =>
      rw [step, if_neg (fun h => hc h.1 h.2)]
      rfl
  | front => exact hinside.elim
  | escape => exact hinside.elim
  | behind => exact hinside.elim

/-- A digit that continues an escape changes what is owed and gives nothing. -/
theorem step_digit {known : Bytes} (hopen : state.IsOpen) (hc : c.isDigit)
    (h : step state c = some (known, next)) :
    known = [] ∧ next.Inside ∧ next.owed.length = state.owed.length := by
  cases state with
  | number room value =>
      rw [step, if_pos ⟨hopen, hc⟩] at h
      simp only [readDigit, Option.ite_none_right_eq_some, Option.some.injEq, Prod.mk.injEq] at h
      obtain ⟨-, rfl, rfl⟩ := h
      exact ⟨rfl, trivial, rfl⟩
  | front => exact hopen.elim
  | text => exact hopen.elim
  | escape => exact hopen.elim
  | behind => exact hopen.elim

theorem feed_singleton : feed state [c] = step state c := by
  rw [feed]
  cases step state c with
  | none => rfl
  | some p => simp [feed]

theorem feed_append : feed state (x ++ y) =
    (feed state x).bind fun p => (feed p.2 y).map fun q => (p.1 ++ q.1, q.2) := by
  induction x generalizing state with
  | nil => simp [feed]
  | cons c x ih =>
      rw [List.cons_append, feed, feed]
      cases step state c with
      | none => rfl
      | some p =>
          simp only [Option.bind_some, ih]
          cases feed p.2 x with
          | none => rfl
          | some q =>
              simp only [Option.bind_some, Option.map_some, Option.map_map]
              simp [Function.comp_def]

/-! ## Parts that are read right -/

/-- **Reading `text` from `state` gives `bytes`**: with what was owed before, they are what is
known and owed behind it. -/
def Yields (state : State) (text : List Char) (bytes : Bytes) (next : State) : Prop :=
  next.Inside ∧
    ∃ known, feed state text = some (known, next) ∧ known ++ next.owed = state.owed ++ bytes

theorem yields_nil (h : state.Inside) : Yields state [] [] state :=
  ⟨h, [], rfl, by simp⟩

/-- What lies behind a part that is read right is read right exactly if the two are together. -/
theorem Yields.append_iff (h : Yields state x a next) :
    Yields state (x ++ y) (a ++ b) last ↔ Yields next y b last := by
  obtain ⟨-, known, hfeed, hknown⟩ := h
  refine and_congr_right fun _ => ?_
  rw [feed_append, hfeed]
  simp only [Option.bind_some, Option.map_eq_some_iff, Prod.mk.injEq]
  constructor
  · rintro ⟨_, ⟨⟨more, _⟩, hmore, rfl, rfl⟩, hwhole⟩
    refine ⟨more, hmore, ?_⟩
    rw [List.append_assoc, ← List.append_assoc state.owed, ← hknown, List.append_assoc] at hwhole
    exact List.append_cancel_left hwhole
  · rintro ⟨more, hmore, howed⟩
    refine ⟨known ++ more, ⟨_, hmore, rfl, rfl⟩, ?_⟩
    rw [List.append_assoc, howed, ← List.append_assoc, hknown, List.append_assoc]

/-! ## What a part gives at most -/

/-- **Reading `text` from `state` gives `count` bytes at most**, if it is read at all. -/
def Gives (state : State) (text : List Char) (count : Nat) : Prop :=
  ∀ known next, feed state text = some (known, next) →
    next.Inside ∧ (known ++ next.owed).length ≤ state.owed.length + count

theorem Yields.gives (h : Yields state x a next) : Gives state x a.length := by
  obtain ⟨hinside, known, hfeed, hknown⟩ := h
  intro known' next' hfeed'
  rw [hfeed] at hfeed'
  cases hfeed'
  exact ⟨hinside, Nat.le_of_eq (by rw [hknown, List.length_append])⟩

theorem Gives.mono {m n : Nat} (h : Gives state x m) (hmn : m ≤ n) : Gives state x n := by
  intro known next hfeed
  obtain ⟨hinside, hlength⟩ := h known next hfeed
  exact ⟨hinside, Nat.le_trans hlength (Nat.add_le_add_left hmn _)⟩

theorem Gives.append {m n : Nat} (hx : Gives state x m)
    (hy : ∀ next, next.Inside → Gives next y n) : Gives state (x ++ y) (m + n) := by
  intro known last h
  rw [feed_append] at h
  simp only [Option.bind_eq_some_iff, Option.map_eq_some_iff, Prod.mk.injEq] at h
  obtain ⟨⟨known, next⟩, hfirst, ⟨more, _⟩, hmore, rfl, rfl⟩ := h
  obtain ⟨hnext, hknown⟩ := hx known next hfirst
  obtain ⟨hlast, hmore⟩ := hy next hnext more _ hmore
  refine ⟨hlast, ?_⟩
  simp only [List.length_append] at hknown hmore ⊢
  omega

/-- Where less is given than there should be, the text is not read right. -/
theorem Gives.not_yields {n : Nat} (h : Gives state x n) (hn : n < a.length) :
    ¬ Yields state x a next := by
  rintro ⟨-, known, hfeed, hknown⟩
  have hlength := (h known next hfeed).2
  rw [hknown, List.length_append] at hlength
  omega

/-! ## Single parts -/

theorem gives_digit (hopen : state.IsOpen) (hc : c.isDigit) : Gives state [c] 0 := by
  intro known next h
  rw [feed_singleton] at h
  obtain ⟨rfl, hnext, hlength⟩ := step_digit hopen hc h
  exact ⟨hnext, Nat.le_of_eq hlength⟩

theorem yields_plain (hinside : state.Inside) (hc : state.IsOpen → ¬ c.isDigit)
    (hplain : c ∉ ['"', '\\', '\n', '\r']) :
    Yields state [c] (String.utf8EncodeChar c) .text := by
  have hread : readPlain c = some (String.utf8EncodeChar c, .text) := by
    simp only [List.mem_cons, List.not_mem_nil, or_false, not_or] at hplain
    obtain ⟨hquote, hslash, hfeed, hreturn⟩ := hplain
    rw [readPlain, if_neg hquote, if_neg hslash, if_neg (by simp [hfeed, hreturn])]
  refine ⟨trivial, state.owed ++ String.utf8EncodeChar c, ?_, by simp [State.owed]⟩
  rw [feed_singleton, step_of_inside hinside hc, hread]
  rfl

/-- A backslash ends the escape in front of it and starts one. -/
theorem feed_backslash (hinside : state.Inside) :
    feed state ('\\' :: x) = (feed .escape x).map fun p => (state.owed ++ p.1, p.2) := by
  have hstep : step state '\\' = some (state.owed ++ [], .escape) := by
    rw [step_of_inside hinside (fun _ => by decide)]
    rfl
  rw [feed, hstep]
  simp

theorem yields_letter {byte : UInt8} (hinside : state.Inside) (hc : ¬ c.isDigit)
    (hletter : letter? c = some byte) : Yields state ['\\', c] [byte] .text := by
  refine ⟨trivial, state.owed ++ [byte], ?_, by simp [State.owed]⟩
  rw [feed_backslash hinside, feed_singleton, step, if_neg hc, hletter]
  rfl

/-! ## Whole literals -/

theorem step_quote_eq_behind {known : Bytes} :
    step state '"' = some (known, .behind) ↔ state.Inside ∧ known = state.owed := by
  by_cases hinside : state.Inside
  · rw [step_of_inside hinside (fun _ => by decide), readPlain, if_pos rfl]
    simp [hinside, eq_comm]
  · cases state with
    | text => exact absurd trivial hinside
    | number room value => exact absurd trivial hinside
    | front => simp [step, State.Inside]
    | escape => simp [step, State.Inside, letter?]
    | behind => simp [step, State.Inside]

/-- **A literal is read right exactly if what is between its quotes is.** -/
theorem read_iff : read ('"' :: x ++ ['"']) = some a ↔ ∃ next, Yields .text x a next := by
  have hfront : feed .front ('"' :: x ++ ['"']) = feed .text (x ++ ['"']) := by
    rw [List.cons_append, feed, step, if_pos rfl]
    simp
  have hread : read ('"' :: x ++ ['"']) = some a ↔ feed .text (x ++ ['"']) = some (a, .behind) := by
    rw [read, hfront]
    split
    · next bytes h => simp [h]
    · next h => simpa using fun hbehind => h a hbehind
  rw [hread, feed_append]
  simp only [feed_singleton, Option.bind_eq_some_iff, Option.map_eq_some_iff, Prod.mk.injEq,
    Yields, State.owed, List.nil_append]
  constructor
  · rintro ⟨⟨known, next⟩, hfeed, ⟨more, _⟩, hmore, rfl, rfl⟩
    obtain ⟨hinside, rfl⟩ := step_quote_eq_behind.mp hmore
    exact ⟨next, hinside, known, hfeed, rfl⟩
  · rintro ⟨next, hinside, known, hfeed, rfl⟩
    exact ⟨(known, next), hfeed, (next.owed, .behind), step_quote_eq_behind.mpr ⟨hinside, rfl⟩,
      rfl, rfl⟩

end Literal

end LuaBytecode
