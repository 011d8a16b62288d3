import LuaBytecode.Command.Account
import LuaBytecode.Command.Verdict
import LuaBytecode.Plain.Libraries
import LuaBytecode.Proofs.Chunk.Diagnosis
import LuaBytecode.Proofs.Chunk.Stream
import LuaBytecode.Proofs.Prototype.Walk
import LuaBytecode.Proofs.Text.Numeral
import Mathlib.Data.List.Induction

/-!
# Checking reports every verdict

The loop over the paths carries what is left of standard input, what it has written and how many
chunks have failed.  Behind any number of paths these three are told by the verdicts on the paths
so far, so an outcome is told by all verdicts: the loop never stops early, counts alike whether it
is quiet or not, and gives standard input to the first that asks for it.

* `loadChunk_eq_ok_iff` — a chunk is loaded from what its path brings and from nothing else.
* `result_verdictOn` — a verdict says what loading gave, in the same messages.
* **`step_eq`**, **`foldl_step`** — what one path does, and what a run of paths has done.
* `filter_verdicts` — the verdicts on files do not depend on what stands around them.
* `isOk_verdictOn_spent` — standard input has no second chunk.
* **`check_reports`** — checking leaves behind what the verdicts say.
-/

namespace LuaBytecode

/-- What lies below a load of bytes that failed: no stream can have broken. -/
theorem causes_of_load_error {s : LoaderSettings} {bytes : Bytes} {e : LoadError}
    (h : load s bytes = .error e) : e.causes = [e.message, e.fault.message] := by
  obtain ⟨c, hrun⟩ := load_eq_error_iff.mp h
  have htrue := Reading.failsWith_chunk s bytes
  rw [hrun] at htrue
  obtain ⟨fault, field, depth, offset⟩ := e
  cases fault with
  | brokenStream reason => exact htrue.2.2.elim
  | _ => rfl

namespace Command

section

variable (lib : Libraries) (site : Site) (s : LoaderSettings) (stdin : ByteStream)

/-! ## One path -/

theorem loadChunk_eq_ok_iff {path : String} {main : Prototype} :
    loadChunk site s stdin path = .ok main ↔
      ∃ content, contentOf? site stdin path = some content ∧ load s content = .ok main := by
  unfold loadChunk contentOf? stdinPath loadStream
  split_ifs with hpath
  · cases stdin.collect with
    | error reason => simp [Except.toOption]
    | ok bytes =>
        simp only [Except.toOption, Option.some.injEq, exists_eq_left']
        cases load s bytes <;> simp
  · cases site.readFile path with
    | error fault => simp [Except.toOption]
    | ok bytes =>
        simp only [Except.toOption, Option.some.injEq, exists_eq_left']
        cases load s bytes <;> simp

theorem result_ofBytes (path headline : String) (bytes : Bytes) :
    (Verdict.ofBytes s path headline bytes).result =
      match load s bytes with
      | .ok main => .ok main.functionCount
      | .error e => .error (headline :: e.causes) := by
  unfold Verdict.ofBytes
  cases hload : load s bytes with
  | ok main => rfl
  | error e =>
      dsimp only
      rw [causes_of_load_error hload]

/-- How a stream that breaks is worded, with the place that stands for all of it. -/
theorem message_brokenStream (reason : String) :
    LoadError.message ⟨.brokenStream reason, .input, 0, 0⟩
      = s!"IO error: {reason} (while reading input at depth 0, byte 0)" := by
  have hplace : " (while reading " ++ (ChunkField.input.name ++ (" at depth " ++ (toString 0 ++
      (", byte " ++ (toString 0 ++ ")"))))) = " (while reading input at depth 0, byte 0)" := by
    decide
  -- unfolding by their equations would compare whole texts
  delta LoadError.message Fault.message
  simp only [toString_text, String.append_assoc, hplace]

/-- **A verdict says what loading gave**: how many functions there are, or the messages of the
failure. -/
theorem result_verdictOn (path : String) :
    (verdictOn site s stdin path).result =
      match loadChunk site s stdin path with
      | .ok main => .ok main.functionCount
      | .error f => .error f.messages := by
  unfold verdictOn loadChunk stdinPath loadStream
  split_ifs with hpath
  · cases stdin.collect with
    | error reason =>
        rw [Verdict.ofInput, ← message_brokenStream]
        rfl
    | ok bytes =>
        rw [Verdict.ofInput, result_ofBytes]
        dsimp only
        cases load s bytes <;> rfl
  · cases site.readFile path with
    | error fault => rfl
    | ok bytes =>
        rw [Verdict.ofFile, result_ofBytes]
        dsimp only
        cases load s bytes <;> rfl

/-- How far checking has come behind one more verdict: its record is written, unless it is to be
left out, a failure is counted, and standard input is used up if it was asked for. -/
def CheckProgress.behind (quiet : Bool) (progress : CheckProgress) (v : Verdict) :
    CheckProgress :=
  ⟨if v.path = "-" then progress.stdin.spent else progress.stdin,
    progress.stdout ++ if quiet && v.isOk then "" else v.record lib,
    progress.failed + if v.isOk then 0 else 1⟩

/-- **What one path does** is told by the verdict on it. -/
theorem step_eq (quiet : Bool) (progress : CheckProgress) (path : String) :
    progress.step lib site s quiet path
      = progress.behind lib quiet (verdictOn site s progress.stdin path) := by
  have hresult := result_verdictOn site s progress.stdin path
  have hpath := path_verdictOn site s progress.stdin path
  generalize verdictOn site s progress.stdin path = v at hresult hpath
  unfold CheckProgress.step CheckProgress.behind Verdict.isOk Verdict.record stdinPath
  cases hload : loadChunk site s progress.stdin path with
  | ok main =>
      rw [hload] at hresult
      simp only [hresult, hpath, Prototype.length_descendants, okLine, Bool.and_true, if_true,
        Nat.add_zero]
  | error f =>
      rw [hload] at hresult
      simp only [hresult, hpath, errorLine, Bool.and_false, Bool.false_eq_true, if_false]

/-! ## A run of paths -/

theorem verdicts_concat (paths : List String) (path : String) :
    verdicts site s stdin (paths ++ [path]) = verdicts site s stdin paths ++
      [verdictOn site s (leftBehind stdin paths) path] := by
  unfold verdicts
  rw [List.mapIdx_concat, List.take_left]
  congr 1
  refine List.mapIdx_eq_mapIdx_iff.mpr fun i hi => ?_
  rw [List.take_append_of_le_length (Nat.le_of_lt hi)]

theorem spent_spent : stdin.spent.spent = stdin.spent := by
  rw [ByteStream.spent, ByteStream.collect_spent, ByteStream.spent]
  cases stdin.collect <;> rfl

theorem leftBehind_concat (paths : List String) (path : String) :
    leftBehind stdin (paths ++ [path])
      = if path = "-" then (leftBehind stdin paths).spent else leftBehind stdin paths := by
  unfold leftBehind
  by_cases h : path = "-"
  · subst h
    split_ifs <;> simp_all [spent_spent]
  · simp [h, eq_comm]

/-- How far checking has come if these are the verdicts so far. -/
def CheckProgress.told (quiet : Bool) (left : ByteStream) (vs : List Verdict) : CheckProgress :=
  ⟨left, String.join ((vs.filter fun v => !(quiet && v.isOk)).map (Verdict.record lib)),
    (vs.filter (!·.isOk)).length⟩

theorem behind_told (quiet : Bool) (left : ByteStream) (vs : List Verdict) (v : Verdict) :
    (CheckProgress.told lib quiet left vs).behind lib quiet v
      = .told lib quiet (if v.path = "-" then left.spent else left) (vs ++ [v]) := by
  unfold CheckProgress.told CheckProgress.behind
  rw [List.filter_append, List.filter_append, List.map_append, String.join_append,
    List.length_append]
  cases quiet <;> cases hv : v.isOk <;> simp [hv]

/-- **What a run of paths has done** is told by the verdicts on them.  The induction takes the last
path off, since what a path finds depends on the paths in front of it. -/
theorem foldl_step (quiet : Bool) (paths : List String) :
    paths.foldl (CheckProgress.step lib site s quiet) (.start stdin)
      = .told lib quiet (leftBehind stdin paths) (verdicts site s stdin paths) := by
  induction paths using List.reverseRecOn with
  | nil => rfl
  | append_singleton paths path ih =>
      rw [List.foldl_append, List.foldl_cons, List.foldl_nil, ih, step_eq, behind_told,
        verdicts_concat, leftBehind_concat, path_verdictOn]
      rfl

theorem getElem?_verdicts {paths : List String} {i : Nat} {path : String}
    (h : paths[i]? = some path) :
    (verdicts site s stdin paths)[i]?
      = some (verdictOn site s (leftBehind stdin (paths.take i)) path) := by
  rw [verdicts, List.getElem?_mapIdx, h]
  rfl

/-- **The verdicts on files are those on each file alone**, whatever stands around them. -/
theorem filter_verdicts (paths : List String) :
    (verdicts site s stdin paths).filter (·.path ≠ "-") =
      (paths.filter (· ≠ "-")).map fun path => .ofFile s path (site.readFile path) := by
  induction paths using List.reverseRecOn with
  | nil => rfl
  | append_singleton paths path ih =>
      rw [verdicts_concat, List.filter_append, List.filter_append, List.map_append, ih]
      congr 1
      by_cases h : path = "-" <;> simp [verdictOn, h]

/-- **Standard input has no second chunk**: what is left of it has no bytes, or is as broken as it
was. -/
theorem isOk_verdictOn_spent : (verdictOn site s stdin.spent "-").isOk = false := by
  have hnil : ∃ e, load s [] = .error e := by
    obtain ⟨withSizes, maxDepth⟩ := s
    cases withSizes <;> exact ⟨_, rfl⟩
  obtain ⟨e, he⟩ := hnil
  rw [Verdict.isOk, verdictOn, if_pos rfl, ByteStream.collect_spent]
  cases stdin.collect with
  | error reason => rfl
  | ok bytes => simp [Verdict.ofInput, Verdict.ofBytes, he, Functor.map, Except.map]

end

/-! ## The outcome -/

/-- What checking leaves behind if these are the verdicts, in order. -/
structure Reports (lib : Libraries) (verdicts : List Verdict) (run : (quiet : Bool) → Outcome) :
    Prop where
  /-- A record for each verdict. -/
  stdout : (run false).stdout = String.join (verdicts.map (Verdict.record lib))
  /-- The same without the records of what was loaded. -/
  quietStdout : (run true).stdout
    = String.join ((verdicts.filter (!·.isOk)).map (Verdict.record lib))
  /-- It ends well if everything was loaded. -/
  success : ∀ quiet, (∀ v ∈ verdicts, v.isOk = true) →
    (run quiet).exitCode = 0 ∧ (run quiet).report = ""
  /-- Otherwise it tells how many were not. -/
  failure : ∀ quiet, (∃ v ∈ verdicts, v.isOk = false) →
    (run quiet).exitCode = 1 ∧
    (run quiet).report = "Error: " ++ lib.failureReport
      [s!"{(verdicts.filter (!·.isOk)).length} of {verdicts.length} chunk(s) failed to load"] ++
      "\n"

section

variable (lib : Libraries) (site : Site) (s : LoaderSettings) (stdin : ByteStream)
  (paths : List String)

theorem check_eq (quiet : Bool) :
    check lib site s quiet stdin paths =
      let vs := verdicts site s stdin paths
      let stdout := String.join ((vs.filter fun v => !(quiet && v.isOk)).map (Verdict.record lib))
      let failed := (vs.filter (!·.isOk)).length
      if failed = 0 then .success stdout
      else .failure lib stdout (.failedChecks failed vs.length) := by
  have hlength : (verdicts site s stdin paths).length = paths.length := List.length_mapIdx
  rw [check, foldl_step, ← hlength]
  rfl

theorem reports_check :
    Reports lib (verdicts site s stdin paths) (check lib site s · stdin paths) := by
  have hcheck := fun quiet => check_eq lib site s stdin paths quiet
  generalize verdicts site s stdin paths = vs at hcheck
  have hstdout : ∀ quiet, (check lib site s quiet stdin paths).stdout
      = String.join ((vs.filter fun v => !(quiet && v.isOk)).map (Verdict.record lib)) := by
    intro quiet
    rw [hcheck]
    dsimp only
    split_ifs <;> rfl
  constructor
  · have hall : vs.filter (fun v => !(false && v.isOk)) = vs :=
      List.filter_eq_self.mpr fun _ _ => rfl
    rw [hstdout, hall]
  · exact hstdout true
  · intro quiet hall
    have hnone : (vs.filter (!·.isOk)).length = 0 := by simpa [List.filter_eq_nil_iff] using hall
    rw [hcheck, if_pos hnone]
    exact ⟨rfl, rfl⟩
  · intro quiet hnot
    have hsome : (vs.filter (!·.isOk)).length ≠ 0 := by
      simpa [List.filter_eq_nil_iff] using hnot
    rw [hcheck, if_neg hsome]
    exact ⟨rfl, rfl⟩

end

/-- **Checking leaves behind what the verdicts say.**  There is a verdict on each path, in order.
That on a file is told by its content alone, so putting the paths in another order puts those
verdicts in another order.  The first that asks for standard input gets all of it, and there is
nothing in it for the others to load. -/
theorem check_reports {lib : Libraries} {site : Site} {named : Option String} {s : Settings}
    (hs : settings lib site named = .ok s) (stdin : ByteStream) (paths : List String) :
    Reports lib (verdicts site s.loader stdin paths)
      (fun quiet => perform lib site stdin ⟨named, .check paths quiet⟩) ∧
    (verdicts site s.loader stdin paths).map (·.path) = paths ∧
    (∀ (i : Nat) (path : String), paths[i]? = some path → path ≠ "-" →
      (verdicts site s.loader stdin paths)[i]?
        = some (.ofFile s.loader path (site.readFile path))) ∧
    (∀ i : Nat, paths[i]? = some "-" → "-" ∉ paths.take i →
      (verdicts site s.loader stdin paths)[i]? = some (.ofInput s.loader stdin.collect)) ∧
    (∀ i : Nat, paths[i]? = some "-" → "-" ∈ paths.take i →
      ∃ v, (verdicts site s.loader stdin paths)[i]? = some v ∧ v.isOk = false) ∧
    ∀ paths', paths.Perm paths' →
      ((verdicts site s.loader stdin paths).filter (·.path ≠ "-")).Perm
        ((verdicts site s.loader stdin paths').filter (·.path ≠ "-")) := by
  refine ⟨?_, ?_, ?_, ?_, ?_, ?_⟩
  · have hperform : ∀ quiet, perform lib site stdin ⟨named, .check paths quiet⟩
        = check lib site s.loader quiet stdin paths := fun quiet => by rw [perform, hs]; rfl
    simp only [hperform]
    exact reports_check lib site s.loader stdin paths
  · refine List.ext_getElem (by simp [verdicts]) fun i _ _ => ?_
    simp [verdicts]
  · intro i path hpath hfile
    rw [getElem?_verdicts _ _ _ hpath, verdictOn, if_neg hfile]
  · intro i hpath hfirst
    rw [getElem?_verdicts _ _ _ hpath, verdictOn, if_pos rfl, leftBehind, if_neg hfirst]
  · intro i hpath hlater
    refine ⟨_, getElem?_verdicts _ _ _ hpath, ?_⟩
    rw [leftBehind, if_pos hlater]
    exact isOk_verdictOn_spent site s.loader stdin
  · intro paths' hperm
    rw [filter_verdicts, filter_verdicts]
    exact (hperm.filter _).map _

/-- The bytes of a chunk without anything in it. -/
def bareInput : Bytes :=
  Prologue.encode false ++
    [0, 0x80, 0x80, 0x80, 0, 0, 2, 0x80, 0x80, 0x80, 0x80, 0x80, 0x80, 0x80, 0x80]

/-- A directory with one file and no settings. -/
def siteWith (content : Bytes) : Site where
  workingDirectory := ["w"]
  entry? place :=
    if place = [] ∨ place = ["w"] then some .directory
    else if place = ["w", "a"] then some (.file content)
    else none

theorem settings_siteWith (content : Bytes) :
    settings .plain (siteWith content) none = .ok .standard :=
  rfl

/-- Standard input has a chunk, the file has one, and standard input is asked for once more: the
third verdict alone is a failure, and all that is written if it is to be quiet. -/
theorem check_reports_stdinTwice :
    settings .plain (siteWith bareInput) none = .ok .standard ∧
    (perform .plain (siteWith bareInput) [.piece bareInput]
      ⟨none, .check ["-", "a", "-"] false⟩).stdout =
        "ok      - (1 functions)\nok      a (1 functions)\n" ++
        "error   -: Failed to load chunk from stdin: " ++
        "Unexpected end of input at offset 0: need 4 byte(s), 0 left " ++
        "(while reading header at depth 0, byte 0): " ++
        "Unexpected end of input at offset 0: need 4 byte(s), 0 left\n" ∧
    (perform .plain (siteWith bareInput) [.piece bareInput]
      ⟨none, .check ["-", "a", "-"] true⟩).stdout =
        "error   -: Failed to load chunk from stdin: " ++
        "Unexpected end of input at offset 0: need 4 byte(s), 0 left " ++
        "(while reading header at depth 0, byte 0): " ++
        "Unexpected end of input at offset 0: need 4 byte(s), 0 left\n" ∧
    (perform .plain (siteWith bareInput) [.piece bareInput]
      ⟨none, .check ["-", "a", "-"] true⟩).exitCode = 1 ∧
    (perform .plain (siteWith bareInput) [.piece bareInput]
      ⟨none, .check ["-", "a", "-"] true⟩).report = "Error: 1 of 3 chunk(s) failed to load\n" := by
  have hs : settings .plain (siteWith bareInput) none = .ok .standard := settings_siteWith bareInput
  obtain ⟨hreports, -⟩ := check_reports hs [.piece bareInput] ["-", "a", "-"]
  have hverdicts : verdicts (siteWith bareInput) Settings.standard.loader [.piece bareInput]
      ["-", "a", "-"] = [⟨"-", .ok 1⟩, ⟨"a", .ok 1⟩, ⟨"-", .error
        ["Failed to load chunk from stdin",
          LoadError.message ⟨.unexpectedEnd 0 4 0, .prologue, 0, 0⟩,
          Fault.message (.unexpectedEnd 0 4 0)]⟩] := rfl
  rw [hverdicts] at hreports
  obtain ⟨hcode, hreport⟩ := hreports.failure true ⟨_, .tail _ (.tail _ (.head _)), rfl⟩
  refine ⟨hs, hreports.stdout.trans ?_, hreports.quietStdout.trans ?_, hcode, hreport.trans ?_⟩
  · decide +kernel
  · decide +kernel
  · decide

end Command

end LuaBytecode
