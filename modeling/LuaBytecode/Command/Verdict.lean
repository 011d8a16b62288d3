import LuaBytecode.Command.Run

/-!
# Verdicts

What there is to say of the chunks that are checked, without a loop: the verdict on a file is a
function of its path and its content, and that on standard input of what the paths in front of it
have left there.  A verdict has a record of one line.
-/

namespace LuaBytecode

/-- What was found of one chunk. -/
structure Verdict where
  path : String
  /-- How many functions it has, or the messages of why it was not loaded, the outermost first. -/
  result : Except (List String) Nat

namespace Verdict

/-- The chunk was loaded. -/
def isOk (v : Verdict) : Bool :=
  match v.result with
  | .ok _ => true
  | .error _ => false

/-- The record of a verdict: the path with the number of functions, or with the reason. -/
def record (lib : Libraries) (v : Verdict) : String :=
  match v.result with
  | .ok functions => s!"ok      {v.path} ({functions} functions)\n"
  | .error messages => s!"error   {v.path}: {lib.failureLine messages}\n"

/-- The verdict on bytes; `headline` is what is said of them in the first place if they are no
chunk. -/
def ofBytes (s : LoaderSettings) (path headline : String) (bytes : Bytes) : Verdict where
  path
  result :=
    match load s bytes with
    | .ok main => .ok main.functionCount
    | .error e => .error [headline, e.message, e.fault.message]

/-- The verdict on a file, by what is read there. -/
def ofFile (s : LoaderSettings) (path : String) : (content : Except PathFault Bytes) → Verdict
  | .ok bytes => ofBytes s path s!"Failed to load {path}" bytes
  | .error fault => ⟨path, .error [s!"Failed to read {path}", fault.message]⟩

/-- The verdict on standard input, by what is taken from it. -/
def ofInput (s : LoaderSettings) : (content : Except String Bytes) → Verdict
  | .ok bytes => ofBytes s "-" "Failed to load chunk from stdin" bytes
  | .error reason =>
      ⟨"-", .error ["Failed to load chunk from stdin",
        s!"IO error: {reason} (while reading input at depth 0, byte 0)", s!"IO error: {reason}",
        reason]⟩

@[simp] theorem path_ofFile (s : LoaderSettings) (path : String)
    (content : Except PathFault Bytes) : (ofFile s path content).path = path := by
  cases content <;> rfl

@[simp] theorem path_ofInput (s : LoaderSettings) (content : Except String Bytes) :
    (ofInput s content).path = "-" := by
  cases content <;> rfl

end Verdict

namespace Command

/-- What some paths leave of standard input: the first dash takes all of it. -/
def leftBehind (stdin : ByteStream) (paths : List String) : ByteStream :=
  if "-" ∈ paths then stdin.spent else stdin

/-- The verdict on one path; `stdin` is what is left of standard input. -/
def verdictOn (site : Site) (s : LoaderSettings) (stdin : ByteStream) (path : String) : Verdict :=
  if path = "-" then .ofInput s stdin.collect else .ofFile s path (site.readFile path)

@[simp] theorem path_verdictOn (site : Site) (s : LoaderSettings) (stdin : ByteStream)
    (path : String) : (verdictOn site s stdin path).path = path := by
  rw [verdictOn]
  split
  · rename_i h
    rw [Verdict.path_ofInput, h]
  · exact Verdict.path_ofFile s path _

/-- The verdicts on several paths in order. -/
def verdicts (site : Site) (s : LoaderSettings) (stdin : ByteStream) (paths : List String) :
    List Verdict :=
  paths.mapIdx fun i path => verdictOn site s (leftBehind stdin (paths.take i)) path

end Command

end LuaBytecode
