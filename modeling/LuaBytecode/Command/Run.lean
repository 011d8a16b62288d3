import LuaBytecode.Command.Failure
import LuaBytecode.Command.Libraries
import LuaBytecode.Command.OpcodeTable
import LuaBytecode.Command.Summary
import LuaBytecode.Chunk.Stream

/-!
# Running a command

What a command line writes and how it ends, given the libraries, where it runs and what comes in on
standard input.  The settings come first: if they are wrong nothing else happens.  They are taken
from the file that is named, and otherwise from the nearest one, searching the working directory and
the directories around it from the inside out.
-/

namespace LuaBytecode

/-- An end with a report, after `stdout` was written. -/
def Outcome.failure (lib : Libraries) (stdout : String) (f : Failure) : Outcome :=
  ⟨1, stdout, "Error: " ++ lib.failureReport f.messages ++ "\n"⟩

namespace Command

/-! ## Settings -/

/-- The names of settings files; where a directory has both, the first counts. -/
def settingsNames : List String := ["luac-inspect.toml", ".luac-inspect.toml"]

/-- The settings file of a directory. -/
def settingsIn? (site : Site) (place : List String) : Option (List String) :=
  (settingsNames.map fun name => place ++ [name]).find? fun place => (site.entry? place).isSome

/-- The nearest settings file. -/
def nearestSettings? (site : Site) : Option (List String) :=
  (Site.ancestors site.workingDirectory).findSome? (settingsIn? site)

/-- A settings file: how it is written, and what reading it gives. -/
structure SettingsSource where
  path : String
  content : Except PathFault Bytes

/-- The settings file that counts. -/
def settingsSource? (site : Site) (named : Option String) :
    Except Failure (Option SettingsSource) :=
  match named with
  | some path =>
      if site.exists? path then .ok (some ⟨path, site.readFile path⟩)
      else .error (.missingSettings path)
  | none =>
      .ok ((nearestSettings? site).map fun place => ⟨Site.pathOf place, site.readPlace place⟩)

/-- The settings in a file. -/
def SettingsSource.read (lib : Libraries) (source : SettingsSource) : Except Failure Settings :=
  match source.content with
  | .error fault => .error (.unreadableSettings fault)
  | .ok content =>
      match Utf8.strict? content with
      | none => .error .undecodableSettings
      | some text =>
          match lib.readSettings text with
          | .error reason => .error (.malformedSettings source.path reason)
          | .ok settings => .ok settings

/-- The settings that count. -/
def settings (lib : Libraries) (site : Site) (named : Option String) : Except Failure Settings :=
  match settingsSource? site named with
  | .error f => .error f
  | .ok (some source) => source.read lib
  | .ok none => .ok .standard

/-! ## Chunks -/

/-- The path that stands for standard input. -/
def stdinPath : String := "-"

/-- The chunk a path leads to; `stdin` is what is left of standard input. -/
def loadChunk (site : Site) (s : LoaderSettings) (stdin : ByteStream) (path : String) :
    Except Failure Prototype :=
  if path = stdinPath then
    match loadStream s stdin with
    | .error e => .error (.malformedInput e)
    | .ok main => .ok main
  else
    match site.readFile path with
    | .error fault => .error (.unreadableChunk path fault)
    | .ok content =>
        match load s content with
        | .error e => .error (.malformedChunk path e)
        | .ok main => .ok main

/-! ## Checking -/

/-- The line of a chunk that was loaded. -/
def okLine (path : String) (functions : Nat) : String :=
  s!"ok      {path} ({functions} functions)\n"

/-- The line of a chunk that was not. -/
def errorLine (lib : Libraries) (path : String) (f : Failure) : String :=
  s!"error   {path}: {lib.failureLine f.messages}\n"

/-- How far checking has come. -/
structure CheckProgress where
  /-- What is left of standard input. -/
  stdin : ByteStream
  /-- What has been written. -/
  stdout : String
  /-- How many chunks were not loaded. -/
  failed : Nat
  deriving DecidableEq, Repr

namespace CheckProgress

/-- Nothing has been checked. -/
def start (stdin : ByteStream) : CheckProgress := ⟨stdin, "", 0⟩

/-- Checks one more chunk; the first that comes from standard input takes all of it. -/
def step (lib : Libraries) (site : Site) (s : LoaderSettings) (quiet : Bool)
    (progress : CheckProgress) (path : String) : CheckProgress :=
  let stdin := if path = stdinPath then progress.stdin.spent else progress.stdin
  match loadChunk site s progress.stdin path with
  | .ok main =>
      let line := if quiet then "" else okLine path main.descendants.length
      ⟨stdin, progress.stdout ++ line, progress.failed⟩
  | .error f => ⟨stdin, progress.stdout ++ errorLine lib path f, progress.failed + 1⟩

end CheckProgress

/-- Checks chunks in order and goes on whatever is found. -/
def check (lib : Libraries) (site : Site) (s : LoaderSettings) (quiet : Bool) (stdin : ByteStream)
    (paths : List String) : Outcome :=
  let progress := paths.foldl (CheckProgress.step lib site s quiet) (.start stdin)
  if progress.failed = 0 then .success progress.stdout
  else .failure lib progress.stdout (.failedChecks progress.failed paths.length)

/-! ## All commands -/

/-- Writes a document. -/
def present (lib : Libraries) (document : Json) : Outcome :=
  match lib.writeDocument document with
  | .error reason => .failure lib "" (.unwritable reason)
  | .ok text => .success (text ++ "\n")

/-- Runs an action under settings. -/
def act (lib : Libraries) (site : Site) (s : Settings) (stdin : ByteStream) : Action → Outcome
  | .list chunk codeOnly =>
      match loadChunk site s.loader stdin chunk with
      | .error f => .failure lib "" f
      | .ok main => .success (Listing.render (if codeOnly then .codeOnly else s.listing) main)
  | .info chunk json full =>
      match loadChunk site s.loader stdin chunk with
      | .error f => .failure lib "" f
      | .ok main =>
          let summary := Summary.ofPrototype main
          if json then present lib (summary.document (if full then some main else none))
          else .success summary.text
  | .check chunks quiet => check lib site s.loader quiet stdin chunks
  | .opcodes json => if json then present lib OpcodeTable.document else .success OpcodeTable.text

/-- Does what is asked for. -/
def perform (lib : Libraries) (site : Site) (stdin : ByteStream) (request : Request) : Outcome :=
  match settings lib site request.config with
  | .error f => .failure lib "" f
  | .ok s => act lib site s stdin request.action

/-- Runs a command line. -/
def run (lib : Libraries) (site : Site) (stdin : ByteStream) (words : List String) : Outcome :=
  match lib.readCommandLine words with
  | .error outcome => outcome
  | .ok request => perform lib site stdin request

end Command

end LuaBytecode
