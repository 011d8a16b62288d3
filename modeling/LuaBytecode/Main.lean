import LuaBytecode.Command.Survey
import LuaBytecode.Plain.Libraries

/-!
# The program

Looks at the places the command line can concern, runs the command on what is there, and writes what
the command leaves behind.
-/

namespace LuaBytecode.Program

/-- The wording for a file that is there and cannot be read. -/
def unreadableReason : IO.Error → String
  | .permissionDenied _ _ _ => "Permission denied (os error 13)"
  | e => toString e

/-- What there is at a path. -/
def lookAt (path : String) : IO (Option Entry) := do
  try
    let found ← IO.FS.realPath path
    if ← found.isDir then
      return some .directory
    else if ← found.pathExists then
      try
        return some (.file (← IO.FS.readBinFile path).toList)
      catch e =>
        return some (.unreadable (unreadableReason e))
    else
      return none
  catch _ => return none

/-- Looks at places. -/
def lookAtAll (places : List (List String)) : IO (List (List String × Entry)) := do
  let mut found := []
  for place in places.eraseDups do
    if let some entry ← lookAt (Site.pathOf place) then
      found := (place, entry) :: found
  return found

/-- What comes in on a stream, up to its end or until it breaks. -/
def takeAll (stream : IO.FS.Stream) : IO ByteStream := do
  let mut taken : ByteStream := []
  let mut goesOn := true
  while goesOn do
    let delivery ←
      try pure (Delivery.piece (← stream.read 65536).toList)
      catch e => pure (Delivery.broken (toString e))
    match delivery with
    | .piece [] => goesOn := false
    | .piece bytes => taken := .piece bytes :: taken
    | .broken reason =>
        taken := .broken reason :: taken
        goesOn := false
  return taken.reverse

/-- Writes what a command leaves behind and answers with its exit code. -/
def finish (outcome : Outcome) : IO UInt32 := do
  IO.print outcome.stdout
  IO.eprint outcome.report
  return UInt32.ofNat outcome.exitCode

end LuaBytecode.Program

open LuaBytecode in
/-- Runs the command line and answers with its exit code. -/
def main (words : List String) : IO UInt32 := do
  match Libraries.plain.readCommandLine words with
  | .error outcome => Program.finish outcome
  | .ok request =>
      let directory := (← IO.currentDir).toString
      let names := (directory.splitOn "/").filter (· ≠ "")
      let empty : Site := ⟨names, fun _ => none⟩
      let entries ← Program.lookAtAll (Command.places empty request)
      let site := { empty with entry? := fun place => entries.lookup place }
      let stdin ←
        if Command.readsStdin request then Program.takeAll (← IO.getStdin) else pure []
      Program.finish (Command.perform .plain site stdin request)
