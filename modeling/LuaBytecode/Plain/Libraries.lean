import LuaBytecode.Command.Libraries
import LuaBytecode.Plain.CommandLine
import LuaBytecode.Plain.SettingsFile

/-!
# Plain libraries

Functions that the commands can be run with: for command lines and settings files as they are
usually written, for documents, and for failures in the customary wording.
-/

namespace LuaBytecode

namespace Plain

/-- The settings that the text of a plain settings file makes. -/
def readSettings (text : String) : Except String Settings :=
  match SettingsFile.read? text with
  | some s => .ok s
  | none => .error "TOML parse error"

/-- A failure on one line: its messages with colons between them. -/
def failureLine (messages : List String) : String := ": ".intercalate messages

/-- The lines of causes; a single one has no number. -/
def causeLines : List String → String
  | [] => ""
  | [cause] => s!"\n\nCaused by:\n    {cause}"
  | causes => "\n\nCaused by:" ++ String.join (causes.mapIdx fun i cause => s!"\n    {i}: {cause}")

/-- A failure at length: its headline, and the causes on lines of their own. -/
def failureReport : List String → String
  | [] => ""
  | headline :: causes => headline ++ causeLines causes

end Plain

/-- Libraries for plain input. -/
def Libraries.plain : Libraries where
  readCommandLine := CommandLine.read
  readSettings := Plain.readSettings
  writeDocument document := .ok document.pretty
  failureLine := Plain.failureLine
  failureReport := Plain.failureReport

theorem Libraries.plain_writesDocuments : plain.WritesDocuments :=
  fun document => ⟨document.pretty, rfl⟩

end LuaBytecode
