import LuaBytecode.Command.Request
import LuaBytecode.Command.Settings
import LuaBytecode.Json

/-!
# What the commands do not do themselves

Command lines, settings files and documents are in formats that others have laid down, and others
read and write them; also the wording of a failure, from its messages, is a matter of custom.
`Libraries` is the functions that do this.  The commands take them as they are, so what is said of
the commands is said for any of them; where more is needed of one, it is named here.
-/

namespace LuaBytecode

/-- The functions that read and write for the commands. -/
structure Libraries where
  /-- What the words of a command line ask for; or how the program ends at once, because they ask
  for its version or for help, or cannot be understood. -/
  readCommandLine : (words : List String) → Except Outcome Request
  /-- The settings that the text of a settings file makes, or what is wrong with it. -/
  readSettings : (text : String) → Except String Settings
  /-- The text of a document, spread over lines, or why it has none. -/
  writeDocument : (document : Json) → Except String String
  /-- A failure on one line, from its messages, the outermost first. -/
  failureLine : (messages : List String) → String
  /-- A failure at length, from the same messages. -/
  failureReport : (messages : List String) → String

/-- Every document has a text: a writer only fails on values that refuse to be written and on
members whose names are no texts, and documents have neither. -/
def Libraries.WritesDocuments (lib : Libraries) : Prop :=
  ∀ document, ∃ text, lib.writeDocument document = .ok text

end LuaBytecode
