/-!
# What is asked for, and what is left behind

A command line asks for an action, and may name the settings file under which it is to be done.
When the program has ended there are its exit code and what it has written.
-/

namespace LuaBytecode

/-- What a command is to do. -/
inductive Action where
  | list (chunk : String) (codeOnly : Bool)
  | info (chunk : String) (json full : Bool)
  | check (chunks : List String) (quiet : Bool)
  | opcodes (json : Bool)
  deriving DecidableEq, Repr

/-- What a command line asks for: an action, under the settings file that is named, if one is. -/
structure Request where
  config : Option String
  action : Action
  deriving DecidableEq, Repr

/-- What the program leaves behind.  The lines of the log, which go to standard error as well, are
no part of it. -/
structure Outcome where
  exitCode : Nat
  stdout : String
  /-- What is written to standard error besides the log. -/
  report : String
  deriving DecidableEq, Repr

/-- An end without a failure. -/
def Outcome.success (stdout : String) : Outcome := ⟨0, stdout, ""⟩

end LuaBytecode
