import LuaBytecode.Command.Site
import LuaBytecode.Fault

/-!
# Why a command fails

A failure is told by messages: a headline and the causes below it, outermost first.  How they are
put together is not settled here.
-/

namespace LuaBytecode

/-- Why a command fails. -/
inductive Failure where
  /-- The settings file that was named is not there. -/
  | missingSettings (path : String)
  /-- The settings file cannot be read. -/
  | unreadableSettings (fault : PathFault)
  /-- The settings file is not text. -/
  | undecodableSettings
  /-- The settings file is no settings file. -/
  | malformedSettings (path : String) (reason : String)
  /-- A chunk cannot be read. -/
  | unreadableChunk (path : String) (fault : PathFault)
  /-- A chunk cannot be loaded. -/
  | malformedChunk (path : String) (e : LoadError)
  /-- The chunk on standard input cannot be loaded. -/
  | malformedInput (e : LoadError)
  /-- Some of the chunks to be checked cannot be loaded. -/
  | failedChecks (failed all : Nat)
  /-- A document cannot be written. -/
  | unwritable (reason : String)
  deriving DecidableEq, Repr

/-- What lies below a failed load: the load with its place, the cause alone, and what lies below
the cause. -/
def LoadError.causes (e : LoadError) : List String :=
  e.message :: e.fault.message :: match e.fault with
    | .brokenStream reason => [reason]
    | _ => []

namespace Failure

/-- The first message of a failure. -/
def headline : Failure → String
  | .missingSettings path => s!"Config file {path} does not exist"
  | .unreadableSettings fault => fault.message
  | .undecodableSettings => "stream did not contain valid UTF-8"
  | .malformedSettings path reason => s!"Failed to parse {path}: {reason}"
  | .unreadableChunk path _ => s!"Failed to read {path}"
  | .malformedChunk path _ => s!"Failed to load {path}"
  | .malformedInput _ => "Failed to load chunk from stdin"
  | .failedChecks failed all => s!"{failed} of {all} chunk(s) failed to load"
  | .unwritable reason => reason

/-- What lies below a failure, outermost first. -/
def causes : Failure → List String
  | .unreadableChunk _ fault => [fault.message]
  | .malformedChunk _ e => e.causes
  | .malformedInput e => e.causes
  | _ => []

/-- All messages of a failure. -/
def messages (f : Failure) : List String := f.headline :: f.causes

end Failure

end LuaBytecode
