import LuaBytecode.Command.Request

/-!
# Plain command lines

What the words of a command line ask for.  In front of the name of a command stand the switches all
commands share, behind it also those of the command; either may come before, between or behind the
paths.  A switch may be given once on each side.  Letters may be run together behind one dash, a
double dash makes everything behind it a path, and a single dash alone is a path.

Words are looked at from left to right, so asking for the version or for help answers at once, and
what is wrong behind it does not matter.
-/

namespace LuaBytecode

/-- The things a switch can turn on. -/
inductive Switch where
  | verbose
  | version
  | help
  | codeOnly
  | json
  | full
  | quiet
  deriving DecidableEq, Repr

/-- The commands. -/
inductive CommandName where
  | list
  | info
  | check
  | opcodes
  deriving DecidableEq, Repr

namespace CommandName

def ofWord? (word : String) : Option CommandName :=
  match word with
  | "list" => some .list
  | "info" => some .info
  | "check" => some .check
  | "opcodes" => some .opcodes
  | _ => none

end CommandName

namespace CommandLine

/-- The switches behind a command, or in front of all of them, by their long names. -/
def longSwitch? (command : Option CommandName) (name : String) : Option Switch :=
  match command, name with
  | _, "verbose" => some .verbose
  | _, "help" => some .help
  | none, "version" => some .version
  | some .list, "code-only" => some .codeOnly
  | some .info, "json" => some .json
  | some .info, "full" => some .full
  | some .check, "quiet" => some .quiet
  | some .opcodes, "json" => some .json
  | _, _ => none

/-- The same by their letters. -/
def shortSwitch? (command : Option CommandName) (letter : Char) : Option Switch :=
  match command, letter with
  | _, 'v' => some .verbose
  | _, 'h' => some .help
  | none, 'V' => some .version
  | some .list, 'c' => some .codeOnly
  | _, _ => none

/-- What one side of a command line has given. -/
structure Given where
  switches : List Switch
  config : Option String
  /-- The paths, last first. -/
  paths : List String
  deriving Repr

/-- Nothing yet. -/
def Given.empty : Given := ⟨[], none, []⟩

/-- A word that is neither a path nor a double dash. -/
def isOption (word : List Char) : Bool :=
  match word with
  | '-' :: _ :: _ => true
  | _ => false

/-- Why reading a command line stops early. -/
inductive Stop where
  | version
  | help
  | rejected
  deriving DecidableEq, Repr

/-- Turns a switch on, unless it is on already. -/
def Given.turnOn (g : Given) (switch : Switch) : Except Stop Given :=
  if switch = .version then .error .version
  else if switch = .help then .error .help
  else if switch ∈ g.switches then .error .rejected
  else .ok { g with switches := switch :: g.switches }

/-- Turns on the switches of letters that are run together. -/
def Given.turnOnLetters (g : Given) (command : Option CommandName) :
    List Char → Except Stop Given
  | [] => .ok g
  | letter :: letters =>
      match shortSwitch? command letter with
      | some switch => do (← g.turnOn switch).turnOnLetters command letters
      | none => .error .rejected

/-- Names the settings file, unless it has been named or the name is empty. -/
def Given.setConfig (g : Given) (path : String) : Except Stop Given :=
  if path = "" ∨ g.config.isSome then .error .rejected else .ok { g with config := some path }

/-- Takes in a path; an empty one is none. -/
def Given.addPath (g : Given) (path : String) : Except Stop Given :=
  if path = "" then .error .rejected else .ok { g with paths := path :: g.paths }

/-- Takes in several paths. -/
def Given.addPaths (g : Given) : List String → Except Stop Given
  | [] => .ok g
  | path :: rest => do (← g.addPath path).addPaths rest

/-- The value that is joined to a long option. -/
def joinedValue? (name : List Char) (word : List Char) : Option String :=
  if word.take (name.length + 1) = name ++ ['='] then
    some (String.ofList (word.drop (name.length + 1)))
  else none

/-- Takes in an option that is one word. -/
def Given.addOption (g : Given) (command : Option CommandName) :
    List Char → Except Stop Given
  | '-' :: '-' :: name =>
      match joinedValue? "config".toList name with
      | some value => g.setConfig value
      | none =>
          match longSwitch? command (String.ofList name) with
          | some switch => g.turnOn switch
          | none => .error .rejected
  | _ :: letters => g.turnOnLetters command letters
  | [] => .error .rejected

/-- Reads the words behind a command. -/
def readBehind (command : CommandName) : Given → List String → Except Stop Given
  | g, [] => .ok g
  | g, "--" :: paths => g.addPaths paths
  | g, "--config" :: rest =>
      match rest with
      | value :: rest =>
          if isOption value.toList then .error .rejected
          else do readBehind command (← g.setConfig value) rest
      | [] => .error .rejected
  | g, word :: rest =>
      if isOption word.toList then do
        readBehind command (← g.addOption (some command) word.toList) rest
      else do readBehind command (← g.addPath word) rest

/-- Reads the words in front of a command; the command and the words behind it are left. -/
def readFront : Given → List String → Except Stop (Given × CommandName × List String)
  | _, [] => .error .rejected
  | _, "--" :: _ => .error .rejected
  | g, "--config" :: rest =>
      match rest with
      | value :: rest =>
          if isOption value.toList then .error .rejected
          else do readFront (← g.setConfig value) rest
      | [] => .error .rejected
  | g, word :: rest =>
      if isOption word.toList then do
        readFront (← g.addOption none word.toList) rest
      else
        match CommandName.ofWord? word with
        | some command => .ok (g, command, rest)
        | none => .error (if word = "help" then .help else .rejected)

/-- What a command and what was given behind it ask for, if they fit. -/
def action? (command : CommandName) (g : Given) : Option Action :=
  let has (switch : Switch) : Bool := switch ∈ g.switches
  match command, g.paths.reverse with
  | .list, [chunk] => some (.list chunk (has .codeOnly))
  | .info, [chunk] =>
      if has .full && !has .json then none else some (.info chunk (has .json) (has .full))
  | .check, chunk :: chunks => some (.check (chunk :: chunks) (has .quiet))
  | .opcodes, [] => some (.opcodes (has .json))
  | _, _ => none

/-- Both sides of a command line; what is given behind the command goes before what is given in
front of it. -/
def readAll (words : List String) : Except Stop Request := do
  let (front, command, rest) ← readFront .empty words
  let behind ← readBehind command .empty rest
  match action? command behind with
  | some action => .ok ⟨behind.config.or front.config, action⟩
  | none => .error .rejected

/-- The name and number of the program. -/
def versionText : String := "luac-inspect 0.1.0\n"

/-- How the program is used. -/
def usageText : String :=
  "Usage: luac-inspect [--config PATH] [-v] COMMAND\n\nCommands:\n" ++
  "  list [-c] CHUNK\n  info [--json [--full]] CHUNK\n  check [--quiet] CHUNK...\n" ++
  "  opcodes [--json]\n"

/-- How the program ends without doing anything. -/
def Stop.outcome : Stop → Outcome
  | .version => .success versionText
  | .help => .success usageText
  | .rejected => ⟨2, "", usageText⟩

/-- What a command line asks for, or how the program ends because of it. -/
def read (words : List String) : Except Outcome Request :=
  match readAll words with
  | .ok request => .ok request
  | .error stop => .error stop.outcome

end CommandLine

end LuaBytecode
