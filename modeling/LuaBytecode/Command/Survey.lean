import LuaBytecode.Command.Run

/-!
# What a command looks at

A command can only look at places on the way along the paths it is given and at the settings files
around its working directory.  `Command.places` lists them all before the command runs, so a
program can look at each once and then run the command on what it found.
-/

namespace LuaBytecode

namespace Site

/-- The places on the way along names, with the first and the last. -/
def placesAlong (place : List String) : List String → List (List String)
  | [] => [place]
  | name :: names => place :: placesAlong (step place name) names

/-- The places on the way along a path. -/
def placesOf (site : Site) (path : String) : List (List String) :=
  placesAlong (site.origin path) (names path)

end Site

/-- The paths of the chunks of an action. -/
def Action.chunks : Action → List String
  | .list chunk _ => [chunk]
  | .info chunk _ _ => [chunk]
  | .check chunks _ => chunks
  | .opcodes _ => []

namespace Command

/-- The places where settings files are searched. -/
def settingsPlaces (site : Site) : List (List String) :=
  (Site.ancestors site.workingDirectory).flatMap fun place =>
    settingsNames.map fun name => place ++ [name]

/-- The places that a request looks at. -/
def places (site : Site) (request : Request) : List (List String) :=
  (match request.config with
    | some path => site.placesOf path
    | none => settingsPlaces site) ++
  (request.action.chunks.filter (· ≠ stdinPath)).flatMap site.placesOf

/-- A request that reads standard input. -/
def readsStdin (request : Request) : Bool := request.action.chunks.any (· = stdinPath)

end Command

end LuaBytecode
