import LuaBytecode.Command.Survey

/-!
# Which settings count

Which settings a command runs under, said without a search.  A file that is named counts, wherever
it is and whatever else there is.  Without a name the innermost directory counts, among the working
directory and those around it, that has something by the name of a settings file, whether or not
that can be read; in one directory the name without a dot goes before the other.  If there is no
such directory, the standard settings count.

What counts is then used or it is not: there are five ways for it to be wrong, and nothing takes its
place.
-/

namespace LuaBytecode

namespace Command

/-- A directory has something by the name of a settings file. -/
def HoldsSettings (site : Site) (directory : List String) : Prop :=
  ∃ name ∈ settingsNames, ∃ entry, site.entry? (directory ++ [name]) = some entry

/-- What a directory has by the name of a settings file, and which name that is. -/
inductive SettingsOf (site : Site) (directory : List String) : (name : String) → Entry → Prop
  | plain {entry : Entry} (h : site.entry? (directory ++ ["luac-inspect.toml"]) = some entry) :
      SettingsOf site directory "luac-inspect.toml" entry
  | dotted {entry : Entry} (hplain : site.entry? (directory ++ ["luac-inspect.toml"]) = none)
      (h : site.entry? (directory ++ [".luac-inspect.toml"]) = some entry) :
      SettingsOf site directory ".luac-inspect.toml" entry

/-- Of the working directory and those around it, none inside this one has anything by the name of
a settings file. -/
def BareInside (site : Site) (directory : List String) : Prop :=
  ∀ inner, inner <+: site.workingDirectory → HoldsSettings site inner → inner <+: directory

/-- The settings file that counts: how it is written, and what is found there. -/
inductive Counts (site : Site) :
    (named : Option String) → (path : String) → (found : Except PathFault Entry) → Prop
  | named (path : String) : Counts site (some path) path (site.find path)
  | nearest {directory : List String} {name : String} {entry : Entry}
      (haround : directory <+: site.workingDirectory) (hinside : BareInside site directory)
      (h : SettingsOf site directory name entry) :
      Counts site none (Site.pathOf (directory ++ [name])) (.ok entry)

/-- What can be wrong with the settings file that counts, by what is found there, and the message
that tells it. -/
inductive Flaw (lib : Libraries) (path : String) :
    (found : Except PathFault Entry) → (message : String) → Prop
  | missing (fault : PathFault) : Flaw lib path (.error fault) s!"Config file {path} does not exist"
  | directory : Flaw lib path (.ok .directory) "Is a directory (os error 21)"
  | unreadable (reason : String) : Flaw lib path (.ok (.unreadable reason)) reason
  /-- The content encodes no text. -/
  | notText {content : Bytes} (h : ∀ text, Utf8.encode text ≠ content) :
      Flaw lib path (.ok (.file content)) "stream did not contain valid UTF-8"
  /-- The text is none of a settings file. -/
  | notSettings {text reason : String} (h : lib.readSettings text = .error reason) :
      Flaw lib path (.ok (.file (Utf8.encode text))) s!"Failed to parse {path}: {reason}"

/-- What is found is a file whose text makes these settings. -/
inductive Makes (lib : Libraries) : (found : Except PathFault Entry) → Settings → Prop
  | file {text : String} {s : Settings} (h : lib.readSettings text = .ok s) :
      Makes lib (.ok (.file (Utf8.encode text))) s

/-- The places that have a part in which settings count: those on the way along the path of the file
that is named; without a name those of the settings files of each directory, from the inside out, up
to the first that has one. -/
inductive Consulted (site : Site) : (named : Option String) → (place : List String) → Prop
  | along {path : String} {place : List String} (h : place ∈ site.placesOf path) :
      Consulted site (some path) place
  | searched {directory : List String} {name : String}
      (haround : directory <+: site.workingDirectory) (hinside : BareInside site directory)
      (hname : name ∈ settingsNames) : Consulted site none (directory ++ [name])

end Command

end LuaBytecode
