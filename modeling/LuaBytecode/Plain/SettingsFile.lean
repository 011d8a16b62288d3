import LuaBytecode.Command.Settings

/-!
# Plain settings files

The part of TOML that settings files are usually written in: sections, and in each of them a line
for each value that is assigned.

```
[loader]
check_type_sizes = true   # a comment
max_depth = 16
```

A section and a name in it may occur once.  What is not written this way is not understood, also
where TOML has other ways to write the same: dotted and quoted names, tables on one line.
-/

namespace LuaBytecode

namespace SettingsFile

/-! ## Words -/

/-- A blank inside a line. -/
def isBlank (c : Char) : Bool := c = ' ' || c = '\t'

def skipBlanks (cs : List Char) : List Char := cs.dropWhile isBlank

/-- A character of a name. -/
def isNameChar (c : Char) : Bool := c.isAlphanum || c = '_' || c = '-'

/-- A name and what follows it. -/
def name? (cs : List Char) : Option (String × List Char) :=
  match cs.takeWhile isNameChar with
  | [] => none
  | name => some (String.ofList name, cs.dropWhile isNameChar)

/-- Nothing but blanks and a comment follows. -/
def isFinished (cs : List Char) : Bool :=
  match skipBlanks cs with
  | [] => true
  | c :: _ => c = '#'

/-- The value of a digit in a base. -/
def digit? (base : Nat) (c : Char) : Option Nat :=
  let n :=
    if '0' ≤ c ∧ c ≤ '9' then c.toNat - '0'.toNat
    else if 'a' ≤ c ∧ c ≤ 'z' then c.toNat - 'a'.toNat + 10
    else if 'A' ≤ c ∧ c ≤ 'Z' then c.toNat - 'A'.toNat + 10
    else base
  if n < base then some n else none

/-- Goes on with a numeral behind a digit; an underscore may stand between two digits. -/
def numeralFrom? (base : Nat) : (value : Nat) → List Char → Option Nat
  | value, [] => some value
  | value, '_' :: c :: rest => do numeralFrom? base (value * base + (← digit? base c)) rest
  | value, c :: rest => do numeralFrom? base (value * base + (← digit? base c)) rest

/-- A numeral in a base. -/
def numeral? (base : Nat) : List Char → Option Nat
  | [] => none
  | c :: rest => do numeralFrom? base (← digit? base c) rest

/-- A decimal numeral does not start with a zero, unless it is zero. -/
def decimal? : List Char → Option Nat
  | ['0'] => some 0
  | '0' :: _ => none
  | cs => numeral? 10 cs

/-- A whole number: decimal with an optional sign, or in another base without one. -/
def integer? : List Char → Option Int
  | '0' :: 'x' :: cs => (numeral? 16 cs).map Int.ofNat
  | '0' :: 'o' :: cs => (numeral? 8 cs).map Int.ofNat
  | '0' :: 'b' :: cs => (numeral? 2 cs).map Int.ofNat
  | '+' :: cs => (decimal? cs).map Int.ofNat
  | '-' :: cs => (decimal? cs).map fun n => -(n : Int)
  | cs => (decimal? cs).map Int.ofNat

/-- The value that a word stands for. -/
def value? (word : List Char) : Option SettingValue :=
  if word = "true".toList then some (.flag true)
  else if word = "false".toList then some (.flag false)
  else (integer? word).map .number

/-! ## Lines -/

/-- What a line says. -/
inductive Line where
  | empty
  | opening (group : SettingSection)
  | assignment (name : String) (value : SettingValue)
  deriving DecidableEq, Repr

/-- A section between brackets; the first bracket has been passed. -/
def opening? (cs : List Char) : Option Line := do
  let (name, rest) ← name? (skipBlanks cs)
  match skipBlanks rest with
  | ']' :: rest => if isFinished rest then (SettingSection.ofName? name).map .opening else none
  | _ => none

/-- A name, an equals sign and a value. -/
def assignment? (cs : List Char) : Option Line := do
  let (name, rest) ← name? cs
  match skipBlanks rest with
  | '=' :: rest =>
      let ends (c : Char) := isBlank c || c = '#'
      let rest := skipBlanks rest
      let value ← value? (rest.takeWhile (!ends ·))
      if isFinished (rest.dropWhile (!ends ·)) then some (.assignment name value) else none
  | _ => none

/-- A line may hold no control character but the tab. -/
def hasControl (cs : List Char) : Bool := cs.any fun c => c ≠ '\t' && (c.toNat < 0x20 || c = '\x7f')

/-- What a line says, if it can be read. -/
def line? (cs : List Char) : Option Line :=
  if hasControl cs then none
  else
    match skipBlanks cs with
    | [] => some .empty
    | '#' :: _ => some .empty
    | '[' :: rest => opening? rest
    | cs => assignment? cs

/-- A line without the carriage return of its end. -/
def dropReturn (cs : List Char) : List Char :=
  if cs.getLast? = some '\r' then cs.dropLast else cs

/-- The lines of a text; the first of `done` collects the current line, last character first. -/
def linesOnto (current : List Char) (done : List (List Char)) : List Char → List (List Char)
  | [] => (current.reverse :: done).reverse
  | '\n' :: rest => linesOnto [] (dropReturn current.reverse :: done) rest
  | c :: rest => linesOnto (c :: current) done rest

/-! ## The file -/

/-- What has been read of a file. -/
structure Progress where
  settings : Settings
  /-- The sections so far, the current one first. -/
  opened : List SettingSection
  /-- The names assigned in the current section. -/
  assigned : List String

/-- Takes in one line. -/
def Progress.step? (p : Progress) : Line → Option Progress
  | .empty => some p
  | .opening group =>
      if group ∈ p.opened then none
      else some { p with opened := group :: p.opened, assigned := [] }
  | .assignment name value => do
      let group ← p.opened.head?
      if name ∈ p.assigned then none
      else
        let settings ← p.settings.assign? group name value
        some { p with settings, assigned := name :: p.assigned }

/-- Takes in lines in order. -/
def Progress.run? (p : Progress) : List (List Char) → Option Progress
  | [] => some p
  | cs :: rest => do (← p.step? (← line? cs)).run? rest

/-- A text without the mark that may stand at its start. -/
def dropMark : List Char → List Char
  | '\uFEFF' :: cs => cs
  | cs => cs

/-- The settings that the text of a settings file makes. -/
def read? (text : String) : Option Settings :=
  let start : Progress := ⟨.standard, [], []⟩
  (start.run? (linesOnto [] [] (dropMark text.toList))).map (·.settings)

end SettingsFile

end LuaBytecode
