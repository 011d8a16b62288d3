import LuaBytecode.Command.Choice
import LuaBytecode.Plain.Libraries
import LuaBytecode.Proofs.Command.Site
import LuaBytecode.Proofs.Text.Strict

/-!
# The settings that count govern the run

The program finds its settings by a search that stops at the first thing by the right name, and
reads what it has found.  It never looks back: a directory by that name, or a file that is no
settings file, hides what lies further out, and ends the run before any command has done anything.

How the text of a settings file is read plays no part here: whatever the libraries do, all that is
used of them is whether they make settings of it.

* `settingsIn?_eq_some_iff` — what the search sees in one directory.
* **`nearestSettings?_eq_some_iff`** — what it finds.
* `settings_of_counts`, `settings_of_unset` — the settings are read from the file that counts, or
  they are the standard ones; `Counts.unique` — only one file counts.
* `settingsFrom_of_flaw`, `settingsFrom_of_makes` — what is wrong with it, or what it makes;
  `exists_flaw_or_makes` — there is nothing else that it can be.
* `settings_congr` — what there is at other places makes no difference.
* **`run_governed`** — the settings that count govern the run.
-/

namespace LuaBytecode

namespace Command

section Search

variable {site : Site} {directory place : List String} {name : String} {entry : Entry}

/-! ## One directory -/

theorem SettingsOf.entry_eq (h : SettingsOf site directory name entry) :
    site.entry? (directory ++ [name]) = some entry := by
  cases h with
  | plain h => exact h
  | dotted _ h => exact h

theorem exists_settingsOf (h : HoldsSettings site directory) :
    ∃ name entry, SettingsOf site directory name entry := by
  obtain ⟨name, hname, entry, hentry⟩ := h
  cases hplain : site.entry? (directory ++ ["luac-inspect.toml"]) with
  | some plain => exact ⟨_, plain, .plain hplain⟩
  | none =>
      rw [settingsNames, List.mem_pair] at hname
      rcases hname with rfl | rfl
      · rw [hplain] at hentry
        cases hentry
      · exact ⟨_, entry, .dotted hplain hentry⟩

theorem settingsIn?_of_settingsOf (h : SettingsOf site directory name entry) :
    settingsIn? site directory = some (directory ++ [name]) := by
  rw [settingsIn?, settingsNames, List.map_cons, List.map_cons]
  cases h with
  | plain h => exact List.find?_cons_of_pos (by rw [h]; rfl)
  | dotted hplain h =>
      rw [List.find?_cons_of_neg (by rw [hplain]; exact Bool.false_ne_true)]
      exact List.find?_cons_of_pos (by rw [h]; rfl)

theorem settingsIn?_ne_none_iff :
    settingsIn? site directory ≠ none ↔ HoldsSettings site directory := by
  simp only [settingsIn?, HoldsSettings, ne_eq, List.find?_eq_none, List.forall_mem_map, not_forall,
    Option.isSome_iff_exists, not_not, exists_prop]

/-- What the search sees in one directory. -/
theorem settingsIn?_eq_some_iff : settingsIn? site directory = some place ↔
    ∃ name entry, SettingsOf site directory name entry ∧ place = directory ++ [name] := by
  constructor
  · intro h
    obtain ⟨name, entry, hentry⟩ :=
      exists_settingsOf (settingsIn?_ne_none_iff.mp (h ▸ Option.some_ne_none place))
    rw [settingsIn?_of_settingsOf hentry] at h
    exact ⟨name, entry, hentry, (Option.some.inj h).symm⟩
  · rintro ⟨name, entry, hentry, rfl⟩
    exact settingsIn?_of_settingsOf hentry

/-! ## From the inside out -/

/-- **What the search finds** is what the innermost directory has that has anything by the name of a
settings file. -/
theorem nearestSettings?_eq_some_iff : nearestSettings? site = some place ↔
    ∃ directory name entry, directory <+: site.workingDirectory ∧ BareInside site directory ∧
      SettingsOf site directory name entry ∧ place = directory ++ [name] := by
  rw [nearestSettings?, Site.findSome?_ancestors_eq_some_iff]
  simp only [settingsIn?_ne_none_iff, settingsIn?_eq_some_iff]
  constructor
  · rintro ⟨directory, haround, ⟨name, entry, hentry, hplace⟩, hinside⟩
    exact ⟨directory, name, entry, haround, hinside, hentry, hplace⟩
  · rintro ⟨directory, name, entry, haround, hinside, hentry, hplace⟩
    exact ⟨directory, haround, ⟨name, entry, hentry, hplace⟩, hinside⟩

theorem nearestSettings?_of_settingsOf (haround : directory <+: site.workingDirectory)
    (hinside : BareInside site directory) (h : SettingsOf site directory name entry) :
    nearestSettings? site = some (directory ++ [name]) :=
  nearestSettings?_eq_some_iff.mpr ⟨directory, name, entry, haround, hinside, h, rfl⟩

theorem nearestSettings?_eq_none_iff : nearestSettings? site = none ↔
    ∀ directory, directory <+: site.workingDirectory → ¬ HoldsSettings site directory := by
  rw [nearestSettings?, Site.findSome?_ancestors_eq_none_iff]
  simp only [← settingsIn?_ne_none_iff, not_not]

end Search

/-! ## What counts -/

section Counts

variable {site : Site} {named : Option String} {path path' : String}
  {found found' : Except PathFault Entry}

theorem Counts.unique (h : Counts site named path found) (h' : Counts site named path' found') :
    path' = path ∧ found' = found := by
  cases h with
  | named path =>
      cases h'
      exact ⟨rfl, rfl⟩
  | nearest haround hinside hentry =>
      cases h' with
      | nearest haround' hinside' hentry' =>
          have hplace := nearestSettings?_of_settingsOf haround hinside hentry
          rw [nearestSettings?_of_settingsOf haround' hinside' hentry', Option.some.injEq] at hplace
          have hsame := hentry'.entry_eq
          rw [hplace, hentry.entry_eq, Option.some.injEq] at hsame
          exact ⟨by rw [hplace], by rw [hsame]⟩

theorem settingsSource?_of_counts {entry : Entry} (h : Counts site named path found)
    (hfound : found = .ok entry) :
    settingsSource? site named = .ok (some ⟨path, Site.content (.ok entry)⟩) := by
  cases h with
  | named path =>
      have hexists : site.exists? path = true := by rw [Site.exists?, hfound]
      rw [settingsSource?, if_pos hexists, Site.readFile, hfound]
  | nearest haround hinside hentry =>
      obtain rfl := Except.ok.inj hfound
      rw [settingsSource?, nearestSettings?_of_settingsOf haround hinside hentry, Option.map_some,
        Site.readPlace, Site.arrive_nil, hentry.entry_eq]

theorem settingsSource?_eq_none_iff : settingsSource? site named = .ok none ↔
    named = none ∧
      ∀ directory, directory <+: site.workingDirectory → ¬ HoldsSettings site directory := by
  rw [← nearestSettings?_eq_none_iff]
  cases named with
  | some path =>
      rw [settingsSource?]
      split_ifs <;> simp
  | none => simp [settingsSource?]

theorem exists_counts (h : settingsSource? site named ≠ .ok none) :
    ∃ path found, Counts site named path found := by
  cases named with
  | some path => exact ⟨path, _, .named path⟩
  | none =>
      cases hplace : nearestSettings? site with
      | none => exact absurd (by rw [settingsSource?, hplace, Option.map_none]) h
      | some place =>
          obtain ⟨directory, name, entry, haround, hinside, hentry, -⟩ :=
            nearestSettings?_eq_some_iff.mp hplace
          exact ⟨_, _, .nearest haround hinside hentry⟩

end Counts

/-! ## What is made of it -/

section From

variable {lib : Libraries} {site : Site} {named : Option String} {path : String}
  {found : Except PathFault Entry}

/-- What the settings file that counts gives, by what is found there. -/
def settingsFrom (lib : Libraries) (path : String) :
    (found : Except PathFault Entry) → Except Failure Settings
  | .error _ => .error (.missingSettings path)
  | .ok entry => SettingsSource.read lib ⟨path, Site.content (.ok entry)⟩

/-- **The settings are read from the file that counts**, and nothing takes its place. -/
theorem settings_of_counts (h : Counts site named path found) :
    settings lib site named = settingsFrom lib path found := by
  cases hfound : found with
  | ok entry => rw [settings, settingsSource?_of_counts h hfound, settingsFrom]
  | error fault =>
      cases h with
      | named path =>
          have hexists : ¬ site.exists? path = true := by
            rw [Site.exists?, hfound]
            exact Bool.false_ne_true
          rw [settings, settingsSource?, if_neg hexists, settingsFrom]
      | nearest _ _ _ => cases hfound

theorem settings_of_unset (h : settingsSource? site named = .ok none) :
    settings lib site named = .ok .standard := by
  rw [settings, h]

/-- **What is wrong with the file that counts is the failure**, and there is nothing below it. -/
theorem settingsFrom_of_flaw {message : String} (h : Flaw lib path found message) :
    ∃ f, settingsFrom lib path found = .error f ∧ f.messages = [message] := by
  cases h with
  | missing fault => exact ⟨_, rfl, rfl⟩
  | directory => exact ⟨_, rfl, rfl⟩
  | unreadable reason => exact ⟨_, rfl, rfl⟩
  | notText h =>
      refine ⟨.undecodableSettings, ?_, rfl⟩
      simp only [settingsFrom, SettingsSource.read, Site.content, Utf8.strict?_eq_none_iff.mpr h]
  | @notSettings text reason h =>
      refine ⟨.malformedSettings path reason, ?_, rfl⟩
      simp only [settingsFrom, SettingsSource.read, Site.content, Utf8.strict?_encode, h]

theorem settingsFrom_of_makes {s : Settings} (h : Makes lib found s) :
    settingsFrom lib path found = .ok s := by
  cases h with
  | file h => simp only [settingsFrom, SettingsSource.read, Site.content, Utf8.strict?_encode, h]

/-- There are no more ways to be wrong. -/
theorem exists_flaw_or_makes (lib : Libraries) (path : String) (found : Except PathFault Entry) :
    (∃ message, Flaw lib path found message) ∨ ∃ s, Makes lib found s := by
  cases found with
  | error fault => exact Or.inl ⟨_, .missing fault⟩
  | ok entry =>
      cases entry with
      | directory => exact Or.inl ⟨_, .directory⟩
      | unreadable reason => exact Or.inl ⟨_, .unreadable reason⟩
      | file content =>
          by_cases htext : ∃ text, Utf8.encode text = content
          · obtain ⟨text, rfl⟩ := htext
            cases hread : lib.readSettings text with
            | error reason => exact Or.inl ⟨_, .notSettings hread⟩
            | ok s => exact Or.inr ⟨s, .file hread⟩
          · exact Or.inl ⟨_, .notText (not_exists.mp htext)⟩

end From

/-! ## What is looked at -/

section Congr

variable {lib : Libraries} {site site' : Site} {directory : List String}

/-- Both sites have the same at the places of the settings files of a directory. -/
def SameSettings (site site' : Site) (directory : List String) : Prop :=
  ∀ name ∈ settingsNames, site'.entry? (directory ++ [name]) = site.entry? (directory ++ [name])

theorem holdsSettings_congr (h : SameSettings site site' directory) :
    HoldsSettings site' directory ↔ HoldsSettings site directory := by
  refine exists_congr fun name => and_congr_right fun hname => ?_
  rw [h name hname]

theorem SettingsOf.congr {name : String} {entry : Entry}
    (h : SettingsOf site directory name entry) (hsame : SameSettings site site' directory) :
    SettingsOf site' directory name entry := by
  have hplain := hsame "luac-inspect.toml" List.mem_cons_self
  have hdotted := hsame ".luac-inspect.toml" (List.mem_cons_of_mem _ List.mem_cons_self)
  cases h with
  | plain h => exact .plain (hplain.trans h)
  | dotted hnone h => exact .dotted (hplain.trans hnone) (hdotted.trans h)

/-- A directory stays bare inside if another site has the same in all that are.  Two directories
around one place are one inside the other, so what is no directory around this one is inside it, and
the same is found there. -/
theorem BareInside.congr (hinside : BareInside site directory)
    (hdirectory : site'.workingDirectory = site.workingDirectory)
    (hsame : ∀ inner, inner <+: site.workingDirectory → BareInside site inner →
      SameSettings site site' inner)
    (haround : directory <+: site.workingDirectory) : BareInside site' directory := by
  intro inner hinner hholds
  rw [hdirectory] at hinner
  rcases List.prefix_or_prefix_of_prefix hinner haround with houter | hinner'
  · exact houter
  · have hbare : BareInside site inner := fun other hother hholds =>
      (hinside other hother hholds).trans hinner'
    exact hinside inner hinner ((holdsSettings_congr (hsame inner hinner hbare)).mp hholds)

/-- **What there is at other places makes no difference** to the settings. -/
theorem settings_congr {named : Option String}
    (hdirectory : site'.workingDirectory = site.workingDirectory)
    (h : ∀ place, Consulted site named place → site'.entry? place = site.entry? place) :
    settings lib site' named = settings lib site named := by
  cases named with
  | some path =>
      have hfind : site'.find path = site.find path :=
        Site.find_congr hdirectory fun place hplace => h place (.along hplace)
      rw [settings_of_counts (.named path), settings_of_counts (.named path), hfind]
  | none =>
      have hsame : ∀ inner, inner <+: site.workingDirectory → BareInside site inner →
          SameSettings site site' inner :=
        fun inner haround hinside name hname => h _ (.searched haround hinside hname)
      by_cases hunset : settingsSource? site none = .ok none
      · obtain ⟨-, hnone⟩ := settingsSource?_eq_none_iff.mp hunset
        have hunset' : settingsSource? site' none = .ok none := by
          refine settingsSource?_eq_none_iff.mpr ⟨rfl, fun inner hinner hholds => ?_⟩
          rw [hdirectory] at hinner
          have hbare : BareInside site inner := fun other hother hholds =>
            absurd hholds (hnone other hother)
          exact hnone inner hinner ((holdsSettings_congr (hsame inner hinner hbare)).mp hholds)
        rw [settings_of_unset hunset, settings_of_unset hunset']
      · obtain ⟨path, found, hcounts⟩ := exists_counts hunset
        cases hcounts with
        | @nearest directory name entry haround hinside hentry =>
            have haround' : directory <+: site'.workingDirectory := by rwa [hdirectory]
            have hinside' := hinside.congr hdirectory hsame haround
            have hentry' := hentry.congr (hsame directory haround hinside)
            rw [settings_of_counts (.nearest haround hinside hentry),
              settings_of_counts (.nearest haround' hinside' hentry')]

end Congr

/-! ## The run -/

/-- How the settings govern a run: `outcome` is what it leaves behind, and `act` what it would leave
behind under given settings. -/
structure Governed (lib : Libraries) (site : Site) (named : Option String) (outcome : Outcome)
    (act : Settings → Outcome) : Prop where
  /-- No file is used exactly if none is named and no directory has one, -/
  unset_iff : settingsSource? site named = .ok none ↔
    named = none ∧ ∀ directory, directory <+: site.workingDirectory → ¬ HoldsSettings site directory
  /-- and then the settings are the standard ones. -/
  unset : settingsSource? site named = .ok none → outcome = act .standard
  /-- Otherwise there is one that counts, -/
  counts : settingsSource? site named ≠ .ok none → ∃ path found, Counts site named path found
  /-- only one, -/
  unique : ∀ {path path' : String} {found found' : Except PathFault Entry},
    Counts site named path found → Counts site named path' found' → path' = path ∧ found' = found
  /-- and that is used, if it is there. -/
  used : ∀ {path : String} {entry : Entry}, Counts site named path (.ok entry) →
    settingsSource? site named = .ok (some ⟨path, Site.content (.ok entry)⟩)
  /-- If anything is wrong with it, the run ends with the report of that and has done nothing. -/
  flawed : ∀ {path message : String} {found : Except PathFault Entry},
    Counts site named path found → Flaw lib path found message →
      outcome = ⟨1, "", "Error: " ++ lib.failureReport [message] ++ "\n"⟩
  /-- If it makes settings, they are used. -/
  made : ∀ {path : String} {found : Except PathFault Entry} {s : Settings},
    Counts site named path found → Makes lib found s → outcome = act s
  /-- There is nothing else that it can be. -/
  flawed_or_made : ∀ {path : String} {found : Except PathFault Entry},
    Counts site named path found →
      (∃ message, Flaw lib path found message) ∨ ∃ s, Makes lib found s
  /-- No other places are consulted. -/
  consulted : ∀ {site' : Site}, site'.workingDirectory = site.workingDirectory →
    (∀ place, Consulted site named place → site'.entry? place = site.entry? place) →
    settings lib site' named = settings lib site named

section Run

variable {lib : Libraries} {words : List String} {named : Option String} {action : Action}

/-- A run ends with the settings, if they are wrong. -/
theorem run_eq (h : lib.readCommandLine words = .ok ⟨named, action⟩) (site : Site)
    (stdin : ByteStream) :
    run lib site stdin words = match settings lib site named with
      | .error f => .failure lib "" f
      | .ok s => act lib site s stdin action := by
  rw [run, h]
  rfl

/-- **The settings that count govern the run.**  Whatever command is asked for, on whatever chunks
and with whatever coming in: it is done under the settings of the file that is named, else of the
nearest one, else under the standard ones; and if the file that counts is missing, no file, no text
or no settings file, nothing is done and nothing is written but the report. -/
theorem run_governed (h : lib.readCommandLine words = .ok ⟨named, action⟩) (site : Site)
    (stdin : ByteStream) :
    Governed lib site named (run lib site stdin words) (act lib site · stdin action) := by
  constructor
  case unset_iff => exact settingsSource?_eq_none_iff
  case unset =>
    intro hunset
    rw [run_eq h, settings_of_unset hunset]
  case counts => exact exists_counts
  case unique => exact Counts.unique
  case used => exact fun hcounts => settingsSource?_of_counts hcounts rfl
  case flawed =>
    intro path message found hcounts hflaw
    obtain ⟨f, hfailure, hmessages⟩ := settingsFrom_of_flaw hflaw
    rw [run_eq h, settings_of_counts hcounts, hfailure, ← hmessages]
    rfl
  case made =>
    intro path found s hcounts hmakes
    rw [run_eq h, settings_of_counts hcounts, settingsFrom_of_makes hmakes]
  case flawed_or_made => exact fun {path found} _ => exists_flaw_or_makes lib path found
  case consulted => exact settings_congr

end Run

/-- A directory inside another, each with something by the name of a settings file: in the outer one
an empty file, in the inner one a directory, under the name with a dot. -/
def shadowingSite : Site where
  workingDirectory := ["w", "d"]
  entry? place :=
    if place = ["w", "luac-inspect.toml"] then some (.file [])
    else if place = ["w", "d", ".luac-inspect.toml"] then some .directory
    else if place <+: ["w", "d"] then some .directory
    else none

/-- The directory counts, and the file around it is not used in its place, although it would make
settings if it were named. -/
theorem run_governed_shadowed :
    Libraries.plain.readCommandLine ["check", "a", "-v"] = .ok ⟨none, .check ["a"] false⟩ ∧
    run .plain shadowingSite [] ["check", "a", "-v"]
      = ⟨1, "", "Error: Is a directory (os error 21)\n"⟩ ∧
    Libraries.plain.readCommandLine ["check", "a", "--config=../luac-inspect.toml"]
      = .ok ⟨some "../luac-inspect.toml", .check ["a"] false⟩ ∧
    run .plain shadowingSite [] ["check", "a", "--config=../luac-inspect.toml"]
      = act .plain shadowingSite .standard [] (.check ["a"] false) := by
  have hread : Libraries.plain.readCommandLine ["check", "a", "-v"]
      = .ok ⟨none, .check ["a"] false⟩ := by
    decide
  have hcounts : Counts shadowingSite none "/w/d/.luac-inspect.toml" (.ok .directory) :=
    .nearest (List.prefix_refl _) (fun _ h _ => h) (.dotted (by decide) (by decide))
  have hread' : Libraries.plain.readCommandLine ["check", "a", "--config=../luac-inspect.toml"]
      = .ok ⟨some "../luac-inspect.toml", .check ["a"] false⟩ := by
    decide
  have hfind : shadowingSite.find "../luac-inspect.toml" = .ok (.file []) := by decide
  have hmakes : Makes .plain (shadowingSite.find "../luac-inspect.toml") .standard := by
    rw [hfind]
    exact @Makes.file .plain "" .standard (by decide)
  exact ⟨hread, (run_governed hread shadowingSite []).flawed hcounts .directory, hread',
    (run_governed hread' shadowingSite []).made (.named _) hmakes⟩

end Command

end LuaBytecode
