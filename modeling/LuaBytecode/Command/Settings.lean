import LuaBytecode.Chunk.Load
import LuaBytecode.Listing.Render

/-!
# Settings

The settings are two groups of named values, one for the loader and one for listings.  Whoever
assigns some of them leaves the others at their standard values.  There are no other names, and a
value has to be one that the setting can have.
-/

namespace LuaBytecode

/-- Everything that can be set. -/
structure Settings where
  loader : LoaderSettings
  listing : ListingOptions
  deriving DecidableEq, Repr

/-- The standard values. -/
def Settings.standard : Settings := ⟨.standard, .all⟩

/-- A value that can be assigned. -/
inductive SettingValue where
  | flag (value : Bool)
  | number (value : Int)
  deriving DecidableEq, Repr

/-- Assigns one value of the loader; none if there is no such name or the value does not fit. -/
def LoaderSettings.assign? (s : LoaderSettings) (name : String) (value : SettingValue) :
    Option LoaderSettings :=
  match name, value with
  | "check_type_sizes", .flag value => some { s with checkTypeSizes := value }
  | "max_depth", .number value =>
      if 0 ≤ value ∧ value < UInt64.size then some { s with maxDepth := value.toNat } else none
  | _, _ => none

/-- Assigns one value of listings. -/
def ListingOptions.assign? (s : ListingOptions) (name : String) (value : SettingValue) :
    Option ListingOptions :=
  match name, value with
  | "show_constants", .flag value => some { s with constants := value }
  | "show_locals", .flag value => some { s with localVars := value }
  | "show_upvalues", .flag value => some { s with upvalues := value }
  | _, _ => none

/-- The sections of a settings file. -/
inductive SettingSection where
  | loader
  | listing
  deriving DecidableEq, Repr

def SettingSection.ofName? (name : String) : Option SettingSection :=
  match name with
  | "loader" => some .loader
  | "listing" => some .listing
  | _ => none

/-- Assigns one value in a section. -/
def Settings.assign? (s : Settings) (group : SettingSection) (name : String)
    (value : SettingValue) : Option Settings :=
  match group with
  | .loader => (s.loader.assign? name value).map fun loader => { s with loader }
  | .listing => (s.listing.assign? name value).map fun listing => { s with listing }

end LuaBytecode
