import LuaBytecode.Command.Survey
import Mathlib.Data.List.Induction
import Mathlib.Data.List.Infix

/-!
# Directories around a place, and where a path is looked up

The directories around a place are the fronts of its names.  A search through them from the inside
out is a loop: it looks at the place, and then goes on from the directory around it.  What it finds
is what the innermost directory has that has anything.

Looking up a path looks at the places on the way along it and at nothing else.

* `mem_ancestors` — the directories around a place; `ancestors_concat` — one step of the loop.
* **`findSome?_ancestors_eq_some_iff`** — what the whole loop finds.
* `arrive_cons` — one step along a path; `arrive_congr` — a walk sees the places it passes.
* **`find_congr`** — what a path leads to depends on the places along it alone.
-/

namespace LuaBytecode

namespace Site

/-! ## Around a place -/

theorem ancestors_eq (place : List String) : ancestors place = place.inits.reverse := by
  induction place with
  | nil => rfl
  | cons name names ih => rw [ancestors, ih, List.inits_cons, List.reverse_cons, List.map_reverse]

theorem mem_ancestors {directory place : List String} :
    directory ∈ ancestors place ↔ directory <+: place := by
  rw [ancestors_eq, List.mem_reverse, List.mem_inits]

/-- The search looks at a place and goes on from the directory around it. -/
theorem ancestors_concat (place : List String) (name : String) :
    ancestors (place ++ [name]) = (place ++ [name]) :: ancestors place := by
  induction place with
  | nil => rfl
  | cons first place ih =>
      rw [List.cons_append, ancestors, ih, ancestors, List.map_cons, List.cons_append]

section Search

variable {α : Type} {f : List String → Option α} {place : List String}

theorem findSome?_ancestors_eq_none_iff : (ancestors place).findSome? f = none ↔
    ∀ directory, directory <+: place → f directory = none := by
  rw [List.findSome?_eq_none_iff]
  exact forall_congr' fun directory => imp_congr_left mem_ancestors

/-- **What a search from the inside out finds** is what the innermost directory has that has
anything.  The induction takes the last name off, as the search does. -/
theorem findSome?_ancestors_eq_some_iff {a : α} :
    (ancestors place).findSome? f = some a ↔
      ∃ directory, directory <+: place ∧ f directory = some a ∧
        ∀ inner, inner <+: place → f inner ≠ none → inner <+: directory := by
  induction place using List.reverseRecOn with
  | nil => simp [ancestors, List.prefix_nil]
  | append_singleton place name ih =>
      rw [ancestors_concat, List.findSome?_cons]
      cases hf : f (place ++ [name]) with
      | some b =>
          constructor
          · rintro ⟨⟩
            exact ⟨place ++ [name], List.prefix_refl _, hf, fun _ h _ => h⟩
          · rintro ⟨directory, haround, hfound, hinside⟩
            have hinner : place ++ [name] <+: directory :=
              hinside _ (List.prefix_refl _) (by rw [hf]; exact Option.some_ne_none b)
            rw [← hfound, haround.eq_of_length_le hinner.length_le, hf]
      | none =>
          rw [ih]
          constructor
          · rintro ⟨directory, haround, hfound, hinside⟩
            refine ⟨directory, List.prefix_concat_iff.mpr (Or.inr haround), hfound, ?_⟩
            intro inner hinner hsome
            rcases List.prefix_concat_iff.mp hinner with rfl | hinner
            · exact absurd hf hsome
            · exact hinside inner hinner hsome
          · rintro ⟨directory, haround, hfound, hinside⟩
            rcases List.prefix_concat_iff.mp haround with rfl | haround
            · rw [hf] at hfound
              cases hfound
            · exact ⟨directory, haround, hfound, fun inner hinner =>
                hinside inner (hinner.trans (List.prefix_append place [name]))⟩

end Search

/-! ## Along a path -/

theorem arrive_nil (site : Site) (place : List String) :
    site.arrive place [] = match site.entry? place with
      | some entry => .ok entry
      | none => .error .notFound := rfl

/-- Going one name further. -/
theorem arrive_cons (site : Site) (place : List String) (name : String) (names : List String) :
    site.arrive place (name :: names) = match site.entry? place with
      | some .directory =>
          if maxNameLength < name.utf8ByteSize then .error .nameTooLong
          else site.arrive (step place name) names
      | some _ => .error .notADirectory
      | none => .error .notFound := by
  rw [arrive, walk]
  cases site.entry? place with
  | none => rfl
  | some entry =>
      cases entry with
      | directory =>
          dsimp only
          split_ifs <;> rfl
      | file content => rfl
      | unreadable reason => rfl

section Congr

variable {site site' : Site}

theorem arrive_congr (names : List String) :
    ∀ {place : List String},
      (∀ p ∈ placesAlong place names, site'.entry? p = site.entry? p) →
      site'.arrive place names = site.arrive place names := by
  induction names with
  | nil =>
      intro place h
      rw [arrive_nil, arrive_nil, h place (List.mem_singleton_self place)]
  | cons name names ih =>
      intro place h
      rw [placesAlong, List.forall_mem_cons] at h
      rw [arrive_cons, arrive_cons, h.1, ih h.2]

/-- **What a path leads to depends on the places along it alone.** -/
theorem find_congr {path : String} (hdirectory : site'.workingDirectory = site.workingDirectory)
    (h : ∀ place ∈ site.placesOf path, site'.entry? place = site.entry? place) :
    site'.find path = site.find path := by
  have horigin : site'.origin path = site.origin path := by rw [origin, origin, hdirectory]
  rw [find, find, horigin, arrive_congr (names path) h]

end Congr

end Site

end LuaBytecode
