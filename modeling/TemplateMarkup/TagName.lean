/-!
# Tag names

The name of an element may carry a namespace: `:svg:circle` is `circle` in the namespace
`svg`. A name that does not start with a colon has no namespace, colons inside it or
not; a name that starts with the only colon it has is malformed.

## The model

`TagName.parse?` reads a written name and `TagName.render` writes one. They are not
inverse everywhere: the empty namespace can be read (`::circle`) but is never written.
-/

namespace TemplateMarkup

/-- A tag name, taken apart. -/
structure TagName where
  /-- The namespace, if one was written. -/
  ns : Option String
  /-- The name inside the namespace. -/
  base : String
  deriving DecidableEq

namespace TagName

/-- What stands before and after a namespace. -/
def separator : Char := ':'

/-- Takes a written name apart, over characters: the namespace ends at the first
separator after the one it starts with. -/
def split? : List Char → Option (Option (List Char) × List Char)
  | [] => some (none, [])
  | c :: rest =>
    if c = separator then
      match rest.dropWhile (· ≠ separator) with
      | [] => none
      | _ :: base => some (some (rest.takeWhile (· ≠ separator)), base)
    else some (none, c :: rest)

/-- Reads a written name; `none` if it is malformed. -/
def parse? (name : String) : Option TagName :=
  (split? name.toList).map fun (ns, base) => ⟨ns.map String.ofList, String.ofList base⟩

/-- Writes a name. An empty namespace is left out. -/
def render (n : TagName) : String :=
  match n.ns with
  | none => n.base
  | some ns => if ns = "" then n.base else ":" ++ ns ++ ":" ++ n.base

/-- Whether a written name is `base` in some namespace or in none. A malformed name is
no name at all. -/
def hasBase (name base : String) : Bool :=
  match parse? name with
  | some n => n.base = base
  | none => false

/-- Whether an element groups others without showing up in the page itself. -/
def isContainer (name : String) : Bool := hasBase name "ng-container"

/-- Whether an element marks the place of projected content. -/
def isContent (name : String) : Bool := hasBase name "ng-content"

/-- Whether an element holds a template that is shown on demand. -/
def isTemplate (name : String) : Bool := hasBase name "ng-template"

theorem hasBase_iff {name base : String} :
    hasBase name base = true ↔ ∃ ns, parse? name = some ⟨ns, base⟩ := by
  unfold hasBase
  split
  · rename_i n h
    rcases n with ⟨ns, b⟩
    simp [h]
  · rename_i h
    simp [h]

end TagName

end TemplateMarkup
