import Stencil.Named
import Stencil.Render.State
import Stencil.Text.Quoted
import Stencil.Tree.Builder

/-!
Environments: what templates are read and rendered with, and the tags and filters they know. An
option may be set by name to a mode that does not exist; this is found out when it is used.
-/

namespace Stencil

/-- The choice of an error mode. -/
inductive ModeChoice where
  | mode (m : ErrorMode)
  /-- A mode that was set by name and has not been looked at. -/
  | named (name : String)
  deriving DecidableEq

namespace ModeChoice

/-- The mode of a name. -/
def ofName (name : String) : Outcome ErrorMode :=
  match ErrorMode.ofName? name with
  | some m => .ok m
  | none => .error (.badValue (Text.quoted name ++ " is not a valid ErrorMode"))

/-- The mode that is chosen. -/
def resolve : ModeChoice → Outcome ErrorMode
  | .mode m => .ok m
  | .named name => ofName name

end ModeChoice

/-- Limits of a render as they are given: by name, and absent when there is to be none. -/
abbrev LimitEntries := Named (Option Int)

/-- Ceilings of a render and the counts it starts with. -/
structure Limits where
  ceilings : Ceilings := {}
  counts : Counts := {}

namespace Limits

/-- Takes one limit. -/
def withEntry (limits : Limits) : String × Option Int → Outcome Limits
  | ("render_length_limit", n) =>
    .ok { limits with ceilings := { limits.ceilings with length := n } }
  | ("render_score_limit", n) =>
    .ok { limits with ceilings := { limits.ceilings with score := n } }
  | ("assign_score_limit", n) =>
    .ok { limits with ceilings := { limits.ceilings with assigned := n } }
  | ("render_length", some n) =>
    .ok { limits with counts := { limits.counts with length := n } }
  | ("render_score", some n) =>
    .ok { limits with counts := { limits.counts with score := n } }
  | ("assign_score", some n) =>
    .ok { limits with counts := { limits.counts with assigned := n } }
  | (name, _) => .error (.badType ("unexpected limit " ++ Text.quoted name))

/-- Limits from entries; a name that is no limit is an error. -/
def ofEntries (entries : LimitEntries) : Outcome Limits := entries.foldlM withEntry {}

end Limits

/-- What templates are read and rendered with. -/
structure Environment where
  mode : ModeChoice := .mode .lax
  numbered : Bool := true
  maxDepth : Int := 100
  strictVariables : Bool := false
  strictFilters : Bool := false
  limits : LimitEntries := []
  errorStyle : Option ErrorStyle := none
  tags : Named TagKind := builtinTags
  filters : Named Filter := builtinFilters

namespace Environment

/-- What is said about a name that is not registered. -/
def unknownName (name : String) : Failure := .host ⟨.missingKey, Text.quoted name⟩

/-- Takes a tag out of the registry. -/
def removeTag (env : Environment) (name : String) : Outcome Environment :=
  if env.tags.has name then .ok { env with tags := env.tags.erase name }
  else .error (unknownName name)

/-- Takes a filter out of the registry. -/
def removeFilter (env : Environment) (name : String) : Outcome Environment :=
  if env.filters.has name then .ok { env with filters := env.filters.erase name }
  else .error (unknownName name)

/-- A line about an environment; a mode that was set by name has none. -/
def text (env : Environment) : Outcome String :=
  match env.mode with
  | .named _ => .error (.host ⟨.missingAttribute, "the error mode was set by name"⟩)
  | .mode m =>
    .ok ("<Environment error_mode=" ++ m.name ++ " tags=" ++ toString env.tags.length ++
      " filters=" ++ toString env.filters.length ++ ">")

/-- The names in a registry, in order, on one line. -/
def registryText {α : Type} (label : String) (entries : Named α) : String :=
  "<" ++ label ++ " [" ++ ", ".intercalate (entries.sortedNames.map Text.quoted) ++ "]>"

/-- A line about the tags of an environment. -/
def tagsText (env : Environment) : String := registryText "TagRegistry" env.tags

/-- A line about the filters of an environment. -/
def filtersText (env : Environment) : String := registryText "FilterRegistry" env.filters

end Environment

end Stencil
