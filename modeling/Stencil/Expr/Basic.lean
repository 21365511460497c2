import Stencil.Value.Text

/-!
Expressions: literal values, variable paths, and ranges whose ends are only known in a render.
-/

namespace Stencil

mutual

/-- An expression of a template. -/
inductive Expr where
  /-- A value that stands for itself. -/
  | value (v : Value)
  /-- A variable and a path from it. The root is a name, or an expression that gives one. -/
  | lookup (root : Expr) (path : List Step)
  /-- The whole numbers between two ends, both included. -/
  | range (first last : Expr)

/-- A step of a path. -/
inductive Step where
  /-- A key written after a dot. -/
  | name (s : String)
  /-- A key in brackets. -/
  | index (e : Expr)

end

instance : Inhabited Expr := ⟨.value .nil⟩

/-- Names of steps that fall back to a command when there is no such key. -/
def isCommand (name : String) : Bool := name == "size" || name == "first" || name == "last"

namespace Step

/-- Whether a step may fall back to a command; a key in brackets never does. -/
def allowsCommand : Step → Bool
  | .name s => isCommand s
  | .index _ => false

/-- The key of a step as an expression. -/
def key : Step → Expr
  | .name s => .value (.str s)
  | .index e => e

/-- The sum of a bit for every step that allows a command, the first step at the lowest bit. -/
def commandFlags : List Step → Nat
  | [] => 0
  | step :: rest => (if step.allowsCommand then 1 else 0) + 2 * commandFlags rest

end Step

namespace Expr

/-- Whether an expression is only known in a render; the pseudo-literals count as such. -/
def isDeferred : Expr → Bool
  | .value (.literal _) => true
  | .value _ => false
  | _ => true

/-- The name of a root that is a plain name. -/
def name? : Expr → Option String
  | .value (.str s) => some s
  | _ => none

mutual

/-- An expression with all its parts named. -/
def shown (e : Expr) : Outcome String :=
  match e with
  | .value v => v.shown #[]
  | .lookup root path => do
    let name ← shown root
    let steps ← shownPath path
    let tuple := match steps with
      | [one] => "(" ++ one ++ ",)"
      | parts => "(" ++ ", ".intercalate parts ++ ")"
    return "VariableLookup(name=" ++ name ++ ", lookups=" ++ tuple ++ ", command_flags=" ++
      toString (Step.commandFlags path) ++ ")"
  | .range first last => do
    let start ← shown first
    return "RangeLookup(start=" ++ start ++ ", end=" ++ (← shown last) ++ ")"

/-- The steps of a path with all their parts named. -/
def shownPath (path : List Step) : Outcome (List String) :=
  match path with
  | [] => .ok []
  | .name s :: rest => do return Text.quoted s :: (← shownPath rest)
  | .index e :: rest => do
    let key ← shown e
    return key :: (← shownPath rest)

end

mutual

/-- An expression as a template writes it: texts bare, paths with dots and brackets. -/
def written (e : Expr) : Outcome String :=
  match e with
  | .value v => v.written #[]
  | .lookup root path => do
    let name ← written root
    return name ++ (← writtenPath path)
  | .range first last => do
    let start ← shown first
    return "RangeLookup(start=" ++ start ++ ", end=" ++ (← shown last) ++ ")"

/-- The steps of a path as a template writes them. -/
def writtenPath (path : List Step) : Outcome String :=
  match path with
  | [] => .ok ""
  | .name s :: rest => do return "." ++ s ++ (← writtenPath rest)
  | .index (.value (.str s)) :: rest => do return "." ++ s ++ (← writtenPath rest)
  | .index e :: rest => do
    let key ← written e
    return "[" ++ key ++ "]" ++ (← writtenPath rest)

end

end Expr

end Stencil
