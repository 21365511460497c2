import Stencil.Named

/-!
Kinds of tags, and the names they are registered under.
-/

namespace Stencil

/-- What a registered tag name stands for. -/
inductive TagKind where
  | assign | leave | capture | case | comment | skip | cycle | loop | choose | changed | raw | table
  | negated | shout | scopeDepth | repeated | plain | wrap
  deriving DecidableEq

/-- The tags every template has unless its environment says otherwise. -/
def builtinTags : Named TagKind :=
  [("assign", .assign), ("break", .leave), ("capture", .capture), ("case", .case),
    ("comment", .comment), ("continue", .skip), ("cycle", .cycle), ("for", .loop),
    ("if", .choose), ("ifchanged", .changed), ("raw", .raw), ("tablerow", .table),
    ("unless", .negated)]

end Stencil
