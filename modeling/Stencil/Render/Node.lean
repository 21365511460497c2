import Stencil.Render.Loop

/-!
Rendering nodes and bodies. Every node of a body is guarded: a failure is recorded and put out as
text in place of the node, unless a ceiling is exceeded, which ends the whole render. Every node
counts as one point of the score, and its text counts towards the length.
-/

namespace Stencil

namespace Render

/-- Runs a step that puts a node out, and recovers from its failure. The text of a blank node is
counted and then left out. -/
def guarded (blank : Bool) (line : Option Nat) (step : Render Rendered) : Render Rendered :=
  tryCatch (do
    let r ← step
    countLength r.text.length
    return if blank then { r with text := "" } else r)
    fun failure => do
      if failure.isFatal then throw failure
      return { text := ← handle failure (line.map Int.ofNat) }

/-- Puts out a node of a body, given how it is rendered; text is counted and put out as it is. -/
def placed (node : Node) (step : Render Rendered) : Render Rendered := do
  match node with
  | .text s =>
    countLength s.length
    return { text := s }
  | node => guarded node.isBlank node.line? step

/-- Runs a step that renders a body of a number of nodes, which are counted first. -/
def scored (size : Nat) (step : Render Rendered) : Render Rendered := do
  modifyCounts fun c => { c with score := c.score + size }
  step

/-- Renders a body for every alternative that equals the subject. Also tells whether one did, in
addition to those before. -/
def renderAlternatives (subject : Expr) (body : Render Rendered) (matched : Bool) :
    List Expr → Render (Rendered × Bool)
  | [] => return ({}, matched)
  | value :: rest => do
    if ← Comparison.holds { left := subject, operator := some "==", right := value } then
      let r ← body
      if r.signal.isSome then return (r, true)
      let (more, matched) ← renderAlternatives subject body true rest
      return ({ more with text := r.text ++ more.text }, matched)
    else renderAlternatives subject body matched rest

/-- Renders a body a number of times, its signals being dropped. -/
def renderRepeatedly (body : Render Rendered) : Nat → Render String
  | 0 => return ""
  | n + 1 => do
    let r ← body
    return r.text ++ (← renderRepeatedly body n)

/-- Renders a body whose text is only put out when it differs from the last one. -/
def renderChanged (body : Render Rendered) : Render Rendered := do
  let r ← withScope [] body
  if (← registers).shown == some r.text then return { r with text := "" }
  modifyRegisters fun registers => { registers with shown := some r.text }
  return r

end Render

open Render

/-- Renders a block tag, given its body. -/
def BlockKind.render (kind : BlockKind) (body : Render Rendered) : Render Rendered := do
  match kind with
  | .capture target =>
    let r ← body
    assignText target r.text
    return { r with text := "" }
  | .changed => renderChanged body
  | .comment => return {}
  | .repeated n => return { text := ← renderRepeatedly body n }
  | .wrap => body

namespace Node

mutual

/-- What a node puts out. -/
def render (node : Node) : Render Rendered :=
  match node with
  | .text s => return { text := s }
  | .output o => return { text := ← o.render }
  | .assign _ target source => do
    assignOutput target source
    return {}
  | .interrupt _ signal => return { signal := some signal }
  | .cycle _ group values => return { text := ← Render.cycle group values }
  | .raw _ s => return { text := s }
  | .leaf tag kind => return { text := ← kind.render tag.markup }
  | .choose _ negated branches => withScope [] (renderBranches branches negated)
  | .case _ subject _ clauses => withScope [] (renderClauses clauses subject false)
  | .loop _ header body otherwise =>
    header.render (scored body.length (renderNodes body))
      (match otherwise with
        | some nodes => some (scored nodes.length (renderNodes nodes))
        | none => none)
  | .table _ header body => header.render (scored body.length (renderNodes body))
  | .block _ kind body => kind.render (scored body.length (renderNodes body))
termination_by structural node

/-- What nodes put out, one after another, until a signal stops them. -/
def renderNodes (nodes : List Node) : Render Rendered :=
  match nodes with
  | [] => return {}
  | node :: rest => do
    let r ← placed node (render node)
    if r.signal.isSome then return r
    let more ← renderNodes rest
    return { more with text := r.text ++ more.text }
termination_by structural nodes

/-- What the first body puts out whose condition holds; `negated` turns the first condition round. -/
def renderBranches (branches : List (Option Condition × List Node)) (negated : Bool) :
    Render Rendered :=
  match branches with
  | [] => return {}
  | (guard, body) :: rest => do
    let holds ← match guard with
      | some c => c.holds
      | none => pure true
    if holds != negated then scored body.length (renderNodes body)
    else renderBranches rest false
termination_by structural branches

/-- What the bodies put out one of whose alternatives equals the subject; an else is only taken, and
ends the choice, when none did so far. -/
def renderClauses (clauses : List (Option (List Expr) × List Node)) (subject : Expr)
    (matched : Bool) : Render Rendered :=
  match clauses with
  | [] => return {}
  | (some values, body) :: rest => do
    let (r, matched) ←
      renderAlternatives subject (scored body.length (renderNodes body)) matched values
    if r.signal.isSome then return r
    let more ← renderClauses rest subject matched
    return { more with text := r.text ++ more.text }
  | (none, body) :: rest => do
    if matched then renderClauses rest subject true
    else scored body.length (renderNodes body)
termination_by structural clauses

end

end Node

/-- What a body puts out. -/
def Body.render (body : Body) : Render Rendered := scored body.length (Node.renderNodes body)

namespace Node

/-- What a node gives when it is asked for by itself and not as part of a body: outputs their value,
choices nothing, and other blocks their body once. -/
def renderAlone (node : Node) : Render Value := do
  match node with
  | .output o => o.pipeline.evaluate
  | .text s => return .str s
  | .assign .. | .cycle .. | .raw .. | .leaf .. => return .str (← node.render).text
  | .interrupt .. | .choose .. | .case .. | .block _ .comment _ => return .str ""
  | .loop _ _ body _ | .table _ _ body | .block _ _ body => return .str (← Body.render body).text

end Node

end Stencil
