import Stencil.Proofs.Render.Containment
import Stencil.Proofs.Render.ScopeDiscipline

/-!
# Which bodies a tag renders, and from where

A tag chooses which of its bodies to render. What it does up to the moment a body is rendered is a
relation here, and what it makes of the body is an equation.

* `Reaches σ body s front node u`: rendering a body from `s`, its node `node` is rendered from `u`, when
  `front` has been put out and no signal has been given.
* `Enters σ node s front body u`: rendering a tag from `s`, its body `body` is rendered from `u`, when
  `front` has been put out, and the tag hands on the signals of the body.
* `Enters.run_of_signal`, `Enters.run_of_error`: when such a body gives a signal, or fails, nothing else
  is rendered, and the tag ends as `Node.closing` says, or fails as well.
-/

namespace Stencil

/-! ## States on the way to a body -/

namespace RenderState

/-- The state with a number of nodes counted that are about to be visited. -/
def scored (s : RenderState) (size : Nat) : RenderState :=
  { s with counts := { s.counts with score := s.counts.score + size } }

/-- The state in a new innermost scope. -/
def within (s : RenderState) (scope : Scope) : RenderState := { s with scopes := scope :: s.scopes }

/-- The state with the metadata of one more loop. -/
def withInfo (s : RenderState) (info : LoopInfo) : RenderState :=
  { s with loops := s.loops.push info }

/-- The state with the metadata of a loop moved to the next item. -/
def advanced (s : RenderState) (id : Nat) : RenderState :=
  { s with loops := s.loops.modify id LoopInfo.advance }

/-- The state after a text has been kept in a variable. -/
def captured (s : RenderState) (target text : String) : RenderState :=
  { s with
    scopes := Render.putOutermost target (.str text) s.scopes
    counts := { s.counts with assigned := s.counts.assigned + text.length } }

/-- The state after a text has been shown because it had changed. -/
def showing (s : RenderState) (text : String) : RenderState :=
  { s with registers := { s.registers with shown := some text } }

end RenderState

namespace Node

/-- What a tag makes of a body that has put out `r`, with a signal, and left the state `t`, when `front`
had been put out before. A capture keeps the text, a change is put out when it is one, and all other
text is put out. -/
def closing (node : Node) (front : String) (r : Rendered) (t : RenderState) :
    Rendered × RenderState :=
  match node with
  | .block _ kind _ =>
    match kind with
    | .capture target => ({ r with text := "" }, t.captured target r.text)
    | .changed =>
      if t.registers.shown == some r.text then ({ r with text := "" }, t.leave)
      else (r, t.leave.showing r.text)
    | .comment | .repeated _ | .wrap => (r, t)
  | _ => ({ r with text := front ++ r.text }, t.leave)

theorem closing_signal (node : Node) (front : String) (r : Rendered) (t : RenderState) :
    (node.closing front r t).1.signal = r.signal := by
  unfold closing
  split
  · split
    · rfl
    · split <;> rfl
    all_goals rfl
  · rfl

end Node

namespace Render

variable {σ : Settings}

/-! ## Nodes of a body -/

theorem runFrom_render (σ : Settings) (s : RenderState) (body : Body) :
    body.render.runFrom σ s = (Node.renderNodes body).runFrom σ (s.scored body.length) :=
  runFrom_scored σ s body.length _

/-- What is put out first, and then what follows from the state it left; a signal or a failure ends
both. -/
def followedBy (out : Outcome Rendered × RenderState)
    (rest : RenderState → Outcome Rendered × RenderState) : Outcome Rendered × RenderState :=
  match out with
  | (.ok r, t) => if r.signal.isSome then (.ok r, t) else precededBy r.text (rest t)
  | (.error e, t) => (.error e, t)

theorem precededBy_empty (out : Outcome Rendered × RenderState) : precededBy "" out = out := by
  obtain ⟨outcome, t⟩ := out
  cases outcome with
  | error e => rfl
  | ok r => simp [precededBy, Except.map]

theorem precededBy_precededBy (first second : String) (out : Outcome Rendered × RenderState) :
    precededBy first (precededBy second out) = precededBy (first ++ second) out := by
  obtain ⟨outcome, t⟩ := out
  cases outcome with
  | error e => rfl
  | ok r => simp [precededBy, Except.map, String.append_assoc]

theorem followedBy_precededBy (text : String) (out : Outcome Rendered × RenderState)
    (rest : RenderState → Outcome Rendered × RenderState) :
    followedBy (precededBy text out) rest = precededBy text (followedBy out rest) := by
  match out with
  | (.error e, t) => rfl
  | (.ok r, t) =>
    by_cases hsignal : r.signal.isSome = true
    · simp only [precededBy, followedBy, Except.map, if_pos hsignal]
    · rw [followedBy, if_neg hsignal, precededBy_precededBy]
      exact if_neg hsignal

theorem followedBy_assoc (out : Outcome Rendered × RenderState)
    (second third : RenderState → Outcome Rendered × RenderState) :
    followedBy (followedBy out second) third =
      followedBy out fun t => followedBy (second t) third := by
  match out with
  | (.error e, t) => rfl
  | (.ok r, t) =>
    by_cases hsignal : r.signal.isSome = true
    · simp only [followedBy, if_pos hsignal]
    · have hfirst (rest : RenderState → Outcome Rendered × RenderState) :
          followedBy (.ok r, t) rest = precededBy r.text (rest t) := if_neg hsignal
      rw [hfirst, hfirst, followedBy_precededBy]

/-- What ends well gave a signal itself, or went on without one. -/
theorem followedBy_eq_ok {first r : Rendered} {t u : RenderState}
    {rest : RenderState → Outcome Rendered × RenderState}
    (hrun : followedBy (.ok first, u) rest = (.ok r, t)) :
    first.signal.isSome = true ∧ r = first ∧ t = u ∨
      first.signal = none ∧ ∃ more, rest u = (.ok more, t) ∧
        r = { more with text := first.text ++ more.text } := by
  unfold followedBy at hrun
  cases hsignal : first.signal with
  | some x =>
    simp only [hsignal, Option.isSome_some, if_true] at hrun
    cases hrun
    exact .inl ⟨rfl, rfl, rfl⟩
  | none =>
    simp only [hsignal, Option.isSome_none, Bool.false_eq_true, if_false] at hrun
    cases hrest : rest u with
    | mk outcome v =>
      rw [hrest] at hrun
      cases outcome with
      | error e => cases hrun
      | ok more =>
        cases hrun
        exact .inr ⟨rfl, more, rfl, rfl⟩

theorem renderNodes_cons_eq_followedBy (σ : Settings) (s : RenderState) (node : Node)
    (rest : List Node) :
    (Node.renderNodes (node :: rest)).runFrom σ s =
      followedBy ((placed node node.render).runFrom σ s) ((Node.renderNodes rest).runFrom σ) := by
  rw [runFrom_renderNodes_cons]
  rfl

/-- A body is rendered up to a node, and then from there on. -/
theorem runFrom_renderNodes_append (σ : Settings) (s : RenderState) (before after : List Node) :
    (Node.renderNodes (before ++ after)).runFrom σ s =
      followedBy ((Node.renderNodes before).runFrom σ s) ((Node.renderNodes after).runFrom σ) := by
  -- each node starts where the one in front of it left off, so the state varies
  induction before generalizing s with
  | nil =>
    rw [List.nil_append, Node.renderNodes, runFrom_pure]
    exact (precededBy_empty _).symm
  | cons node rest ih =>
    rw [List.cons_append, renderNodes_cons_eq_followedBy, renderNodes_cons_eq_followedBy,
      followedBy_assoc]
    congr 1
    funext t
    exact ih t

/-- Rendering a body from `s`, the node is rendered from `u`: the nodes in front of it gave no signal, and
have put out `front`. -/
def Reaches (σ : Settings) (body : Body) (s : RenderState) (front : String) (node : Node)
    (u : RenderState) : Prop :=
  ∃ before after, body = before ++ node :: after ∧
    (Node.renderNodes before).runFrom σ (s.scored body.length) = (.ok { text := front }, u)

section

variable {body : Body} {s u t : RenderState} {front : String} {node : Node}

theorem Reaches.mem (hreaches : Reaches σ body s front node u) : node ∈ body := by
  obtain ⟨before, after, rfl, -⟩ := hreaches
  exact List.mem_append_right before List.mem_cons_self

/-- From the state in which a node is reached, the body goes on with it. -/
theorem Reaches.run (hreaches : Reaches σ body s front node u) : ∃ after,
    body.render.runFrom σ s = precededBy front ((Node.renderNodes (node :: after)).runFrom σ u) := by
  obtain ⟨before, after, rfl, hbefore⟩ := hreaches
  refine ⟨after, ?_⟩
  rw [runFrom_render, runFrom_renderNodes_append, hbefore]
  rfl

/-- **A signal stops the body.** What has been put out is kept, and nothing is done behind the node that
gives the signal. -/
theorem Reaches.run_of_signal (hreaches : Reaches σ body s front node u) {r : Rendered}
    (hplaced : (placed node node.render).runFrom σ u = (.ok r, t)) (hsignal : r.signal.isSome) :
    body.render.runFrom σ s = (.ok { r with text := front ++ r.text }, t) := by
  obtain ⟨after, hrun⟩ := hreaches.run
  rw [hrun, runFrom_renderNodes_cons, hplaced]
  dsimp only
  rw [if_pos hsignal]
  rfl

theorem Reaches.run_of_error (hreaches : Reaches σ body s front node u) {e : Failure}
    (hplaced : (placed node node.render).runFrom σ u = (.error e, t)) :
    body.render.runFrom σ s = (.error e, t) := by
  obtain ⟨after, hrun⟩ := hreaches.run
  rw [hrun, runFrom_renderNodes_cons, hplaced]
  rfl

end

/-! ## Choosing a body -/

/-- Whether what a body stands behind holds. -/
def guardHolds : Option Condition → Render Bool
  | some c => c.holds
  | none => pure true

theorem runFrom_renderBranches_cons (σ : Settings) (s : RenderState) (guard : Option Condition)
    (body : Body) (rest : List (Option Condition × Body)) (negated : Bool) :
    (Node.renderBranches ((guard, body) :: rest) negated).runFrom σ s =
      match (guardHolds guard).runFrom σ s with
      | (.ok holds, t) =>
        if holds != negated then body.render.runFrom σ t
        else (Node.renderBranches rest false).runFrom σ t
      | (.error e, t) => (.error e, t) := by
  cases guard with
  | none =>
    rw [Node.renderBranches, runFrom_bind, runFrom_pure, guardHolds, runFrom_pure]
    dsimp only
    split <;> rfl
  | some c =>
    rw [Node.renderBranches, runFrom_bind, guardHolds]
    generalize c.holds.runFrom σ s = out
    obtain ⟨outcome, t⟩ := out
    cases outcome with
    | error e => rfl
    | ok holds =>
      dsimp only
      split <;> rfl

/-- Of the parts of a choice, the body is the one that is rendered, from `u`. -/
inductive EntersBranch (σ : Settings) (body : Body) (u : RenderState) :
    List (Option Condition × Body) → Bool → RenderState → Prop
  | taken {guard : Option Condition} {rest : List (Option Condition × Body)} {negated holds : Bool}
    {s : RenderState} (hguard : (guardHolds guard).runFrom σ s = (.ok holds, u))
    (htaken : (holds != negated) = true) : EntersBranch σ body u ((guard, body) :: rest) negated s
  | passed {guard : Option Condition} {other : Body} {rest : List (Option Condition × Body)}
    {negated holds : Bool} {s t : RenderState}
    (hguard : (guardHolds guard).runFrom σ s = (.ok holds, t)) (hpassed : (holds != negated) = false)
    (hrest : EntersBranch σ body u rest false t) :
    EntersBranch σ body u ((guard, other) :: rest) negated s

/-- Of the alternatives of a body, one that equals the subject is found when `front` has been put out, and
the body is rendered from `u`. -/
inductive EntersAlternative (σ : Settings) (subject : Expr) (body : Body) (u : RenderState) :
    List Expr → RenderState → String → Prop
  | found {value : Expr} {rest : List Expr} {s : RenderState}
    (hholds : (Comparison.holds { left := subject, operator := some "==", right := value }).runFrom σ s =
      (.ok true, u)) : EntersAlternative σ subject body u (value :: rest) s ""
  | passed {value : Expr} {rest : List Expr} {s t : RenderState} {front : String}
    (hholds : (Comparison.holds { left := subject, operator := some "==", right := value }).runFrom σ s =
      (.ok false, t)) (hrest : EntersAlternative σ subject body u rest t front) :
    EntersAlternative σ subject body u (value :: rest) s front
  | again {value : Expr} {rest : List Expr} {s t t' : RenderState} {r : Rendered} {front : String}
    (hholds : (Comparison.holds { left := subject, operator := some "==", right := value }).runFrom σ s =
      (.ok true, t)) (hbody : body.render.runFrom σ t = (.ok r, t')) (hsignal : r.signal = none)
    (hrest : EntersAlternative σ subject body u rest t' front) :
    EntersAlternative σ subject body u (value :: rest) s (r.text ++ front)

/-- Of the parts of a case, the body is rendered from `u`, when `front` has been put out. -/
inductive EntersClause (σ : Settings) (subject : Expr) (body : Body) (u : RenderState) :
    List (Option (List Expr) × Body) → Bool → RenderState → String → Prop
  | found {values : List Expr} {rest : List (Option (List Expr) × Body)} {matched : Bool}
    {s : RenderState} {front : String} (h : EntersAlternative σ subject body u values s front) :
    EntersClause σ subject body u ((some values, body) :: rest) matched s front
  | later {values : List Expr} {other : Body} {rest : List (Option (List Expr) × Body)}
    {matched matched' : Bool} {s t : RenderState} {r : Rendered} {front : String}
    (hother : (renderAlternatives subject other.render matched values).runFrom σ s =
      (.ok (r, matched'), t)) (hsignal : r.signal = none)
    (hrest : EntersClause σ subject body u rest matched' t front) :
    EntersClause σ subject body u ((some values, other) :: rest) matched s (r.text ++ front)
  | otherwise {rest : List (Option (List Expr) × Body)} :
    EntersClause σ subject body u ((none, body) :: rest) false u ""
  | skipped {other : Body} {rest : List (Option (List Expr) × Body)} {s : RenderState}
    {front : String} (hrest : EntersClause σ subject body u rest true s front) :
    EntersClause σ subject body u ((none, other) :: rest) true s front

/-- Rendering the tag from `s`, its body is rendered from `u`, when `front` has been put out, and the
signals of the body are signals of the tag. -/
inductive Enters (σ : Settings) : Node → RenderState → String → Body → RenderState → Prop
  | branch {tag : Tag} {negated : Bool} {branches : List (Option Condition × Body)} {s u : RenderState}
    {body : Body} (hdepth : s.scopes.length ≤ maxScopes)
    (h : EntersBranch σ body u branches negated (s.within [])) :
    Enters σ (.choose tag negated branches) s "" body u
  | clause {tag : Tag} {subject : Expr} {preamble : Body}
    {clauses : List (Option (List Expr) × Body)} {s u : RenderState} {front : String} {body : Body}
    (hdepth : s.scopes.length ≤ maxScopes)
    (h : EntersClause σ subject body u clauses false (s.within []) front) :
    Enters σ (.case tag subject preamble clauses) s front body u
  /-- What stands behind the else of a loop without items. -/
  | otherwise {tag : Tag} {header : LoopHeader} {body other : Body} {s t : RenderState}
    (hitems : header.itemsOf.runFrom σ s = (.ok [], t)) (hdepth : t.scopes.length ≤ maxScopes) :
    Enters σ (.loop tag header body (some other)) s "" other (t.within [])
  | capture {tag : Tag} {target : String} {body : Body} {s : RenderState} :
    Enters σ (.block tag (.capture target) body) s "" body s
  | changed {tag : Tag} {body : Body} {s : RenderState} (hdepth : s.scopes.length ≤ maxScopes) :
    Enters σ (.block tag .changed body) s "" body (s.within [])
  | wrap {tag : Tag} {body : Body} {s : RenderState} : Enters σ (.block tag .wrap body) s "" body s

/-! ## What a tag makes of its body -/

theorem render_loop (tag : Tag) (header : LoopHeader) (body : Body) (otherwise : Option Body) :
    (Node.loop tag header body otherwise).render =
      header.render body.render (otherwise.map Body.render) := by
  cases otherwise with
  | none =>
    rw [Node.render]
    rfl
  | some other =>
    rw [Node.render]
    rfl

theorem render_table (tag : Tag) (header : TableHeader) (body : Body) :
    (Node.table tag header body).render = header.render body.render := by
  rw [Node.render]
  rfl

theorem render_block (tag : Tag) (kind : BlockKind) (body : Body) :
    (Node.block tag kind body).render = kind.render body.render := by
  rw [Node.render]
  rfl

/-- Nothing follows what was put out: it gave a signal, or it failed. -/
def Stops (out : Outcome Rendered × RenderState) : Prop :=
  ∀ r t, out = (.ok r, t) → r.signal.isSome = true

theorem followedBy_of_stops {out : Outcome Rendered × RenderState} (hstops : Stops out)
    (rest : RenderState → Outcome Rendered × RenderState) : followedBy out rest = out := by
  match out with
  | (.error e, t) => rfl
  | (.ok r, t) => exact if_pos (hstops r t rfl)

theorem stops_precededBy {out : Outcome Rendered × RenderState} (hstops : Stops out) (text : String) :
    Stops (precededBy text out) := by
  intro r t hout
  obtain ⟨outcome, u⟩ := out
  cases outcome with
  | error e => cases hout
  | ok more =>
    cases hout
    exact hstops more u rfl

theorem runFrom_renderAlternatives_cons (σ : Settings) (s : RenderState) (subject : Expr)
    (body : Render Rendered) (matched : Bool) (value : Expr) (rest : List Expr) :
    (renderAlternatives subject body matched (value :: rest)).runFrom σ s =
      match (Comparison.holds
        { left := subject, operator := some "==", right := value }).runFrom σ s with
      | (.ok true, t) =>
        match body.runFrom σ t with
        | (.ok r, t) =>
          if r.signal.isSome then (.ok (r, true), t)
          else
            let later := (renderAlternatives subject body true rest).runFrom σ t
            (later.1.map fun p => ({ p.1 with text := r.text ++ p.1.text }, p.2), later.2)
        | (.error e, t) => (.error e, t)
      | (.ok false, t) => (renderAlternatives subject body matched rest).runFrom σ t
      | (.error e, t) => (.error e, t) := by
  rw [renderAlternatives, runFrom_bind]
  generalize (Comparison.holds { left := subject, operator := some "==", right := value }).runFrom σ s =
    found
  match found with
  | (.error e, t) => rfl
  | (.ok false, t) => rfl
  | (.ok true, t) =>
    dsimp only
    rw [if_pos rfl, runFrom_bind]
    generalize body.runFrom σ t = out
    match out with
    | (.error e, t) => rfl
    | (.ok r, t) =>
      dsimp only
      split
      · rfl
      · rw [runFrom_bind]
        generalize (renderAlternatives subject body true rest).runFrom σ t = later
        match later with
        | (.error e, t) => rfl
        | (.ok (more, matched), t) => rfl

theorem runFrom_renderClauses_cons (σ : Settings) (s : RenderState) (subject : Expr) (values : List Expr)
    (body : Body) (matched : Bool) (rest : List (Option (List Expr) × Body)) :
    (Node.renderClauses ((some values, body) :: rest) subject matched).runFrom σ s =
      match (renderAlternatives subject body.render matched values).runFrom σ s with
      | (.ok (r, matched), t) =>
        followedBy (.ok r, t) ((Node.renderClauses rest subject matched).runFrom σ)
      | (.error e, t) => (.error e, t) := by
  rw [Node.renderClauses, runFrom_bind, Body.render]
  generalize (renderAlternatives subject (scored body.length (Node.renderNodes body)) matched
    values).runFrom σ s = out
  obtain ⟨e | ⟨r, matched⟩, t⟩ := out
  · rfl
  · dsimp only [followedBy]
    split
    · rfl
    · rw [runFrom_bind]
      generalize (Node.renderClauses rest subject matched).runFrom σ t = later
      obtain ⟨e | more, t⟩ := later <;> rfl

/-- An alternative that ends well was passed, or it had the body rendered, and the others were tested
behind it just if it gave no signal. -/
theorem renderAlternatives_cons_eq_ok {subject value : Expr} {rest : List Expr}
    {body : Render Rendered} {matched matched' : Bool} {s t : RenderState} {r : Rendered}
    (hrun : (renderAlternatives subject body matched (value :: rest)).runFrom σ s =
      (.ok (r, matched'), t)) :
    ∃ holds u, (Comparison.holds { left := subject, operator := some "==", right := value }).runFrom σ s =
        (.ok holds, u) ∧
      (holds = false ∧
          (renderAlternatives subject body matched rest).runFrom σ u = (.ok (r, matched'), t) ∨
        holds = true ∧ ∃ first v, body.runFrom σ u = (.ok first, v) ∧
          (first.signal.isSome = true ∧ r = first ∧ t = v ∨
            first.signal = none ∧ ∃ more,
              (renderAlternatives subject body true rest).runFrom σ v = (.ok (more, matched'), t) ∧
              r = { more with text := first.text ++ more.text })) := by
  rw [renderAlternatives] at hrun
  obtain ⟨holds, u, hholds, hthen⟩ := bind_eq_ok hrun
  refine ⟨holds, u, hholds, ?_⟩
  cases holds with
  | false => exact .inl ⟨rfl, hthen⟩
  | true =>
    rw [if_pos rfl] at hthen
    obtain ⟨first, v, hbody, hend⟩ := bind_eq_ok hthen
    refine .inr ⟨rfl, first, v, hbody, ?_⟩
    cases hsignal : first.signal with
    | some x =>
      rw [hsignal, Option.isSome_some, if_pos rfl] at hend
      cases hend
      exact .inl ⟨rfl, rfl, rfl⟩
    | none =>
      rw [hsignal, Option.isSome_none, if_neg Bool.false_ne_true] at hend
      obtain ⟨⟨more, matched⟩, w, hlater, hmore⟩ := bind_eq_ok hend
      cases hmore
      exact .inr ⟨rfl, more, hlater, rfl⟩

theorem renderClauses_cons_eq_ok {subject : Expr} {values : List Expr} {body : Body} {matched : Bool}
    {rest : List (Option (List Expr) × Body)} {s t : RenderState} {r : Rendered}
    (hrun : (Node.renderClauses ((some values, body) :: rest) subject matched).runFrom σ s = (.ok r, t)) :
    ∃ first matched' u,
      (renderAlternatives subject body.render matched values).runFrom σ s = (.ok (first, matched'), u) ∧
      (first.signal.isSome = true ∧ r = first ∧ t = u ∨
        first.signal = none ∧ ∃ more,
          (Node.renderClauses rest subject matched').runFrom σ u = (.ok more, t) ∧
          r = { more with text := first.text ++ more.text }) := by
  rw [runFrom_renderClauses_cons] at hrun
  cases hvalues : (renderAlternatives subject body.render matched values).runFrom σ s with
  | mk outcome u =>
    rw [hvalues] at hrun
    cases outcome with
    | error e => cases hrun
    | ok pair => exact ⟨pair.1, pair.2, u, rfl, followedBy_eq_ok hrun⟩

section

variable {body : Body} {s u : RenderState} {front : String}

theorem EntersBranch.run {branches : List (Option Condition × Body)} {negated : Bool}
    (h : EntersBranch σ body u branches negated s) :
    (Node.renderBranches branches negated).runFrom σ s = body.render.runFrom σ u := by
  induction h with
  | taken hguard htaken =>
    rw [runFrom_renderBranches_cons, hguard]
    exact if_pos htaken
  | passed hguard hpassed _ ih =>
    rw [runFrom_renderBranches_cons, hguard, ← ih]
    dsimp only
    rw [hpassed]
    rfl

/-- A choice that ends well put out nothing, or what the body did that it took. -/
theorem renderBranches_eq_ok {branches : List (Option Condition × Body)} {negated : Bool}
    {s t : RenderState} {r : Rendered}
    (hrun : (Node.renderBranches branches negated).runFrom σ s = (.ok r, t)) :
    r = {} ∨ ∃ body u, EntersBranch σ body u branches negated s ∧
      body.render.runFrom σ u = (.ok r, t) := by
  induction branches generalizing negated s with
  | nil =>
    rw [Node.renderBranches] at hrun
    cases hrun
    exact .inl rfl
  | cons branch rest ih =>
    obtain ⟨guard, body⟩ := branch
    rw [runFrom_renderBranches_cons] at hrun
    cases hguard : (guardHolds guard).runFrom σ s with
    | mk outcome u =>
      rw [hguard] at hrun
      cases outcome with
      | error e => cases hrun
      | ok holds =>
        dsimp only at hrun
        split at hrun
        · next htaken => exact .inr ⟨body, u, .taken hguard htaken, hrun⟩
        · next hpassed =>
          have hfalse : (holds != negated) = false := by simpa using hpassed
          rcases ih hrun with hnone | ⟨inner, v, henters, hinner⟩
          · exact .inl hnone
          · exact .inr ⟨inner, v, .passed hguard hfalse henters, hinner⟩

/-- No other alternative is tested behind a body that gives a signal or fails. -/
theorem EntersAlternative.run {subject : Expr} {values : List Expr}
    (h : EntersAlternative σ subject body u values s front) (hstops : Stops (body.render.runFrom σ u))
    (matched : Bool) :
    (renderAlternatives subject body.render matched values).runFrom σ s =
      ((precededBy front (body.render.runFrom σ u)).1.map fun r => (r, true),
        (body.render.runFrom σ u).2) := by
  -- whether one was found before makes no difference to what is put out
  induction h generalizing matched with
  | found hholds =>
    rw [runFrom_renderAlternatives_cons, hholds, precededBy_empty]
    dsimp only
    generalize hout : body.render.runFrom σ u = out at hstops
    match out with
    | (.error e, t) => rfl
    | (.ok r, t) => exact if_pos (hstops r t rfl)
  | passed hholds _ ih =>
    rw [runFrom_renderAlternatives_cons, hholds]
    exact ih matched
  | again hholds hbody hsignal _ ih =>
    rw [runFrom_renderAlternatives_cons, hholds]
    dsimp only
    rw [hbody]
    dsimp only
    rw [hsignal, ih true, ← precededBy_precededBy]
    generalize precededBy _ (body.render.runFrom σ u) = later
    obtain ⟨outcome, t⟩ := later
    cases outcome with
    | error e => rfl
    | ok more => rfl

/-- No other part of a case is tested behind a body that gives a signal or fails. -/
theorem EntersClause.run {subject : Expr} {clauses : List (Option (List Expr) × Body)} {matched : Bool}
    (h : EntersClause σ subject body u clauses matched s front)
    (hstops : Stops (body.render.runFrom σ u)) :
    (Node.renderClauses clauses subject matched).runFrom σ s =
      precededBy front (body.render.runFrom σ u) := by
  induction h with
  | @found values rest matched s front h =>
    rw [runFrom_renderClauses_cons, h.run hstops]
    have hfirst := stops_precededBy hstops front
    generalize body.render.runFrom σ u = out at hfirst
    match out with
    | (.error e, t) => rfl
    | (.ok r, t) => exact followedBy_of_stops hfirst _
  | later hother hsignal _ ih =>
    rw [runFrom_renderClauses_cons, hother]
    dsimp only [followedBy]
    rw [hsignal, ih, ← precededBy_precededBy]
    rfl
  | otherwise =>
    rw [Node.renderClauses, precededBy_empty]
    rfl
  | skipped _ ih =>
    rw [Node.renderClauses]
    exact ih

theorem runFrom_withScope_of_le {α : Type} {scope : Scope} {x : Render α} {s : RenderState}
    (hdepth : s.scopes.length ≤ maxScopes) :
    (withScope scope x).runFrom σ s =
      ((x.runFrom σ (s.within scope)).1, (x.runFrom σ (s.within scope)).2.leave) := by
  rw [runFrom_withScope, if_neg (Nat.not_lt.mpr hdepth)]
  rfl

/-- A step in a scope that ends well was run inside it. -/
theorem withScope_eq_ok {α : Type} {scope : Scope} {step : Render α} {s t : RenderState} {a : α}
    (hrun : (withScope scope step).runFrom σ s = (.ok a, t)) :
    s.scopes.length ≤ maxScopes ∧ ∃ u, step.runFrom σ (s.within scope) = (.ok a, u) ∧ t = u.leave := by
  by_cases hdepth : s.scopes.length ≤ maxScopes
  · rw [runFrom_withScope_of_le hdepth] at hrun
    refine ⟨hdepth, (step.runFrom σ (s.within scope)).2, ?_, (Prod.mk.inj hrun).2.symm⟩
    rw [← (Prod.mk.inj hrun).1]
  · rw [runFrom_withScope, if_pos (Nat.lt_of_not_le hdepth)] at hrun
    cases hrun

/-- The else of a loop without items is rendered in a scope of its own. -/
theorem runFrom_render_otherwise {header : LoopHeader} {x step : Render Rendered} {t : RenderState}
    (hitems : header.itemsOf.runFrom σ s = (.ok [], t)) :
    (header.render x (some step)).runFrom σ s = (withScope [] step).runFrom σ t := by
  rw [LoopHeader.render, runFrom_bind, hitems]
  rfl

end

section

variable {node : Node} {body : Body} {s t u : RenderState} {front : String}

/-- **A tag passes a signal of its body on.** It ends with the same signal, having done nothing but to put
out, to keep or to show the text of the body. -/
theorem Enters.run_of_signal (h : Enters σ node s front body u) (hscopes : s.scopes ≠ [])
    {r : Rendered} (hbody : body.render.runFrom σ u = (.ok r, t)) (hsignal : r.signal.isSome = true) :
    node.render.runFrom σ s = (.ok (node.closing front r t).1, (node.closing front r t).2) := by
  have hstops : Stops (body.render.runFrom σ u) := by
    intro r' t' hout
    rw [hbody] at hout
    cases hout
    exact hsignal
  cases h with
  | branch hdepth h =>
    rw [Node.render, runFrom_withScope_of_le hdepth, h.run,
      ← precededBy_empty (body.render.runFrom σ u), hbody]
    rfl
  | clause hdepth h =>
    rw [Node.render, runFrom_withScope_of_le hdepth, h.run hstops, hbody]
    rfl
  | otherwise hitems hdepth =>
    rw [render_loop, Option.map_some, runFrom_render_otherwise hitems, runFrom_withScope_of_le hdepth,
      ← precededBy_empty (body.render.runFrom σ _), hbody]
    rfl
  | @capture tag target =>
    -- the text is kept in the outermost scope, so that there has to be one
    have hdepth := (restored_body body σ s).depth
    rw [hbody] at hdepth
    have hsome : ¬ t.scopes.isEmpty = true := by
      rw [List.isEmpty_iff, ← List.length_eq_zero_iff, hdepth, List.length_eq_zero_iff]
      exact hscopes
    rw [render_block, BlockKind.render, runFrom_bind, hbody]
    dsimp only
    rw [runFrom_bind, assignText, runFrom_bind, assign, runFrom_modifyScopes, if_neg hsome]
    rfl
  | changed hdepth =>
    rw [render_block, BlockKind.render, renderChanged, runFrom_bind, runFrom_withScope_of_le hdepth,
      hbody]
    dsimp only
    rw [runFrom_bind, runFrom_registers]
    dsimp only [Node.closing]
    rw [show t.leave.registers = t.registers from rfl]
    split
    · rfl
    · rfl
  | wrap =>
    rw [render_block]
    exact hbody

theorem Enters.run_of_error (h : Enters σ node s front body u) {e : Failure}
    (hbody : body.render.runFrom σ u = (.error e, t)) :
    ∃ t', node.render.runFrom σ s = (.error e, t') := by
  have hstops : Stops (body.render.runFrom σ u) := by
    intro r' t' hout
    rw [hbody] at hout
    cases hout
  cases h with
  | branch hdepth h =>
    rw [Node.render, runFrom_withScope_of_le hdepth, h.run, hbody]
    exact ⟨_, rfl⟩
  | clause hdepth h =>
    rw [Node.render, runFrom_withScope_of_le hdepth, h.run hstops, hbody]
    exact ⟨_, rfl⟩
  | otherwise hitems hdepth =>
    rw [render_loop, Option.map_some, runFrom_render_otherwise hitems, runFrom_withScope_of_le hdepth,
      hbody]
    exact ⟨_, rfl⟩
  | capture =>
    rw [render_block, BlockKind.render, runFrom_bind, hbody]
    exact ⟨_, rfl⟩
  | changed hdepth =>
    rw [render_block, BlockKind.render, renderChanged, runFrom_bind, runFrom_withScope_of_le hdepth,
      hbody]
    exact ⟨_, rfl⟩
  | wrap =>
    rw [render_block]
    exact ⟨t, hbody⟩

theorem EntersAlternative.depth {subject : Expr} {values : List Expr}
    (h : EntersAlternative σ subject body u values s front) : u.scopes.length = s.scopes.length := by
  have hholds {value : Expr} {holds : Bool} {s t : RenderState}
      (hrun : (Comparison.holds { left := subject, operator := some "==", right := value }).runFrom σ s =
        (.ok holds, t)) : t.scopes.length = s.scopes.length := by
    have hstep := ((evaluates_restored []).comparison
      { left := subject, operator := some "==", right := value } σ s).depth
    rw [hrun] at hstep
    exact hstep
  -- neither a test nor a body without a signal leaves a scope behind
  induction h with
  | found hrun => exact hholds hrun
  | passed hrun _ ih => exact ih.trans (hholds hrun)
  | @again value rest s t t' r front hrun hbody _ _ ih =>
    have hstep := (restored_body body σ t).depth
    rw [hbody] at hstep
    exact ih.trans (hstep.trans (hholds hrun))

theorem EntersBranch.depth {branches : List (Option Condition × Body)} {negated : Bool}
    (h : EntersBranch σ body u branches negated s) : u.scopes.length = s.scopes.length := by
  have hguard {guard : Option Condition} {holds : Bool} {s t : RenderState}
      (hrun : (guardHolds guard).runFrom σ s = (.ok holds, t)) :
      t.scopes.length = s.scopes.length := by
    have hclosed := evaluates_restored []
    have hstep : Keeps (fun _ => Restored []) Bool (guardHolds guard) := by
      cases guard with
      | none => exact hclosed.pure true
      | some c => exact hclosed.condition c
    have hdepth := (hstep σ s).depth
    rw [hrun] at hdepth
    exact hdepth
  induction h with
  | taken hrun _ => exact hguard hrun
  | passed hrun _ _ ih => exact ih.trans (hguard hrun)

theorem EntersClause.depth {subject : Expr} {clauses : List (Option (List Expr) × Body)}
    {matched : Bool} (h : EntersClause σ subject body u clauses matched s front) :
    u.scopes.length = s.scopes.length := by
  induction h with
  | found h => exact h.depth
  | @later values other rest matched matched' s t r front hother _ _ ih =>
    have hstep := ((renderClosed_restored (Node.targetsOfBody other)).renderAlternatives subject
      (restored_body other) matched values σ s).depth
    rw [hother] at hstep
    exact ih.trans hstep
  | otherwise => rfl
  | skipped _ ih => exact ih

/-- A body is rendered inside a scope if its tag is. -/
theorem Enters.scopes_ne_nil (h : Enters σ node s front body u) (hscopes : s.scopes ≠ []) :
    u.scopes ≠ [] := by
  have hwithin {t : RenderState} (hdepth : u.scopes.length = (t.within []).scopes.length) :
      u.scopes ≠ [] := by
    rw [← List.length_pos_iff, hdepth]
    exact Nat.succ_pos _
  cases h with
  | branch _ h => exact hwithin h.depth
  | clause _ h => exact hwithin h.depth
  | otherwise | changed => exact List.cons_ne_nil _ _
  | capture | wrap => exact hscopes

theorem restored_renderNodes (nodes : List Node) (σ : Settings) (s : RenderState) :
    Restored (Node.targetsOfBody nodes) s ((Node.renderNodes nodes).runFrom σ s).2 := by
  refine (renderClosed_restored (Node.targetsOfBody nodes)).nodes nodes (fun m hm => ?_) σ s
  exact supports_restored m fun name hname => List.mem_filterMap.mpr ⟨m, hm, hname⟩

theorem Reaches.scopes_ne_nil (h : Reaches σ body s front node u) (hscopes : s.scopes ≠ []) :
    u.scopes ≠ [] := by
  obtain ⟨before, after, rfl, hbefore⟩ := h
  have hdepth := (restored_renderNodes before σ (s.scored (before ++ node :: after).length)).depth
  rw [hbefore] at hdepth
  rw [← List.length_pos_iff, hdepth, List.length_pos_iff]
  exact hscopes

theorem EntersBranch.mem {branches : List (Option Condition × Body)} {negated : Bool}
    (h : EntersBranch σ body u branches negated s) : body ∈ branches.map (·.2) := by
  induction h with
  | taken => exact List.mem_cons_self
  | passed _ _ _ ih => exact List.mem_cons_of_mem _ ih

theorem EntersClause.mem {subject : Expr} {clauses : List (Option (List Expr) × Body)}
    {matched : Bool} (h : EntersClause σ subject body u clauses matched s front) :
    body ∈ clauses.map (·.2) := by
  induction h with
  | found | otherwise => exact List.mem_cons_self
  | later _ _ _ ih | skipped _ ih => exact List.mem_cons_of_mem _ ih

theorem Enters.mem_bodies (h : Enters σ node s front body u) : body ∈ node.bodies := by
  cases h with
  | branch _ h => exact h.mem
  | clause _ h => exact h.mem
  | otherwise => exact List.mem_cons_of_mem _ List.mem_cons_self
  | capture | changed | wrap => exact List.mem_cons_self

end

end Render

end Stencil
