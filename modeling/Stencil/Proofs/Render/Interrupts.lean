import Stencil.Proofs.Render.Iterated

/-!
# Signals stop at the nearest loop

A break or a continue is a signal that ends every body around it, up to the body of the nearest loop.

* `Executes σ body s looped node u`: rendering a body from `s`, the node `node` is rendered from `u`, in the
  body itself or anywhere inside it; `looped` says whether a body that is rendered over and over lies in
  between.
* `SignalLaws σ`: what bodies, tags and loops do with a signal.
* `signals_stop_at_loops`: a whole template ends with a signal just if a break or continue of that kind is
  executed that no loop is around.
-/

namespace Stencil

namespace Render

variable {σ : Settings} {x : Interrupt}

/-! ## Where a signal comes from -/

/-- A node of a body that ends well was rendered, and its text may be left out, or it failed and is
replaced by the text of its failure, which gives no signal. -/
theorem rendered_of_placed {node : Node} {s t : RenderState} {r : Rendered}
    (hplaced : (placed node node.render).runFrom σ s = (.ok r, t)) :
    (∃ r' u, node.render.runFrom σ s = (.ok r', u) ∧ r.signal = r'.signal) ∨ r.signal = none := by
  rcases placed_eq_ok hplaced with ⟨r', u, hnode, -, -, hsignal⟩ | ⟨e, u, -, -, -, rfl⟩
  · exact .inl ⟨r', u, hnode, hsignal⟩
  · exact .inr rfl

/-- The signal of a body is that of one of its nodes, which is the last one to be rendered. -/
theorem exists_of_renderNodes_signal {nodes : List Node} {s t : RenderState} {r : Rendered}
    (hrun : (Node.renderNodes nodes).runFrom σ s = (.ok r, t)) (hsignal : r.signal = some x) :
    ∃ before node after front u first, nodes = before ++ node :: after ∧
      (Node.renderNodes before).runFrom σ s = (.ok { text := front }, u) ∧
      (placed node node.render).runFrom σ u = (.ok first, t) ∧ first.signal = some x := by
  induction nodes generalizing s r with
  | nil =>
    rw [Node.renderNodes] at hrun
    cases hrun
    cases hsignal
  | cons node rest ih =>
    obtain ⟨first, u, hplaced, ⟨-, rfl, rfl⟩ | ⟨hnone, more, hrest, rfl⟩⟩ := renderNodes_cons_eq_ok hrun
    · refine ⟨[], node, rest, "", s, r, rfl, ?_, hplaced, hsignal⟩
      rw [Node.renderNodes]
      rfl
    · -- a node without a signal belongs to those in front
      obtain ⟨before, last, after, front, v, lastRendered, rfl, hbefore, hlast, hx⟩ :=
        ih hrest hsignal
      refine ⟨node :: before, last, after, first.text ++ front, v, lastRendered, rfl, ?_, hlast, hx⟩
      rw [renderNodes_cons_eq_followedBy, hplaced]
      dsimp only [followedBy]
      rw [hnone, hbefore]
      rfl

theorem exists_reaches_of_signal {body : Body} {s t : RenderState} {r : Rendered}
    (hrun : body.render.runFrom σ s = (.ok r, t)) (hsignal : r.signal = some x) :
    ∃ front node u r' t', Reaches σ body s front node u ∧
      node.render.runFrom σ u = (.ok r', t') ∧ r'.signal = some x := by
  rw [runFrom_render] at hrun
  obtain ⟨before, node, after, front, u, first, hsplit, hbefore, hplaced, hx⟩ :=
    exists_of_renderNodes_signal hrun hsignal
  rcases rendered_of_placed hplaced with ⟨r', t', hnode, heq⟩ | hnone
  · exact ⟨front, node, u, r', t', ⟨before, after, hsplit, hbefore⟩, hnode, heq.symm.trans hx⟩
  · rw [hnone] at hx
    cases hx

/-- The signal that alternatives end with is that of their body, which one of them had rendered. -/
theorem exists_of_renderAlternatives_signal {subject : Expr} {body : Body} {values : List Expr}
    {matched matched' : Bool} {s t : RenderState} {r : Rendered}
    (hrun : (renderAlternatives subject body.render matched values).runFrom σ s =
      (.ok (r, matched'), t)) (hsignal : r.signal = some x) :
    ∃ front u r', EntersAlternative σ subject body u values s front ∧
      body.render.runFrom σ u = (.ok r', t) ∧ r'.signal = some x := by
  induction values generalizing matched s r with
  | nil =>
    rw [renderAlternatives] at hrun
    cases hrun
    cases hsignal
  | cons value rest ih =>
    obtain ⟨holds, u, hholds, ⟨rfl, hrest⟩ | ⟨rfl, first, v, hbody, hend⟩⟩ :=
      renderAlternatives_cons_eq_ok hrun
    · obtain ⟨front, v, r', henters, hbody, hx⟩ := ih hrest hsignal
      exact ⟨front, v, r', .passed hholds henters, hbody, hx⟩
    · rcases hend with ⟨-, rfl, rfl⟩ | ⟨hnone, more, hlater, rfl⟩
      · exact ⟨"", u, r, .found hholds, hbody, hsignal⟩
      · obtain ⟨front, v', r', henters, hinner, hx⟩ := ih hlater hsignal
        exact ⟨_, v', r', .again hholds hbody hnone henters, hinner, hx⟩

theorem exists_of_renderClauses_signal {subject : Expr} {clauses : List (Option (List Expr) × Body)}
    {matched : Bool} {s t : RenderState} {r : Rendered}
    (hrun : (Node.renderClauses clauses subject matched).runFrom σ s = (.ok r, t))
    (hsignal : r.signal = some x) :
    ∃ body front u r', EntersClause σ subject body u clauses matched s front ∧
      body.render.runFrom σ u = (.ok r', t) ∧ r'.signal = some x := by
  induction clauses generalizing matched s r with
  | nil =>
    rw [Node.renderClauses] at hrun
    cases hrun
    cases hsignal
  | cons clause rest ih =>
    obtain ⟨_ | values, body⟩ := clause
    · -- an else is rendered when nothing in front of it was
      rw [Node.renderClauses] at hrun
      cases matched with
      | false => exact ⟨body, "", s, r, .otherwise, hrun, hsignal⟩
      | true =>
        obtain ⟨inner, front, u, r', henters, hinner, hx⟩ := ih hrun hsignal
        exact ⟨inner, front, u, r', .skipped henters, hinner, hx⟩
    · obtain ⟨first, matched', u, hvalues, ⟨-, rfl, rfl⟩ | ⟨hnone, more, hlater, rfl⟩⟩ :=
        renderClauses_cons_eq_ok hrun
      · obtain ⟨front, v, r', henters, hinner, hx⟩ := exists_of_renderAlternatives_signal hvalues hsignal
        exact ⟨body, front, v, r', .found henters, hinner, hx⟩
      · obtain ⟨inner, front, v, r', henters, hinner, hx⟩ := ih hlater hsignal
        exact ⟨inner, _, v, r', .later hvalues hnone henters, hinner, hx⟩

theorem signal_eq_none_of_text {α : Type} {step : Render α} {f : α → String} {s t : RenderState}
    {r : Rendered} (hrun : (do return { text := f (← step) } : Render Rendered).runFrom σ s = (.ok r, t)) :
    r.signal = none := by
  obtain ⟨a, u, -, hend⟩ := bind_eq_ok hrun
  cases hend
  rfl

/-- A block gives a signal only if its body does. -/
theorem exists_enters_of_block_signal {tag : Tag} {kind : BlockKind} {body : Body} {s t : RenderState}
    {r : Rendered} (hrun : (Node.block tag kind body).render.runFrom σ s = (.ok r, t))
    (hsignal : r.signal = some x) :
    ∃ front inner u r' t', Enters σ (.block tag kind body) s front inner u ∧
      inner.render.runFrom σ u = (.ok r', t') ∧ r'.signal = some x := by
  rw [render_block] at hrun
  cases kind with
  | capture target =>
    obtain ⟨r', u, hbody, rfl⟩ := capture_eq_ok hrun
    exact ⟨"", body, s, r', u, .capture, hbody, hsignal⟩
  | changed =>
    -- the signal stays when the text is left out
    obtain ⟨hdepth, r', u, hbody, rfl | rfl⟩ := changed_eq_ok hrun
    · exact ⟨"", body, s.within [], _, u, .changed hdepth, hbody, hsignal⟩
    · exact ⟨"", body, s.within [], r', u, .changed hdepth, hbody, hsignal⟩
  | comment =>
    cases hrun
    cases hsignal
  | repeated n =>
    obtain ⟨text, -, rfl⟩ := repeated_eq_ok hrun
    cases hsignal
  | wrap => exact ⟨"", body, s, r, t, .wrap, hrun, hsignal⟩

/-- **A node gives a signal only if it is one, or hands on that of a body.** -/
theorem exists_enters_of_signal {node : Node} {s t : RenderState} {r : Rendered}
    (hrun : node.render.runFrom σ s = (.ok r, t)) (hsignal : r.signal = some x) :
    (∃ tag, node = .interrupt tag x) ∨ ∃ front body u r' t', Enters σ node s front body u ∧
      body.render.runFrom σ u = (.ok r', t') ∧ r'.signal = some x := by
  -- nodes that put out a text give no signal
  have hsilent {P : Prop} (hnone : r.signal = none) : P := by
    rw [hnone] at hsignal
    cases hsignal
  cases node with
  | text | raw =>
    rw [Node.render] at hrun
    cases hrun
    cases hsignal
  | output | cycle | leaf =>
    rw [Node.render] at hrun
    exact hsilent (signal_eq_none_of_text hrun)
  | assign =>
    rw [Node.render] at hrun
    exact hsilent (signal_eq_none_of_text (f := fun _ => "") hrun)
  | interrupt tag signal =>
    rw [Node.render] at hrun
    cases hrun
    cases hsignal
    exact .inl ⟨tag, rfl⟩
  | choose tag negated branches =>
    rw [Node.render] at hrun
    obtain ⟨hdepth, v, hbranches, -⟩ := withScope_eq_ok hrun
    rcases renderBranches_eq_ok hbranches with rfl | ⟨body, u, henters, hbody⟩
    · cases hsignal
    · exact .inr ⟨"", body, u, r, v, .branch hdepth henters, hbody, hsignal⟩
  | case tag subject preamble clauses =>
    rw [Node.render] at hrun
    obtain ⟨hdepth, v, hclauses, -⟩ := withScope_eq_ok hrun
    obtain ⟨body, front, u, r', henters, hbody, hx⟩ :=
      exists_of_renderClauses_signal hclauses hsignal
    exact .inr ⟨front, body, u, r', v, .clause hdepth henters, hbody, hx⟩
  | loop tag header body otherwise =>
    rw [render_loop] at hrun
    obtain ⟨items, u, hitems, ⟨-, -, rfl⟩ | ⟨rfl, step, hstep, hother⟩ | ⟨-, text, v, -, rfl⟩⟩ :=
      loop_eq_ok hrun
    · cases hsignal
    · -- only the alternative hands its signal on, not the rounds
      obtain ⟨other, rfl, rfl⟩ := Option.map_eq_some_iff.mp hstep
      obtain ⟨hdepth, v, hbody, -⟩ := withScope_eq_ok hother
      exact .inr ⟨"", other, u.within [], r, v, .otherwise hitems hdepth, hbody, hsignal⟩
    · cases hsignal
  | table tag header body =>
    rw [render_table] at hrun
    obtain rfl | ⟨cells, rfl⟩ := TableHeader.render_eq_ok hrun
    · cases hsignal
    · cases hsignal
  | block => exact .inr (exists_enters_of_block_signal hrun hsignal)

/-! ## Executed signals -/

/-- Rendering a body from `s`, the node `node` is rendered from `u`, in the body or anywhere inside it. On
the way there, `looped` says whether a body lies that is rendered over and over. -/
inductive Executes (σ : Settings) : Body → RenderState → Bool → Node → RenderState → Prop
  | here {body : Body} {s u : RenderState} {front : String} {node : Node}
    (hreaches : Reaches σ body s front node u) : Executes σ body s false node u
  | through {body inner : Body} {s u v w : RenderState} {front inside : String} {tag node : Node}
    {looped : Bool} (hreaches : Reaches σ body s front tag u) (henters : Enters σ tag u inside inner v)
    (hinner : Executes σ inner v looped node w) : Executes σ body s looped node w
  | around {body inner : Body} {s u v w : RenderState} {front : String} {tag node : Node}
    {looped : Bool} (hreaches : Reaches σ body s front tag u) (hiterates : Iterates σ tag u inner v)
    (hinner : Executes σ inner v looped node w) : Executes σ body s true node w

/-- A signal that a body ends with was given by a node that no loop is around. Induction on the body. -/
theorem exists_executes_of_signal {body : Body} {s t : RenderState} {r : Rendered}
    (hrun : body.render.runFrom σ s = (.ok r, t)) (hsignal : r.signal = some x) :
    ∃ tag u, Executes σ body s false (.interrupt tag x) u := by
  induction body using Body.induction generalizing s t r with
  | step body ih =>
    obtain ⟨front, node, u, r', t', hreaches, hnode, hx⟩ := exists_reaches_of_signal hrun hsignal
    rcases exists_enters_of_signal hnode hx with
      ⟨tag, rfl⟩ | ⟨inside, inner, v, r'', t'', henters, hinner, hx'⟩
    · exact ⟨tag, u, .here hreaches⟩
    · obtain ⟨tag, w, hexecutes⟩ := ih node hreaches.mem inner henters.mem_bodies hinner hx'
      exact ⟨tag, w, .through hreaches henters hexecutes⟩

/-- A node that fails with a body ends the body it is in: only a fatal failure leaves a body, unless
failures are thrown on. -/
theorem placed_of_body_error {node : Node} {body : Body} {s t u v : RenderState} {e : Failure}
    (hbody : body.render.runFrom σ u = (.error e, v))
    (hnode : node.render.runFrom σ s = (.error e, t)) :
    ∃ e' t', (placed node node.render).runFrom σ s = (.error e', t') := by
  rw [placed_eq_guarded, runFrom_guarded, hnode]
  dsimp only
  cases hrethrow : σ.rethrow with
  | false =>
    rw [if_pos (isFatal_of_body hrethrow hbody)]
    exact ⟨_, _, rfl⟩
  | true =>
    split
    · exact ⟨_, _, rfl⟩
    · exact ⟨_, _, rfl⟩

/-- A node that gives a signal gives it in its body, unless a ceiling is exceeded. -/
theorem placed_of_signal {node : Node} {s t : RenderState} {r : Rendered}
    (hnode : node.render.runFrom σ s = (.ok r, t)) :
    (∃ e t', (placed node node.render).runFrom σ s = (.error e, t')) ∨
      ∃ r' t', (placed node node.render).runFrom σ s = (.ok r', t') ∧ r'.signal = r.signal := by
  rw [placed_eq_guarded, runFrom_guarded, hnode]
  dsimp only
  split
  · exact .inl ⟨_, _, rfl⟩
  · refine .inr ⟨_, _, rfl, ?_⟩
    split <;> rfl

/-- A signal that is executed with no loop around it is the one the body ends with. Induction on the way
to it. -/
theorem Executes.signal {body : Body} {s u t : RenderState} {looped : Bool} {node : Node} {tag : Tag}
    {r : Rendered} (h : Executes σ body s looped node u) (hlooped : looped = false)
    (hnode : node = .interrupt tag x) (hscopes : s.scopes ≠ [])
    (hrun : body.render.runFrom σ s = (.ok r, t)) : r.signal = some x := by
  -- the node on the way gives the signal, and the body has not failed there
  have hstops {body : Body} {s t u u' : RenderState} {front : String} {m : Node} {r first : Rendered}
      (hreaches : Reaches σ body s front m u) (hm : m.render.runFrom σ u = (.ok first, u'))
      (hx : first.signal = some x) (hrun : body.render.runFrom σ s = (.ok r, t)) :
      r.signal = some x := by
    rcases placed_of_signal hm with ⟨e, v, hplaced⟩ | ⟨r', v, hplaced, heq⟩
    · rw [hreaches.run_of_error hplaced] at hrun
      cases hrun
    · rw [hreaches.run_of_signal hplaced (by rw [heq, hx]; rfl)] at hrun
      cases hrun
      exact heq.trans hx
  induction h generalizing t r with
  | here hreaches =>
    subst hnode
    exact hstops hreaches (by rw [Node.render]; rfl) rfl hrun
  | @through body inner s u v w front inside m node looped hreaches henters hinner ih =>
    have hscopes' : u.scopes ≠ [] := hreaches.scopes_ne_nil hscopes
    cases hin : inner.render.runFrom σ v with
    | mk outcome v' =>
      cases outcome with
      | error e =>
        obtain ⟨t', hm⟩ := henters.run_of_error hin
        obtain ⟨e', t'', hplaced⟩ := placed_of_body_error hin hm
        rw [hreaches.run_of_error hplaced] at hrun
        cases hrun
      | ok r' =>
        have hx : r'.signal = some x := ih hlooped hnode (henters.scopes_ne_nil hscopes') hin
        have hm := henters.run_of_signal hscopes' hin (by rw [hx]; rfl)
        exact hstops hreaches hm ((Node.closing_signal ..).trans hx) hrun
  | around => cases hlooped

/-! ## Whole templates -/

/-- What bodies, tags and loops do with signals. -/
structure SignalLaws (σ : Settings) : Prop where
  /-- A break or continue gives its signal, and does nothing else. -/
  gives (tag : Tag) (x : Interrupt) (s : RenderState) :
    (Node.interrupt tag x).render.runFrom σ s = (.ok { signal := some x }, s)
  /-- A node with a signal ends its body: what has been put out is kept, and the state is left as the
  node left it, whatever stands behind the node. -/
  stops {body : Body} {s t u : RenderState} {front : String} {node : Node} {r : Rendered} :
    Reaches σ body s front node u → (placed node node.render).runFrom σ u = (.ok r, t) →
      r.signal.isSome = true → body.render.runFrom σ s = (.ok { r with text := front ++ r.text }, t)
  /-- Behind a node without a signal, the body goes on. -/
  continues {body before after : Body} {s t u : RenderState} {front : String} {node : Node}
    {r : Rendered} : body = before ++ node :: after →
      (Node.renderNodes before).runFrom σ (s.scored body.length) = (.ok { text := front }, u) →
      (placed node node.render).runFrom σ u = (.ok r, t) → r.signal = none →
        body.render.runFrom σ s =
          precededBy (front ++ r.text) ((Node.renderNodes after).runFrom σ t)
  /-- A tag that is no loop hands the signal of its body on. It renders nothing else and tests no other
  part, and only puts out, keeps or shows the text of the body. -/
  passes {node : Node} {body : Body} {s t u : RenderState} {front : String} {r : Rendered} :
    Enters σ node s front body u → s.scopes ≠ [] → body.render.runFrom σ u = (.ok r, t) →
      r.signal.isSome = true →
        node.render.runFrom σ s = (.ok (node.closing front r t).1, (node.closing front r t).2) ∧
          (node.closing front r t).1.signal = r.signal
  /-- A break ends a loop behind the current item, whose text is kept; with a continue, or without a
  signal, the loop goes on with the next item. -/
  items {id : Nat} {itemName : String} {body : Body} {s t u : RenderState} {items rest : List Value}
    {front : String} {r : Rendered} : EntersItem σ id itemName body u items s front rest →
      body.render.runFrom σ u = (.ok r, t) →
        (renderItems id itemName body.render items).runFrom σ s =
          if r.signal = some .leave then (.ok (front ++ r.text), t.leave.advanced id)
          else withText (front ++ r.text)
            ((renderItems id itemName body.render rest).runFrom σ (t.leave.advanced id))
  /-- The same for the cells of a table. -/
  cells {id : Nat} {itemName : String} {body : Body} {s t u : RenderState} {info : LoopInfo}
    {items rest : List Value} {front : String} {r : Rendered} :
    EntersCell σ id itemName body u info items s front rest → body.render.runFrom σ u = (.ok r, t) →
      (renderCells id itemName body.render items).runFrom σ s =
        if r.signal = some .leave then (.ok (front ++ cellText info r.text), t.advanced id)
        else withText (front ++ cellText info r.text)
          ((renderCells id itemName body.render rest).runFrom σ (t.advanced id))
  /-- A body ends with a signal just if a break or continue of that kind is executed in it with no body
  in between that is rendered over and over. -/
  comes {body : Body} {s t : RenderState} {r : Rendered} {x : Interrupt} : s.scopes ≠ [] →
    body.render.runFrom σ s = (.ok r, t) →
      (r.signal = some x ↔ ∃ tag u, Executes σ body s false (.interrupt tag x) u)
  /-- A tag whose body is rendered over and over gives no signal. -/
  takes {node : Node} {body : Body} {s t u : RenderState} {r : Rendered} :
    Iterates σ node s body u → node.render.runFrom σ s = (.ok r, t) → r.signal = none

theorem signalLaws (σ : Settings) : SignalLaws σ where
  gives tag x s := by
    rw [Node.render]
    rfl
  stops hreaches hplaced hsignal := hreaches.run_of_signal hplaced hsignal
  continues := by
    intro body before after s t u front node r hbody hbefore hplaced hsignal
    rw [runFrom_render, hbody] at *
    rw [runFrom_renderNodes_append, hbefore]
    dsimp only [followedBy]
    rw [renderNodes_cons_eq_followedBy, hplaced]
    dsimp only [followedBy]
    rw [hsignal, ← precededBy_precededBy]
    rfl
  passes henters hscopes hbody hsignal :=
    ⟨henters.run_of_signal hscopes hbody hsignal, Node.closing_signal ..⟩
  items hitem hbody := hitem.run hbody
  cells hcell hbody := hcell.run hbody
  comes hscopes hrun := ⟨exists_executes_of_signal hrun, fun ⟨_, _, hexecutes⟩ =>
    hexecutes.signal rfl rfl hscopes hrun⟩
  takes hiterates hrun := hiterates.signal_eq_none hrun

end Render

open Render

/-- **Signals stop at the nearest loop.** Bodies, tags and loops do with a signal what `SignalLaws` says.
A whole template whose render is not cut off ends with a signal just if a break or continue of that kind
is executed with no body around it that is rendered over and over; the text put out up to there is the
result, and the signal is reported. -/
theorem signals_stop_at_loops (σ : Settings) :
    SignalLaws σ ∧ ∀ (counts : Counts) (registers : Registers) (body : Body) (r : Rendered)
      (t : RenderState), body.render.runFrom σ { registers, counts } = (.ok r, t) →
      (∀ x, r.signal = some x ↔
        ∃ tag u, Executes σ body { registers, counts } false (.interrupt tag x) u) ∧
      (Environment.run σ counts registers body).result = .ok r.text ∧
      (Environment.run σ counts registers body).state.notices =
        t.notices ++ (r.signal.map fun x => Notice.ignoredInterrupt x σ.templateName).toList := by
  refine ⟨signalLaws σ, fun counts registers body r t hrun => ⟨fun x => ?_, ?_⟩⟩
  · exact (signalLaws σ).comes (List.cons_ne_nil _ _) hrun
  · have hwhole := runFrom_renderWhole σ { registers, counts } body
    rw [hrun] at hwhole
    change (body.renderWhole.runFrom σ { registers, counts }).1 = _ ∧
      (body.renderWhole.runFrom σ { registers, counts }).2.notices = _
    rw [hwhole]
    obtain ⟨text, signal⟩ := r
    cases signal with
    | none => exact ⟨rfl, (List.append_nil _).symm⟩
    | some x => exact ⟨rfl, rfl⟩

/-- A loop that is left at its second item, and a break behind it. -/
def leavingBody : Body := [
  .loop ⟨"for", "i in (1..3)", some 1⟩ {
      itemName := "i"
      name := "i-(1..3)"
      collection := .range (.value (.int 1)) (.value (.int 3)) }
    [.choose ⟨"if", "i == 2", some 1⟩ false
      [(some (.single {
          left := .lookup (.value (.str "i")) []
          operator := some "=="
          right := .value (.int 2) }),
        [.text "a", .interrupt ⟨"break", "", some 1⟩ .leave, .text "b"])],
      .text "c"] none,
  .text "d",
  .interrupt ⟨"break", "", some 1⟩ .leave,
  .text "e"]

/-- The break in the loop ends the loop, and the one behind it the template. -/
theorem signals_stop_at_loops_leavingBody :
    ∃ r t, leavingBody.render.runFrom {} {} = (.ok r, t) ∧
      (∃ tag u, Executes {} leavingBody {} false (.interrupt tag .leave) u) ∧
      (Environment.run {} {} {} leavingBody).result = .ok "cad" ∧
      (Environment.run {} {} {} leavingBody).state.notices = [.ignoredInterrupt .leave none] := by
  have hran : (leavingBody.render.runFrom {} {}).1.map (fun r => (r.text, r.signal)) =
      .ok ("cad", some .leave) ∧ (leavingBody.render.runFrom {} {}).2.notices = [] := ⟨rfl, rfl⟩
  cases hrun : leavingBody.render.runFrom {} {} with
  | mk outcome t =>
    rw [hrun] at hran
    cases outcome with
    | error e => cases hran.1
    | ok r =>
      obtain ⟨htext, hsignal⟩ := Prod.mk.inj (Except.ok.inj hran.1)
      obtain ⟨hiff, hresult, hnotices⟩ :=
        (signals_stop_at_loops {}).2 {} {} leavingBody r t hrun
      refine ⟨r, t, rfl, (hiff .leave).mp hsignal, ?_, ?_⟩
      · rw [hresult]
        exact congrArg _ htext
      · rw [hnotices, hsignal]
        exact congrArg (· ++ _) hran.2

end Stencil
