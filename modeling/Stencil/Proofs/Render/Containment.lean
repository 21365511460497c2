import Stencil.Proofs.Render.Kept

/-!
# Failures are contained

With rethrow off, a failure never leaves the render: the body that holds the failing node records it,
puts its text in place of the node, and goes on.

* `Contained` says what this means for a whole render: what a body does with the failure of one of its
  nodes, which failures a body still ends with, which errors are recorded, and what the render gives.
* `failures_contained`: every render with valid limits starts, gives a text, and is contained.
-/

namespace Stencil

/-! ## Valid limits -/

namespace Limits

/-- The names under which ceilings are given. -/
def ceilingNames : List String :=
  ["render_length_limit", "render_score_limit", "assign_score_limit"]

/-- The names under which the counts to start with are given. -/
def countNames : List String := ["render_length", "render_score", "assign_score"]

/-- Every entry is a ceiling, which may be absent, or a number to start counting with. -/
def Valid (entries : LimitEntries) : Prop :=
  ∀ entry ∈ entries, entry.1 ∈ ceilingNames ∨ entry.1 ∈ countNames ∧ entry.2.isSome

theorem withEntry_of_valid (limits : Limits) {entry : String × Option Int}
    (hentry : entry.1 ∈ ceilingNames ∨ entry.1 ∈ countNames ∧ entry.2.isSome) :
    ∃ limits', withEntry limits entry = .ok limits' := by
  obtain ⟨name, n⟩ := entry
  rcases hentry with hname | ⟨hname, hn⟩
  · simp only [ceilingNames, List.mem_cons, List.not_mem_nil, or_false] at hname
    rcases hname with rfl | rfl | rfl
    · exact ⟨_, rfl⟩
    · exact ⟨_, rfl⟩
    · exact ⟨_, rfl⟩
  · obtain ⟨count, rfl⟩ := Option.isSome_iff_exists.mp hn
    simp only [countNames, List.mem_cons, List.not_mem_nil, or_false] at hname
    rcases hname with rfl | rfl | rfl
    · exact ⟨_, rfl⟩
    · exact ⟨_, rfl⟩
    · exact ⟨_, rfl⟩

/-- Valid entries are taken one after another. -/
theorem ofEntries_of_valid {entries : LimitEntries} (hvalid : Valid entries) :
    ∃ limits, ofEntries entries = .ok limits := by
  have hfold : ∀ (entries : LimitEntries) (limits : Limits), Valid entries →
      ∃ limits', entries.foldlM withEntry limits = .ok limits' := by
    intro entries
    induction entries with
    | nil => exact fun limits _ => ⟨limits, rfl⟩
    | cons entry rest ih =>
      intro limits hvalid
      obtain ⟨next, hnext⟩ := withEntry_of_valid limits (hvalid entry List.mem_cons_self)
      obtain ⟨limits', hrest⟩ := ih next fun e he => hvalid e (List.mem_cons_of_mem entry he)
      refine ⟨limits', ?_⟩
      rw [List.foldlM_cons, hnext]
      exact hrest
  exact hfold entries {} hvalid

end Limits

namespace Render

variable {σ : Settings} {s t : RenderState} {node : Node} {rest : List Node} {e : Failure}

/-! ## What a body does with failures -/

/-- The text of a failure that is not fatal stands where the node stands, the failure is recorded once,
and the body goes on with the next node. -/
theorem renderNodes_of_failure (hrethrow : σ.rethrow = false)
    (hfail : node.render.runFrom σ s = (.error e, t)) (hfatal : e.isFatal = false) :
    (Node.renderNodes (node :: rest)).runFrom σ s =
      precededBy (σ.errorStyle.render (errorAt σ e (lineOf node)))
        ((Node.renderNodes rest).runFrom σ (t.record (errorAt σ e (lineOf node)))) := by
  rw [runFrom_renderNodes_cons, placed_eq_guarded, runFrom_guarded, hfail]
  simp only [hfatal, hrethrow, Bool.false_eq_true, if_false, Option.isSome_none]
  rfl

theorem renderNodes_of_fatal (hfail : node.render.runFrom σ s = (.error e, t))
    (hfatal : e.isFatal = true) :
    (Node.renderNodes (node :: rest)).runFrom σ s = (.error e, t) := by
  rw [runFrom_renderNodes_cons, placed_eq_guarded, runFrom_guarded, hfail]
  simp only [hfatal, if_true]

/-- Nothing but a fatal failure leaves a body. Induction on its nodes. -/
theorem isFatal_of_renderNodes (hrethrow : σ.rethrow = false) {nodes : List Node}
    (hfail : (Node.renderNodes nodes).runFrom σ s = (.error e, t)) : e.isFatal = true := by
  induction nodes generalizing s with
  | nil =>
    rw [Node.renderNodes] at hfail
    cases hfail
  | cons node rest ih =>
    rw [runFrom_renderNodes_cons] at hfail
    cases hplaced : (placed node node.render).runFrom σ s with
    | mk outcome u =>
      rw [hplaced] at hfail
      cases outcome with
      | error f =>
        cases hfail
        exact isFatal_of_placed hrethrow hplaced
      | ok r =>
        dsimp only at hfail
        split at hfail
        · cases hfail
        · cases hrest : (Node.renderNodes rest).runFrom σ u with
          | mk outcome v =>
            rw [hrest] at hfail
            cases outcome with
            | error f =>
              cases hfail
              exact ih hrest
            | ok more => cases hfail

theorem isFatal_of_body (hrethrow : σ.rethrow = false) {body : Body}
    (hfail : body.render.runFrom σ s = (.error e, t)) : e.isFatal = true := by
  rw [Body.render, runFrom_scored] at hfail
  exact isFatal_of_renderNodes hrethrow hfail

/-! ## Which errors are recorded -/

/-- The error is that of a failure of one of the nodes, met when the errors `before` had been recorded,
and carries the line of that node if it had none of its own. -/
def CaughtAfter (nodes : List Node) (σ : Settings) (before : List TemplateError)
    (error : TemplateError) : Prop :=
  ∃ node ∈ nodes, ∃ e s t, node.render.runFrom σ s = (.error e, t) ∧ e.isFatal = false ∧
    t.errors = before ∧ error = errorAt σ e (lineOf node)

/-- All errors recorded between two states were caught at the given nodes. -/
def OnlyCaught (nodes : List Node) (σ : Settings) (s t : RenderState) : Prop :=
  s.errors <+: t.errors ∧ ∀ i error, s.errors.length ≤ i → t.errors[i]? = some error →
    CaughtAfter nodes σ (t.errors.take i) error

theorem OnlyCaught.of_eq {nodes : List Node} (herrors : t.errors = s.errors) :
    OnlyCaught nodes σ s t := by
  refine ⟨herrors ▸ List.prefix_rfl, fun i error hi herror => ?_⟩
  rw [herrors, List.getElem?_eq_none hi] at herror
  cases herror

theorem OnlyCaught.trans {nodes : List Node} {u : RenderState} (hst : OnlyCaught nodes σ s t)
    (htu : OnlyCaught nodes σ t u) : OnlyCaught nodes σ s u := by
  refine ⟨hst.1.trans htu.1, fun i error hi herror => ?_⟩
  by_cases hlater : t.errors.length ≤ i
  · exact htu.2 i error hlater herror
  · -- the error was already there in the middle, after the same errors
    have hlt : i < t.errors.length := by omega
    obtain ⟨more, hmore⟩ := htu.1
    rw [← hmore, List.getElem?_append_left hlt] at herror
    rw [← hmore, List.take_append_of_le_length (by omega)]
    exact hst.2 i error hi herror

theorem accountRelation_onlyCaught (nodes : List Node) : AccountRelation (OnlyCaught nodes) where
  same _ _ herrors := .of_eq herrors
  trans := OnlyCaught.trans
  score _ _ _ := .of_eq rfl
  assigned _ _ _ := .of_eq rfl

/-- The guard records the failure of its own node and nothing else. -/
theorem onlyCaught_placed {nodes : List Node} (hmem : node ∈ nodes)
    (hnode : Keeps (OnlyCaught nodes) Rendered node.render) :
    Keeps (OnlyCaught nodes) Rendered (placed node node.render) := by
  intro σ s
  have hstep := hnode σ s
  rw [placed_eq_guarded, runFrom_guarded]
  cases hrun : node.render.runFrom σ s with
  | mk outcome t =>
    rw [hrun] at hstep
    cases outcome with
    | ok r => exact hstep.trans (.of_eq rfl)
    | error e =>
      dsimp only
      split
      · exact hstep
      · next hfatal =>
        refine hstep.trans ⟨List.prefix_append .., fun i error hi herror => ?_⟩
        simp only [RenderState.record] at hi herror ⊢
        have hlt : i < (t.errors ++ [errorAt σ e (lineOf node)]).length :=
          (List.getElem?_eq_some_iff.mp herror).1
        rw [List.length_append, List.length_singleton] at hlt
        obtain rfl : i = t.errors.length := by omega
        rw [List.getElem?_concat_length, Option.some.injEq] at herror
        rw [List.take_left]
        exact ⟨node, hmem, e, s, t, hrun, by simpa using hfatal, rfl, herror.symm⟩

/-- A body only records failures of the nodes in it, at any depth. -/
theorem onlyCaught_body (body : Body) :
    Keeps (OnlyCaught (Node.partsOfBody body)) Rendered body.render :=
  (accountRelation_onlyCaught _).keeps_body body fun _ hmem hnode => onlyCaught_placed hmem hnode

end Render

/-! ## Whole renders -/

open Render

/-- What it means that the failures of a render are contained, given the state it starts from. -/
structure Contained (σ : Settings) (body : Body) (s : RenderState) (finished : Finished) : Prop where
  /-- The render gives a text. -/
  text : ∃ text, finished.result = .ok text
  /-- A body puts the text of a failure in place of the failing node, records the failure once with
  the line of the node, and goes on with the next node. -/
  caught {node : Node} {rest : List Node} {e : Failure} {t u : RenderState} :
    node.render.runFrom σ t = (.error e, u) → e.isFatal = false →
      (Node.renderNodes (node :: rest)).runFrom σ t =
        precededBy (σ.errorStyle.render (errorAt σ e (lineOf node)))
          ((Node.renderNodes rest).runFrom σ (u.record (errorAt σ e (lineOf node))))
  /-- A fatal failure of a node ends the body that holds it, and is not recorded there. -/
  stopped {node : Node} {rest : List Node} {e : Failure} {t u : RenderState} :
    node.render.runFrom σ t = (.error e, u) → e.isFatal = true →
      (Node.renderNodes (node :: rest)).runFrom σ t = (.error e, u)
  /-- No other failure leaves a body, so that what a node fails with was not met inside its bodies. -/
  fatal {nodes : List Node} {e : Failure} {t u : RenderState} :
    (Node.renderNodes nodes).runFrom σ t = (.error e, u) → e.isFatal = true
  /-- Every recorded error is that of one failure of a node, with the line of its node. Only a fatal
  failure comes after them, and its text is then all that the render gives. -/
  recorded : ∃ errors, (∀ i error, errors[i]? = some error →
      CaughtAfter (Node.partsOfBody body) σ (errors.take i) error) ∧
    match (body.render.runFrom σ s).1 with
    | .ok r => finished.result = .ok r.text ∧ finished.state.errors = errors
    | .error e => e.isFatal = true ∧
      finished.result = .ok (σ.errorStyle.render (errorAt σ e none)) ∧
      finished.state.errors = errors ++ [errorAt σ e none]

/-- Running a body with rethrow off contains its failures. -/
theorem contained_run {σ : Settings} (hrethrow : σ.rethrow = false) (counts : Counts)
    (registers : Registers) (body : Body) :
    Contained σ body { registers, counts } (Environment.run σ counts registers body) := by
  obtain ⟨-, hcaught⟩ := onlyCaught_body body σ { registers, counts }
  have hrecorded : ∃ errors, (∀ i error, errors[i]? = some error →
        CaughtAfter (Node.partsOfBody body) σ (errors.take i) error) ∧
      match (body.render.runFrom σ { registers, counts }).1 with
      | .ok r => (Environment.run σ counts registers body).result = .ok r.text ∧
        (Environment.run σ counts registers body).state.errors = errors
      | .error e => e.isFatal = true ∧ (Environment.run σ counts registers body).result =
          .ok (σ.errorStyle.render (errorAt σ e none)) ∧
        (Environment.run σ counts registers body).state.errors = errors ++ [errorAt σ e none] := by
    refine ⟨_, fun i error herror => hcaught i error (Nat.zero_le i) herror, ?_⟩
    cases hbody : body.render.runFrom σ { registers, counts } with
    | mk outcome t =>
      cases outcome with
      | ok r =>
        obtain ⟨notices, hrun⟩ := run_of_ok hbody
        rw [hrun]
        exact ⟨rfl, rfl⟩
      | error e =>
        have hfatal : e.isFatal = true := isFatal_of_body hrethrow hbody
        rw [run_of_fatal hrethrow hfatal hbody]
        exact ⟨hfatal, rfl, rfl⟩
  refine ⟨?_, renderNodes_of_failure hrethrow, renderNodes_of_fatal,
    isFatal_of_renderNodes hrethrow, hrecorded⟩
  -- both ways in which the body may end leave a text
  obtain ⟨_, _, hend⟩ := hrecorded
  split at hend
  · exact ⟨_, hend.1⟩
  · exact ⟨_, hend.2.1⟩

/-- **Failures are contained.** With valid limits and rethrow off, every render of every template,
from all data and registers, starts and contains its failures: it gives a text, each failure of a node
is caught by the body that holds the node, and only an exceeded ceiling stops the render, whose text is
then that of this error alone. -/
theorem failures_contained (env : Environment) (options : RenderOptions) (data : Option Scope)
    (registers : Registers) (t : Template)
    (hlimits : Limits.Valid (options.limits.getD env.limits)) (hrethrow : options.rethrow = false) :
    ∃ limits finished, Limits.ofEntries (options.limits.getD env.limits) = .ok limits ∧
      env.start options data registers t = .ok finished ∧
      Contained
        (env.settings options limits t.name data (env.subrenderWithin Environment.maxSubrenders))
        t.body { registers, counts := limits.counts } finished := by
  obtain ⟨limits, hentries⟩ := Limits.ofEntries_of_valid hlimits
  exact ⟨limits, _, hentries, start_of_ofEntries env options hentries data registers t,
    contained_run hrethrow limits.counts registers t.body⟩

/-- A division by zero on the first line. -/
def failingOutput : Node := .output {
  pipeline := {
    expr := .value (.int 1)
    filters := [{ name := "divided_by", args := [.value (.int 0)] }] }
  markup := "1 | divided_by: 0"
  line := some 1 }

/-- Text around a choice whose body starts with a failing output. -/
def failingChoice : Template where
  body := [
    .text "a",
    .choose ⟨"if", "true", some 1⟩ false
      [(some (.single { left := .value (.bool true) }), [failingOutput, .text "b"])],
    .text "c"]

/-- The failure is put out inside the choice, and the text after it is still there. -/
theorem failures_contained_failingChoice :
    Limits.Valid [] ∧ ∃ σ finished,
      ({} : Environment).start {} none {} failingChoice = .ok finished ∧
      Contained σ failingChoice.body {} finished ∧
      finished.result = .ok "aLadle error (line 1): divided by 0bc" := by
  have hvalid : Limits.Valid [] := fun _ hentry => nomatch hentry
  obtain ⟨limits, finished, hentries, hstart, hcontained⟩ :=
    failures_contained {} {} none {} failingChoice hvalid rfl
  have hresult : (({} : Environment).start {} none {} failingChoice).map (·.result) =
      .ok (.ok "aLadle error (line 1): divided by 0bc") := rfl
  cases hentries
  rw [hstart] at hresult
  exact ⟨hvalid, _, finished, hstart, hcontained, Except.ok.inj hresult⟩

end Stencil
