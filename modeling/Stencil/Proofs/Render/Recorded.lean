import Stencil.Proofs.Render.Raised

/-!
# Which errors a render leaves behind

A render records the failures its nodes raise (`Raised`), and at the end the fatal failure that may have ended
it. So with rethrow off there is one error for every failure. With rethrow on there is at most one failure,
but it is recorded by every body it is thrown out of.

* `ThrownOut`: the three ways in which a render ends when failures are thrown on.
* `raised_failures_are_recorded`: what every render leaves behind.
* `failures_are_recorded_twice`: a failure inside a choice is thrown out of two bodies.
-/

namespace Stencil

open Render

/-- The fatal failure that ends a body, if one does. -/
def Body.fatal? (σ : Settings) (body : Body) (s : RenderState) : Option Failure :=
  match (body.render.runFrom σ s).1 with
  | .ok _ => none
  | .error e => if e.isFatal then some e else none

/-- How a render ends and which errors it leaves behind when failures are thrown on, given what its nodes
raised and the fatal failure. -/
inductive ThrownOut (σ : Settings) (result : Outcome String) (errors : List TemplateError) :
    List Raise → Option Failure → Prop
  /-- Nothing is raised, and nothing is recorded. -/
  | unharmed (text : String) (hresult : result = .ok text) (herrors : errors = []) :
    ThrownOut σ result errors [] none
  /-- A fatal failure is recorded once, where it leaves the template. -/
  | fatal {e : Failure} (herrors : errors = [errorAt σ e none])
    (hresult : result = .error (errorAt σ e none).failure) : ThrownOut σ result errors [] (some e)
  /-- Any other failure is recorded where it is raised, and again for each node around that one. It is one
  failure, whatever line it is recorded under, and the render ends with it as it was recorded last. -/
  | raised {r : Raise} (again : List TemplateError) (hfatal : r.failure.isFatal = false)
    (herrors : errors = r.first σ :: again) (hdepth : again.length = r.depth)
    (hsame : ∀ e ∈ again, ∃ line, e = errorAt σ r.failure line)
    (hresult : result = .error (again.getLastD (r.first σ)).failure) : ThrownOut σ result errors [r] none

namespace Render

variable {σ : Settings} {counts : Counts} {registers : Registers} {body : Body}

/-- The errors of a render are those of the raised failures, and at the end that of the fatal one. -/
theorem errors_of_run (σ : Settings) (counts : Counts) (registers : Registers) (body : Body) :
    (Environment.run σ counts registers body).state.errors =
      (body.raises σ { registers, counts }).flatMap (·.recorded σ) ++
        ((body.fatal? σ { registers, counts }).map (errorAt σ · none)).toList := by
  have hbody := (accounts_body σ body { registers, counts }).errors
  rw [List.nil_append] at hbody
  rw [← hbody, Body.fatal?]
  cases hrun : body.render.runFrom σ { registers, counts } with
  | mk outcome t =>
    cases outcome with
    | ok r =>
      obtain ⟨notices, hfinished⟩ := run_of_ok hrun
      rw [hfinished]
      exact (List.append_nil _).symm
    | error e =>
      rw [run_of_error hrun]
      dsimp only
      cases e.isFatal with
      | true => rfl
      | false => exact (List.append_nil _).symm

/-- With rethrow on, a render ends in one of the three ways. -/
theorem thrownOut_run (hrethrow : σ.rethrow = true) :
    let finished := Environment.run σ counts registers body
    ThrownOut σ finished.result finished.state.errors (body.raises σ { registers, counts })
      (body.fatal? σ { registers, counts }) := by
  intro finished
  have herrors : finished.state.errors = _ := errors_of_run σ counts registers body
  have hthrown := (accounts_body σ body { registers, counts }).thrown hrethrow
  rw [Body.fatal?] at herrors ⊢
  cases hrun : body.render.runFrom σ { registers, counts } with
  | mk outcome t =>
    rw [hrun] at herrors hthrown
    cases outcome with
    | ok r =>
      -- what was raised would have ended the body
      rcases hthrown with hnone | ⟨_, _, _, hends⟩
      · obtain ⟨notices, hfinished⟩ := run_of_ok hrun
        rw [hnone] at herrors ⊢
        exact .unharmed r.text (congrArg Finished.result hfinished) herrors
      · cases hends
    | error e =>
      have hfinished : finished = _ := run_of_error hrun
      dsimp only at herrors ⊢
      cases hfatal : e.isFatal with
      | true =>
        rw [hfatal, if_pos rfl] at herrors
        rcases hthrown with hnone | ⟨r, hone, hnot, hends⟩
        · rw [hnone] at herrors ⊢
          refine .fatal herrors ?_
          rw [hfinished, hfatal, if_pos rfl, if_pos hrethrow]
          exact congrArg Except.error (rethrown_eq_failure σ e none)
        · -- nor is what was raised fatal
          cases hends
          cases hfatal.symm.trans (r.isFatal_thrown.trans hnot)
      | false =>
        rw [hfatal, if_neg Bool.false_ne_true] at herrors
        rcases hthrown with hnone | ⟨r, hone, hnot, hends⟩
        · exact absurd hnone (raises_of_body hrun hfatal)
        · cases hends
          rw [hone] at herrors ⊢
          refine .raised (r.again σ) hnot ?_ r.length_again (fun e he => Raise.eq_errorAt_of_mem_again he) ?_
          · rw [herrors, List.flatMap_singleton, r.recorded_of_rethrow hrethrow]
            exact List.append_nil _
          · rw [hfinished, hfatal, if_neg Bool.false_ne_true, ← r.thrown_eq_failure]

end Render

/-- **What a render records of the failures its nodes raise**, of every template, with any options, data and
registers. With rethrow off, it is one error for each of them, at whatever depth and in the order in which they
were raised, and one for the fatal failure that may have ended the render. With rethrow on, it is one error for
a fatal failure, and for a failure of a node of the outermost body; any other failure is recorded once more for
each node around the failing one. -/
theorem raised_failures_are_recorded (env : Environment) (options : RenderOptions) (data : Option Scope)
    (registers : Registers) (t : Template) :
    let report := t.render env (.ok (options, data)) registers
    (∃ limits, Limits.ofEntries (options.limits.getD env.limits) = .ok limits ∧
      let σ := env.settings options limits t.name data (env.subrenderWithin Environment.maxSubrenders)
      let s : RenderState := { registers, counts := limits.counts }
      let raised := t.body.raises σ s
      let fatal := t.body.fatal? σ s
      (options.rethrow = false → report.template.errors =
        raised.map (·.first σ) ++ (fatal.map (errorAt σ · none)).toList) ∧
      (options.rethrow = true → ThrownOut σ report.result report.template.errors raised fatal)) ∨
    (¬ Limits.Valid (options.limits.getD env.limits) ∧ report.template = t ∧
      ∃ e, report.result = .error e) := by
  intro report
  cases hentries : Limits.ofEntries (options.limits.getD env.limits) with
  | error e =>
    have hreport : report = { result := .error e, notices := [], template := t, registers } := by
      simp only [report, Template.render, Except.bind, start_of_refused env options hentries data registers t]
    refine .inr ⟨fun hvalid => ?_, by rw [hreport], e, by rw [hreport]⟩
    obtain ⟨limits, hlimits⟩ := Limits.ofEntries_of_valid hvalid
    cases hentries.symm.trans hlimits
  | ok limits =>
    refine .inl ⟨limits, rfl, ?_⟩
    intro σ s raised fatal
    let finished := Environment.run σ limits.counts registers t.body
    have hstart : env.start options data registers t = .ok finished :=
      start_of_ofEntries env options hentries data registers t
    have hresult : report.result = finished.result := by
      simp only [report, Template.render, Except.bind, hstart]
    have herrors : report.template.errors = finished.state.errors := by
      simp only [report, Template.render, Except.bind, hstart]
    rw [hresult, herrors]
    refine ⟨fun hrethrow => ?_, fun hrethrow => thrownOut_run hrethrow⟩
    rw [← Raise.flatMap_recorded_of_inline hrethrow]
    exact errors_of_run ..

/-- The error of the division in the choice. -/
def divided : TemplateError := { TemplateError.badArgument "divided by 0" with line := some 1 }

/-- The settings of a render without data that throws failures on. -/
def throwingOn : Settings :=
  ({} : Environment).settings { rethrow := true } {} none none
    (({} : Environment).subrenderWithin Environment.maxSubrenders)

/-- One failure is raised, inside one node, and it is recorded twice: by the body of the choice and by the body
around it. -/
theorem failures_are_recorded_twice :
    ∃ t, (({} : Environment).parse {} none failingSource).1 = .ok t ∧
      (t.body.raises throwingOn {}).map Raise.depth = [1] ∧
      let report := t.render {} (.ok ({ rethrow := true }, none)) {}
      report.result = .error (.template divided) ∧ report.template.errors = [divided, divided] := by
  have hfound : (({} : Environment).parse {} none failingSource).1.toOption.map (fun t =>
      let report := t.render {} (.ok ({ rethrow := true }, none)) {}
      ((t.body.raises throwingOn {}).map Raise.depth, report.result, report.template.errors)) =
      some ([1], .error (.template divided), [divided, divided]) := by decide +kernel
  cases ht : (({} : Environment).parse {} none failingSource).1 with
  | error e =>
    rw [ht] at hfound
    cases hfound
  | ok t =>
    rw [ht] at hfound
    obtain ⟨hraised, hreport⟩ := Prod.mk.inj (Option.some.inj hfound)
    exact ⟨t, rfl, hraised, Prod.mk.inj hreport⟩

end Stencil
