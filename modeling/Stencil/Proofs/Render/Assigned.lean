import Stencil.Proofs.Render.Events
import Stencil.Proofs.Render.Rounds

/-!
# Assigned variables are template-wide

What an assign or a capture gives a variable is its value everywhere behind it, until the next one that gives
the variable a value. Only inside a loop or a table that binds the variable itself does it stand for something
else.

* `Meets.logged`: the log of a body lists every node that is rendered, with what happens inside it.
* `Sees.find`: a variable that has been assigned is found in every state that sees the assignment.
* `assigned_variables_are_template_wide`: the value of a variable at every evaluation of a render.
-/

namespace Stencil

namespace Render

variable {α : Type} {σ : Settings}

/-! ## Every point of a render is in the log -/

theorem mem_andThen_first {x : Render α} {first : Log} {later : α → Log} {s : RenderState} {event : Event}
    (h : event ∈ first s) : event ∈ Log.andThen σ x first later s :=
  List.mem_append_left _ h

theorem mem_andThen_later {x : Render α} {first : Log} {later : α → Log} {s t : RenderState} {a : α}
    {event : Event} (hrun : x.runFrom σ s = (.ok a, t)) (h : event ∈ later a t) :
    event ∈ Log.andThen σ x first later s := by
  rw [Log.andThen, hrun]
  exact List.mem_append_right _ h

theorem mem_inScope {scope : Scope} {log : Log} {s : RenderState} {event : Event}
    (hdepth : s.scopes.length ≤ maxScopes) (h : event ∈ log (s.within scope)) :
    event ∈ Log.inScope scope log s := by
  rw [Log.inScope, if_neg (Nat.not_lt.mpr hdepth)]
  exact h

section

variable {names : List String} {body inner : Body} {node : Node} {s t u v : RenderState} {front : String}
  {event : Event}

/-- The nodes in front of a node ended without a signal, so that the log goes on with it. -/
theorem Reaches.mem_log (h : Reaches σ body s front node u)
    (hevent : event ∈ Event.evaluates names u :: node.log σ names u) : event ∈ body.log σ names s := by
  obtain ⟨before, after, rfl, hbefore⟩ := h
  unfold Body.log Log.scored
  generalize s.scored (before ++ node :: after).length = start at hbefore
  induction before generalizing start front with
  | nil =>
    cases hbefore
    rw [List.nil_append, Node.nodesLog]
    exact mem_andThen_first hevent
  | cons first rest ih =>
    obtain ⟨r, t, hplaced, ⟨hsignal, rfl, -⟩ | ⟨hsignal, more, hrest, hmore⟩⟩ :=
      renderNodes_cons_eq_ok hbefore
    · cases hsignal
    · rw [List.cons_append, Node.nodesLog]
      refine mem_andThen_later hplaced ?_
      rw [hsignal, if_neg Bool.false_ne_true]
      -- what stands in front ended without a signal as well, so that the induction goes on behind it
      have hnone : more = { text := more.text } := by
        cases more
        cases hmore
        rfl
      rw [hnone] at hrest
      exact ih t hrest

theorem EntersBranch.mem_log {branches : List (Option Condition × Body)} {negated : Bool}
    (h : EntersBranch σ body u branches negated s) (hevent : event ∈ body.log σ names u) :
    event ∈ Node.branchesLog σ names branches negated s := by
  induction h with
  | taken hguard htaken =>
    rw [Node.branchesLog]
    refine mem_andThen_later hguard ?_
    rw [if_pos htaken]
    exact hevent
  | passed hguard hpassed _ ih =>
    rw [Node.branchesLog]
    refine mem_andThen_later hguard ?_
    rw [hpassed, if_neg Bool.false_ne_true]
    exact ih

theorem EntersAlternative.mem_log {subject : Expr} {values : List Expr}
    (h : EntersAlternative σ subject body u values s front) (hevent : event ∈ body.log σ names u) :
    event ∈ Log.alternatives σ names subject body.render (body.log σ names) values s := by
  induction h with
  | found hholds =>
    unfold Log.alternatives
    exact mem_andThen_later hholds (mem_andThen_first hevent)
  | passed hholds _ ih =>
    unfold Log.alternatives
    exact mem_andThen_later hholds ih
  | again hholds hbody hsignal _ ih =>
    unfold Log.alternatives
    refine mem_andThen_later hholds (mem_andThen_later hbody ?_)
    rw [hsignal]
    exact ih

theorem EntersClause.mem_log {subject : Expr} {clauses : List (Option (List Expr) × Body)} {matched : Bool}
    (h : EntersClause σ subject body u clauses matched s front) (hevent : event ∈ body.log σ names u) :
    event ∈ Node.clausesLog σ names clauses subject matched s := by
  induction h with
  | found h =>
    rw [Node.clausesLog]
    exact mem_andThen_first (h.mem_log hevent)
  | later hother hsignal _ ih =>
    rw [Node.clausesLog]
    refine mem_andThen_later hother ?_
    dsimp only
    rw [hsignal]
    exact ih
  | otherwise =>
    rw [Node.clausesLog]
    exact hevent
  | skipped _ ih =>
    rw [Node.clausesLog]
    exact ih

theorem EntersItem.mem_log {id : Nat} {itemName : String} {items rest : List Value}
    (h : EntersItem σ id itemName body u items s front rest) (hevent : event ∈ body.log σ names u) :
    event ∈ Log.items σ id itemName body.render (body.log σ names) items s := by
  induction h with
  | now hdepth hu =>
    unfold Log.items
    exact mem_andThen_first (mem_inScope hdepth (hu ▸ hevent))
  | later hitem hsignal _ ih =>
    unfold Log.items
    refine mem_andThen_later hitem (mem_andThen_later (runFrom_advanceLoop ..) ?_)
    rw [if_neg fun h => hsignal (beq_iff_eq.mp h)]
    exact ih

theorem EntersCell.mem_log {id : Nat} {itemName : String} {info : LoopInfo} {items rest : List Value}
    (h : EntersCell σ id itemName body u info items s front rest) (hevent : event ∈ body.log σ names u) :
    event ∈ Log.cells σ id itemName body.render (body.log σ names) items s := by
  have hloops (t : RenderState) : Render.loops.runFrom σ t = (.ok t.loops, t) := rfl
  induction h with
  | now hitem hinfo =>
    unfold Log.cells
    refine mem_andThen_later hitem (mem_andThen_later (hloops _) ?_)
    rw [hinfo]
    exact mem_andThen_first hevent
  | later hitem hother hbody hsignal _ ih =>
    unfold Log.cells
    refine mem_andThen_later hitem (mem_andThen_later (hloops _) ?_)
    rw [hother]
    refine mem_andThen_later hbody (mem_andThen_later (runFrom_advanceLoop ..) ?_)
    rw [if_neg fun h => hsignal (beq_iff_eq.mp h)]
    exact ih

theorem EntersTurn.mem_log {n : Nat} (h : EntersTurn σ body u n s) (hevent : event ∈ body.log σ names u) :
    event ∈ Log.turns σ body.render (body.log σ names) n s := by
  induction h with
  | now => exact mem_andThen_first hevent
  | later hbody _ ih => exact mem_andThen_later hbody ih

/-- What happens in a body is in the log of its tag, which may bind further names around it. -/
theorem Renders.mem_log (h : Renders σ node s body u) (names : List String) :
    ∃ names', ∀ event ∈ body.log σ names' u, event ∈ node.log σ names s := by
  rcases h with ⟨front, henters⟩ | hiterates
  · refine ⟨names, fun event hevent => ?_⟩
    cases henters with
    | branch hdepth h =>
      rw [Node.log]
      exact mem_inScope hdepth (h.mem_log hevent)
    | clause hdepth h =>
      rw [Node.log]
      exact mem_inScope hdepth (h.mem_log hevent)
    | otherwise hitems hdepth =>
      rw [Node.log]
      exact mem_andThen_later hitems (mem_inScope hdepth hevent)
    | capture =>
      rw [Node.log]
      exact mem_andThen_first hevent
    | changed hdepth =>
      rw [Node.log]
      exact mem_inScope hdepth hevent
    | wrap =>
      rw [Node.log]
      exact hevent
  · cases hiterates with
    | @item tag header body otherwise s t u items rest front hitems h =>
      refine ⟨header.itemName :: "forloop" :: names, fun event hevent => ?_⟩
      have hsome : ¬ items.isEmpty = true := by simpa using h.ne_nil
      unfold Node.log
      refine mem_andThen_later hitems ?_
      rw [if_neg hsome]
      exact h.mem_log hevent
    | @cell tag header body s t u id items rest info front hopened hdepth h =>
      refine ⟨header.itemName :: "tablerowloop" :: names, fun event hevent => ?_⟩
      rw [Node.log]
      exact mem_andThen_later hopened (mem_inScope hdepth (h.mem_log hevent))
    | turn h =>
      refine ⟨names, fun event hevent => ?_⟩
      rw [Node.log]
      exact h.mem_log hevent

/-- **The log lists every node that is rendered**, with what happens inside it. Induction on the way there. -/
theorem Meets.logged {k : Nat} (h : Meets σ body s k node u) (names : List String) :
    ∃ names', ∀ event ∈ Event.evaluates names' u :: node.log σ names' u,
      event ∈ body.log σ names s := by
  induction h generalizing names with
  | here hreaches => exact ⟨names, fun event => hreaches.mem_log⟩
  | inside hreaches hrenders _ ih =>
    obtain ⟨names', hinner⟩ := hrenders.mem_log names
    obtain ⟨names'', hnode⟩ := ih names'
    exact ⟨names'', fun event hevent =>
      hreaches.mem_log (List.mem_cons_of_mem _ (hinner event (hnode event hevent)))⟩

end

/-! ## What was assigned is found -/

section

variable {names : List String} {inner : List Scope} {scope scope' : Scope} {s u : RenderState} {x : String}
  {v : Value}

/-- The outermost scope binds a variable to what it was last given, if it was given anything. -/
theorem Replays.get? {events : List Event} (h : Replays scope events scope') (x : String) :
    (scope'.get? x = scope.get? x ∧ ∀ v, .assigns x v ∉ events) ∨
      ∃ before v after, events = before ++ .assigns x v :: after ∧ (∀ w, .assigns x w ∉ after) ∧
        scope'.get? x = some v := by
  induction events generalizing scope with
  | nil => exact .inl ⟨congrArg (Named.get? · x) h, fun _ hv => nomatch hv⟩
  | cons event rest ih =>
    cases event with
    | evaluates names s =>
      rcases ih h.2 with ⟨hsame, hnone⟩ | ⟨before, v, after, rfl, hlast, hget⟩
      · exact .inl ⟨hsame, fun v hv => hnone v (by simpa using hv)⟩
      · exact .inr ⟨.evaluates names s :: before, v, after, rfl, hlast, hget⟩
    | assigns name w =>
      rcases ih h with ⟨hsame, hnone⟩ | ⟨before, v, after, rfl, hlast, hget⟩
      · by_cases hname : name = x
        · subst hname
          exact .inr ⟨[], w, rest, rfl, hnone, hsame.trans (Named.get?_put_self ..)⟩
        · refine .inl ⟨hsame.trans (Named.get?_put_of_ne _ (Ne.symm hname) _), fun v hv => ?_⟩
          rcases List.mem_cons.mp hv with heq | hrest
          · cases heq
            exact hname rfl
          · exact hnone v hrest
      · exact .inr ⟨.assigns name w :: before, v, after, rfl, hlast, hget⟩

/-- Where nothing is given to the variable behind it, an assignment decides. -/
theorem Replays.get?_of_assigns {before between : List Event}
    (h : Replays scope (before ++ .assigns x v :: between) scope') (hlast : ∀ w, .assigns x w ∉ between) :
    scope'.get? x = some v := by
  obtain ⟨middle, -, hassigned⟩ := replays_append.mp h
  have hbetween : Replays (middle.put x v) between scope' := hassigned
  rcases hbetween.get? x with ⟨hsame, -⟩ | ⟨before, w, after, rfl, -, -⟩
  · exact hsame.trans (Named.get?_put_self ..)
  · exact absurd (List.mem_append_right _ List.mem_cons_self) (hlast w)

theorem Sees.find (hs : Sees names inner scope s) (hx : x ∉ names) (hget : scope.get? x = some v)
    (hscopes : u.scopes = s.scopes) : (find x).runFrom σ u = (.ok v, u.binding v) := by
  have hplain : v.isPlain := by
    refine isPlain_of_get (hs.plain scope ?_) hget
    rw [hs.scopes]
    exact List.mem_append_right _ List.mem_cons_self
  refine runFrom_find_of_binding ?_ hplain
  rw [hscopes, hs.scopes, List.append_assoc, List.findSome?_append, hs.hidden x hx, Option.none_or,
    List.singleton_append, List.findSome?_cons, hget]

/-- The path from a variable goes on from its value. -/
theorem evaluate_variable (hfind : (find x).runFrom σ u = (.ok v, u.binding v)) (path : List Step) :
    (Expr.lookup (.value (.str x)) path).evaluate.runFrom σ u =
      (Expr.follow path v).runFrom σ (u.binding v) := by
  rw [Expr.evaluate, runFrom_bind, Expr.evaluate, runFrom_pure]
  dsimp only
  rw [findNamed, runFrom_bind, hfind]

/-- A whole render leaves the scopes as its body does. -/
theorem scopes_run (σ : Settings) (counts : Counts) (registers : Registers) (body : Body) :
    (Environment.run σ counts registers body).state.scopes =
      (body.render.runFrom σ { registers, counts }).2.scopes := by
  cases hbody : body.render.runFrom σ { registers, counts } with
  | mk outcome t =>
    cases outcome with
    | ok r =>
      obtain ⟨notices, hrun⟩ := run_of_ok hbody
      rw [hrun]
    | error e =>
      rw [run_of_error hbody]
      split <;> rfl

end

end Render

open Render

/-- **Assigned variables are template-wide.** Of every template, rendered over plain data with any options and
from any registers, where the filters of the host give plain values for plain ones or look variables up. At
every evaluation behind an assign or a capture of a variable, and before the next one, the variable has the
value it was given, and paths go on from that. Bodies of loops and tables that bind the variable themselves
are left out, but not what comes behind them. Evaluating changes no scope, so that this is so all along an
evaluation. Every node that is rendered is in the log, and the outermost scope ends with what the log says. -/
theorem assigned_variables_are_template_wide (reader env : Environment) (overrides : ParseOverrides)
    (name : Option String) (source : String) (t : Template) (options : RenderOptions) (limits : Limits)
    (data : Option Scope) (registers : Registers)
    (hread : (reader.parse overrides name source).1 = .ok t)
    (hlimits : Limits.ofEntries (options.limits.getD env.limits) = .ok limits)
    (hfilters : ∀ name f, env.filters.get? name = some f → f = .host .lookup ∨ f.KeepsPlain)
    (hdata : ∀ scope ∈ data, Scope.IsPlain scope) :
    let σ := env.settings options limits t.name data (env.subrenderWithin Environment.maxSubrenders)
    let start : RenderState := { registers, counts := limits.counts }
    let log := t.body.log σ [] start
    (∀ before x v between names s after,
      log = before ++ .assigns x v :: between ++ .evaluates names s :: after →
        (∀ w, .assigns x w ∉ between) → x ∉ names → ∀ u, u.scopes = s.scopes →
          (find x).runFrom σ u = (.ok v, u.binding v) ∧
          ∀ path, (Expr.lookup (.value (.str x)) path).evaluate.runFrom σ u =
            (Expr.follow path v).runFrom σ (u.binding v)) ∧
    (∀ u, (∀ e : Expr, (e.evaluate.runFrom σ u).2.scopes = u.scopes) ∧
      (∀ p : Pipeline, (p.evaluate.runFrom σ u).2.scopes = u.scopes) ∧
      ∀ c : Condition, (c.holds.runFrom σ u).2.scopes = u.scopes) ∧
    (∀ k node u, Meets σ t.body start k node u →
      ∃ names, ∀ event ∈ Event.evaluates names u :: node.log σ names u, event ∈ log) ∧
    ∃ finished, env.start options data registers t = .ok finished ∧ ∀ x,
      (outermost? finished.state.scopes x = none ∧ ∀ v, .assigns x v ∉ log) ∨
        ∃ before v after, log = before ++ .assigns x v :: after ∧ (∀ w, .assigns x w ∉ after) ∧
          outermost? finished.state.scopes x = some v := by
  intro σ start log
  have hσ : σ.IsPlain := ⟨fun scope hscope => hdata scope (Option.mem_toList.mp hscope), hfilters⟩
  have hplain : ∀ m ∈ Node.partsOfBody t.body, ∀ e ∈ m.exprs, e.IsPlain := fun m hm =>
    (wellRead_of_parse hread m hm).plain
  have hstart : Sees [] [] [] start :=
    ⟨rfl, fun _ _ => rfl, List.forall_mem_singleton.mpr fun _ hentry => nomatch hentry⟩
  obtain ⟨inner, scope, hsame, hsees, hreplays⟩ :=
    tells_body hσ t.body hplain 0 [] [] [] start (Nat.le_refl 0) hstart
  refine ⟨fun before x v between names s after hlog hlast hx u hscopes => ?_, fun u => ?_,
    fun k node u hmeets => ?_, _, start_of_ofEntries env options hlimits data registers t, fun x => ?_⟩
  · change Replays [] log scope at hreplays
    rw [hlog] at hreplays
    obtain ⟨assigned, hbefore, ⟨inner, hs⟩, -⟩ := replays_append.mp hreplays
    have hfind := hs.find (σ := σ) hx (hbefore.get?_of_assigns hlast) hscopes
    exact ⟨hfind, evaluate_variable hfind⟩
  · have hevaluates := scopeRelation_eq.asking.evaluates
    exact ⟨fun e => hevaluates.evaluate e σ u, fun p => hevaluates.pipeline p σ u,
      fun c => hevaluates.condition c σ u⟩
  · exact hmeets.logged []
  · obtain rfl : inner = [] := List.length_eq_zero_iff.mp hsame.1
    have houtermost : outermost? (Environment.run σ limits.counts registers t.body).state.scopes x =
        scope.get? x := by
      rw [scopes_run, hsees.scopes]
      rfl
    rw [houtermost]
    exact hreplays.get? x

/-- A variable that is assigned in a loop, hidden by another loop, and put out at last. -/
def lastItemSource : String :=
  "\x7b% for i in (1..2) %\x7d\x7b% assign x = i %\x7d\x7b% endfor %\x7d" ++
    "\x7b% for x in (5..5) %\x7d\x7b\x7b x \x7d\x7d\x7b% endfor %\x7d\x7b\x7b x \x7d\x7d"

/-- The settings of its render. -/
def lastItemSettings (t : Template) : Settings :=
  ({} : Environment).settings {} {} t.name none
    (Environment.subrenderWithin {} Environment.maxSubrenders)

/-- The names around an evaluation, or a variable and the whole number it is given. -/
def Event.shape : Event → List String × Option Int
  | .evaluates names _ => (names, none)
  | .assigns name (.int n) => ([name], some n)
  | .assigns name _ => ([name], none)

theorem Event.eq_assigns_of_shape {event : Event} {x : String} {n : Int}
    (h : event.shape = ([x], some n)) : event = .assigns x (.int n) := by
  cases event with
  | evaluates names s => cases h
  | assigns name v =>
    cases v with
    | int m =>
      cases h
      rfl
    | _ => cases h

theorem Event.eq_evaluates_of_shape {event : Event} (h : event.shape = ([], none)) :
    ∃ s, event = .evaluates [] s := by
  cases event with
  | evaluates names s =>
    cases h
    exact ⟨s, rfl⟩
  | assigns name v => cases v <;> cases h

/-- The variable has the last number it was given, also behind the loop that hides it. -/
theorem assigned_variables_are_template_wide_lastItem :
    ∃ t, (({} : Environment).parse {} none lastItemSource).1 = .ok t ∧
      (t.render {} (.ok ({}, none)) {}).result.toOption = some "52" ∧
      ∃ before between names s after,
        t.body.log (lastItemSettings t) [] {} =
          before ++ .assigns "x" (.int 2) :: between ++ .evaluates names s :: after ∧
        between.map Event.shape = [([], none), (["x", "forloop"], none)] ∧ names = [] ∧
        (find "x").runFrom (lastItemSettings t) s = (.ok (.int 2), s) := by
  have hfound : (({} : Environment).parse {} none lastItemSource).1.toOption.map (fun t =>
      ((t.render {} (.ok ({}, none)) {}).result.toOption,
        (t.body.log (lastItemSettings t) [] {}).map Event.shape)) =
      some (some "52",
        [([], none), (["i", "forloop"], none), (["x"], some 1), (["i", "forloop"], none)] ++
          (["x"], some 2) :: ([([], none), (["x", "forloop"], none)] ++ [([], none)])) := by
    decide +kernel
  cases ht : (({} : Environment).parse {} none lastItemSource).1 with
  | error e =>
    rw [ht] at hfound
    cases hfound
  | ok t =>
    rw [ht] at hfound
    obtain ⟨htext, hshape⟩ := Prod.mk.inj (Option.some.inj hfound)
    -- the log is split where the number was last given, and where the variable is put out at last
    obtain ⟨before, rest, hlog, -, hrest⟩ := List.map_eq_append_iff.mp hshape
    obtain ⟨assigned, rest, rfl, hassigned, hrest⟩ := List.map_eq_cons_iff.mp hrest
    obtain ⟨between, rest, rfl, hbetween, hrest⟩ := List.map_eq_append_iff.mp hrest
    obtain ⟨evaluated, after, rfl, hevaluated, -⟩ := List.map_eq_cons_iff.mp hrest
    obtain rfl := Event.eq_assigns_of_shape hassigned
    obtain ⟨s, rfl⟩ := Event.eq_evaluates_of_shape hevaluated
    have hsplit : t.body.log (lastItemSettings t) [] {} =
        before ++ .assigns "x" (.int 2) :: between ++ .evaluates [] s :: after := by
      rw [hlog, List.append_assoc, List.cons_append]
    have hunassigned : ∀ w, .assigns "x" w ∉ between := by
      intro w hw
      have hmem := List.mem_map_of_mem (f := Event.shape) hw
      rw [hbetween] at hmem
      cases w <;> simp [Event.shape] at hmem
    have hassigns := (assigned_variables_are_template_wide {} {} {} none lastItemSource t {} {} none {} ht rfl
      (fun _ _ hget => .inr (Filter.keepsPlain_of_builtinFilters hget)) fun _ hdata => nomatch hdata).1
    exact ⟨t, rfl, htext, before, between, [], s, after, hsplit, hbetween, rfl,
      (hassigns before "x" (.int 2) between [] s after hsplit hunassigned List.not_mem_nil s rfl).1⟩

end Stencil
