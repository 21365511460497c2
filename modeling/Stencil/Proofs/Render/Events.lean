import Stencil.Proofs.Render.Iterated
import Stencil.Proofs.Render.PlainRenders

/-!
# What a render does with its variables

A render evaluates expressions and assigns variables, one after the other. The log of a body lists these
events in the order in which they come about, with the states in which expressions are evaluated and with the
values that are assigned. It is put together in the way the render is, and the states in it are those of the
render itself (`Node.log`, `Body.log`).

* `Sees names inner scope s`: a state whose outermost scope is `scope`, and whose other scopes bind nothing
  but the given names.
* `Replays scope log scope'`: the assignments of the log lead from one outermost scope to the other, and at
  every evaluation the state sees what was assigned so far.
* `Tells`: a step does what its log says.
* `tells_body`: so does every body, over plain data.
-/

namespace Stencil

/-! ## Logs -/

/-- What happens to variables. -/
inductive Event where
  /-- Expressions are evaluated in the scopes of this state, inside bodies of loops and tables that bind the
  names. -/
  | evaluates (names : List String) (s : RenderState)
  /-- An assign or a capture gives the variable a value. -/
  | assigns (name : String) (v : Value)

/-- The events of a step, which depend on the state it starts from. -/
abbrev Log := RenderState → List Event

namespace Log

open Render

variable {α : Type}

/-- Nothing happens. -/
def silent : Log := fun _ => []

/-- The events of a step, and behind them those of what goes on with the value it gives. -/
def andThen (σ : Settings) (x : Render α) (first : Log) (later : α → Log) : Log := fun s =>
  first s ++ match x.runFrom σ s with
    | (.ok a, t) => later a t
    | (.error _, _) => []

/-- Expressions are evaluated. -/
def evaluating (names : List String) : Log := fun s => [.evaluates names s]

/-- The events inside a new innermost scope, if it can be entered. -/
def inScope (scope : Scope) (log : Log) : Log := fun s =>
  if maxScopes < s.scopes.length then [] else log (s.within scope)

/-- The events of a body of a number of nodes. -/
def scored (size : Nat) (log : Log) : Log := fun s => log (s.scored size)

/-- The events of the items of a loop. -/
def items (σ : Settings) (id : Nat) (itemName : String) (body : Render Rendered) (log : Log) :
    List Value → Log
  | [] => silent
  | item :: rest =>
    let scope := itemScope id itemName item
    andThen σ (withScope scope body) (inScope scope log) fun r =>
      andThen σ (advanceLoop id) silent fun _ =>
        if r.signal == some .leave then silent else items σ id itemName body log rest

/-- The events of the cells of a table. -/
def cells (σ : Settings) (id : Nat) (itemName : String) (body : Render Rendered) (log : Log) :
    List Value → Log
  | [] => silent
  | item :: rest =>
    andThen σ (setLocal itemName item) silent fun _ =>
      andThen σ Render.loops silent fun loops =>
        match loops[id]? with
        | none => silent
        | some _ =>
          andThen σ body log fun r =>
            andThen σ (advanceLoop id) silent fun _ =>
              if r.signal == some .leave then silent else cells σ id itemName body log rest

/-- The events of a body behind alternatives, each of which is compared with the subject. -/
def alternatives (σ : Settings) (names : List String) (subject : Expr) (body : Render Rendered)
    (log : Log) : List Expr → Log
  | [] => silent
  | value :: rest =>
    andThen σ (Comparison.holds { left := subject, operator := some "==", right := value })
      (evaluating names) fun holds =>
        if holds then
          andThen σ body log fun r =>
            if r.signal.isSome then silent else alternatives σ names subject body log rest
        else alternatives σ names subject body log rest

/-- The events of a body that is rendered a number of times. -/
def turns (σ : Settings) (body : Render Rendered) (log : Log) : Nat → Log
  | 0 => silent
  | n + 1 => andThen σ body log fun _ => turns σ body log n

end Log

open Render

namespace Node

mutual

/-- What happens inside a node, besides the evaluations it starts with, where it stands in bodies that bind
the names. -/
def log (σ : Settings) (names : List String) (node : Node) : Log :=
  match node with
  | .text _ | .output _ | .interrupt .. | .cycle .. | .raw .. | .leaf .. => .silent
  | .assign _ target source =>
    .andThen σ source.pipeline.evaluate .silent fun v _ => [.assigns target v]
  | .choose _ negated branches => .inScope [] (branchesLog σ names branches negated)
  | .case _ subject _ clauses => .inScope [] (clausesLog σ names clauses subject false)
  | .loop _ header body otherwise =>
    .andThen σ header.itemsOf .silent fun items =>
      if items.isEmpty then
        match otherwise with
        | some nodes => .inScope [] (.scored nodes.length (nodesLog σ names nodes))
        | none => .silent
      else fun s =>
        Log.items σ s.loops.size header.itemName (Body.render body)
          (.scored body.length (nodesLog σ (header.itemName :: "forloop" :: names) body)) items
          (startItems header items s)
  | .table _ header body =>
    .andThen σ header.opened .silent fun
      | some (id, items) =>
        .inScope [("tablerowloop", .loop id)]
          (.cells σ id header.itemName (Body.render body)
            (.scored body.length (nodesLog σ (header.itemName :: "tablerowloop" :: names) body)) items)
      | none => .silent
  | .block _ kind body =>
    let inner : Log := .scored body.length (nodesLog σ names body)
    match kind with
    | .capture target => .andThen σ (Body.render body) inner fun r _ => [.assigns target (.str r.text)]
    | .changed => .inScope [] inner
    | .comment => .silent
    | .repeated n => .turns σ (Body.render body) inner n
    | .wrap => inner
termination_by structural node

/-- What happens in nodes one after another, until a signal stops them. -/
def nodesLog (σ : Settings) (names : List String) (nodes : List Node) : Log :=
  match nodes with
  | [] => .silent
  | node :: rest =>
    .andThen σ (placed node node.render) (fun s => .evaluates names s :: log σ names node s) fun r =>
      if r.signal.isSome then .silent else nodesLog σ names rest
termination_by structural nodes

/-- What happens when conditions are tested until one holds. -/
def branchesLog (σ : Settings) (names : List String) (branches : List (Option Condition × List Node))
    (negated : Bool) : Log :=
  match branches with
  | [] => .silent
  | (guard, body) :: rest =>
    .andThen σ (guardHolds guard) (.evaluating names) fun holds =>
      if holds != negated then .scored body.length (nodesLog σ names body)
      else branchesLog σ names rest false
termination_by structural branches

/-- What happens when alternatives are compared with a subject. -/
def clausesLog (σ : Settings) (names : List String) (clauses : List (Option (List Expr) × List Node))
    (subject : Expr) (matched : Bool) : Log :=
  match clauses with
  | [] => .silent
  | (some values, body) :: rest =>
    .andThen σ (renderAlternatives subject (Body.render body) matched values)
      (.alternatives σ names subject (Body.render body) (.scored body.length (nodesLog σ names body))
        values) fun (r, matched) =>
        if r.signal.isSome then .silent else clausesLog σ names rest subject matched
  | (none, body) :: rest =>
    if matched then clausesLog σ names rest subject true
    else .scored body.length (nodesLog σ names body)
termination_by structural clauses

end

end Node

/-- What happens in a body, where it stands in bodies that bind the names. -/
def Body.log (σ : Settings) (names : List String) (body : Body) : Log :=
  .scored body.length (Node.nodesLog σ names body)

namespace Render

variable {α β : Type} {σ : Settings} {names : List String} {inner inner' : List Scope}
  {scope scope' : Scope} {s t : RenderState} {log : Log}

/-! ## Replaying a log -/

/-- The outermost scope of the state is this one, and the inner ones bind nothing but the names. -/
structure Sees (names : List String) (inner : List Scope) (scope : Scope) (s : RenderState) : Prop where
  scopes : s.scopes = inner ++ [scope]
  hidden : ∀ name ∉ names, inner.findSome? (·.get? name) = none
  plain : s.IsPlain

/-- The assignments lead from one outermost scope to the other, and all evaluations see what was assigned up
to them. -/
def Replays : Scope → List Event → Scope → Prop
  | scope, [], scope' => scope' = scope
  | scope, .evaluates names s :: events, scope' =>
    (∃ inner, Sees names inner scope s) ∧ Replays scope events scope'
  | scope, .assigns name v :: events, scope' => Replays (scope.put name v) events scope'

theorem replays_append {events more : List Event} :
    Replays scope (events ++ more) scope' ↔
      ∃ between, Replays scope events between ∧ Replays between more scope' := by
  induction events generalizing scope with
  | nil => simp [Replays]
  | cons event rest ih =>
    cases event with
    | evaluates names s => simp only [List.cons_append, Replays, ih, and_assoc, exists_and_left]
    | assigns name v => exact ih

theorem Sees.of_scopes (h : Sees names inner scope s) (hscopes : t.scopes = s.scopes) :
    Sees names inner scope t where
  scopes := hscopes.trans h.scopes
  hidden := h.hidden
  plain := by
    unfold RenderState.IsPlain
    rw [hscopes]
    exact h.plain

/-- An assignment changes the outermost scope only. -/
theorem putOutermost_concat (name : String) (v : Value) (inner : List Scope) (scope : Scope) :
    putOutermost name v (inner ++ [scope]) = inner ++ [scope.put name v] := by
  induction inner with
  | nil => rfl
  | cons first rest ih =>
    rw [List.cons_append, List.cons_append, ← ih]
    cases rest <;> rfl

/-- The same scopes, but for the first one. -/
def SameBelow (inner inner' : List Scope) : Prop := inner'.length = inner.length ∧ inner'.tail = inner.tail

theorem SameBelow.refl (inner : List Scope) : SameBelow inner inner := ⟨rfl, rfl⟩

theorem SameBelow.trans {inner'' : List Scope} (h : SameBelow inner inner')
    (h' : SameBelow inner' inner'') : SameBelow inner inner'' :=
  ⟨h'.1.trans h.1, h'.2.trans h.2⟩

theorem SameBelow.exists_cons {first : Scope} (h : SameBelow (first :: inner) inner') :
    ∃ first', inner' = first' :: inner := by
  obtain ⟨hlength, htail⟩ := h
  cases inner' with
  | nil => cases hlength
  | cons first' rest => exact ⟨first', congrArg (first' :: ·) htail⟩

/-! ## Steps that do what their log says -/

/-- From a state with `n` inner scopes or more, the step does what the log says, and leaves all of them but
the innermost one as they are. -/
def Tells (σ : Settings) (n : Nat) (names : List String) (x : Render α) (log : Log) : Prop :=
  ∀ inner scope s, n ≤ inner.length → Sees names inner scope s →
    ∃ inner' scope', SameBelow inner inner' ∧ Sees names inner' scope' (x.runFrom σ s).2 ∧
      Replays scope (log s) scope'

section

variable {n : Nat} {x : Render α}

/-- A step that changes no scope is silent. -/
theorem tells_of_kept (hx : ∀ s, (x.runFrom σ s).2.scopes = s.scopes) : Tells σ n names x .silent :=
  fun inner scope s _ hs => ⟨inner, scope, .refl inner, hs.of_scopes (hx s), rfl⟩

theorem tells_pure (a : α) : Tells σ n names (pure a : Render α) .silent := tells_of_kept fun _ => rfl

/-- It sees what was assigned up to it. -/
theorem Tells.evaluating (hx : Tells σ n names x log) :
    Tells σ n names x fun s => .evaluates names s :: log s := by
  intro inner scope s hn hs
  obtain ⟨inner', scope', hsame, hsees, hreplays⟩ := hx inner scope s hn hs
  exact ⟨inner', scope', hsame, hsees, ⟨inner, hs⟩, hreplays⟩

/-- The log of a sequence is that of the first step, and behind it that of the second one, which goes on with a
value that the first one gave. -/
theorem Tells.bind {f : α → Render β} {later : α → Log} (hx : Tells σ n names x log)
    (hf : ∀ a s t, s.IsPlain → x.runFrom σ s = (.ok a, t) → Tells σ n names (f a) (later a)) :
    Tells σ n names (x >>= f) (.andThen σ x log later) := by
  intro inner scope s hn hs
  obtain ⟨inner', between, hsame, hsees, hreplays⟩ := hx inner scope s hn hs
  rw [runFrom_bind, Log.andThen]
  cases hrun : x.runFrom σ s with
  | mk outcome t =>
    rw [hrun] at hsees
    cases outcome with
    | error e => exact ⟨inner', between, hsame, hsees, replays_append.mpr ⟨between, hreplays, rfl⟩⟩
    | ok a =>
      obtain ⟨inner'', scope', hsame', hsees', hlater⟩ :=
        hf a s t hs.plain hrun inner' between t (hsame.1 ▸ hn) hsees
      exact ⟨inner'', scope', hsame.trans hsame', hsees',
        replays_append.mpr ⟨between, hreplays, hlater⟩⟩

/-- A step that leaves the scopes another one does, from states with the same scopes, has the log of that. -/
theorem Tells.of_start (start : RenderState → RenderState) {f : RenderState → Render α}
    {log : RenderState → Log} {y : Render β} (hx : ∀ s, Tells σ n names (f s) (log s))
    (hstart : ∀ s, (start s).scopes = s.scopes)
    (hscopes : ∀ s, (y.runFrom σ s).2.scopes = ((f s).runFrom σ (start s)).2.scopes) :
    Tells σ n names y fun s => log s (start s) := by
  intro inner scope s hn hs
  obtain ⟨inner', scope', hsame, hsees, hreplays⟩ :=
    hx s inner scope (start s) hn (hs.of_scopes (hstart s))
  exact ⟨inner', scope', hsame, hsees.of_scopes (hscopes s), hreplays⟩

/-- What changes no scope may follow. -/
theorem Tells.andKept {f : α → Render β} (hx : Tells σ n names x log)
    (hf : ∀ a s, ((f a).runFrom σ s).2.scopes = s.scopes) : Tells σ n names (x >>= f) log := by
  refine .of_start id (fun _ => hx) (fun _ => rfl) fun s => ?_
  rw [runFrom_bind, id]
  generalize x.runFrom σ s = out
  obtain ⟨e | a, t⟩ := out
  · rfl
  · exact hf a t

/-- So may what only wraps the value. -/
theorem Tells.map (hx : Tells σ n names x log) (f : α → β) :
    Tells σ n names (x >>= fun a => pure (f a)) log :=
  hx.andKept fun _ _ => rfl

theorem tells_assign {name : String} {v : Value} (hv : v.isPlain) :
    Tells σ n names (assign name v) fun _ => [.assigns name v] := by
  intro inner scope s _ hs
  have hsome : ¬ s.scopes.isEmpty = true := by simp [hs.scopes]
  rw [assign, runFrom_modifyScopes, if_neg hsome]
  refine ⟨inner, scope.put name v, .refl inner, ⟨?_, hs.hidden,
    forall_putOutermost (V := fun v => v.isPlain) hs.plain hv⟩, rfl⟩
  rw [← putOutermost_concat, ← hs.scopes]

/-- Binding one of the names in the innermost scope changes nothing that is to be seen. -/
theorem tells_setLocal {name : String} {v : Value} (hname : name ∈ names) (hv : v.isPlain) :
    Tells σ (n + 1) names (setLocal name v) .silent := by
  intro inner scope s hn hs
  cases inner with
  | nil => cases hn
  | cons first rest =>
    have hsome : ¬ s.scopes.isEmpty = true := by simp [hs.scopes]
    rw [setLocal, runFrom_modifyScopes, if_neg hsome]
    refine ⟨first.put name v :: rest, scope, ⟨rfl, rfl⟩, ⟨?_, fun other hother => ?_,
      forall_putInnermost (V := fun v => v.isPlain) hs.plain hv⟩, rfl⟩
    · dsimp only
      rw [hs.scopes]
      rfl
    · have hne : other ≠ name := fun heq => hother (heq ▸ hname)
      have hrest := hs.hidden other hother
      rw [List.findSome?_cons] at hrest ⊢
      rw [Named.get?_put_of_ne first hne]
      exact hrest

/-- A step in a new scope sees what is around it, if the scope binds nothing but further names. -/
theorem Tells.withScope {new : Scope} {names' : List String} (hx : Tells σ (n + 1) names' x log)
    (hnames : names ⊆ names') (hplain : Scope.IsPlain new)
    (hbinds : ∀ name ∉ names', new.get? name = none) :
    Tells σ n names (withScope new x) (.inScope new log) := by
  intro inner scope s hn hs
  rw [runFrom_withScope, Log.inScope]
  by_cases hdeep : maxScopes < s.scopes.length
  · rw [if_pos hdeep, if_pos hdeep]
    exact ⟨inner, scope, .refl inner, hs, rfl⟩
  · rw [if_neg hdeep, if_neg hdeep]
    have hwithin : Sees names' (new :: inner) scope (s.within new) := by
      refine ⟨congrArg (new :: ·) hs.scopes, fun name hname => ?_,
        List.forall_mem_cons.mpr ⟨hplain, hs.plain⟩⟩
      rw [List.findSome?_cons, hbinds name hname]
      exact hs.hidden name fun hmem => hname (hnames hmem)
    obtain ⟨_, scope', hsame, hsees, hreplays⟩ := hx (new :: inner) scope _ (Nat.succ_le_succ hn) hwithin
    -- only the new scope may have changed, and it is left again
    obtain ⟨first, rfl⟩ := hsame.exists_cons
    refine ⟨inner, scope', .refl inner, ⟨congrArg List.tail hsees.scopes, hs.hidden, ?_⟩, hreplays⟩
    exact fun other hother => hsees.plain other (List.mem_of_mem_tail hother)

theorem Tells.withEmptyScope (hx : Tells σ (n + 1) names x log) :
    Tells σ n names (Render.withScope [] x) (.inScope [] log) :=
  hx.withScope (List.Subset.refl _) (fun _ hentry => nomatch hentry) fun _ _ => rfl

theorem Tells.scored {x : Render Rendered} (hx : Tells σ n names x log) (size : Nat) :
    Tells σ n names (Render.scored size x) (.scored size log) :=
  .of_start (·.scored size) (fun _ => hx) (fun _ => rfl) fun s => by rw [runFrom_scored]; rfl

/-! ## Loops -/

theorem isPlain_itemScope (id : Nat) (itemName : String) {item : Value} (hitem : item.isPlain) :
    Scope.IsPlain (itemScope id itemName item) := by
  have hloop : ∀ entry ∈ [("forloop", Value.loop id)], entry.2.isPlain :=
    List.forall_mem_singleton.mpr rfl
  exact Named.forall_put (Q := fun v : Value => v.isPlain) hloop hitem

variable {body : Render Rendered} {id : Nat} {itemName : String}

/-- Every item is rendered in a scope that binds the variable of the loop and its metadata. -/
theorem tells_renderItems (hbody : Tells σ (n + 1) (itemName :: "forloop" :: names) body log)
    {items : List Value} (hplain : ∀ item ∈ items, item.isPlain) :
    Tells σ n names (renderItems id itemName body items) (.items σ id itemName body log items) := by
  induction items with
  | nil => exact tells_pure _
  | cons item rest ih =>
    obtain ⟨hitem, hrest⟩ := List.forall_mem_cons.mp hplain
    have hscope : Tells σ n names (withScope (itemScope id itemName item) body)
        (.inScope (itemScope id itemName item) log) := by
      refine hbody.withScope (fun _ h => List.mem_cons_of_mem _ (List.mem_cons_of_mem _ h))
        (isPlain_itemScope id itemName hitem) fun name hname => ?_
      simp only [List.mem_cons, not_or] at hname
      rw [itemScope, Named.get?_put_of_ne _ hname.1]
      simp [Named.get?, Ne.symm hname.2.1]
    unfold renderItems Log.items
    refine hscope.bind fun r _ _ _ _ => (tells_of_kept fun _ => rfl).bind fun _ _ _ _ _ => ?_
    split
    · exact tells_pure _
    · exact (ih hrest).map _

/-- The cells of a table are rendered in the scope of the table, one after the other. -/
theorem tells_renderCells (hname : itemName ∈ names) (hbody : Tells σ (n + 1) names body log)
    {items : List Value} (hplain : ∀ item ∈ items, item.isPlain) :
    Tells σ (n + 1) names (renderCells id itemName body items) (.cells σ id itemName body log items) := by
  induction items with
  | nil => exact tells_pure _
  | cons item rest ih =>
    obtain ⟨hitem, hrest⟩ := List.forall_mem_cons.mp hplain
    unfold renderCells Log.cells
    refine (tells_setLocal hname hitem).bind fun _ _ _ _ _ =>
      (tells_of_kept fun _ => rfl).bind fun loops _ _ _ _ => ?_
    cases loops[id]? with
    | none => exact tells_pure _
    | some info =>
      refine hbody.bind fun r _ _ _ _ => (tells_of_kept fun _ => rfl).bind fun _ _ _ _ _ => ?_
      split
      · exact tells_pure _
      · exact (ih hrest).map _

/-! ## Choices and repetitions -/

theorem kept_comparison (c : Comparison) (s : RenderState) : (c.holds.runFrom σ s).2.scopes = s.scopes :=
  scopeRelation_eq.asking.evaluates.comparison c σ s

theorem kept_guardHolds (guard : Option Condition) (s : RenderState) :
    ((guardHolds guard).runFrom σ s).2.scopes = s.scopes := by
  cases guard with
  | none => rfl
  | some c => exact scopeRelation_eq.asking.evaluates.condition c σ s

theorem tells_renderAlternatives (subject : Expr) (hbody : Tells σ n names body log) (matched : Bool)
    (values : List Expr) :
    Tells σ n names (renderAlternatives subject body matched values)
      (.alternatives σ names subject body log values) := by
  induction values generalizing matched with
  | nil => exact tells_pure _
  | cons value rest ih =>
    unfold renderAlternatives Log.alternatives
    refine (tells_of_kept (kept_comparison _)).evaluating.bind fun holds _ _ _ _ => ?_
    cases holds with
    | false => exact ih matched
    | true =>
      refine hbody.bind fun r _ _ _ _ => ?_
      split
      · exact tells_pure _
      · exact (ih true).map _

theorem tells_renderRepeatedly (hbody : Tells σ n names body log) (turns : Nat) :
    Tells σ n names (renderRepeatedly body turns) (.turns σ body log turns) := by
  induction turns with
  | zero => exact tells_pure _
  | succ turns ih => exact hbody.bind fun _ _ _ _ _ => ih.map _

theorem tells_renderBranches {branches : List (Option Condition × Body)}
    (hbodies : ∀ branch ∈ branches, Tells σ n names (Body.render branch.2) (Body.log σ names branch.2))
    (negated : Bool) :
    Tells σ n names (Node.renderBranches branches negated) (Node.branchesLog σ names branches negated) := by
  induction branches generalizing negated with
  | nil =>
    unfold Node.renderBranches Node.branchesLog
    exact tells_pure _
  | cons branch rest ih =>
    obtain ⟨guard, body⟩ := branch
    obtain ⟨hbody, hrest⟩ := List.forall_mem_cons.mp hbodies
    have hguard : Tells σ n names (guardHolds guard) (.evaluating names) :=
      (tells_of_kept (kept_guardHolds guard)).evaluating
    have hsteps : Node.renderBranches ((guard, body) :: rest) negated = (do
        let holds ← guardHolds guard
        if holds != negated then Body.render body else Node.renderBranches rest false) := by
      cases guard <;> rw [Node.renderBranches] <;> rfl
    rw [hsteps]
    unfold Node.branchesLog
    refine hguard.bind fun holds _ _ _ _ => ?_
    split
    · exact hbody
    · exact ih hrest false

theorem tells_renderClauses {clauses : List (Option (List Expr) × Body)} (subject : Expr)
    (hbodies : ∀ clause ∈ clauses, Tells σ n names (Body.render clause.2) (Body.log σ names clause.2))
    (matched : Bool) :
    Tells σ n names (Node.renderClauses clauses subject matched)
      (Node.clausesLog σ names clauses subject matched) := by
  induction clauses generalizing matched with
  | nil =>
    unfold Node.renderClauses Node.clausesLog
    exact tells_pure _
  | cons clause rest ih =>
    obtain ⟨guard, body⟩ := clause
    obtain ⟨hbody, hrest⟩ := List.forall_mem_cons.mp hbodies
    cases guard with
    | none =>
      unfold Node.renderClauses Node.clausesLog
      cases matched with
      | true => exact ih hrest true
      | false => exact hbody
    | some values =>
      unfold Node.renderClauses Node.clausesLog
      refine (tells_renderAlternatives subject hbody matched values).bind fun found _ _ _ _ => ?_
      dsimp only
      split
      · exact tells_pure _
      · exact (ih hrest _).map _

/-! ## Nodes and bodies -/

/-- The guard around a node changes no scope. -/
theorem scopes_placed (node : Node) (s : RenderState) :
    ((placed node node.render).runFrom σ s).2.scopes = (node.render.runFrom σ s).2.scopes := by
  rw [placed_eq_guarded, runFrom_guarded]
  generalize node.render.runFrom σ s = out
  obtain ⟨e | r, t⟩ := out
  · dsimp only
    split <;> rfl
  · rfl

theorem tells_renderNodes {nodes : List Node}
    (hnodes : ∀ node ∈ nodes, Tells σ n names node.render (node.log σ names)) :
    Tells σ n names (Node.renderNodes nodes) (Node.nodesLog σ names nodes) := by
  induction nodes with
  | nil =>
    unfold Node.renderNodes Node.nodesLog
    exact tells_pure _
  | cons node rest ih =>
    obtain ⟨hnode, hrest⟩ := List.forall_mem_cons.mp hnodes
    have hplaced : Tells σ n names (placed node node.render) (node.log σ names) :=
      .of_start id (fun _ => hnode) (fun _ => rfl) (scopes_placed node)
    unfold Node.renderNodes Node.nodesLog
    refine hplaced.evaluating.bind fun r _ _ _ _ => ?_
    split
    · exact tells_pure _
    · exact (ih hrest).map _

/-- A loop binds its variable and its metadata around its body. -/
theorem tells_loop (hσ : σ.IsPlain) {header : LoopHeader} (hplain : ∀ e ∈ header.exprs, e.IsPlain)
    {body : Body} {otherwise : Option Body} (tag : Tag)
    (hbody : Tells σ (n + 1) (header.itemName :: "forloop" :: names) body.render
      (body.log σ (header.itemName :: "forloop" :: names)))
    (hother : ∀ other ∈ otherwise, Tells σ (n + 1) names (Body.render other) (Body.log σ names other)) :
    Tells σ n names (Node.loop tag header body otherwise).render
      ((Node.loop tag header body otherwise).log σ names) := by
  rw [render_loop]
  unfold LoopHeader.render Node.log
  refine (tells_of_kept (scopeRelation_eq.keeps_itemsOf header σ)).bind fun items s t hs hrun => ?_
  have hitems := isPlain_of_itemsOf hσ hplain hs hrun
  by_cases hempty : items.isEmpty
  · rw [if_pos hempty, if_pos hempty]
    cases otherwise with
    | none => exact tells_pure _
    | some other => exact (hother other rfl).withEmptyScope
  · rw [if_neg hempty, if_neg hempty]
    -- the items are rendered by a loop on the stack, which is no part of the scopes
    refine .of_start (startItems header items) (fun s => tells_renderItems hbody hitems) (fun _ => rfl)
      fun s => ?_
    rw [runFrom_startItems]
    rfl

/-- So does a table around its cells. -/
theorem tells_table (hσ : σ.IsPlain) {header : TableHeader} (hplain : ∀ e ∈ header.exprs, e.IsPlain)
    {body : Body} (tag : Tag)
    (hbody : Tells σ (n + 1) (header.itemName :: "tablerowloop" :: names) body.render
      (body.log σ (header.itemName :: "tablerowloop" :: names))) :
    Tells σ n names (Node.table tag header body).render ((Node.table tag header body).log σ names) := by
  rw [render_table, TableHeader.render_eq]
  unfold Node.log
  refine (tells_of_kept (scopeRelation_eq.keeps_opened header σ)).bind fun opened s t hs hrun => ?_
  have hitems := isPlain_of_opened hσ hplain hs hrun
  cases opened with
  | none => exact tells_pure _
  | some pair =>
    refine Tells.map (Tells.withScope (tells_renderCells List.mem_cons_self hbody hitems)
      (fun _ h => List.mem_cons_of_mem _ (List.mem_cons_of_mem _ h))
      (List.forall_mem_singleton.mpr rfl) fun name hname => ?_) _
    simp only [List.mem_cons, not_or] at hname
    simp [Named.get?, Ne.symm hname.2.1]

theorem tells_block {tag : Tag} {kind : BlockKind} {body : Body}
    (hbody : kind ≠ .comment → ∀ n, Tells σ n names body.render (body.log σ names)) :
    Tells σ n names (Node.block tag kind body).render ((Node.block tag kind body).log σ names) := by
  rw [render_block]
  unfold Node.log
  cases kind with
  | capture target =>
    refine (hbody nofun n).bind fun r _ _ _ _ => ?_
    have htext : Tells σ n names (assignText target r.text) fun _ => [.assigns target (.str r.text)] :=
      (tells_assign rfl).andKept fun _ _ => rfl
    exact htext.map _
  | changed =>
    refine (hbody nofun (n + 1)).withEmptyScope.andKept fun r s => ?_
    rw [runFrom_bind, runFrom_registers]
    dsimp only
    split <;> rfl
  | comment => exact tells_pure _
  | repeated turns => exact (tells_renderRepeatedly (hbody nofun n) turns).map _
  | wrap => exact hbody nofun n

/-- **A node does what its log says**, if its bodies do. One case for each kind of node. -/
theorem tells_node (hσ : σ.IsPlain) {node : Node} (hplain : ∀ e ∈ node.exprs, e.IsPlain)
    (hbodies : ∀ body ∈ node.rendered, ∀ n names, Tells σ n names body.render (body.log σ names)) :
    Tells σ n names node.render (node.log σ names) := by
  have hevaluates := scopeRelation_eq.asking.evaluates
  cases node with
  | assign tag target source =>
    unfold Node.render assignOutput Node.log
    refine Tells.map ((tells_of_kept (hevaluates.pipeline _ σ)).bind fun v s t hs hrun => ?_) _
    exact (tells_assign (isPlain_of_pipeline hσ hplain hs hrun)).andKept fun _ _ => rfl
  | choose tag negated branches =>
    unfold Node.render Node.log
    exact (tells_renderBranches (fun branch hbranch =>
      hbodies _ (List.mem_map_of_mem hbranch) _ _) negated).withEmptyScope
  | case tag subject preamble clauses =>
    unfold Node.render Node.log
    exact (tells_renderClauses subject (fun clause hclause =>
      hbodies _ (List.mem_map_of_mem hclause) _ _) false).withEmptyScope
  | loop tag header body otherwise =>
    refine tells_loop hσ hplain tag (hbodies _ List.mem_cons_self _ _) fun other hother => ?_
    exact hbodies _ (List.mem_cons_of_mem _ (Option.mem_toList.mpr hother)) _ _
  | table tag header body => exact tells_table hσ hplain tag (hbodies _ List.mem_cons_self _ _)
  | block tag kind body =>
    refine tells_block fun hkind n => hbodies body ?_ n names
    cases kind with
    | comment => exact absurd rfl hkind
    | _ => exact List.mem_cons_self
  | output o =>
    unfold Node.render Node.log
    exact (tells_of_kept (hevaluates.output o σ)).map _
  | cycle tag group values =>
    unfold Node.render Node.log
    refine (tells_of_kept (scopeRelation_eq.stateClosed.cycle scopeRelation_eq.registerClosed.registers
      (hevaluates.evaluate group) (fun e _ => hevaluates.evaluate e) σ)).map _
  | leaf tag kind =>
    unfold Node.render Node.log
    exact (tells_of_kept (scopeRelation_eq.stateClosed.leaf kind _ σ)).map _
  | text | interrupt | raw =>
    unfold Node.render Node.log
    exact tells_pure _

/-- **A body over plain data does what its log says.** Induction on the tree. -/
theorem tells_body (hσ : σ.IsPlain) (body : Body)
    (hplain : ∀ m ∈ Node.partsOfBody body, ∀ e ∈ m.exprs, e.IsPlain) (n : Nat) (names : List String) :
    Tells σ n names body.render (body.log σ names) := by
  induction body using Body.induction generalizing n names with
  | step body ih =>
    refine (tells_renderNodes fun node hnode => ?_).scored _
    have hparts : ∀ m ∈ node.parts, ∀ e ∈ m.exprs, e.IsPlain := fun m hm =>
      hplain m (Node.mem_partsOfBody.mpr ⟨node, hnode, hm⟩)
    refine tells_node hσ (hparts node node.self_mem_parts) fun inner hinner n names => ?_
    exact ih node hnode inner (Node.mem_bodies_of_mem_rendered hinner) (fun m hm =>
      hparts m (Node.mem_parts_iff.mpr (.inr ⟨inner, hinner, hm⟩))) n names

end

end Render

end Stencil
