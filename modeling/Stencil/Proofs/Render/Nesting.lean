import Stencil.Proofs.Render.Blankness
import Stencil.Proofs.Render.Room
import Stencil.Proofs.Tree.Literals

/-!
# The limit on blocks covers the limit on scopes

Two limits are kept independently: the options bound how deeply blocks are nested when a template is read,
and a render bounds how many scopes it enters. Since a block enters at most one scope around its bodies,
wherever a render gets there are at most as many scopes as blocks around it, and the outermost one
(`Meets.depth_le`). A template that was read with a depth of at most 101 therefore never meets the limit
on scopes (`render_never_nests_too_deeply`).
-/

namespace Stencil

namespace Render

variable {σ : Settings}

/-! ## Scopes on the way to a body -/

section

variable {α : Type} {names : List String} {s t u : RenderState} {o : Outcome α}

theorem depth_of_keeps {x : Render α} (hx : Keeps (fun _ => Restored names) α x)
    (hrun : x.runFrom σ s = (o, t)) : t.scopes.length = s.scopes.length :=
  (hx.of_run hrun).depth

/-- Choosing the items of a loop leaves all scopes. -/
theorem keeps_itemsOf (header : LoopHeader) :
    Keeps (fun _ => Restored []) (List Value) header.itemsOf := by
  have hregisters : RegisterClosed (Keeps fun _ => Restored []) :=
    (evaluationRelation_restored []).registerClosed fun _ _ _ => .of_eq rfl rfl
  exact (renderClosed_restored []).itemsOf header hregisters.visit fun _ => hregisters.registers

/-- So does reading the head of a table. -/
theorem keeps_opened (header : TableHeader) :
    Keeps (fun _ => Restored []) (Option (Nat × List Value)) header.opened := by
  have hclosed := renderClosed_restored []
  exact (hclosed.toStateClosed.suppliesCells (V := fun _ => True) (fun _ _ _ _ _ _ => trivial)
    fun e _ => hclosed.suppliesAny (hclosed.evaluate e)).run hclosed.pure

variable {id : Nat} {itemName : String} {body : Body} {items rest : List Value} {front : String}

/-- The body of a loop is rendered in one more scope for every item. -/
theorem EntersItem.depth (h : EntersItem σ id itemName body u items s front rest) :
    u.scopes.length = s.scopes.length + 1 := by
  induction h with
  | now hdepth hu =>
    rw [hu]
    rfl
  | @later item items rest s t r front hitem _ _ ih =>
    have hkept : Keeps (fun _ => Restored (Node.targetsOfBody body)) Rendered
        (withScope (itemScope id itemName item) body.render) :=
      (renderClosed_restored (Node.targetsOfBody body)).withScope _
        ((renderClosed_restored (Node.targetsOfBody body)).inner (restored_body body))
    have hleft := depth_of_keeps hkept hitem
    exact ih.trans (congrArg (· + 1) hleft)

theorem depth_of_setLocal {name : String} {v : Value} (hrun : (setLocal name v).runFrom σ s = (.ok (), t)) :
    t.scopes.length = s.scopes.length := by
  rw [setLocal, runFrom_modifyScopes] at hrun
  split at hrun
  · cases hrun
  · obtain ⟨-, rfl⟩ := Prod.mk.inj hrun
    cases hscopes : s.scopes <;> simp [putInnermost]

/-- The cells of a table are all rendered in the scope of the table. -/
theorem EntersCell.depth {info : LoopInfo}
    (h : EntersCell σ id itemName body u info items s front rest) :
    u.scopes.length = s.scopes.length := by
  induction h with
  | now hitem _ => exact depth_of_setLocal hitem
  | later hitem _ hbody _ _ ih =>
    have hstep := depth_of_keeps (restored_body body) hbody
    exact ih.trans (hstep.trans (depth_of_setLocal hitem))

theorem EntersTurn.depth {n : Nat} (h : EntersTurn σ body u n s) :
    u.scopes.length = s.scopes.length := by
  induction h with
  | now => rfl
  | later hbody _ ih => exact ih.trans (depth_of_keeps (restored_body body) hbody)

end

section

variable {node : Node} {body : Body} {s u : RenderState} {front : String}

/-- The nodes in front of a node leave all scopes. -/
theorem Reaches.depth (h : Reaches σ body s front node u) : u.scopes.length = s.scopes.length := by
  obtain ⟨before, after, rfl, hbefore⟩ := h
  exact depth_of_keeps (s := s.scored _) (restored_renderNodes before) hbefore

theorem Renders.mem_bodies (h : Renders σ node s body u) : body ∈ node.bodies :=
  h.elim (fun ⟨_, henters⟩ => henters.mem_bodies) Iterates.mem_bodies

/-- **A tag enters at most one scope around its bodies.** One case for each kind of tag. -/
theorem Renders.depth_le (h : Renders σ node s body u) : u.scopes.length ≤ s.scopes.length + 1 := by
  rcases h with ⟨front, henters⟩ | hiterates
  · cases henters with
    | branch _ h => exact Nat.le_of_eq h.depth
    | clause _ h => exact Nat.le_of_eq h.depth
    | otherwise hitems _ =>
      exact Nat.le_of_eq (congrArg (· + 1) (depth_of_keeps (keeps_itemsOf _) hitems))
    | changed => exact Nat.le_refl _
    | capture | wrap => exact Nat.le_succ _
  · cases hiterates with
    | item hitems h =>
      have hhead := depth_of_keeps (keeps_itemsOf _) hitems
      exact Nat.le_of_eq (h.depth.trans (congrArg (· + 1) hhead))
    | cell hopened _ h =>
      have hhead := depth_of_keeps (keeps_opened _) hopened
      exact Nat.le_of_eq (h.depth.trans (congrArg (· + 1) hhead))
    | turn h => exact Nat.le_trans (Nat.le_of_eq h.depth) (Nat.le_succ _)

end

/-! ## Points of a render -/

/-- Rendering a body from `s`, the node is rendered from `u`, and `k` blocks of the body stand around it. -/
inductive Meets (σ : Settings) : Body → RenderState → Nat → Node → RenderState → Prop
  | here {body : Body} {s u : RenderState} {front : String} {node : Node}
    (hreaches : Reaches σ body s front node u) : Meets σ body s 0 node u
  | inside {body inner : Body} {s u v w : RenderState} {front : String} {tag node : Node} {k : Nat}
    (hreaches : Reaches σ body s front tag u) (hrenders : Renders σ tag u inner v)
    (hinner : Meets σ inner v k node w) : Meets σ body s (k + 1) node w

section

variable {body : Body} {s u : RenderState} {k n : Nat} {node : Node}

/-- **Wherever a render gets, it has entered no more scopes than there are blocks around.** -/
theorem Meets.depth_le (h : Meets σ body s k node u) : u.scopes.length ≤ s.scopes.length + k := by
  induction h with
  | here hreaches => exact Nat.le_of_eq hreaches.depth
  | inside hreaches hrenders _ ih =>
    have htag := hreaches.depth
    have hbody := hrenders.depth_le
    omega

/-- No more blocks stand around a node than the body is nested within. -/
theorem Meets.le_of_nestedWithin (h : Meets σ body s k node u) (hnested : body.NestedWithin n) : k ≤ n := by
  induction h generalizing n with
  | here => exact Nat.zero_le n
  | @inside body inner s u v w front tag node k hreaches hrenders _ ih =>
    have htag : tag.NestedWithin n := hnested tag hreaches.mem
    cases n with
    | zero =>
      -- a node that is no block renders no body
      have hbody := hrenders.mem_bodies
      cases tag with
      | choose | case | loop | table | block => cases htag
      | _ => cases hbody
    | succ n => exact Nat.succ_le_succ (ih (htag inner hrenders.mem_bodies))

end

/-! ## Whole renders -/

/-- A whole render of a body that is nested within 100 levels does not meet the limit on scopes. -/
theorem run_endsWithin (hσ : σ.IsCalm) {body : Body} {n : Nat}
    (hplain : ∀ m ∈ Node.partsOfBody body, ∀ e ∈ m.exprs, e.Literals Value.IsCalm)
    (hnested : body.NestedWithin n) (hroom : n ≤ maxScopes) (counts : Counts) (registers : Registers) :
    FailsOnly Failure.NotNesting (Environment.run σ counts registers body).result ∧
      ∀ error ∈ (Environment.run σ counts registers body).state.errors, error.kind ≠ .nesting := by
  have hstart : RenderState.IsCalm { registers, counts } :=
    ⟨List.forall_mem_singleton.mpr (fun _ hentry => nomatch hentry), fun _ herror => nomatch herror⟩
  have hbody := staysWithin_body hσ hplain hnested _ hstart (by
    change 1 + n ≤ maxScopes + 1
    omega)
  cases hrun : body.render.runFrom σ { registers, counts } with
  | mk outcome t =>
    rw [hrun] at hbody
    cases outcome with
    | ok r =>
      obtain ⟨notices, hwhole⟩ := run_of_ok hrun
      rw [hwhole]
      exact ⟨failsOnly_ok _, hbody.calm.errors⟩
    | error e =>
      have hrecorded : (errorAt σ e none).kind ≠ .nesting := (hbody.fails e rfl).recorded
      rw [run_of_error hrun]
      split
      · refine ⟨?_, List.forall_mem_append.mpr
          ⟨hbody.calm.errors, List.forall_mem_singleton.mpr hrecorded⟩⟩
        dsimp only
        split
        · exact failsOnly_error (notNesting_rethrown (hbody.fails e rfl) none)
        · exact failsOnly_ok _
      · exact ⟨failsOnly_error (hbody.fails e rfl), hbody.calm.errors⟩

end Render

open Render

theorem Limits.failsOnly_ofEntries (entries : LimitEntries) :
    FailsOnly Failure.IsHost (ofEntries entries) := by
  refine failsOnly_foldlM fun limits entry _ => ?_
  unfold withEntry
  split
  all_goals first | exact failsOnly_ok _ | exact failsOnly_error ⟨_, rfl⟩

theorem Filter.exists_builtin_of_builtinFilters {name : String} {f : Filter}
    (hget : builtinFilters.get? name = some f) : ∃ b, f = .builtin b := by
  obtain ⟨entry, hfind, rfl⟩ := Option.map_eq_some_iff.mp hget
  obtain ⟨b, -, rfl⟩ := List.mem_map.mp (List.mem_of_find?_eq_some hfind)
  exact ⟨b, rfl⟩

/-- **The limit on blocks covers the limit on scopes.** Of every template that was read with a depth of at
most 101, rendered with built-in filters and any options from any registers, where the functions and drops in
the data, and a function of the host as the global filter, do not raise the error by themselves: the
render neither fails with the error that scopes are nested too deeply nor records it. Wherever it gets, there
are at most as many scopes as blocks around and one more, and of the blocks no more than the depth allowed. -/
theorem render_never_nests_too_deeply (reader env : Environment) (overrides : ParseOverrides)
    (name : Option String) (source : String) (parseOptions : ParseOptions) (t : Template)
    (options : RenderOptions) (data : Option Scope) (registers : Registers)
    (hoptions : reader.parseOptions overrides name = .ok parseOptions)
    (hdepth : parseOptions.maxDepth ≤ 101)
    (hread : (reader.parse overrides name source).1 = .ok t)
    (hfilters : ∀ name f, env.filters.get? name = some f → ∃ b, f = .builtin b)
    (hglobal : ∀ f, options.globalFilter = some (.custom f) → ∀ v, FailsOnly Failure.NotNesting (f v))
    (hdata : ∀ scope ∈ data, Scope.IsCalm scope) :
    FailsOnly Failure.NotNesting (t.render env (.ok (options, data)) registers).result ∧
      (∀ error ∈ (t.render env (.ok (options, data)) registers).template.errors,
        error.kind ≠ .nesting) ∧
      ∀ limits, Limits.ofEntries (options.limits.getD env.limits) = .ok limits → ∀ k node u,
        Meets (env.settings options limits t.name data (env.subrenderWithin Environment.maxSubrenders))
          t.body { registers, counts := limits.counts } k node u →
        u.scopes.length ≤ 1 + k ∧ (k : Int) + 1 ≤ parseOptions.maxDepth := by
  have hbody := Environment.body_of_parse hoptions hread
  obtain ⟨depth, hlevels, hnested⟩ := nestedWithin_of_parseBody hbody
  have hroom : depth ≤ maxScopes := by
    change depth ≤ 100
    omega
  have hplain : ∀ m ∈ Node.partsOfBody t.body, ∀ e ∈ m.exprs, e.Literals Value.IsCalm := fun m hm e he v hv =>
    Value.raisesOnly_of_isPlain ((wellRead_of_parse hread m hm).plain e he v hv)
  have hpoints {σ : Settings} {counts : Counts} {k : Nat} {node : Node} {u : RenderState}
      (hmeets : Meets σ t.body { registers, counts } k node u) :
      u.scopes.length ≤ 1 + k ∧ (k : Int) + 1 ≤ parseOptions.maxDepth := by
    refine ⟨hmeets.depth_le, ?_⟩
    have hblocks := hmeets.le_of_nestedWithin hnested
    omega
  cases hlimits : Limits.ofEntries (options.limits.getD env.limits) with
  | error e =>
    -- a render that cannot be started records nothing
    have hrefused := start_of_refused env options hlimits data registers t
    simp only [Template.render, Except.bind, hrefused]
    refine ⟨failsOnly_error ((Limits.failsOnly_ofEntries _).isRefusal e hlimits).notNesting, ?_,
      fun _ hok => nomatch hok⟩
    exact Environment.errors_of_parse hoptions hread ▸ fun _ herror => nomatch herror
  | ok limits =>
    have hσ : (env.settings options limits t.name data
        (env.subrenderWithin Environment.maxSubrenders)).IsCalm :=
      ⟨fun scope hscope => hdata scope (Option.mem_toList.mp hscope), hfilters, hglobal⟩
    have hrun := run_endsWithin hσ hplain hnested hroom limits.counts registers
    have hrender := start_of_ofEntries env options hlimits data registers t
    simp only [Template.render, Except.bind, hrender]
    exact ⟨hrun.1, hrun.2, fun limits' _ k node u => hpoints⟩

/-- A list inside a choice, with a function of the host that fails. -/
def nestedSource : String :=
  "\x7b% if a %\x7d\x7b% for x in xs %\x7d\x7b\x7b x \x7d\x7d\x7b\x7b f \x7d\x7d\x7b% endfor %\x7d\x7b% endif %\x7d"

/-- What the list is rendered with. -/
def nestedData : Scope := [
  ("a", .bool true), ("xs", .list [.int 1, .int 2]), ("f", .function 0 (.failing (.host ⟨.failed, ""⟩)))]

/-- The failures of the function are recorded, and no others. -/
theorem render_never_nests_too_deeply_list :
    ∃ t, (({} : Environment).parse {} none nestedSource).1 = .ok t ∧
      (t.render {} (.ok ({ errorStyle := some .empty }, some nestedData)) {}).template.errors.map (·.kind) =
        [.internal, .internal] ∧
      FailsOnly Failure.NotNesting
        (t.render {} (.ok ({ errorStyle := some .empty }, some nestedData)) {}).result ∧
      ∀ error ∈ (t.render {} (.ok ({ errorStyle := some .empty }, some nestedData)) {}).template.errors,
        error.kind ≠ .nesting := by
  have hfound : (({} : Environment).parse {} none nestedSource).1.toOption.map (fun t =>
      (t.render {} (.ok ({ errorStyle := some .empty }, some nestedData)) {}).template.errors.map (·.kind)) =
      some [.internal, .internal] := by decide +kernel
  cases ht : (({} : Environment).parse {} none nestedSource).1 with
  | error e =>
    rw [ht] at hfound
    cases hfound
  | ok t =>
    rw [ht] at hfound
    have hcalm : Scope.IsCalm nestedData := by
      refine List.forall_mem_cons.mpr ⟨Value.raisesOnly_of_isPlain rfl, List.forall_mem_cons.mpr
        ⟨Value.raisesOnly_of_isPlain rfl, List.forall_mem_singleton.mpr fun e he => ?_⟩⟩
      cases he with
      | function => exact Failure.notNesting_host _
    obtain ⟨hresult, herrors, -⟩ := render_never_nests_too_deeply {} {} {} none nestedSource {} t
      { errorStyle := some .empty } (some nestedData) {} rfl (by decide) ht
      (fun _ _ => Filter.exists_builtin_of_builtinFilters) (fun _ hf => nomatch hf)
      (fun _ hscope => Option.some.inj hscope ▸ hcalm)
    exact ⟨t, rfl, Option.some.inj hfound, hresult, herrors⟩

end Stencil
