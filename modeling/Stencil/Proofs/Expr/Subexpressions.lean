import Stencil.Tree.Node

/-!
# The expressions inside others

`Expr.subs e` lists an expression and everything inside it: the root and the keys of a path, and the
ends of a range. `Node.exprs node` lists the expressions that a node evaluates when it is rendered, besides
those of its bodies.
-/

namespace Stencil

namespace Expr

mutual

/-- The expression and every expression inside it. -/
def subs (e : Expr) : List Expr :=
  e :: match e with
    | .value _ => []
    | .lookup root path => subs root ++ pathSubs path
    | .range first last => subs first ++ subs last
termination_by structural e

/-- The keys of a path and every expression inside them. -/
def pathSubs (path : List Step) : List Expr :=
  match path with
  | [] => []
  | .name _ :: rest => pathSubs rest
  | .index e :: rest => subs e ++ pathSubs rest
termination_by structural path

end

theorem self_mem_subs (e : Expr) : e ∈ e.subs := by
  unfold subs
  exact List.mem_cons_self

theorem mem_pathSubs {path : List Step} {e : Expr} :
    e ∈ pathSubs path ↔ ∃ key, .index key ∈ path ∧ e ∈ key.subs := by
  induction path with
  | nil => simp [pathSubs]
  | cons step rest ih => cases step <;> simp [pathSubs, ih, or_and_right, exists_or]

/-! ## Literals -/

variable {V : Value → Prop}

/-- Every literal in the expression is of this kind. -/
def Literals (V : Value → Prop) (e : Expr) : Prop := ∀ v, .value v ∈ e.subs → V v

theorem literals_value {v : Value} (hv : V v) : (Expr.value v).Literals V := by
  intro w hw
  unfold subs at hw
  cases List.mem_singleton.mp hw
  exact hv

theorem Literals.value {v : Value} (h : (Expr.value v).Literals V) : V v := h v (self_mem_subs _)

theorem literals_range {first last : Expr} (hfirst : first.Literals V) (hlast : last.Literals V) :
    (Expr.range first last).Literals V := by
  intro v hv
  unfold subs at hv
  rcases List.mem_cons.mp hv with hv | hv
  · cases hv
  · exact (List.mem_append.mp hv).elim (hfirst v) (hlast v)

theorem Literals.ends {first last : Expr} (h : (Expr.range first last).Literals V) :
    first.Literals V ∧ last.Literals V := by
  unfold Literals subs at h
  exact ⟨fun v hv => h v (List.mem_cons_of_mem _ (List.mem_append_left _ hv)),
    fun v hv => h v (List.mem_cons_of_mem _ (List.mem_append_right _ hv))⟩

theorem literals_lookup {root : Expr} {path : List Step} (hroot : root.Literals V)
    (hpath : ∀ step ∈ path, step.key.Literals V) : (Expr.lookup root path).Literals V := by
  intro v hv
  unfold subs at hv
  rcases List.mem_cons.mp hv with hv | hv
  · cases hv
  rcases List.mem_append.mp hv with hv | hv
  · exact hroot v hv
  · obtain ⟨key, hkey, hv⟩ := mem_pathSubs.mp hv
    exact hpath _ hkey v hv

theorem Literals.root {root : Expr} {path : List Step} (h : (Expr.lookup root path).Literals V) :
    root.Literals V := by
  unfold Literals subs at h
  exact fun v hv => h v (List.mem_cons_of_mem _ (List.mem_append_left _ hv))

theorem Literals.key {root : Expr} {path : List Step} (h : (Expr.lookup root path).Literals V)
    {key : Expr} (hkey : .index key ∈ path) : key.Literals V := by
  unfold Literals subs at h
  exact fun v hv => h v (List.mem_cons_of_mem _
    (List.mem_append_right _ (mem_pathSubs.mpr ⟨key, hkey, hv⟩)))

end Expr

/-- The arguments of a filter. -/
def FilterCall.exprs (call : FilterCall) : List Expr := call.args ++ call.kwargs.map (·.2)

/-- The expressions a pipeline is written with. -/
def Pipeline.exprs (p : Pipeline) : List Expr := p.expr :: p.filters.flatMap FilterCall.exprs

/-- The two sides of a comparison. -/
def Comparison.exprs (c : Comparison) : List Expr := [c.left, c.right]

/-- The expressions a condition is written with. -/
def Condition.exprs (c : Condition) : List Expr := c.links.flatMap fun link => link.1.exprs

/-- The expressions in the head of a loop. -/
def LoopHeader.exprs (header : LoopHeader) : List Expr :=
  header.collection :: (header.offset.toList ++ header.limit.toList)

/-- The expressions in the head of a table. -/
def TableHeader.exprs (header : TableHeader) : List Expr :=
  header.collection :: header.attributes.map (·.2)

/-- The expressions that a node evaluates itself. -/
def Node.exprs : Node → List Expr
  | .output o => o.pipeline.exprs
  | .assign _ _ source => source.pipeline.exprs
  | .cycle _ group values => group :: values
  | .choose _ _ branches => branches.flatMap fun branch => (branch.1.map Condition.exprs).getD []
  | .case _ subject _ clauses => subject :: clauses.flatMap fun clause => clause.1.getD []
  | .loop _ header _ _ => header.exprs
  | .table _ header _ => header.exprs
  | .text _ | .interrupt .. | .raw .. | .leaf .. | .block .. => []

end Stencil
