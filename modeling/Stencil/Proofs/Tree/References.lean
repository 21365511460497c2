import Stencil.Proofs.Tree.Walk

/-!
# The variables a document refers to

A walk meets every expression that a part of a document evaluates (`Item.present_of_mem_exprs`), and with it
every path inside (`Item.lookup_mem`), so that the names its paths start from are among the referenced
variables. The group of a cycle is the one expression that is no child of its node: the names in groups
(`Body.groupNames`) come on top (`Body.mem_names_of_lookup`).
-/

namespace Stencil

/-- The names that the paths of an expression start from. -/
def Expr.names (e : Expr) : List String :=
  e.subs.filterMap fun
    | .lookup root _ => root.name?
    | _ => none

/-- The names in the groups of the cycles of a body. -/
def Body.groupNames (body : Body) : List String :=
  (Node.partsOfBody body).flatMap fun
    | .cycle _ group _ => group.names
    | _ => []

theorem Expr.eq_of_name? {e : Expr} {name : String} (hname : e.name? = some name) :
    e = .value (.str name) := by
  unfold name? at hname
  split at hname
  · cases hname
    rfl
  · cases hname

theorem Expr.mem_names_of_lookup {e root : Expr} {path : List Step} {name : String}
    (hlookup : .lookup root path ∈ e.subs) (hname : root.name? = some name) : name ∈ e.names :=
  List.mem_filterMap.mpr ⟨_, hlookup, hname⟩

theorem Body.mem_groupNames_of_cycle {body : Body} {tag : Tag} {group : Expr} {values : List Expr}
    (hcycle : .cycle tag group values ∈ Node.partsOfBody body) {name : String}
    (hname : name ∈ group.names) : name ∈ Body.groupNames body :=
  List.mem_flatMap.mpr ⟨_, hcycle, hname⟩

namespace Item

theorem mem_referencedVariables {item : Item} {root : Expr} {path : List Step} {name : String}
    (hlookup : .expr (.lookup root path) ∈ item.walk) (hname : root.name? = some name) :
    name ∈ item.referencedVariables := List.mem_filterMap.mpr ⟨_, hlookup, hname⟩

section

variable {items : List Item} (hclosed : IsClosed items)

include hclosed

/-! ## Expressions of a node -/

theorem present_of_mem_filter {call : FilterCall} (hcall : .filter call ∈ items) :
    ∀ e ∈ call.exprs, Present items (.expr e) :=
  fun _ he => present_of_mem_parts hclosed hcall (List.mem_map_of_mem he)

/-- What an output evaluates is met with any item that has the parts of the output. -/
theorem present_of_mem_pipeline {item : Item} {p : Pipeline} (hitem : item ∈ items)
    (hparts : item.parts = .expr p.expr :: p.filters.map .filter) :
    ∀ e ∈ p.exprs, Present items (.expr e) := by
  refine List.forall_mem_cons.mpr ⟨?_, fun e he => ?_⟩
  · exact present_of_mem_parts hclosed hitem (hparts ▸ List.mem_cons_self)
  · obtain ⟨call, hcall, he⟩ := List.mem_flatMap.mp he
    have hmem : .filter call ∈ item.parts :=
      hparts ▸ List.mem_cons_of_mem _ (List.mem_map_of_mem hcall)
    exact present_of_mem_filter hclosed (mem_of_mem_parts hclosed hitem hmem rfl) e he

/-- The rest of a joined condition is met as a condition of its own. -/
theorem present_of_mem_condition {c : Condition} {body : Option Body}
    (hc : .condition c body ∈ items) : ∀ e ∈ c.exprs, Present items (.expr e) := by
  have hsides {c : Condition} {body : Option Body} (hc : .condition c body ∈ items) :
      ∀ e ∈ c.head.exprs, Present items (.expr e) := by
    refine List.forall_mem_cons.mpr ⟨?_, List.forall_mem_singleton.mpr ?_⟩
    · exact present_of_mem_parts hclosed hc List.mem_cons_self
    · exact present_of_mem_parts hclosed hc (List.mem_cons_of_mem _ List.mem_cons_self)
  induction c generalizing body with
  | single comparison =>
    intro e he
    obtain ⟨link, hlink, he⟩ := List.mem_flatMap.mp he
    cases List.mem_singleton.mp hlink
    exact hsides hc e he
  | joined comparison relation rest ih =>
    have hrest : .condition rest none ∈ items := by
      refine mem_of_mem_parts hclosed hc ?_ rfl
      exact List.mem_append_left _ (List.mem_append_right _ List.mem_cons_self)
    intro e he
    rcases List.mem_append.mp he with he | he
    · exact hsides hc e he
    · exact ih hrest e he

theorem present_of_mem_branches {t : Tag} {negated : Bool} {branches : List (Option Condition × Body)}
    (hnode : .tag (.choose t negated branches) ∈ items) :
    ∀ e ∈ (Node.choose t negated branches).exprs, Present items (.expr e) := by
  intro e he
  obtain ⟨⟨guard, body⟩, hbranch, he⟩ := List.mem_flatMap.mp he
  cases guard with
  | none => cases he
  | some c =>
    have hc : .condition c (some body) ∈ items :=
      mem_of_mem_parts hclosed hnode (List.mem_map_of_mem hbranch) rfl
    exact present_of_mem_condition hclosed hc e he

theorem present_of_mem_clauses {t : Tag} {subject : Expr} {preamble : Body}
    {clauses : List (Option (List Expr) × Body)}
    (hnode : .tag (.case t subject preamble clauses) ∈ items) :
    ∀ e ∈ (Node.case t subject preamble clauses).exprs, Present items (.expr e) := by
  refine List.forall_mem_cons.mpr ⟨?_, fun e he => ?_⟩
  · exact present_of_mem_parts hclosed hnode List.mem_cons_self
  · obtain ⟨⟨values, body⟩, hclause, he⟩ := List.mem_flatMap.mp he
    cases values with
    | none => cases he
    | some values =>
      -- every alternative is the right side of a condition
      have hc := condition_mem_of_alternative hclosed hnode hclause he
      refine present_of_mem_parts hclosed hc ?_
      exact List.mem_append_left _ (List.mem_cons_of_mem _ List.mem_cons_self)

theorem present_of_mem_loop {t : Tag} {header : LoopHeader} {body : Body} {otherwise : Option Body}
    (hnode : .tag (.loop t header body otherwise) ∈ items) :
    ∀ e ∈ header.exprs, Present items (.expr e) := by
  intro e he
  refine present_of_mem_parts hclosed hnode (List.mem_append_right _ (List.mem_map_of_mem ?_))
  simp only [LoopHeader.exprs, List.mem_cons, List.mem_append] at he
  simp only [List.mem_append, List.mem_singleton]
  tauto

theorem present_of_mem_table {t : Tag} {header : TableHeader} {body : Body}
    (hnode : .tag (.table t header body) ∈ items) : ∀ e ∈ header.exprs, Present items (.expr e) := by
  refine List.forall_mem_cons.mpr ⟨?_, fun e he => ?_⟩
  · exact present_of_mem_parts hclosed hnode (List.mem_append_right _ List.mem_cons_self)
  · obtain ⟨entry, hentry, rfl⟩ := List.mem_map.mp he
    refine present_of_mem_parts hclosed hnode (List.mem_append_left _ (List.mem_append_right _ ?_))
    exact List.mem_map.mpr ⟨entry, hentry, rfl⟩

/-- **What a node evaluates is met with it**, unless it is the group of a cycle. -/
theorem present_of_mem_exprs {node : Node} (hnode : ofNode node ∈ items) :
    ∀ e ∈ node.exprs, Present items (.expr e) ∨ ∃ t values, node = .cycle t e values := by
  intro e he
  cases node with
  | output o => exact .inl (present_of_mem_pipeline hclosed hnode rfl e he)
  | assign t target source =>
    have hsource : .output source ∈ items :=
      mem_of_mem_parts hclosed hnode List.mem_cons_self rfl
    exact .inl (present_of_mem_pipeline hclosed hsource rfl e he)
  | cycle t group values =>
    rcases List.mem_cons.mp he with rfl | he
    · exact .inr ⟨t, values, rfl⟩
    · exact .inl (present_of_mem_parts hclosed hnode (List.mem_map_of_mem he))
  | choose t negated branches => exact .inl (present_of_mem_branches hclosed hnode e he)
  | case t subject preamble clauses => exact .inl (present_of_mem_clauses hclosed hnode e he)
  | loop t header body otherwise => exact .inl (present_of_mem_loop hclosed hnode e he)
  | table t header body => exact .inl (present_of_mem_table hclosed hnode e he)
  | text | interrupt | raw | leaf | block => cases he

end

/-! ## Paths inside an expression -/

section

variable {items : List Item}

mutual

/-- **Every path inside an expression that is met is met.** Induction on the expression. -/
theorem lookup_mem (hclosed : IsClosed items) {root : Expr} {path : List Step} : ∀ e : Expr,
    Present items (.expr e) → .lookup root path ∈ e.subs → .expr (.lookup root path) ∈ items
  | .value v, _, hlookup => by
    unfold Expr.subs at hlookup
    cases List.mem_singleton.mp hlookup
  | .range first last, he, hlookup => by
    have hparts : ∀ part ∈ [.expr first, .expr last], Present items part :=
      fun _ => present_of_mem_parts hclosed (mem_of_present he rfl)
    unfold Expr.subs at hlookup
    rcases List.mem_cons.mp hlookup with hlookup | hlookup
    · cases hlookup
    rcases List.mem_append.mp hlookup with hlookup | hlookup
    · exact lookup_mem hclosed first (hparts _ List.mem_cons_self) hlookup
    · exact lookup_mem hclosed last (hparts _ (List.mem_cons_of_mem _ List.mem_cons_self)) hlookup
  | .lookup start steps, he, hlookup => by
    have he := mem_of_present he rfl
    have hparts : ∀ part ∈ ofExpr (.lookup start steps), Present items part :=
      fun _ => present_of_mem_parts hclosed he
    dsimp only [ofExpr] at hparts
    unfold Expr.subs at hlookup
    rcases List.mem_cons.mp hlookup with hlookup | hlookup
    · cases hlookup
      exact he
    rcases List.mem_append.mp hlookup with hlookup | hlookup
    · -- a root that is a name has no path inside
      cases hname : start.name? with
      | some name =>
        rw [Expr.eq_of_name? hname] at hlookup
        unfold Expr.subs at hlookup
        cases List.mem_singleton.mp hlookup
      | none =>
        rw [hname] at hparts
        exact lookup_mem hclosed start (hparts _ List.mem_cons_self) hlookup
    · refine lookup_mem_of_path hclosed steps (fun step hstep => hparts _ ?_) hlookup
      have hstep : Item.expr step.key ∈ ofPath steps := List.mem_map_of_mem hstep
      split
      · exact hstep
      · exact List.mem_cons_of_mem _ hstep
termination_by structural e => e

theorem lookup_mem_of_path (hclosed : IsClosed items) {root : Expr} {path : List Step} :
    ∀ steps : List Step, (∀ step ∈ steps, Present items (.expr step.key)) →
      .lookup root path ∈ Expr.pathSubs steps → .expr (.lookup root path) ∈ items
  | [], _, hlookup => nomatch hlookup
  | .name s :: rest, hsteps, hlookup => by
    exact lookup_mem_of_path hclosed rest (List.forall_mem_cons.mp hsteps).2 hlookup
  | .index e :: rest, hsteps, hlookup => by
    obtain ⟨he, hrest⟩ := List.forall_mem_cons.mp hsteps
    rcases List.mem_append.mp hlookup with hlookup | hlookup
    · exact lookup_mem hclosed e he hlookup
    · exact lookup_mem_of_path hclosed rest hrest hlookup
termination_by structural steps => steps

end

end

end Item

/-! ## Documents -/

/-- **The names of all paths that a document evaluates are among its referenced variables**, or in the
group of a cycle. -/
theorem Body.mem_names_of_lookup {body : Body} (hread : body.All Node.WellRead) {m : Node}
    (hm : m ∈ Node.partsOfBody body) {e : Expr} (he : e ∈ m.exprs) {root : Expr} {path : List Step}
    (hlookup : .lookup root path ∈ e.subs) {name : String} (hname : root.name? = some name) :
    name ∈ (Item.document body).referencedVariables ++ Body.groupNames body := by
  have hclosed := Item.isClosed_walk (Item.document body)
  rw [List.mem_append]
  rcases Item.present_of_mem_exprs hclosed (Item.ofNode_mem_walk hread m hm) e he with
    hpresent | ⟨tag, values, rfl⟩
  · exact .inl (Item.mem_referencedVariables (Item.lookup_mem hclosed e hpresent hlookup) hname)
  · exact .inr (Body.mem_groupNames_of_cycle hm (Expr.mem_names_of_lookup hlookup hname))

end Stencil
