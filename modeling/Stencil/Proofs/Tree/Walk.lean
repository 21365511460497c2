import Mathlib
import Stencil.Proofs.Tree.Literals
import Stencil.Tree.Walk

/-!
# What is met on a walk

A walk meets everything below the item it starts from (`Item.isClosed_walk`): the weight of an
item is greater than that of its children together, so the steps suffice. So a walk over a document
meets every part of it (`Item.ofNode_mem_walk`).
-/

namespace Stencil

/-! ## Weights -/

namespace Item

theorem exprsWeight_eq (es : List Expr) : exprsWeight es = ((es.map Item.expr).map weight).sum := by
  rw [exprsWeight, ← List.sum_eq_foldl, List.map_map]
  rfl

theorem sum_weight_ofPath (path : List Step) :
    ((ofPath path).map weight).sum = Expr.pathWeight path := by
  induction path with
  | nil => rfl
  | cons step rest ih =>
    cases step with
    | name s => exact congrArg (1 + ·) ih
    | index e => exact congrArg (e.weight + ·) ih

theorem sum_weight_ofExpr (e : Expr) : ((ofExpr e).map weight).sum < e.weight := by
  cases e with
  | value v => exact Nat.one_pos
  | lookup root path =>
    have hpath := sum_weight_ofPath path
    rw [ofExpr, Expr.weight]
    -- a root that is a name is no child, and weighs something all the same
    cases root.name? with
    | some name =>
      dsimp only
      omega
    | none =>
      simp only [List.map_cons, List.sum_cons, weight]
      omega
  | range first last =>
    simp only [ofExpr, List.map_cons, List.map_nil, List.sum_cons, List.sum_nil, weight, Expr.weight]
    omega

theorem sum_weight_filter (call : FilterCall) :
    (((call.args ++ call.kwargs.map (·.2)).map Item.expr).map weight).sum < filterWeight call := by
  simp only [filterWeight, exprsWeight_eq, List.map_append, List.sum_append]
  omega

theorem sum_weight_filters (calls : List FilterCall) :
    ((calls.map Item.filter).map weight).sum = (calls.map filterWeight).foldl (· + ·) 0 := by
  rw [← List.sum_eq_foldl, List.map_map]
  rfl

theorem sum_weight_output (o : Output) :
    ((Item.expr o.pipeline.expr :: o.pipeline.filters.map .filter).map weight).sum < outputWeight o := by
  rw [List.map_cons, List.sum_cons, sum_weight_filters, outputWeight, weight]
  omega

theorem sum_weight_ofCondition (c : Condition) (body : Option Body) :
    ((ofCondition c body).map weight).sum < (Item.condition c body).weight := by
  cases c <;> cases body <;>
    simp [ofCondition, Condition.head, weight, conditionWeight] <;> omega

theorem weight_ofNode (node : Node) : (ofNode node).weight = nodeWeight node := by
  cases node with
  | text s => rw [ofNode, weight, nodeWeight, Expr.weight]
  | output o => rw [ofNode, weight, nodeWeight]
  | _ => rfl

theorem sum_weight_ofBody (body : Body) : ((ofBody body).map weight).sum = nodesWeight body := by
  induction body with
  | nil => rfl
  | cons node rest ih =>
    show (ofNode node).weight + ((ofBody rest).map weight).sum = _
    rw [weight_ofNode, ih, nodesWeight]

theorem sum_weight_branches (branches : List (Option Condition × Body)) :
    ((branches.map ofBranch).map weight).sum = branchesWeight branches := by
  induction branches with
  | nil => rfl
  | cons branch rest ih =>
    obtain ⟨guard, body⟩ := branch
    rw [List.map_cons, List.map_cons, List.sum_cons, ih]
    cases guard with
    | some c => simp only [ofBranch, weight, branchesWeight]
    | none =>
      simp only [ofBranch, weight, branchesWeight]
      omega

theorem sum_weight_clauses (subject : Expr) (clauses : List (Option (List Expr) × Body)) :
    ((clauses.flatMap (ofClause subject)).map weight).sum = clausesWeight subject clauses := by
  induction clauses with
  | nil => rfl
  | cons clause rest ih =>
    obtain ⟨values, body⟩ := clause
    rw [List.flatMap_cons, List.map_append, List.sum_append, ih]
    cases values with
    | none =>
      rw [clausesWeight]
      rfl
    | some values =>
      -- the body stands behind each alternative and is counted with each
      rw [clausesWeight, ← List.sum_eq_foldl, ofClause, List.map_map]
      congr 3
      funext value
      simp only [Function.comp_apply, weight, conditionWeight]
      omega

theorem sum_weight_ofParts (node : Node) : ((ofParts node).map weight).sum < nodeWeight node := by
  cases node with
  | text s => exact Nat.one_pos
  | output o => exact sum_weight_output o
  | assign tag target source =>
    simp only [ofParts, List.map_cons, List.map_nil, List.sum_cons, List.sum_nil, weight, nodeWeight]
    omega
  | interrupt tag signal => exact Nat.one_pos
  | leaf tag kind => exact Nat.one_pos
  | cycle tag group values =>
    rw [ofParts, nodeWeight, exprsWeight_eq]
    omega
  | raw tag s => exact Nat.lt_add_one 1
  | choose tag negated branches =>
    rw [ofParts, sum_weight_branches, nodeWeight]
    omega
  | case tag subject preamble clauses =>
    rw [ofParts, List.map_cons, List.sum_cons, sum_weight_clauses, nodeWeight, weight]
    omega
  | loop tag header body otherwise =>
    cases otherwise with
    | none =>
      rw [ofParts, nodeWeight, exprsWeight_eq]
      simp only [Option.map_none, Option.toList_none, List.map_cons, List.map_nil, List.sum_cons,
        List.sum_nil, List.map_append, List.sum_append, weight]
      omega
    | some other =>
      rw [ofParts, nodeWeight, exprsWeight_eq]
      simp only [Option.map_some, Option.toList_some, List.map_cons, List.map_nil, List.sum_cons,
        List.sum_nil, List.map_append, List.sum_append, weight]
      omega
  | table tag header body =>
    have hattributes : header.attributes.map (fun entry => Item.expr entry.2) =
        (header.attributes.map (·.2)).map Item.expr := by
      rw [List.map_map]
      rfl
    rw [ofParts, nodeWeight, exprsWeight_eq, hattributes]
    simp only [List.map_append, List.sum_append, sum_weight_ofBody, List.map_cons, List.map_nil,
      List.sum_cons, List.sum_nil, weight]
    omega
  | block tag kind body =>
    rw [ofParts, nodeWeight, sum_weight_ofBody]
    omega

/-- **An item has more weight than its children together.** -/
theorem sum_weight_parts (item : Item) : (item.parts.map weight).sum < item.weight := by
  cases item with
  | document body | part body =>
    rw [parts, sum_weight_ofBody, weight]
    omega
  | tag node => exact sum_weight_ofParts node
  | output o => exact sum_weight_output o
  | filter call => exact sum_weight_filter call
  | condition c body => exact sum_weight_ofCondition c body
  | fallback body =>
    simp only [parts, List.map_cons, List.map_nil, List.sum_cons, List.sum_nil, weight]
    omega
  | expr e => exact sum_weight_ofExpr e

theorem sum_weight_children (item : Item) : (item.children.map weight).sum < item.weight :=
  Nat.lt_of_le_of_lt ((List.filter_sublist.map weight).sum_le_sum fun _ _ => Nat.zero_le _)
    (sum_weight_parts item)

/-! ## Walks -/

/-- The children of what is in a set of items are in the set. -/
def IsClosed (items : List Item) : Prop := ∀ item ∈ items, ∀ child ∈ item.children, child ∈ items

/-- **Step and run of a walk.** With a step for every part on the stack, everything on the stack is met,
and so are the children of everything that is met. -/
theorem walkWithin_spec {fuel : Nat} {stack : List Item} (hfuel : (stack.map weight).sum ≤ fuel) :
    (∀ item ∈ stack, item ∈ walkWithin fuel stack) ∧ IsClosed (walkWithin fuel stack) := by
  induction fuel generalizing stack with
  | zero =>
    cases stack with
    | nil => exact ⟨(fun _ hitem => nomatch hitem), fun _ hitem => nomatch hitem⟩
    | cons item rest =>
      have hpos := sum_weight_children item
      rw [List.map_cons, List.sum_cons] at hfuel
      omega
  | succ fuel ih =>
    cases stack with
    | nil => exact ⟨(fun _ hitem => nomatch hitem), fun _ hitem => nomatch hitem⟩
    | cons item rest =>
      -- the children take the place of the item and weigh less
      have hnext : ((item.children ++ rest).map weight).sum ≤ fuel := by
        have hless := sum_weight_children item
        rw [List.map_cons, List.sum_cons] at hfuel
        rw [List.map_append, List.sum_append]
        omega
      obtain ⟨hmet, hclosed⟩ := ih hnext
      obtain ⟨hchildren, hrest⟩ := List.forall_mem_append.mp hmet
      refine ⟨List.forall_mem_cons.mpr ⟨List.mem_cons_self, fun other hother => ?_⟩,
        List.forall_mem_cons.mpr ⟨fun child hchild => ?_, fun other hother child hchild => ?_⟩⟩
      · exact List.mem_cons_of_mem _ (hrest other hother)
      · exact List.mem_cons_of_mem _ (hchildren child hchild)
      · exact List.mem_cons_of_mem _ (hclosed other hother child hchild)

theorem sum_weight_singleton (item : Item) : ([item].map weight).sum ≤ item.weight :=
  Nat.le_of_eq (Nat.add_zero _)

theorem self_mem_walk (item : Item) : item ∈ item.walk :=
  (walkWithin_spec (sum_weight_singleton item)).1 item List.mem_cons_self

/-- **A walk meets the children of everything it meets.** -/
theorem isClosed_walk (item : Item) : IsClosed item.walk := (walkWithin_spec (sum_weight_singleton item)).2

/-! ## Documents -/

/-- The item is met, unless it is nil. -/
def Present (items : List Item) (item : Item) : Prop := item.isNil = true ∨ item ∈ items

theorem mem_of_present {items : List Item} {item : Item} (hpresent : Present items item)
    (hnil : item.isNil = false) : item ∈ items := by
  rcases hpresent with h | h
  · rw [hnil] at h
    cases h
  · exact h

section

variable {items : List Item} (hclosed : IsClosed items)

include hclosed

theorem present_of_mem_parts {item part : Item} (hitem : item ∈ items) (hpart : part ∈ item.parts) :
    Present items part := by
  cases hnil : part.isNil with
  | true => exact .inl hnil
  | false => exact .inr (hclosed item hitem part (List.mem_filter.mpr ⟨hpart, by rw [hnil]; rfl⟩))

theorem mem_of_mem_parts {item part : Item} (hitem : item ∈ items) (hpart : part ∈ item.parts)
    (hnil : part.isNil = false) : part ∈ items :=
  mem_of_present (present_of_mem_parts hclosed hitem hpart) hnil

end

@[simp] theorem isNil_ofNode (node : Node) : (ofNode node).isNil = false := by
  cases node <;> rfl

@[simp] theorem isNil_ofBranch (branch : Option Condition × Body) : (ofBranch branch).isNil = false := by
  obtain ⟨guard, body⟩ := branch
  cases guard <;> rfl

section

variable {items : List Item} (hclosed : IsClosed items)

include hclosed

/-! ### Nodes -/

/-- The nodes of a body are children of what holds the body. -/
theorem ofBody_subset {item : Item} {body : Body} (hitem : item ∈ items)
    (hparts : ∀ part ∈ ofBody body, part ∈ item.parts) : ∀ node ∈ body, ofNode node ∈ items :=
  fun node hnode => mem_of_mem_parts hclosed hitem (hparts _ (List.mem_map_of_mem hnode))
    (isNil_ofNode node)

theorem ofBody_subset_of_part {body : Body} (hbody : .part body ∈ items) :
    ∀ node ∈ body, ofNode node ∈ items := ofBody_subset hclosed hbody fun _ hpart => hpart

/-- The body behind a condition is met with it. -/
theorem ofBody_subset_of_condition {c : Condition} {body : Body}
    (hc : .condition c (some body) ∈ items) : ∀ node ∈ body, ofNode node ∈ items := by
  refine ofBody_subset_of_part hclosed (mem_of_mem_parts hclosed hc ?_ rfl)
  exact List.mem_append_right _ List.mem_cons_self

theorem ofBody_subset_of_fallback {body : Body} (hfallback : .fallback body ∈ items) :
    ∀ node ∈ body, ofNode node ∈ items :=
  ofBody_subset_of_part hclosed (mem_of_mem_parts hclosed hfallback List.mem_cons_self rfl)

/-- The comparison of the subject of a case with an alternative, in front of a body. -/
theorem condition_mem_of_alternative {t : Tag} {subject : Expr} {preamble : Body}
    {clauses : List (Option (List Expr) × Body)} {values : List Expr} {body : Body} {value : Expr}
    (hnode : .tag (.case t subject preamble clauses) ∈ items) (hclause : (some values, body) ∈ clauses)
    (hvalue : value ∈ values) :
    .condition (.single { left := subject, operator := some "==", right := value }) (some body) ∈
      items := by
  refine mem_of_mem_parts hclosed hnode (List.mem_cons_of_mem _ ?_) rfl
  exact List.mem_flatMap.mpr ⟨_, hclause, List.mem_map.mpr ⟨value, hvalue, rfl⟩⟩

/-- The body behind alternatives is met with any of them. -/
theorem ofBody_subset_of_clause {t : Tag} {subject : Expr} {preamble : Body}
    {clauses : List (Option (List Expr) × Body)} {clause : Option (List Expr) × Body}
    (hnode : .tag (.case t subject preamble clauses) ∈ items) (hclause : clause ∈ clauses)
    (hcompared : ∀ values, clause.1 = some values → values ≠ []) :
    ∀ node ∈ clause.2, ofNode node ∈ items := by
  obtain ⟨values, body⟩ := clause
  cases values with
  | none =>
    refine ofBody_subset_of_fallback hclosed (mem_of_mem_parts hclosed hnode ?_ rfl)
    exact List.mem_cons_of_mem _ (List.mem_flatMap.mpr ⟨_, hclause, List.mem_cons_self⟩)
  | some values =>
    obtain ⟨value, hvalue⟩ := List.exists_mem_of_ne_nil values (hcompared values rfl)
    exact ofBody_subset_of_condition hclosed
      (condition_mem_of_alternative hclosed hnode hclause hvalue)

end

section

variable {items : List Item}

mutual

/-- **Every part of a node that is met is met.** Induction on the tree. -/
theorem ofNode_mem_of_mem_parts (hclosed : IsClosed items) : ∀ node : Node, ofNode node ∈ items →
    (∀ m ∈ node.parts, m.WellRead) → ∀ m ∈ node.parts, ofNode m ∈ items
  | .choose t negated branches, hnode, hread => by
    have hbranches : ∀ branch ∈ branches, ofBranch branch ∈ items := fun branch hbranch =>
      mem_of_mem_parts hclosed hnode (List.mem_map_of_mem hbranch) (isNil_ofBranch branch)
    unfold Node.parts at hread ⊢
    exact List.forall_mem_cons.mpr ⟨hnode,
      ofNode_mem_of_mem_branches hclosed branches hbranches (List.forall_mem_cons.mp hread).2⟩
  | .case t subject preamble clauses, hnode, hread => by
    have hcompared := (hread _ (Node.self_mem_parts _)).compared _ _ _ _ rfl
    have hclauses : ∀ clause ∈ clauses, ∀ node ∈ clause.2, ofNode node ∈ items :=
      fun clause hclause => ofBody_subset_of_clause hclosed hnode hclause (hcompared clause hclause)
    unfold Node.parts at hread ⊢
    exact List.forall_mem_cons.mpr ⟨hnode,
      ofNode_mem_of_mem_clauses hclosed clauses hclauses (List.forall_mem_cons.mp hread).2⟩
  | .loop t header body none, hnode, hread => by
    have hbody := ofBody_subset_of_part hclosed
      (mem_of_mem_parts hclosed hnode List.mem_cons_self rfl)
    unfold Node.parts at hread ⊢
    dsimp only at hread ⊢
    rw [List.append_nil] at hread ⊢
    exact List.forall_mem_cons.mpr ⟨hnode,
      ofNode_mem_of_mem_body hclosed body hbody (List.forall_mem_cons.mp hread).2⟩
  | .loop t header body (some other), hnode, hread => by
    have hbody := ofBody_subset_of_part hclosed
      (mem_of_mem_parts hclosed hnode List.mem_cons_self rfl)
    have hother : ∀ node ∈ other, ofNode node ∈ items := ofBody_subset_of_part hclosed
      (mem_of_mem_parts hclosed hnode (List.mem_cons_of_mem _ List.mem_cons_self) rfl)
    unfold Node.parts at hread ⊢
    obtain ⟨hreadBody, hreadOther⟩ := List.forall_mem_append.mp (List.forall_mem_cons.mp hread).2
    exact List.forall_mem_cons.mpr ⟨hnode, List.forall_mem_append.mpr
      ⟨ofNode_mem_of_mem_body hclosed body hbody hreadBody,
        ofNode_mem_of_mem_body hclosed other hother hreadOther⟩⟩
  | .table t header body, hnode, hread => by
    have hbody : ∀ node ∈ body, ofNode node ∈ items := ofBody_subset hclosed hnode fun _ hpart =>
      List.mem_append_left _ (List.mem_append_left _ hpart)
    unfold Node.parts at hread ⊢
    exact List.forall_mem_cons.mpr ⟨hnode,
      ofNode_mem_of_mem_body hclosed body hbody (List.forall_mem_cons.mp hread).2⟩
  | .block t kind body, hnode, hread => by
    have hbody : ∀ node ∈ body, ofNode node ∈ items :=
      ofBody_subset hclosed hnode fun _ hpart => hpart
    unfold Node.parts at hread ⊢
    refine List.forall_mem_cons.mpr ⟨hnode, ?_⟩
    have hread := (List.forall_mem_cons.mp hread).2
    -- the body of a comment is met, but no part of it
    cases kind with
    | comment => exact fun _ hm => nomatch hm
    | capture target => exact ofNode_mem_of_mem_body hclosed body hbody hread
    | changed => exact ofNode_mem_of_mem_body hclosed body hbody hread
    | repeated count => exact ofNode_mem_of_mem_body hclosed body hbody hread
    | wrap => exact ofNode_mem_of_mem_body hclosed body hbody hread
  -- the others have no part but themselves
  | .text s, hnode, _ => List.forall_mem_singleton.mpr hnode
  | .output o, hnode, _ => List.forall_mem_singleton.mpr hnode
  | .assign t target source, hnode, _ => List.forall_mem_singleton.mpr hnode
  | .interrupt t signal, hnode, _ => List.forall_mem_singleton.mpr hnode
  | .cycle t group values, hnode, _ => List.forall_mem_singleton.mpr hnode
  | .raw t s, hnode, _ => List.forall_mem_singleton.mpr hnode
  | .leaf t kind, hnode, _ => List.forall_mem_singleton.mpr hnode
termination_by structural node => node

theorem ofNode_mem_of_mem_body (hclosed : IsClosed items) : ∀ body : List Node,
    (∀ node ∈ body, ofNode node ∈ items) → (∀ m ∈ Node.partsOfBody body, m.WellRead) →
    ∀ m ∈ Node.partsOfBody body, ofNode m ∈ items
  | [], _, _ => fun _ hm => nomatch hm
  | node :: rest, hbody, hread => by
    obtain ⟨hnode, hrest⟩ := List.forall_mem_cons.mp hbody
    obtain ⟨hread, hreadRest⟩ := List.forall_mem_append.mp hread
    exact List.forall_mem_append.mpr ⟨ofNode_mem_of_mem_parts hclosed node hnode hread,
      ofNode_mem_of_mem_body hclosed rest hrest hreadRest⟩
termination_by structural body => body

theorem ofNode_mem_of_mem_branches (hclosed : IsClosed items) :
    ∀ branches : List (Option Condition × List Node), (∀ branch ∈ branches, ofBranch branch ∈ items) →
      (∀ m ∈ Node.partsOfBranches branches, m.WellRead) →
      ∀ m ∈ Node.partsOfBranches branches, ofNode m ∈ items
  | [], _, _ => fun _ hm => nomatch hm
  | (guard, body) :: rest, hbranches, hread => by
    obtain ⟨hbranch, hrest⟩ := List.forall_mem_cons.mp hbranches
    obtain ⟨hread, hreadRest⟩ := List.forall_mem_append.mp hread
    have hbody : ∀ node ∈ body, ofNode node ∈ items := by
      cases guard with
      | some c => exact ofBody_subset_of_condition hclosed hbranch
      | none => exact ofBody_subset_of_fallback hclosed hbranch
    exact List.forall_mem_append.mpr ⟨ofNode_mem_of_mem_body hclosed body hbody hread,
      ofNode_mem_of_mem_branches hclosed rest hrest hreadRest⟩
termination_by structural branches => branches

theorem ofNode_mem_of_mem_clauses (hclosed : IsClosed items) :
    ∀ clauses : List (Option (List Expr) × List Node),
      (∀ clause ∈ clauses, ∀ node ∈ clause.2, ofNode node ∈ items) →
      (∀ m ∈ Node.partsOfClauses clauses, m.WellRead) →
      ∀ m ∈ Node.partsOfClauses clauses, ofNode m ∈ items
  | [], _, _ => fun _ hm => nomatch hm
  | (values, body) :: rest, hclauses, hread => by
    obtain ⟨hbody, hrest⟩ := List.forall_mem_cons.mp hclauses
    obtain ⟨hread, hreadRest⟩ := List.forall_mem_append.mp hread
    exact List.forall_mem_append.mpr ⟨ofNode_mem_of_mem_body hclosed body hbody hread,
      ofNode_mem_of_mem_clauses hclosed rest hrest hreadRest⟩
termination_by structural clauses => clauses

end

end

/-- **A walk over a document meets all its parts.** -/
theorem ofNode_mem_walk {body : Body} (hread : body.All Node.WellRead) :
    ∀ m ∈ Node.partsOfBody body, ofNode m ∈ (Item.document body).walk :=
  ofNode_mem_of_mem_body (isClosed_walk _) body
    (ofBody_subset (isClosed_walk _) (self_mem_walk _) fun _ hpart => hpart) hread

end Item

end Stencil
