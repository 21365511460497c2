import Stencil.Proofs.Render.Interrupts

/-!
# What a blank node hides

Whether a node is blank is decided when it is read: its bodies hold nothing but blanks and other blank
nodes. What it puts out is decided when it is rendered, and then left out.

* `Discards σ node s text`: the text of a blank node, rendered from `s`, is left out.
* `FailsBlank σ body s`: the text of every failure that a body catches, rendered from `s`, is blank.
* `Renders σ node s body u`: rendering a tag from `s`, its body is rendered from `u`.
* `discarded_blank_iff`: the text that is left out is blank exactly when there is none, or the node is no
  table and the bodies it renders only catch failures whose texts are blank.
* `discards_failure`: a choice that hides the text of a failure.
-/

namespace Stencil

/-! ## Blank texts -/

/-- Whether a text holds nothing but blanks. -/
def Text.IsBlank (s : String) : Prop := Text.isAllBlank s.toList = true

namespace Text

instance (s : String) : Decidable (IsBlank s) :=
  inferInstanceAs (Decidable (isAllBlank s.toList = true))

@[simp] theorem isBlank_empty : IsBlank "" := rfl

@[simp] theorem isBlank_append {a b : String} : IsBlank (a ++ b) ↔ IsBlank a ∧ IsBlank b := by
  simp only [IsBlank, isAllBlank, String.toList_append, List.all_append, Bool.and_eq_true]

end Text

open Text (IsBlank)

namespace Render

variable {σ : Settings}

/-! ## Blank bodies -/

/-- Of the nodes of a body, rendered from `s`, the text of every failure that is caught is blank. -/
def FailsBlank (σ : Settings) (body : Body) (s : RenderState) : Prop :=
  ∀ front node u e t, Reaches σ body s front node u → node.render.runFrom σ u = (.error e, t) →
    IsBlank (σ.errorStyle.render (errorAt σ e (lineOf node)))

/-- The same for nodes one after another, without counting them. -/
def NodesFailBlank (σ : Settings) (nodes : List Node) (s : RenderState) : Prop :=
  ∀ before node after front u e t, nodes = before ++ node :: after →
    (Node.renderNodes before).runFrom σ s = (.ok { text := front }, u) →
      node.render.runFrom σ u = (.error e, t) →
        IsBlank (σ.errorStyle.render (errorAt σ e (lineOf node)))

theorem failsBlank_iff {body : Body} {s : RenderState} :
    FailsBlank σ body s ↔ NodesFailBlank σ body (s.scored body.length) := by
  constructor
  · intro h before node after front u e t hsplit hbefore hnode
    exact h front node u e t ⟨before, after, hsplit, hbefore⟩ hnode
  · rintro h front node u e t ⟨before, after, hsplit, hbefore⟩ hnode
    exact h before node after front u e t hsplit hbefore hnode

/-- Behind a node with a signal nothing is rendered, so that nothing fails there. -/
theorem nodesFailBlank_cons {node : Node} {rest : List Node} {s t : RenderState} {r : Rendered}
    (hplaced : (placed node node.render).runFrom σ s = (.ok r, t)) :
    NodesFailBlank σ (node :: rest) s ↔
      (∀ e u, node.render.runFrom σ s = (.error e, u) →
        IsBlank (σ.errorStyle.render (errorAt σ e (lineOf node)))) ∧
      (r.signal.isSome = false → NodesFailBlank σ rest t) := by
  constructor
  · intro h
    refine ⟨fun e u hnode => ?_, fun hsignal before m after front u e v hsplit hbefore hm => ?_⟩
    · refine h [] node rest "" s e u rfl ?_ hnode
      rw [Node.renderNodes]
      rfl
    · refine h (node :: before) m after (r.text ++ front) u e v (by rw [hsplit]; rfl) ?_ hm
      rw [renderNodes_cons_eq_followedBy, hplaced]
      dsimp only [followedBy]
      rw [hsignal, hbefore]
      rfl
  · rintro ⟨hfirst, hrest⟩ before m after front u e v hsplit hbefore hm
    cases before with
    | nil =>
      obtain ⟨rfl, rfl⟩ := List.cons.inj hsplit
      rw [Node.renderNodes] at hbefore
      cases hbefore
      exact hfirst e v hm
    | cons first before =>
      obtain ⟨rfl, rfl⟩ := List.cons.inj hsplit
      rw [renderNodes_cons_eq_followedBy, hplaced] at hbefore
      rcases followedBy_eq_ok hbefore with ⟨hsignal, rfl, -⟩ | ⟨hnone, more, hrun, heq⟩
      · -- nothing without a signal ends the nodes in front
        cases hsignal
      · obtain ⟨text, signal⟩ := more
        cases heq
        exact hrest (by rw [hnone]; rfl) before m after text _ e v rfl hrun hm

/-- What a blank node puts out inside a body is blank unless it fails. -/
theorem isBlank_placed_iff {node : Node} (hblank : node.isBlank = true) {s t : RenderState}
    {r : Rendered} (hplaced : (placed node node.render).runFrom σ s = (.ok r, t)) :
    IsBlank r.text ↔ ∀ e u, node.render.runFrom σ s = (.error e, u) →
      IsBlank (σ.errorStyle.render (errorAt σ e (lineOf node))) := by
  rcases placed_eq_ok hplaced with ⟨r', u, hnode, -, htext, -⟩ | ⟨e, u, hnode, -, -, rfl⟩
  · refine iff_of_true ?_ fun e v herror => ?_
    · rw [htext]
      cases node with
      | text s =>
        -- a text is put out as it is
        rw [Node.render] at hnode
        cases hnode
        exact hblank
      | _ =>
        rw [if_pos (by exact hblank)]
        exact Text.isBlank_empty
    · rw [hnode] at herror
      cases herror
  · constructor
    · intro h e' v herror
      rw [hnode] at herror
      cases herror
      exact h
    · exact fun h => h e u hnode

theorem isBlank_renderNodes_iff {nodes : List Node} (hblank : Node.bodyIsBlank nodes = true)
    {s t : RenderState} {r : Rendered} (hrun : (Node.renderNodes nodes).runFrom σ s = (.ok r, t)) :
    IsBlank r.text ↔ NodesFailBlank σ nodes s := by
  induction nodes generalizing s r with
  | nil =>
    rw [Node.renderNodes] at hrun
    cases hrun
    refine iff_of_true Text.isBlank_empty fun before node after front u e t hsplit => ?_
    cases before <;> cases hsplit
  | cons node rest ih =>
    rw [Node.bodyIsBlank, Bool.and_eq_true] at hblank
    obtain ⟨hnode, hrest⟩ := hblank
    obtain ⟨first, u, hplaced, hend⟩ := renderNodes_cons_eq_ok hrun
    rw [nodesFailBlank_cons hplaced, ← isBlank_placed_iff hnode hplaced]
    rcases hend with ⟨hsignal, rfl, rfl⟩ | ⟨hsignal, more, hmore, rfl⟩
    · exact ⟨fun h => ⟨h, fun hnone => by rw [hsignal] at hnone; cases hnone⟩, fun h => h.1⟩
    · rw [Text.isBlank_append, ih hrest hmore]
      exact ⟨fun h => ⟨h.1, fun _ => h.2⟩, fun h => ⟨h.1, h.2 hsignal⟩⟩

/-- **A blank body puts out blanks exactly when it catches only failures with blank texts.** -/
theorem isBlank_render_iff {body : Body} (hblank : body.isBlank = true) {s t : RenderState}
    {r : Rendered} (hrun : body.render.runFrom σ s = (.ok r, t)) :
    IsBlank r.text ↔ FailsBlank σ body s := by
  rw [runFrom_render] at hrun
  rw [failsBlank_iff]
  exact isBlank_renderNodes_iff hblank hrun

/-! ## Blank texts of tags -/

section

variable {body : Body} {s t : RenderState}

/-- What follows from a body that was rendered from `u`, if it ended well. -/
def BlankFrom (σ : Settings) (body : Body) (u : RenderState) : Prop :=
  ∀ r t, body.render.runFrom σ u = (.ok r, t) → IsBlank r.text

theorem blankFrom_iff {r : Rendered} (hrun : body.render.runFrom σ s = (.ok r, t)) :
    BlankFrom σ body s ↔ IsBlank r.text := by
  constructor
  · exact fun h => h r t hrun
  · intro h r' t' hrun'
    rw [hrun] at hrun'
    cases hrun'
    exact h

theorem isBlank_renderBranches_iff {branches : List (Option Condition × Body)} {negated : Bool}
    {r : Rendered} (hrun : (Node.renderBranches branches negated).runFrom σ s = (.ok r, t)) :
    IsBlank r.text ↔ ∀ body u, EntersBranch σ body u branches negated s → BlankFrom σ body u := by
  constructor
  · intro h body u henters
    rw [henters.run] at hrun
    exact (blankFrom_iff hrun).mpr h
  · intro h
    rcases renderBranches_eq_ok hrun with rfl | ⟨body, u, henters, hbody⟩
    · exact Text.isBlank_empty
    · exact h body u henters r t hbody

/-- Behind an alternative that equals the subject, the others are only tested if its body gave no
signal. -/
theorem entersAlternative_of_holds {subject value : Expr} {rest : List Expr} {r : Rendered}
    {t' : RenderState} {P : RenderState → Prop}
    (hholds : (Comparison.holds { left := subject, operator := some "==", right := value }).runFrom σ s =
      (.ok true, t))
    (hbody : body.render.runFrom σ t = (.ok r, t')) :
    (∀ u front, EntersAlternative σ subject body u (value :: rest) s front → P u) ↔
      P t ∧ (r.signal = none → ∀ u front, EntersAlternative σ subject body u rest t' front → P u) := by
  constructor
  · intro h
    exact ⟨h t "" (.found hholds), fun hsignal u front henters =>
      h u _ (.again hholds hbody hsignal henters)⟩
  · rintro ⟨hnow, hlater⟩ u front henters
    cases henters with
    | found hfound =>
      rw [hholds] at hfound
      cases hfound
      exact hnow
    | passed hpassed =>
      rw [hholds] at hpassed
      cases hpassed
    | again hfound hrun hsignal hrest =>
      rw [hholds] at hfound
      cases hfound
      rw [hbody] at hrun
      cases hrun
      exact hlater hsignal u _ hrest

theorem isBlank_renderAlternatives_iff {subject : Expr} {values : List Expr} {matched matched' : Bool}
    {r : Rendered}
    (hrun : (renderAlternatives subject body.render matched values).runFrom σ s =
      (.ok (r, matched'), t)) :
    IsBlank r.text ↔ ∀ u front, EntersAlternative σ subject body u values s front →
      BlankFrom σ body u := by
  induction values generalizing matched s r with
  | nil =>
    rw [renderAlternatives] at hrun
    cases hrun
    refine iff_of_true Text.isBlank_empty fun u front henters => ?_
    cases henters
  | cons value rest ih =>
    obtain ⟨holds, u, hholds, ⟨rfl, hrest⟩ | ⟨rfl, first, v, hbody, hend⟩⟩ :=
      renderAlternatives_cons_eq_ok hrun
    · rw [ih hrest]
      constructor
      · intro h v front henters
        cases henters with
        | found hfound | again hfound =>
          rw [hholds] at hfound
          cases hfound
        | passed hpassed hlater =>
          rw [hholds] at hpassed
          cases hpassed
          exact h v front hlater
      · exact fun h v front henters => h v front (.passed hholds henters)
    · rw [entersAlternative_of_holds hholds hbody, blankFrom_iff hbody]
      rcases hend with ⟨hsome, rfl, -⟩ | ⟨hnone, more, hlater, rfl⟩
      · exact ⟨fun h => ⟨h, fun hnone => by rw [hnone] at hsome; cases hsome⟩, fun h => h.1⟩
      · rw [Text.isBlank_append, ih hlater]
        exact ⟨fun h => ⟨h.1, fun _ => h.2⟩, fun h => ⟨h.1, h.2 hnone⟩⟩

/-- Behind the alternatives of a part, the other parts are only looked at if these gave no signal. -/
theorem entersClause_of_values {subject : Expr} {values : List Expr} {other : Body}
    {rest : List (Option (List Expr) × Body)} {matched matched' : Bool} {r : Rendered}
    {P : Body → RenderState → Prop}
    (hvalues : (renderAlternatives subject other.render matched values).runFrom σ s =
      (.ok (r, matched'), t)) :
    (∀ body u front, EntersClause σ subject body u ((some values, other) :: rest) matched s front →
        P body u) ↔
      (∀ u front, EntersAlternative σ subject other u values s front → P other u) ∧
      (r.signal = none → ∀ body u front, EntersClause σ subject body u rest matched' t front →
        P body u) := by
  constructor
  · intro h
    exact ⟨fun u front henters => h other u front (.found henters), fun hnone body u front henters =>
      h body u _ (.later hvalues hnone henters)⟩
  · rintro ⟨hfirst, hlater⟩ body u front henters
    cases henters with
    | found hentered => exact hfirst u front hentered
    | later hother hnone hrest =>
      rw [hvalues] at hother
      cases hother
      exact hlater hnone body u _ hrest

theorem isBlank_renderClauses_iff {subject : Expr} {clauses : List (Option (List Expr) × Body)}
    {matched : Bool} {r : Rendered}
    (hrun : (Node.renderClauses clauses subject matched).runFrom σ s = (.ok r, t)) :
    IsBlank r.text ↔ ∀ body u front, EntersClause σ subject body u clauses matched s front →
      BlankFrom σ body u := by
  induction clauses generalizing matched s r with
  | nil =>
    rw [Node.renderClauses] at hrun
    cases hrun
    refine iff_of_true Text.isBlank_empty fun body u front henters => ?_
    cases henters
  | cons clause rest ih =>
    obtain ⟨_ | values, other⟩ := clause
    · -- an else is the last part that is rendered, if nothing in front of it was
      rw [Node.renderClauses] at hrun
      cases matched with
      | false =>
        have hother : (Body.render other).runFrom σ s = (.ok r, t) := hrun
        rw [← blankFrom_iff hother]
        constructor
        · rintro h body u front ⟨⟩
          exact h
        · exact fun h => h other s "" .otherwise
      | true =>
        rw [ih hrun]
        constructor
        · rintro h body u front ⟨⟩
          exact h body u front ‹_›
        · exact fun h body u front henters => h body u front (.skipped henters)
    · obtain ⟨first, matched', u, hvalues, hend⟩ := renderClauses_cons_eq_ok hrun
      rw [entersClause_of_values hvalues, ← isBlank_renderAlternatives_iff hvalues]
      rcases hend with ⟨hsome, rfl, -⟩ | ⟨hnone, more, hlater, rfl⟩
      · exact ⟨fun h => ⟨h, fun hnone => by rw [hnone] at hsome; cases hsome⟩, fun h => h.1⟩
      · rw [Text.isBlank_append, ih hlater]
        exact ⟨fun h => ⟨h.1, fun _ => h.2⟩, fun h => ⟨h.1, h.2 hnone⟩⟩

theorem isBlank_renderItems_iff {id : Nat} {itemName : String} {items : List Value} {text : String}
    (hrun : (renderItems id itemName body.render items).runFrom σ s = (.ok text, t)) :
    IsBlank text ↔ ∀ u front rest, EntersItem σ id itemName body u items s front rest →
      BlankFrom σ body u := by
  induction items generalizing s text with
  | nil =>
    rw [renderItems] at hrun
    cases hrun
    refine iff_of_true Text.isBlank_empty fun u front rest henters => ?_
    cases henters
  | cons item others ih =>
    obtain ⟨r, v, hitem, hend⟩ := renderItems_cons_eq_ok hrun
    obtain ⟨hdepth, w, hbody, -⟩ := withScope_eq_ok hitem
    rcases hend with ⟨hleave, rfl⟩ | ⟨hleave, more, hlater, rfl⟩
    · rw [← blankFrom_iff hbody]
      constructor
      · intro h u front rest henters
        cases henters with
        | now _ hu => exact hu ▸ h
        | later hother hsignal =>
          rw [hitem] at hother
          cases hother
          exact absurd hleave hsignal
      · exact fun h => h _ "" others (.now hdepth rfl)
    · rw [Text.isBlank_append, ← blankFrom_iff hbody, ih hlater]
      constructor
      · intro h u front rest henters
        cases henters with
        | now _ hu => exact hu ▸ h.1
        | later hother _ hrest =>
          rw [hitem] at hother
          cases hother
          exact h.2 u _ rest hrest
      · exact fun h => ⟨h _ "" others (.now hdepth rfl), fun u front rest henters =>
          h u _ rest (.later hitem hleave henters)⟩

theorem isBlank_renderRepeatedly_iff {n : Nat} {text : String}
    (hrun : (renderRepeatedly body.render n).runFrom σ s = (.ok text, t)) :
    IsBlank text ↔ ∀ u, EntersTurn σ body u n s → BlankFrom σ body u := by
  induction n generalizing s text with
  | zero =>
    rw [renderRepeatedly] at hrun
    cases hrun
    refine iff_of_true Text.isBlank_empty fun u henters => ?_
    cases henters
  | succ n ih =>
    obtain ⟨first, v, more, hbody, hlater, rfl⟩ := renderRepeatedly_succ_eq_ok hrun
    rw [Text.isBlank_append, ← blankFrom_iff hbody, ih hlater]
    constructor
    · intro h u henters
      cases henters with
      | now => exact h.1
      | later hfirst hrest =>
        rw [hbody] at hfirst
        cases hfirst
        exact h.2 u hrest
    · exact fun h => ⟨h s .now, fun u henters => h u (.later hbody henters)⟩

end

end Render

/-- Whether a node is a table. -/
def Node.isTable : Node → Bool
  | .table .. => true
  | _ => false

namespace Render

variable {σ : Settings}

/-! ## Blank nodes -/

section

variable {node : Node} {body : Body} {s t u : RenderState} {r : Rendered}

/-- Rendering the tag from `s`, its body is rendered from `u`. -/
def Renders (σ : Settings) (node : Node) (s : RenderState) (body : Body) (u : RenderState) : Prop :=
  (∃ front, Enters σ node s front body u) ∨ Iterates σ node s body u

/-- A body of a tag that ends well does so as well. -/
theorem Renders.exists_ok (h : Renders σ node s body u) (hrun : node.render.runFrom σ s = (.ok r, t)) :
    ∃ r' t', body.render.runFrom σ u = (.ok r', t') := by
  cases hbody : body.render.runFrom σ u with
  | mk outcome v =>
    cases outcome with
    | ok r' => exact ⟨r', v, rfl⟩
    | error e =>
      obtain ⟨t', herror⟩ : ∃ t', node.render.runFrom σ s = (.error e, t') :=
        h.elim (fun ⟨_, henters⟩ => henters.run_of_error hbody) fun h => h.run_of_error hbody
      rw [hrun] at herror
      cases herror

theorem branchesAreBlank_iff {branches : List (Option Condition × Body)} :
    Node.branchesAreBlank branches = true ↔ ∀ body ∈ branches.map (·.2), Body.isBlank body = true := by
  induction branches with
  | nil => simp [Node.branchesAreBlank]
  | cons branch rest ih =>
    rw [Node.branchesAreBlank, Bool.and_eq_true, ih, List.map_cons, List.forall_mem_cons]

theorem clausesAreBlank_iff {clauses : List (Option (List Expr) × Body)} :
    Node.clausesAreBlank clauses = true ↔ ∀ body ∈ clauses.map (·.2), Body.isBlank body = true := by
  induction clauses with
  | nil => simp [Node.clausesAreBlank]
  | cons clause rest ih =>
    rw [Node.clausesAreBlank, Bool.and_eq_true, ih, List.map_cons, List.forall_mem_cons]

theorem isBlank_loop (tag : Tag) (header : LoopHeader) (body : Body) (otherwise : Option Body) :
    (Node.loop tag header body otherwise).isBlank = (body.isBlank && otherwise.all Body.isBlank) := by
  cases otherwise <;> rfl

/-- The bodies of a blank tag that puts something out are blank. -/
theorem Renders.isBlank (h : Renders σ node s body u) (hrun : node.render.runFrom σ s = (.ok r, t))
    (htext : r.text ≠ "") (hblank : node.isBlank = true) : body.isBlank = true := by
  rcases h with ⟨front, henters⟩ | hiterates
  · cases henters with
    | branch _ h =>
      rw [Node.isBlank] at hblank
      exact branchesAreBlank_iff.mp hblank body h.mem
    | clause _ h =>
      rw [Node.isBlank, Bool.and_eq_true] at hblank
      exact clausesAreBlank_iff.mp hblank.2 body h.mem
    | otherwise =>
      rw [isBlank_loop, Bool.and_eq_true] at hblank
      exact hblank.2
    | capture =>
      rw [render_block] at hrun
      obtain ⟨_, _, -, rfl⟩ := capture_eq_ok hrun
      exact absurd rfl htext
    | changed | wrap =>
      rw [Node.isBlank] at hblank
      exact hblank
  · cases hiterates with
    | item =>
      rw [isBlank_loop, Bool.and_eq_true] at hblank
      exact hblank.1
    | cell | turn =>
      rw [Node.isBlank] at hblank
      exact hblank

/-- The text of a table is never blank, as it starts and ends its row. -/
theorem not_isBlank_tableText (cells : String) : ¬ IsBlank (TableHeader.tableText cells) := by
  have hrow : ¬ IsBlank "<tr class=\"row1\">\n" := by simp [IsBlank, Text.isAllBlank, Text.isBlank]
  intro h
  unfold TableHeader.tableText at h
  exact hrow (Text.isBlank_append.mp (Text.isBlank_append.mp h).1).1

theorem not_isBlank_of_table {tag : Tag} {header : TableHeader}
    (hrun : (Node.table tag header body).render.runFrom σ s = (.ok r, t)) (htext : r.text ≠ "") :
    ¬ IsBlank r.text := by
  rw [render_table] at hrun
  obtain rfl | ⟨cells, rfl⟩ := TableHeader.render_eq_ok hrun
  · exact absurd rfl htext
  · exact not_isBlank_tableText cells

/-! The bodies that each tag renders. -/

theorem renders_choose_iff {tag : Tag} {negated : Bool} {branches : List (Option Condition × Body)} :
    Renders σ (.choose tag negated branches) s body u ↔
      s.scopes.length ≤ maxScopes ∧ EntersBranch σ body u branches negated (s.within []) := by
  constructor
  · rintro (⟨_, h⟩ | h)
    · cases h with | branch hdepth h => exact ⟨hdepth, h⟩
    · cases h
  · exact fun ⟨hdepth, h⟩ => .inl ⟨"", .branch hdepth h⟩

theorem renders_case_iff {tag : Tag} {subject : Expr} {preamble : Body}
    {clauses : List (Option (List Expr) × Body)} :
    Renders σ (.case tag subject preamble clauses) s body u ↔
      s.scopes.length ≤ maxScopes ∧
        ∃ front, EntersClause σ subject body u clauses false (s.within []) front := by
  constructor
  · rintro (⟨_, h⟩ | h)
    · cases h with | clause hdepth h => exact ⟨hdepth, _, h⟩
    · cases h
  · exact fun ⟨hdepth, front, h⟩ => .inl ⟨front, .clause hdepth h⟩

theorem renders_loop_iff {tag : Tag} {header : LoopHeader} {inner : Body} {otherwise : Option Body}
    {items : List Value} (hitems : header.itemsOf.runFrom σ s = (.ok items, t)) :
    Renders σ (.loop tag header inner otherwise) s body u ↔
      (items = [] ∧ otherwise = some body ∧ t.scopes.length ≤ maxScopes ∧ u = t.within []) ∨
      (body = inner ∧ ∃ front rest,
        EntersItem σ t.loops.size header.itemName inner u items (startItems header items t) front
          rest) := by
  constructor
  · rintro (⟨_, h⟩ | h)
    · cases h with | otherwise hnone hdepth =>
        rw [hitems] at hnone
        cases hnone
        exact .inl ⟨rfl, rfl, hdepth, rfl⟩
    · cases h with | item hsome h =>
        rw [hitems] at hsome
        cases hsome
        exact .inr ⟨rfl, _, _, h⟩
  · rintro (⟨rfl, rfl, hdepth, rfl⟩ | ⟨rfl, front, rest, h⟩)
    · exact .inl ⟨"", .otherwise hitems hdepth⟩
    · exact .inr (.item hitems h)

theorem renders_changed_iff {tag : Tag} {inner : Body} :
    Renders σ (.block tag .changed inner) s body u ↔
      body = inner ∧ s.scopes.length ≤ maxScopes ∧ u = s.within [] := by
  constructor
  · rintro (⟨_, h⟩ | h)
    · cases h with | changed hdepth => exact ⟨rfl, hdepth, rfl⟩
    · cases h
  · rintro ⟨rfl, hdepth, rfl⟩
    exact .inl ⟨"", .changed hdepth⟩

theorem renders_repeated_iff {tag : Tag} {n : Nat} {inner : Body} :
    Renders σ (.block tag (.repeated n) inner) s body u ↔ body = inner ∧ EntersTurn σ inner u n s := by
  constructor
  · rintro (⟨_, h⟩ | h)
    · cases h
    · cases h with | turn h => exact ⟨rfl, h⟩
  · rintro ⟨rfl, h⟩
    exact .inr (.turn h)

theorem renders_wrap_iff {tag : Tag} {inner : Body} :
    Renders σ (.block tag .wrap inner) s body u ↔ body = inner ∧ u = s := by
  constructor
  · rintro (⟨_, h⟩ | h)
    · cases h
      exact ⟨rfl, rfl⟩
    · cases h
  · rintro ⟨rfl, rfl⟩
    exact .inl ⟨"", .wrap⟩

/-- A loop puts out what its rounds do, or else what its alternative does. -/
theorem isBlank_loop_iff {tag : Tag} {header : LoopHeader} {inner : Body} {otherwise : Option Body}
    (hrun : (Node.loop tag header inner otherwise).render.runFrom σ s = (.ok r, t)) (htext : r.text ≠ "") :
    IsBlank r.text ↔ ∀ body u, Renders σ (.loop tag header inner otherwise) s body u → BlankFrom σ body u := by
  rw [render_loop] at hrun
  obtain ⟨items, u, hitems, ⟨-, -, rfl⟩ | ⟨rfl, step, hstep, hother⟩ | ⟨hsome, text, v, hout, rfl⟩⟩ :=
    loop_eq_ok hrun
  · exact absurd rfl htext
  · -- without items only the alternative is rendered
    obtain ⟨other, rfl, rfl⟩ := Option.map_eq_some_iff.mp hstep
    obtain ⟨hdepth, v, hbody, -⟩ := withScope_eq_ok hother
    rw [← blankFrom_iff hbody]
    constructor
    · intro h body w hrenders
      rcases (renders_loop_iff hitems).mp hrenders with ⟨-, ⟨⟩, -, rfl⟩ | ⟨-, front, rest, ⟨⟩⟩
      exact h
    · exact fun h => h other _ ((renders_loop_iff hitems).mpr (.inl ⟨rfl, rfl, hdepth, rfl⟩))
  · -- with items it is not
    rw [isBlank_renderItems_iff hout]
    constructor
    · intro h body w hrenders
      rcases (renders_loop_iff hitems).mp hrenders with ⟨hnone, -⟩ | ⟨rfl, front, rest, henters⟩
      · exact absurd hnone hsome
      · exact h w front rest henters
    · exact fun h w front rest henters =>
        h inner w ((renders_loop_iff hitems).mpr (.inr ⟨rfl, front, rest, henters⟩))

/-- Of a tag with one body, only the states that it is rendered from count. -/
theorem blankFrom_renders_iff {inner : Body} {P : RenderState → Prop}
    (honly : ∀ body u, Renders σ node s body u ↔ body = inner ∧ P u) :
    (∀ body u, Renders σ node s body u → BlankFrom σ body u) ↔ ∀ u, P u → BlankFrom σ inner u := by
  constructor
  · exact fun h u hu => h inner u ((honly inner u).mpr ⟨rfl, hu⟩)
  · intro h body u hrenders
    obtain ⟨rfl, hu⟩ := (honly body u).mp hrenders
    exact h u hu

/-- A block that puts something out puts out what its body does. -/
theorem isBlank_block_iff {tag : Tag} {kind : BlockKind} {inner : Body}
    (hrun : (Node.block tag kind inner).render.runFrom σ s = (.ok r, t)) (htext : r.text ≠ "") :
    IsBlank r.text ↔ ∀ body u, Renders σ (.block tag kind inner) s body u → BlankFrom σ body u := by
  rw [render_block] at hrun
  cases kind with
  | capture target =>
    obtain ⟨_, _, -, rfl⟩ := capture_eq_ok hrun
    exact absurd rfl htext
  | comment =>
    cases hrun
    exact absurd rfl htext
  | changed =>
    obtain ⟨hdepth, r', u, hbody, rfl | rfl⟩ := changed_eq_ok hrun
    · rw [blankFrom_renders_iff fun _ _ => renders_changed_iff, ← blankFrom_iff hbody]
      exact ⟨fun h u hu => hu.2 ▸ h, fun h => h _ ⟨hdepth, rfl⟩⟩
    · exact absurd rfl htext
  | repeated n =>
    obtain ⟨text, hout, rfl⟩ := repeated_eq_ok hrun
    rw [blankFrom_renders_iff fun _ _ => renders_repeated_iff]
    exact isBlank_renderRepeatedly_iff hout
  | wrap =>
    rw [blankFrom_renders_iff fun _ _ => renders_wrap_iff, forall_eq]
    exact (blankFrom_iff hrun).symm

/-- **What a blank tag puts out is blank exactly when what its bodies put out is.** -/
theorem isBlank_tag_iff (hblank : node.isBlank = true) (htable : node.isTable = false)
    (hrun : node.render.runFrom σ s = (.ok r, t)) (htext : r.text ≠ "") :
    IsBlank r.text ↔ ∀ body u, Renders σ node s body u → BlankFrom σ body u := by
  cases node with
  | text text =>
    rw [Node.render] at hrun
    cases hrun
    refine iff_of_true hblank fun body u h => ?_
    rcases h with ⟨_, h⟩ | h <;> cases h
  | output | interrupt | cycle | leaf => cases hblank
  | assign tag target source =>
    rw [Node.render] at hrun
    obtain ⟨_, u, -, hend⟩ := bind_eq_ok hrun
    cases hend
    exact absurd rfl htext
  | raw tag text =>
    rw [Node.render] at hrun
    cases hrun
    exact absurd (eq_of_beq hblank) htext
  | choose tag negated branches =>
    rw [Node.render] at hrun
    obtain ⟨hdepth, v, hbranches, -⟩ := withScope_eq_ok hrun
    simp only [isBlank_renderBranches_iff hbranches, renders_choose_iff, and_imp, hdepth, true_imp_iff]
  | case tag subject preamble clauses =>
    rw [Node.render] at hrun
    obtain ⟨hdepth, v, hclauses, -⟩ := withScope_eq_ok hrun
    simp only [isBlank_renderClauses_iff hclauses, renders_case_iff, and_imp, hdepth, true_imp_iff,
      forall_exists_index]
  | loop => exact isBlank_loop_iff hrun htext
  | table => cases htable
  | block => exact isBlank_block_iff hrun htext

/-- The text of a blank tag, rendered from `s`, which is left out. -/
structure Discards (σ : Settings) (node : Node) (s : RenderState) (text : String) : Prop where
  /-- What the tag puts out is left out. -/
  hidden : node.isHidden = true
  /-- It puts out the text. -/
  rendered : ∃ r t, node.render.runFrom σ s = (.ok r, t) ∧ r.text = text

theorem Discards.blank {text : String} (h : Discards σ node s text) : node.isBlank = true := by
  have hhidden := h.hidden
  cases node with
  | text => cases hhidden
  | _ => exact hhidden

theorem Discards.placed_text {text : String} (h : Discards σ node s text)
    (hplaced : (placed node node.render).runFrom σ s = (.ok r, t)) : r.text = "" := by
  obtain ⟨r', t', hrun, -⟩ := h.rendered
  rcases placed_eq_ok hplaced with ⟨_, _, -, -, htext, -⟩ | ⟨e, u, herror, -⟩
  · rw [htext, if_pos h.hidden]
  · rw [hrun] at herror
    cases herror

/-- A body of a blank tag that puts something out is blank, and it ended well. -/
theorem Discards.blankFrom_iff {text : String} (h : Discards σ node s text) (htext : text ≠ "")
    (hrenders : Renders σ node s body u) : BlankFrom σ body u ↔ FailsBlank σ body u := by
  obtain ⟨r, t, hrun, rfl⟩ := h.rendered
  obtain ⟨r', t', hbody⟩ := hrenders.exists_ok hrun
  rw [Render.blankFrom_iff hbody, isBlank_render_iff (hrenders.isBlank hrun htext h.blank) hbody]

/-- The one-line form of an error is never blank, as it starts with a label. -/
theorem not_isBlank_summary (e : TemplateError) : ¬ IsBlank e.summary := by
  have hlabel : ¬ IsBlank e.kind.label := by
    cases e.kind <;> simp [ErrorKind.label, IsBlank, Text.isAllBlank, Text.isBlank]
  have hleader : IsBlank e.leader → IsBlank e.kind.label := by
    unfold TemplateError.leader
    split
    · exact fun h => (Text.isBlank_append.mp h).1
    · intro h
      exact (Text.isBlank_append.mp (Text.isBlank_append.mp (Text.isBlank_append.mp h).1).1).1
  have hmessage (h : IsBlank (e.leader ++ e.message)) : False :=
    hlabel (hleader (Text.isBlank_append.mp h).1)
  unfold TemplateError.summary
  dsimp only
  split
  · split
    · exact hmessage
    · exact fun h => hmessage (Text.isBlank_append.mp (Text.isBlank_append.mp h).1).1
  · exact hmessage

/-- With the one-line forms of errors, a body that catches failures puts out more than blanks. -/
theorem failsBlank_iff_of_summary (hstyle : σ.errorStyle = .summary) :
    FailsBlank σ body s ↔ ∀ front node u e t, Reaches σ body s front node u →
      node.render.runFrom σ u ≠ (.error e, t) := by
  constructor
  · intro h front node u e t hreaches hnode
    have hblank := h front node u e t hreaches hnode
    rw [hstyle] at hblank
    exact not_isBlank_summary _ hblank
  · exact fun h front node u e t hreaches hnode => absurd hnode (h front node u e t hreaches)

end

/-- **What a blank tag hides.** The text of a blank tag is left out. It is blank exactly when there is
none, or the tag is no table and every body it renders only catches failures whose texts are blank; with
the one-line forms of errors, that is to say that no node of these bodies fails. -/
theorem discarded_blank_iff {σ : Settings} {node : Node} {s : RenderState} {text : String}
    (h : Discards σ node s text) :
    (∀ r t, (placed node node.render).runFrom σ s = (.ok r, t) → r.text = "") ∧
    (IsBlank text ↔ text = "" ∨ node.isTable = false ∧
      ∀ body u, Renders σ node s body u → FailsBlank σ body u) ∧
    (σ.errorStyle = .summary → (IsBlank text ↔ text = "" ∨ node.isTable = false ∧
      ∀ body u, Renders σ node s body u → ∀ front inner v e t, Reaches σ body u front inner v →
        inner.render.runFrom σ v ≠ (.error e, t))) := by
  have hiff : IsBlank text ↔ text = "" ∨ node.isTable = false ∧
      ∀ body u, Renders σ node s body u → FailsBlank σ body u := by
    by_cases htext : text = ""
    · rw [htext]
      exact iff_of_true Text.isBlank_empty (.inl rfl)
    · rw [or_iff_right htext]
      obtain ⟨r, t, hrun, rfl⟩ := h.rendered
      cases htable : node.isTable with
      | true =>
        cases node with
        | table => exact iff_of_false (not_isBlank_of_table hrun htext) fun h => nomatch h.1
        | _ => cases htable
      | false =>
        rw [isBlank_tag_iff h.blank htable hrun htext]
        constructor
        · exact fun hbodies => ⟨rfl, fun body u hrenders =>
            (h.blankFrom_iff htext hrenders).mp (hbodies body u hrenders)⟩
        · exact fun hbodies body u hrenders =>
            (h.blankFrom_iff htext hrenders).mpr (hbodies.2 body u hrenders)
  refine ⟨fun r t => h.placed_text, hiff, fun hstyle => ?_⟩
  simp only [hiff, failsBlank_iff_of_summary hstyle]

/-- A choice that keeps a value between blanks. -/
def quietChoice : Node :=
  .choose ⟨"if", "true ", some 1⟩ false [(some (.single { left := .value (.bool true) }), [
    .text " ",
    .assign ⟨"assign", "x = 1 ", some 1⟩ "x" {
      pipeline := { expr := .value (.int 1) }
      markup := "1 "
      line := some 1 },
    .text "\n"])]

/-- The blanks are left out, and nothing fails. -/
theorem discarded_blank_iff_quietChoice :
    Discards {} quietChoice {} " \n" ∧ ∀ body u, Renders {} quietChoice {} body u → FailsBlank {} body u := by
  have hdiscards : Discards {} quietChoice {} " \n" := ⟨by decide, _, _, rfl, rfl⟩
  refine ⟨hdiscards, ?_⟩
  rcases (discarded_blank_iff hdiscards).2.1.mp (by decide) with hnone | ⟨-, hbodies⟩
  · exact absurd hnone (by decide)
  · exact hbodies

/-- A choice that keeps the result of a division. -/
def failingChoiceSource : String :=
  "\x7b% if true %\x7d\x7b% assign x = 1 | divided_by: 0 %\x7d\x7b% endif %\x7d"

/-- The tree of `failingChoiceSource`. -/
def failingChoice : Node :=
  .choose ⟨"if", "true ", some 1⟩ false [(some (.single { left := .value (.bool true) }), [
    .assign ⟨"assign", "x = 1 | divided_by: 0 ", some 1⟩ "x" {
      pipeline := {
        expr := .value (.int 1)
        filters := [{ name := "divided_by", args := [.value (.int 0)] }] }
      markup := "1 | divided_by: 0 "
      line := some 1 }])]

/-- The division fails inside the choice, and the choice hides the text of the failure. -/
theorem discards_failure :
    (({} : Environment).parse {} none failingChoiceSource).1.map (·.body) = .ok [failingChoice] ∧
      Discards {} failingChoice {} "Ladle error (line 1): divided by 0" ∧
      ¬ IsBlank "Ladle error (line 1): divided by 0" ∧
      (Environment.run {} {} {} [failingChoice]).result = .ok "" := by
  refine ⟨rfl, ⟨by decide, _, _, rfl, rfl⟩, by decide +kernel, rfl⟩

end Render

end Stencil
