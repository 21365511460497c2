import Stencil.Proofs.Render.Alike
import Stencil.Proofs.Render.Iterated
import Stencil.Proofs.Render.LoopsKept
import Stencil.Proofs.Render.Nesting

/-!
# Loop metadata matches the rounds of loops

A render is, wherever it gets, inside rounds of loops, one for every loop whose body it is rendering
(`Inside`). The metadata of these loops tells the rounds: how many items there are, the place of the
current one, and which loop is around (`Inside.inRounds`). What has been rendered before, in this render or in
earlier ones, and what is rendered in between makes no difference.

* `Steady`: what a state keeps of an earlier one while nodes are rendered and expressions evaluated.
* `InRounds`: the metadata, the running loops and the variable of a state tell the rounds.
* `loop_metadata_matches_rounds`: what the variable for the innermost loop, and those around, answer.
-/

namespace Stencil

namespace Render

variable {σ : Settings}

/-! ## Steady states -/

/-- The state `t` has the loops of `s`, with the same metadata, and its scopes but for the outermost one. -/
structure Steady (s t : RenderState) : Prop where
  size : s.loops.size ≤ t.loops.size
  loops : ∀ id < s.loops.size, t.loops[id]? = s.loops[id]?
  depth : t.scopes.length = s.scopes.length
  inner : t.scopes.dropLast = s.scopes.dropLast
  stack : t.registers.loopStack = s.registers.loopStack

theorem Steady.refl (s : RenderState) : Steady s s := ⟨Nat.le_refl _, fun _ _ => rfl, rfl, rfl, rfl⟩

theorem Steady.trans {s t u : RenderState} (hst : Steady s t) (htu : Steady t u) : Steady s u where
  size := Nat.le_trans hst.size htu.size
  loops id hid := (htu.loops id (Nat.lt_of_lt_of_le hid hst.size)).trans (hst.loops id hid)
  depth := htu.depth.trans hst.depth
  inner := htu.inner.trans hst.inner
  stack := htu.stack.trans hst.stack

section

variable {α : Type} {s t u : RenderState} {names : List String} {body : Body}

/-- A step that leaves the metadata of all loops and restores the stacks leaves a steady state. -/
theorem steady_of_keeps {x : Render α} {o : Outcome α} (hloops : ∀ n, Keeps (LoopsKept n) α x)
    (hrestored : Keeps (fun _ => Restored names) α x) (hrun : x.runFrom σ s = (o, t)) : Steady s t := by
  have hstacks := hrestored.of_run hrun
  obtain ⟨hsize, hsame⟩ := (hloops s.loops.size).of_run hrun (Nat.le_refl _)
  exact ⟨hsize, hsame, hstacks.depth, hstacks.inner, hstacks.loops⟩

theorem steady_body {o : Outcome Rendered} (hrun : body.render.runFrom σ s = (o, t)) : Steady s t :=
  steady_of_keeps (fun n => loopsKept_body n body) (restored_body body) hrun

theorem steady_itemsOf {header : LoopHeader} {o : Outcome (List Value)}
    (hrun : header.itemsOf.runFrom σ s = (o, t)) : Steady s t :=
  steady_of_keeps (fun n => (ownClosed_loopsKept n).itemsOf header) (keeps_itemsOf header) hrun

theorem steady_opened {header : TableHeader} {o : Outcome (Option (Nat × List Value))}
    (hrun : header.opened.runFrom σ s = (o, t)) : Steady s t :=
  steady_of_keeps (fun n => (ownClosed_loopsKept n).opened header) (keeps_opened header) hrun

theorem steady_guard {guard : Option Condition} {o : Outcome Bool}
    (hrun : (guardHolds guard).runFrom σ s = (o, t)) : Steady s t := by
  cases guard with
  | none =>
    cases hrun
    exact .refl s
  | some c =>
    exact steady_of_keeps (fun n => (evaluates_loopsKept n).condition c)
      ((evaluates_restored []).condition c) hrun

theorem steady_comparison {c : Comparison} {o : Outcome Bool} (hrun : c.holds.runFrom σ s = (o, t)) :
    Steady s t :=
  steady_of_keeps (fun n => (evaluates_loopsKept n).comparison c) ((evaluates_restored []).comparison c)
    hrun

theorem steady_alternatives {subject : Expr} {matched : Bool} {values : List Expr}
    {o : Outcome (Rendered × Bool)}
    (hrun : (renderAlternatives subject body.render matched values).runFrom σ s = (o, t)) : Steady s t :=
  steady_of_keeps
    (fun n => (sequenceClosed_loopsKept n).renderAlternatives subject (loopsKept_body n body) matched
      values fun _ _ => (evaluates_loopsKept n).comparison _)
    ((renderClosed_restored (Node.targetsOfBody body)).renderAlternatives subject (restored_body body)
      matched values) hrun

theorem steady_item {scope : Scope} {o : Outcome Rendered}
    (hrun : (withScope scope body.render).runFrom σ s = (o, t)) : Steady s t :=
  steady_of_keeps (fun n => loopsKept_withScope scope (loopsKept_body n body))
    ((renderClosed_restored (Node.targetsOfBody body)).withScope scope
      ((renderClosed_restored (Node.targetsOfBody body)).inner (restored_body body))) hrun

theorem reaches_first (σ : Settings) (s : RenderState) (node : Node) (after : List Node) :
    Reaches σ (node :: after) s "" node (s.scored (after.length + 1)) := ⟨[], after, rfl, rfl⟩

/-- The nodes in front of a node leave a steady state. -/
theorem Reaches.steady {front : String} {node : Node} (h : Reaches σ body s front node u) : Steady s u := by
  obtain ⟨before, after, rfl, hbefore⟩ := h
  have hscored : Steady s (s.scored (before ++ node :: after).length) :=
    ⟨Nat.le_refl _, fun _ _ => rfl, rfl, rfl, rfl⟩
  exact hscored.trans
    (steady_of_keeps (fun n => loopsKept_nodes n before) (restored_renderNodes before) hbefore)

/-! ### On the way to a body -/

theorem EntersBranch.steady {branches : List (Option Condition × Body)} {negated : Bool}
    (h : EntersBranch σ body u branches negated s) : Steady s u := by
  induction h with
  | taken hguard _ => exact steady_guard hguard
  | passed hguard _ _ ih => exact (steady_guard hguard).trans ih

theorem EntersAlternative.steady {subject : Expr} {values : List Expr} {front : String}
    (h : EntersAlternative σ subject body u values s front) : Steady s u := by
  induction h with
  | found hholds => exact steady_comparison hholds
  | passed hholds _ ih => exact (steady_comparison hholds).trans ih
  | again hholds hbody _ _ ih => exact ((steady_comparison hholds).trans (steady_body hbody)).trans ih

theorem EntersClause.steady {subject : Expr} {clauses : List (Option (List Expr) × Body)} {matched : Bool}
    {front : String} (h : EntersClause σ subject body u clauses matched s front) : Steady s u := by
  induction h with
  | found h => exact h.steady
  | later hother _ _ ih => exact (steady_alternatives hother).trans ih
  | otherwise => exact .refl _
  | skipped _ ih => exact ih

theorem EntersTurn.steady {n : Nat} (h : EntersTurn σ body u n s) : Steady s u := by
  induction h with
  | now => exact .refl _
  | later hbody _ ih => exact (steady_body hbody).trans ih

/-- A tag renders a body in its own state, or in a scope of its own. -/
theorem Enters.steady {node : Node} {front : String} (h : Enters σ node s front body u) :
    Steady s u ∨ ∃ t, Steady s t ∧ Steady (t.within []) u := by
  cases h with
  | branch _ h => exact .inr ⟨s, .refl s, h.steady⟩
  | clause _ h => exact .inr ⟨s, .refl s, h.steady⟩
  | otherwise hitems _ => exact .inr ⟨_, steady_itemsOf hitems, .refl _⟩
  | capture | wrap => exact .inl (.refl s)
  | changed _ => exact .inr ⟨s, .refl s, .refl _⟩

end

/-! ## Rounds -/

/-- A round of a loop: the number of the loop, how many items it goes through, and the place of the current
one, counted from zero. -/
structure Round where
  id : Nat
  length : Nat
  place : Nat

/-- The metadata of the loops tells their rounds, innermost first: the length, the place, and the loop
around. -/
def Known (loops : Loops) : List Round → Prop
  | [] => True
  | r :: outer => (∃ name,
      loops[r.id]? = some (.items name r.length r.place (outer.head?.map (·.id)))) ∧ Known loops outer

/-- What the scopes but for the outermost one bind a name to. -/
def innerBinding? (scopes : List Scope) (name : String) : Option Value :=
  scopes.dropLast.findSome? (·.get? name)

/-- The state is inside these rounds of loops: their metadata tells them, and they are the running loops. -/
structure Located (rounds : List Round) (s : RenderState) : Prop where
  known : Known s.loops rounds
  stack : s.registers.loopStack = rounds.map (·.id)
  nonempty : s.scopes ≠ []

/-- The variable for the innermost loop is its metadata, unless one of the names hides it. -/
structure InRounds (names : List String) (rounds : List Round) (s : RenderState) : Prop
    extends Located rounds s where
  current : "forloop" ∉ names → ∀ r ∈ rounds.head?,
    innerBinding? s.scopes "forloop" = some (.loop r.id)

section

variable {names : List String} {rounds : List Round} {r : Round} {s t : RenderState} {loops loops' : Loops}

theorem Known.lt_size (h : Known loops rounds) (hr : r ∈ rounds) : r.id < loops.size := by
  induction rounds with
  | nil => cases hr
  | cons first outer ih =>
    obtain ⟨⟨name, hinfo⟩, houter⟩ := h
    rcases List.mem_cons.mp hr with rfl | hr
    · exact (Array.getElem?_eq_some_iff.mp hinfo).1
    · exact ih houter hr

theorem Known.congr (h : Known loops rounds) (hsame : ∀ r ∈ rounds, loops'[r.id]? = loops[r.id]?) :
    Known loops' rounds := by
  induction rounds with
  | nil => trivial
  | cons first outer ih =>
    obtain ⟨hfirst, hsame⟩ := List.forall_mem_cons.mp hsame
    exact ⟨by rw [hfirst]; exact h.1, ih h.2 hsame⟩

theorem Known.drop (h : Known loops rounds) (j : Nat) : Known loops (rounds.drop j) := by
  induction j generalizing rounds with
  | zero => exact h
  | succ j ih =>
    cases rounds with
    | nil => trivial
    | cons first outer => exact ih h.2

theorem Located.steady (h : Located rounds s) (hst : Steady s t) : Located rounds t where
  known := h.known.congr fun r hr => hst.loops r.id (h.known.lt_size hr)
  stack := hst.stack.trans h.stack
  nonempty := by
    rw [← List.length_pos_iff, hst.depth, List.length_pos_iff]
    exact h.nonempty

theorem InRounds.steady (h : InRounds names rounds s) (hst : Steady s t) : InRounds names rounds t where
  toLocated := h.toLocated.steady hst
  current := by
    unfold innerBinding?
    rw [hst.inner]
    exact h.current

theorem innerBinding?_cons {scope : Scope} {scopes : List Scope} (hne : scopes ≠ []) (name : String) :
    innerBinding? (scope :: scopes) name = (scope.get? name).or (innerBinding? scopes name) := by
  rw [innerBinding?, List.dropLast_cons_of_ne_nil hne, List.findSome?_cons]
  cases scope.get? name <;> rfl

/-- Binding a name in the innermost scope makes no difference to others. -/
theorem innerBinding?_putInnermost_of_ne {name other : String} (hne : other ≠ name) (v : Value)
    (scopes : List Scope) :
    innerBinding? (putInnermost name v scopes) other = innerBinding? scopes other := by
  rcases scopes with _ | ⟨scope, _ | ⟨next, rest⟩⟩
  · rfl
  · rfl
  · rw [putInnermost, innerBinding?_cons (List.cons_ne_nil _ _), innerBinding?_cons (List.cons_ne_nil _ _),
      Named.get?_put_of_ne scope hne]

/-- Names are looked up in the inner scopes, then in the outermost one, and then in the data. -/
theorem findSome?_layers {scopes : List Scope} (hne : scopes ≠ []) (data : List Scope) (name : String) :
    (scopes ++ data).findSome? (·.get? name) =
      (innerBinding? scopes name).or
        ((outermost? scopes name).or (data.findSome? (·.get? name))) := by
  obtain ⟨inner, outermost, rfl⟩ : ∃ inner outermost, scopes = inner ++ [outermost] :=
    ⟨_, _, (List.dropLast_concat_getLast hne).symm⟩
  have hlast : outermost? (inner ++ [outermost]) name = outermost.get? name := by
    rw [outermost?, List.getLast?_concat, Option.bind_some]
  rw [innerBinding?, hlast, List.dropLast_concat, List.append_assoc, List.findSome?_append,
    List.singleton_append, List.findSome?_cons]
  cases outermost.get? name <;> rfl

theorem Located.within (h : Located rounds s) (scope : Scope) : Located rounds (s.within scope) :=
  ⟨h.known, h.stack, List.cons_ne_nil _ _⟩

/-- A scope that does not bind the variable hides nothing. -/
theorem InRounds.within (h : InRounds names rounds s) {scope : Scope}
    (hscope : scope.get? "forloop" = none) : InRounds names rounds (s.within scope) where
  toLocated := h.toLocated.within scope
  current := by
    rw [RenderState.within, innerBinding?_cons h.nonempty, hscope]
    exact h.current

/-- Moving on the metadata of another loop makes no difference. -/
theorem Located.advanced (h : Located rounds s) {id : Nat} (hid : ∀ r ∈ rounds, r.id ≠ id) :
    Located rounds (s.advanced id) where
  known := h.known.congr fun r hr => by
    rw [RenderState.advanced, Array.getElem?_modify, if_neg (hid r hr).symm]
  stack := h.stack
  nonempty := h.nonempty

theorem InRounds.advanced (h : InRounds names rounds s) {id : Nat} (hid : ∀ r ∈ rounds, r.id ≠ id) :
    InRounds names rounds (s.advanced id) where
  toLocated := h.toLocated.advanced hid
  current := h.current

/-! ### Loops -/

variable {header : LoopHeader} {items rest : List Value} {id length place : Nat} {itemName : String}
  {body : Body} {u : RenderState} {front : String}

/-- A loop starts with the round of its first item. -/
theorem located_startItems (h : Located rounds s) (header : LoopHeader) (items : List Value) :
    Located (⟨s.loops.size, items.length, 0⟩ :: rounds) (startItems header items s) where
  known := by
    refine ⟨⟨header.name, ?_⟩, h.known.congr fun r hr => ?_⟩
    · rw [← List.head?_map, ← h.stack]
      exact Array.getElem?_push_size
    · have hlt := h.known.lt_size hr
      exact (Array.getElem?_push_lt hlt).trans (Array.getElem?_eq_getElem hlt).symm
  stack := congrArg (s.loops.size :: ·) h.stack
  nonempty := h.nonempty

/-- Behind an item comes the round of the next one. -/
theorem located_advanced_self (h : Located (⟨id, length, place⟩ :: rounds) s)
    (hid : ∀ r ∈ rounds, r.id ≠ id) :
    Located (⟨id, length, place + 1⟩ :: rounds) (s.advanced id) where
  known := by
    obtain ⟨⟨name, hinfo⟩, houter⟩ := h.known
    refine ⟨⟨name, ?_⟩, houter.congr fun r hr => ?_⟩
    · rw [RenderState.advanced, Array.getElem?_modify, if_pos rfl]
      exact (congrArg (Option.map LoopInfo.advance) hinfo).trans rfl
    · rw [RenderState.advanced, Array.getElem?_modify, if_neg (hid r hr).symm]
  stack := h.stack
  nonempty := h.nonempty

/-- In the scope of an item the variable is the metadata of its loop, unless the item has its name. -/
theorem inRounds_itemScope (h : Located (r :: rounds) s) (itemName : String) (item : Value) :
    InRounds [itemName] (r :: rounds) (s.within (itemScope r.id itemName item)) where
  toLocated := h.within _
  current hname r' hr' := by
    obtain rfl : r = r' := Option.some.inj hr'
    have hne : "forloop" ≠ itemName := fun heq => hname (List.mem_singleton.mpr heq)
    rw [RenderState.within, innerBinding?_cons h.nonempty, itemScope, Named.get?_put_of_ne _ hne]
    rfl

/-- **The body of a loop is rendered in the round of its item.** Induction on the items in front, each of
which moves the metadata on by one. -/
theorem EntersItem.inRounds (h : EntersItem σ id itemName body u items s front rest)
    (hs : Located (⟨id, length, place⟩ :: rounds) s) (hid : ∀ r ∈ rounds, r.id ≠ id) :
    InRounds [itemName] (⟨id, length, place + (items.length - rest.length - 1)⟩ :: rounds) u ∧
      rest.length < items.length := by
  induction h generalizing place with
  | @now item rest s _ hu =>
    have hplace : place + ((item :: rest).length - rest.length - 1) = place := by simp
    rw [hu, hplace]
    exact ⟨inRounds_itemScope hs itemName item, by simp⟩
  | @later item items rest s t r front hitem _ _ ih =>
    obtain ⟨hnext, hlt⟩ := ih (located_advanced_self (hs.steady (steady_item hitem)) hid)
    have hplace : place + 1 + (items.length - rest.length - 1) =
        place + ((item :: items).length - rest.length - 1) := by
      rw [List.length_cons]
      omega
    rw [hplace] at hnext
    exact ⟨hnext, by simp; omega⟩

/-! ### Tables -/

/-- Evaluating adds no loops, and takes none away. -/
theorem size_le_of_evaluates {α : Type} {x : Render α} (hx : ∀ n, Keeps (LoopsKept n) α x) {o : Outcome α}
    (hrun : x.runFrom σ s = (o, t)) : s.loops.size ≤ t.loops.size :=
  ((hx s.loops.size).of_run hrun (Nat.le_refl _)).1

/-- The metadata of a table comes behind that of all loops there were before. -/
theorem size_le_of_opened {header : TableHeader}
    (hrun : header.opened.runFrom σ s = (.ok (some (id, items)), t)) : s.loops.size ≤ id := by
  have hbound (e : Option Expr) (n : Nat) : Keeps (LoopsKept n) (Option Int) (bound e) :=
    (evaluates_loopsKept n).bound e
  unfold TableHeader.opened at hrun
  obtain ⟨collection, u, hcollection, hrun⟩ := bind_eq_ok hrun
  refine Nat.le_trans (size_le_of_evaluates (fun n => (evaluates_loopsKept n).evaluate _) hcollection) ?_
  split at hrun
  · cases hrun
  · cases hrun
  · obtain ⟨start, v, hstart, hrun⟩ := bind_eq_ok hrun
    obtain ⟨stop, w, hstop, hrun⟩ := bind_eq_ok hrun
    obtain ⟨cols, x, hcols, hrun⟩ := bind_eq_ok hrun
    cases hrun
    exact Nat.le_trans (size_le_of_evaluates (hbound _) hstart) (Nat.le_trans
      (size_le_of_evaluates (hbound _) hstop) (size_le_of_evaluates (hbound _) hcols))

/-- Binding a variable in the innermost scope hides what has its name. -/
theorem inRounds_setLocal (h : InRounds (itemName :: names) rounds s) {v : Value}
    (hrun : (setLocal itemName v).runFrom σ s = (.ok (), t)) : InRounds (itemName :: names) rounds t := by
  rw [setLocal, runFrom_modifyScopes] at hrun
  split at hrun
  · cases hrun
  · obtain ⟨-, rfl⟩ := Prod.mk.inj hrun
    refine ⟨⟨h.known, h.stack, ?_⟩, fun hname r hr => ?_⟩
    · obtain ⟨top, below, hscopes⟩ := List.exists_cons_of_ne_nil h.nonempty
      rw [hscopes]
      exact List.cons_ne_nil _ _
    · have hne : "forloop" ≠ itemName := fun heq => hname (heq ▸ List.mem_cons_self)
      rw [innerBinding?_putInnermost_of_ne hne]
      exact h.current hname r hr

/-- The cells of a table are rendered in the rounds of the loops around. -/
theorem EntersCell.inRounds {info : LoopInfo} (h : EntersCell σ id itemName body u info items s front rest)
    (hs : InRounds (itemName :: names) rounds s) (hid : ∀ r ∈ rounds, r.id ≠ id) :
    InRounds (itemName :: names) rounds u := by
  induction h with
  | now hitem _ => exact inRounds_setLocal hs hitem
  | later hitem _ hbody _ _ ih =>
    exact ih (((inRounds_setLocal hs hitem).steady (steady_body hbody)).advanced hid)

end

/-! ## Points of a render -/

/-- Rendering the body `root` from `start`, the body is rendered from the state, inside the rounds of loops,
innermost first. The names are those of the variables of the innermost loop and of the tables in it. -/
inductive Inside (σ : Settings) (root : Body) (start : RenderState) :
    List String → List Round → Body → RenderState → Prop
  | root : Inside σ root start [] [] root start
  | tag {names : List String} {rounds : List Round} {body inner : Body} {s u v : RenderState} {tag : Node}
    {before front : String} (h : Inside σ root start names rounds body s)
    (hreaches : Reaches σ body s before tag u) (henters : Enters σ tag u front inner v) :
    Inside σ root start names rounds inner v
  | turn {names : List String} {rounds : List Round} {body inner : Body} {s u v : RenderState} {tag : Tag}
    {n : Nat} {before : String} (h : Inside σ root start names rounds body s)
    (hreaches : Reaches σ body s before (.block tag (.repeated n) inner) u)
    (hturn : EntersTurn σ inner v n u) : Inside σ root start names rounds inner v
  | item {names : List String} {rounds : List Round} {body inner : Body} {s u t v : RenderState} {tag : Tag}
    {header : LoopHeader} {otherwise : Option Body} {before front : String} {passed rest : List Value}
    {item : Value} (h : Inside σ root start names rounds body s)
    (hreaches : Reaches σ body s before (.loop tag header inner otherwise) u)
    (hitems : header.itemsOf.runFrom σ u = (.ok (passed ++ item :: rest), t))
    (hitem : EntersItem σ t.loops.size header.itemName inner v (passed ++ item :: rest)
      (startItems header (passed ++ item :: rest) t) front rest) :
    Inside σ root start [header.itemName]
      (⟨t.loops.size, (passed ++ item :: rest).length, passed.length⟩ :: rounds) inner v
  | cell {names : List String} {rounds : List Round} {body inner : Body} {s u t v : RenderState} {tag : Tag}
    {header : TableHeader} {before front : String} {id : Nat} {items rest : List Value} {info : LoopInfo}
    (h : Inside σ root start names rounds body s)
    (hreaches : Reaches σ body s before (.table tag header inner) u)
    (hopened : header.opened.runFrom σ u = (.ok (some (id, items)), t))
    (hcell : EntersCell σ id header.itemName inner v info items (t.within [("tablerowloop", .loop id)]) front
      rest) : Inside σ root start (header.itemName :: names) rounds inner v

section

variable {root body inner : Body} {start s u v : RenderState} {node : Node} {names : List String}
  {rounds : List Round} {id k : Nat} {itemName front : String} {items rest : List Value}

theorem EntersItem.exists_append (h : EntersItem σ id itemName body u items s front rest) :
    ∃ passed item, items = passed ++ item :: rest := by
  induction h with
  | now => exact ⟨[], _, rfl⟩
  | @later first items rest s t r front _ _ _ ih =>
    obtain ⟨passed, item, rfl⟩ := ih
    exact ⟨first :: passed, item, rfl⟩

/-- Every body that a tag renders is inside some rounds. -/
theorem Inside.renders (h : Inside σ root start names rounds body s)
    (hreaches : Reaches σ body s front node u) (hrenders : Renders σ node u inner v) :
    ∃ names rounds, Inside σ root start names rounds inner v := by
  rcases hrenders with ⟨_, henters⟩ | hiterates
  · exact ⟨_, _, h.tag hreaches henters⟩
  · cases hiterates with
    | item hitems hitem =>
      obtain ⟨passed, item, rfl⟩ := hitem.exists_append
      exact ⟨_, _, h.item hreaches hitems hitem⟩
    | cell hopened _ hcell => exact ⟨_, _, h.cell hreaches hopened hcell⟩
    | turn hturn => exact ⟨_, _, h.turn hreaches hturn⟩

/-- Wherever a render gets, it is inside some rounds. -/
theorem Inside.meets (h : Inside σ root start names rounds body s) (hmeets : Meets σ body s k node u) :
    ∃ names rounds inner t front, Inside σ root start names rounds inner t ∧
      Reaches σ inner t front node u := by
  induction hmeets generalizing names rounds with
  | here hreaches => exact ⟨_, _, _, _, _, h, hreaches⟩
  | inside hreaches hrenders _ ih =>
    obtain ⟨_, _, hinside⟩ := h.renders hreaches hrenders
    exact ih hinside

/-- **The metadata tells the rounds.** Induction on the way to the point: what is rendered in front of it, and
what a tag does before it renders its body, leaves a steady state. -/
theorem Inside.inRounds (h : Inside σ root start names rounds body s) (hstart : InRounds [] [] start) :
    InRounds names rounds s := by
  induction h with
  | root => exact hstart
  | tag _ hreaches henters ih =>
    have htag := ih.steady hreaches.steady
    -- the scope of a tag binds nothing of its own
    rcases henters.steady with hsteady | ⟨t, hsteady, hwithin⟩
    · exact htag.steady hsteady
    · exact ((htag.steady hsteady).within rfl).steady hwithin
  | turn _ hreaches hturn ih => exact (ih.steady hreaches.steady).steady hturn.steady
  | @item names rounds body inner s u t v tag header otherwise before front passed rest item _ hreaches
      hitems hitem ih =>
    have hloop := (ih.steady hreaches.steady).toLocated.steady (steady_itemsOf hitems)
    -- the number of a loop is new, so its rounds leave the metadata of the loops around alone
    have hround := (hitem.inRounds (located_startItems hloop header _)
      fun r hr => Nat.ne_of_lt (hloop.known.lt_size hr)).1
    have hplace : 0 + ((passed ++ item :: rest).length - rest.length - 1) = passed.length := by
      rw [List.length_append, List.length_cons]
      omega
    rwa [hplace] at hround
  | @cell names rounds body inner s u t v tag header before front id items rest info _ hreaches hopened
      hcell ih =>
    have htag := ih.steady hreaches.steady
    -- a table is no loop that the variable could stand for, and only its own variable can hide that
    have htable : InRounds names rounds (t.within [("tablerowloop", .loop id)]) :=
      (htag.steady (steady_opened hopened)).within rfl
    have hnew : ∀ r ∈ rounds, r.id ≠ id := fun r hr =>
      Nat.ne_of_lt (Nat.lt_of_lt_of_le (htag.known.lt_size hr) (size_le_of_opened hopened))
    exact hcell.inRounds ⟨htable.toLocated, fun hnames => htable.current fun hname =>
      hnames (List.mem_cons_of_mem _ hname)⟩ hnew

end

/-! ## Asking for the metadata -/

/-- What the metadata of a loop answers in a round, inside a round of the loop around it. -/
def Round.answers (r : Round) (around : Option Round) : List (String × Value) :=
  [("index0", .int r.place), ("index", .int (r.place + 1)), ("rindex", .int (r.length - r.place)),
    ("rindex0", .int (r.length - r.place - 1)), ("length", .int r.length),
    ("first", .bool (decide (r.place = 0))), ("last", .bool (decide (r.place + 1 = r.length))),
    ("parentloop", ((around.map (·.id)).map Value.loop).getD .nil)]

/-- The path from the metadata of a loop over a number of loops around it to an answer. -/
def loopPath (j : Nat) (name : String) : List Step :=
  List.replicate j (.name "parentloop") ++ [.name name]

/-- The variable for the innermost loop with such a path, such as `forloop.parentloop.index`. -/
def loopExpr (j : Nat) (name : String) : Expr := .lookup (.value (.str "forloop")) (loopPath j name)

section

variable {r : Round} {rounds : List Round} {around : Option Round} {names : List String} {s : RenderState}
  {id j : Nat} {info : LoopInfo} {name : String} {v : Value}

/-- The metadata gives the answers of its round. -/
theorem answer?_of_mem_answers (h : (name, v) ∈ r.answers around) (loopName : String) :
    (LoopInfo.items loopName r.length r.place (around.map (·.id))).answer? name = some v := by
  have hfirst : ((r.place : Int) == 0) = decide (r.place = 0) := by
    rw [Bool.eq_iff_iff, beq_iff_eq, decide_eq_true_iff]
    omega
  have hlast : ((r.place : Int) == (r.length : Int) - 1) = decide (r.place + 1 = r.length) := by
    rw [Bool.eq_iff_iff, beq_iff_eq, decide_eq_true_iff]
    omega
  have hall : ∀ answer ∈ r.answers around,
      (LoopInfo.items loopName r.length r.place (around.map (·.id))).answer? answer.1 = some answer.2 := by
    unfold Round.answers
    rw [← hfirst, ← hlast]
    simp only [List.forall_mem_cons]
    exact ⟨rfl, rfl, rfl, rfl, rfl, rfl, rfl, rfl, nofun⟩
  exact hall _ h

theorem unwrap_of_mem_answers (h : (name, v) ∈ r.answers around) : unwrap v = v := by
  have hall : ∀ answer ∈ r.answers around, unwrap answer.2 = answer.2 := by
    simp only [Round.answers, List.forall_mem_cons]
    refine ⟨rfl, rfl, rfl, rfl, rfl, rfl, rfl, ?_, nofun⟩
    cases around <;> rfl
  exact hall _ h

/-- A step from the metadata of a loop leads to its answer, and leaves the metadata of all loops. -/
theorem step?_loop (hinfo : s.loops[id]? = some info) (hanswer : info.answer? name = some v)
    (hv : unwrap v = v) (command : Option String) :
    ∃ t, (step? (.loop id) (.str name) command).runFrom σ s = (.ok (some v), t) ∧ t.loops = s.loops := by
  have hresolve (t : RenderState) (ht : t.loops = s.loops) :
      (resolve (.loop id) (.str name)).runFrom σ t = (.ok v, t) := by
    rw [resolve, runFrom_bind, show loops.runFrom σ t = (.ok t.loops, t) from rfl]
    simp only [ht, hinfo, hanswer, runFrom_pure]
  refine ⟨(s.noteAsk .path (.loop id) (.str name)).binding v, ?_, by cases v <;> rfl⟩
  simp only [step?, key?, runFrom_bind, runFrom_ask, hresolve (s.noteAsk .path (.loop id) (.str name)) rfl,
    runFrom_pure, hv, runFrom_bindHost]

/-- So does a path of one name. -/
theorem follow_name_loop (hinfo : s.loops[id]? = some info) (hanswer : info.answer? name = some v)
    (hv : unwrap v = v) :
    ∃ t, (Expr.follow [.name name] (.loop id)).runFrom σ s = (.ok v, t) := by
  obtain ⟨t, hstep, -⟩ := step?_loop (σ := σ) hinfo hanswer hv (if isCommand name then some name else none)
  refine ⟨t, ?_⟩
  rw [Expr.follow, runFrom_bind, hstep]
  rfl

/-- A path over the loops around leads to the answers of their rounds. Induction on the loops it goes over. -/
theorem follow_loopPath (hknown : Known s.loops rounds) {inner : Round} (hinner : inner ∈ rounds.head?)
    (hr : rounds[j]? = some r) (h : (name, v) ∈ r.answers rounds[j + 1]?) :
    ∃ t, (Expr.follow (loopPath j name) (.loop inner.id)).runFrom σ s = (.ok v, t) := by
  induction j generalizing s rounds inner with
  | zero =>
    obtain ⟨first, outer, rfl⟩ : ∃ first outer, rounds = first :: outer := by
      cases rounds with
      | nil => cases hr
      | cons first outer => exact ⟨first, outer, rfl⟩
    obtain rfl : first = inner := Option.some.inj hinner
    obtain rfl : first = r := Option.some.inj hr
    obtain ⟨⟨loopName, hinfo⟩, -⟩ := hknown
    have haround : (first :: outer)[0 + 1]? = outer.head? := List.head?_eq_getElem?.symm
    rw [haround] at h
    exact follow_name_loop hinfo (answer?_of_mem_answers h loopName) (unwrap_of_mem_answers h)
  | succ j ih =>
    obtain ⟨first, second, outer, rfl⟩ : ∃ first second outer, rounds = first :: second :: outer := by
      rcases rounds with _ | ⟨first, _ | ⟨second, outer⟩⟩
      · cases hr
      · cases hr
      · exact ⟨first, second, outer, rfl⟩
    obtain rfl : first = inner := Option.some.inj hinner
    obtain ⟨⟨loopName, hinfo⟩, houter⟩ := hknown
    have hparent : (LoopInfo.items loopName first.length first.place (some second.id)).answer? "parentloop" =
        some (.loop second.id) := rfl
    obtain ⟨t, hstep, hloops⟩ := step?_loop (σ := σ) hinfo hparent rfl none
    -- asking a loop binds it to the render and changes no metadata, so the path goes on as from the parent
    rw [← hloops] at houter
    obtain ⟨w, hfollow⟩ := ih houter rfl hr h
    refine ⟨w, ?_⟩
    have hcommand : isCommand "parentloop" = false := rfl
    rw [loopPath, List.replicate_succ, List.cons_append, Expr.follow, hcommand, if_neg Bool.false_ne_true,
      runFrom_bind, hstep]
    exact hfollow

/-- The metadata of every loop around answers. -/
theorem follow_answer (hknown : Known s.loops rounds) (hr : rounds[j]? = some r)
    (h : (name, v) ∈ r.answers rounds[j + 1]?) :
    ∃ t, (Expr.follow [.name name] (.loop r.id)).runFrom σ s = (.ok v, t) := by
  have hhead : r ∈ (rounds.drop j).head? := List.head?_drop.trans hr
  refine follow_loopPath (j := 0) (hknown.drop j) hhead (List.head?_eq_getElem?.symm.trans hhead) ?_
  rwa [List.getElem?_drop]

/-- What a name is bound to by a scope around is found under it: assigned variables are in the outermost
scope and data behind it. -/
theorem find_innerBinding (hne : s.scopes ≠ []) (hbinding : innerBinding? s.scopes name = some v)
    (hv : v.isPlain) : (find name).runFrom σ s = (.ok v, s.binding v) := by
  refine runFrom_find_of_binding ?_ hv
  rw [findSome?_layers hne, hbinding]
  rfl

/-- The variable for the innermost loop is found, with the loops around it. -/
theorem evaluate_loopExpr (hs : InRounds names rounds s) (hname : "forloop" ∉ names)
    (hr : rounds[j]? = some r) (h : (name, v) ∈ r.answers rounds[j + 1]?) :
    ∃ t, (loopExpr j name).evaluate.runFrom σ s = (.ok v, t) := by
  obtain ⟨inner, hinner⟩ : ∃ inner, rounds.head? = some inner := by
    cases rounds with
    | nil => cases hr
    | cons first outer => exact ⟨first, rfl⟩
  have hfind : (find "forloop").runFrom σ s = (.ok (.loop inner.id), s.binding (.loop inner.id)) :=
    find_innerBinding hs.nonempty (hs.current hname inner hinner) rfl
  obtain ⟨t, hfollow⟩ := follow_loopPath (σ := σ) (s := s.binding (.loop inner.id)) hs.known hinner hr h
  refine ⟨t, ?_⟩
  rw [loopExpr, Expr.evaluate, runFrom_bind, Expr.evaluate, runFrom_pure]
  dsimp only
  rw [findNamed, runFrom_bind, hfind]
  exact hfollow

end

end Render

open Render

/-- **Loop metadata matches the rounds.** Renders of any templates share registers that are empty at first,
each may end in any way, and another render starts from what they left. Wherever it gets, it is inside some
rounds of loops, and the metadata of these loops answers as the rounds demand, with the loop around as the
parent, if there is one. The variable for the innermost loop gives its metadata, and over any number of parents
that of the loops around, unless the loop, or a table in it, names its own variable so. Evaluating expressions,
and rendering nodes, makes no difference, nor does another scope. -/
theorem loop_metadata_matches_rounds (renders : List SharedRender) (σ : Settings) (counts : Counts)
    (root : Body) :
    let start : RenderState := { registers := Registers.afterRenders {} renders, counts }
    (∀ k node u, Meets σ root start k node u → ∃ names rounds body s front,
      Inside σ root start names rounds body s ∧ Reaches σ body s front node u) ∧
    ∀ names rounds body s front node u,
      Inside σ root start names rounds body s → Reaches σ body s front node u →
      ∀ w, Steady u w ∨ Steady (u.within []) w →
        ∀ j r name v, rounds[j]? = some r → (name, v) ∈ r.answers rounds[j + 1]? →
          (∃ t, (Expr.follow [.name name] (.loop r.id)).runFrom σ w = (.ok v, t)) ∧
          ("forloop" ∉ names → ∃ t, (loopExpr j name).evaluate.runFrom σ w = (.ok v, t)) := by
  intro start
  have hstart : InRounds [] [] start :=
    ⟨⟨trivial, loopStack_afterRenders {} renders, List.cons_ne_nil _ _⟩, fun _ _ hr => nomatch hr⟩
  refine ⟨fun k node u hmeets => Inside.root.meets hmeets,
    fun names rounds body s front node u hinside hreaches w hw j r name v hr hanswer => ?_⟩
  have hnode : InRounds names rounds u := (hinside.inRounds hstart).steady hreaches.steady
  have hrounds : InRounds names rounds w := hw.elim hnode.steady (hnode.within rfl).steady
  exact ⟨follow_answer hrounds.known hr hanswer, fun hname => evaluate_loopExpr hrounds hname hr hanswer⟩

/-- A loop over the whole numbers up to some limit. -/
def countingLoop (itemName : String) (last : Int) (body : Body) : Node :=
  .loop ⟨"for", "", some 1⟩ {
      itemName
      name := itemName
      collection := .range (.value (.int 1)) (.value (.int last)) }
    body none

/-- Two rounds of three rounds each. -/
def gridBody : Body := [countingLoop "x" 2 [countingLoop "y" 3 [.text "."]]]

/-- In the second of three rounds, inside the second of two. -/
theorem loop_metadata_matches_rounds_gridBody :
    ∃ names rounds body s front node u, Inside {} gridBody {} names rounds body s ∧
      Reaches {} body s front node u ∧ rounds.map (fun r => (r.length, r.place)) = [(3, 1), (2, 1)] ∧
      (∃ t, (loopExpr 0 "rindex").evaluate.runFrom {} u = (.ok (.int 2), t)) ∧
      ∃ t, (loopExpr 1 "last").evaluate.runFrom {} u = (.ok (.bool true), t) := by
  have houter : Inside {} gridBody {} [] [] gridBody {} := .root
  have hinner := houter.item (reaches_first ..)
    (show _ = (Except.ok ([.int 1] ++ Value.int 2 :: []), _) from rfl)
    (.later rfl (by decide) (.now (by decide) rfl))
  have hpoint := hinner.item (reaches_first ..)
    (show _ = (Except.ok ([.int 1] ++ Value.int 2 :: [.int 3]), _) from rfl)
    (.later rfl (by decide) (.now (by decide) rfl))
  have hanswers := (loop_metadata_matches_rounds [] {} {} gridBody).2 _ _ _ _ _ _ _ hpoint
    (reaches_first _ _ (.text ".") []) _ (.inl (.refl _))
  refine ⟨_, _, _, _, _, _, _, hpoint, reaches_first _ _ (.text ".") [], rfl, ?_, ?_⟩
  · exact (hanswers 0 _ "rindex" _ rfl (List.mem_of_getElem? (i := 2) rfl)).2 (by decide)
  · exact (hanswers 1 _ "last" _ rfl (List.mem_of_getElem? (i := 6) rfl)).2 (by decide)

/-- A loop whose own variable has the name of the variable for the innermost loop. -/
def hidingBody : Body := [countingLoop "forloop" 2 [.text "."]]

/-- There the variable is the item, which answers nothing. -/
theorem loop_metadata_hidden_by_item :
    ¬ ∀ (renders : List SharedRender) (σ : Settings) (counts : Counts) (root : Body) names rounds body s
        front node u,
      Inside σ root { registers := Registers.afterRenders {} renders, counts } names rounds body s →
      Reaches σ body s front node u →
      ∀ j r name v, rounds[j]? = some r → (name, v) ∈ r.answers rounds[j + 1]? →
        ∃ t, (loopExpr j name).evaluate.runFrom σ u = (.ok v, t) := by
  intro hclaim
  have hroot : Inside {} hidingBody {} [] [] hidingBody {} := .root
  have hpoint := hroot.item (reaches_first ..)
    (show _ = (Except.ok ([] ++ Value.int 1 :: [.int 2]), _) from rfl) (.now (by decide) rfl)
  obtain ⟨t, hanswer⟩ := hclaim [] {} {} hidingBody _ _ _ _ _ _ _ hpoint (reaches_first ..) 0 _ "index0"
    (.int 0) rfl (List.mem_of_getElem? (i := 0) rfl)
  cases congrArg Prod.fst hanswer

end Stencil
