import Stencil.Proofs.Render.Entered

/-!
# Bodies that are rendered over and over

Loops, tables and repetitions render their body any number of times, and take its signals.

* `EntersItem`, `EntersCell`: the body is rendered from `u` for one of the items, when `front` has been
  put out and the items `rest` are still to come.
* `EntersItem.run`, `EntersCell.run`: a break ends the loop there, and in all other cases it goes on with
  `rest`.
* `Iterates σ node s body u`: rendering the tag from `s`, its body is rendered from `u` in one of the
  rounds. Whatever signal it gives, the tag gives none (`Iterates.signal_eq_none`).
-/

namespace Stencil

namespace Render

variable {σ : Settings}

theorem runFrom_advanceLoop (σ : Settings) (s : RenderState) (id : Nat) :
    (advanceLoop id).runFrom σ s = (.ok (), s.advanced id) := rfl

/-- How a loop ends when a text is put out before the rest of it. -/
def withText (text : String) (out : Outcome String × RenderState) : Outcome String × RenderState :=
  (out.1.map (text ++ ·), out.2)

theorem withText_withText (first second : String) (out : Outcome String × RenderState) :
    withText first (withText second out) = withText (first ++ second) out := by
  obtain ⟨outcome, t⟩ := out
  cases outcome with
  | error e => rfl
  | ok more => simp [withText, Except.map, String.append_assoc]

theorem runFrom_bind_text (σ : Settings) (s : RenderState) (text : String) (later : Render String) :
    (do return text ++ (← later) : Render String).runFrom σ s = withText text (later.runFrom σ s) := by
  rw [runFrom_bind]
  generalize later.runFrom σ s = out
  match out with
  | (.error e, t) => rfl
  | (.ok more, t) => rfl

/-! ## Loops -/

/-- What follows one round of a loop: nothing behind a break, and the other items otherwise. -/
def goesOn (r : Rendered) (text : String) (t : RenderState)
    (others : RenderState → Outcome String × RenderState) : Outcome String × RenderState :=
  if r.signal = some .leave then (.ok text, t) else withText text (others t)

theorem withText_goesOn (front text : String) (r : Rendered) (t : RenderState)
    (others : RenderState → Outcome String × RenderState) :
    withText front (goesOn r text t others) = goesOn r (front ++ text) t others := by
  unfold goesOn
  split
  · rfl
  · exact withText_withText ..

/-- Behind each round the loop is advanced, also behind the one with the break. -/
theorem runFrom_advanced (σ : Settings) (t : RenderState) (id : Nat) (r : Rendered) (text : String)
    (others : Render String) :
    (do
      advanceLoop id
      if r.signal == some .leave then return text
      return text ++ (← others) : Render String).runFrom σ t =
        goesOn r text (t.advanced id) (others.runFrom σ) := by
  rw [runFrom_bind, runFrom_advanceLoop, goesOn]
  dsimp only
  by_cases hleave : r.signal = some .leave
  · rw [if_pos hleave, if_pos (beq_iff_eq.mpr hleave)]
    rfl
  · rw [if_neg hleave, if_neg fun h => hleave (beq_iff_eq.mp h), runFrom_bind_text]

/-- The scope in which the body of a loop is rendered for an item. -/
def itemScope (id : Nat) (itemName : String) (item : Value) : Scope :=
  Named.put [("forloop", .loop id)] itemName item

theorem runFrom_renderItems_cons (σ : Settings) (s : RenderState) (id : Nat) (itemName : String)
    (body : Render Rendered) (item : Value) (rest : List Value) :
    (renderItems id itemName body (item :: rest)).runFrom σ s =
      match (withScope (itemScope id itemName item) body).runFrom σ s with
      | (.ok r, t) => goesOn r r.text (t.advanced id) ((renderItems id itemName body rest).runFrom σ)
      | (.error e, t) => (.error e, t) := by
  rw [renderItems, runFrom_bind, itemScope]
  generalize (withScope (Named.put [("forloop", .loop id)] itemName item) body).runFrom σ s = out
  match out with
  | (.error e, t) => rfl
  | (.ok r, t) => exact runFrom_advanced σ t id r r.text _

/-- An item that ends well was left with a break, or the others were rendered behind it. -/
theorem renderItems_cons_eq_ok {id : Nat} {itemName : String} {body : Render Rendered} {item : Value}
    {rest : List Value} {s t : RenderState} {text : String}
    (hrun : (renderItems id itemName body (item :: rest)).runFrom σ s = (.ok text, t)) :
    ∃ r u, (withScope (itemScope id itemName item) body).runFrom σ s = (.ok r, u) ∧
      (r.signal = some .leave ∧ text = r.text ∨
        r.signal ≠ some .leave ∧ ∃ more,
          (renderItems id itemName body rest).runFrom σ (u.advanced id) = (.ok more, t) ∧
          text = r.text ++ more) := by
  rw [renderItems] at hrun
  obtain ⟨r, u, hitem, hthen⟩ := bind_eq_ok hrun
  obtain ⟨_, v, hadvanced, hend⟩ := bind_eq_ok hthen
  cases hadvanced
  refine ⟨r, u, hitem, ?_⟩
  by_cases hleave : r.signal = some .leave
  · rw [if_pos (beq_iff_eq.mpr hleave)] at hend
    cases hend
    exact .inl ⟨hleave, rfl⟩
  · rw [if_neg fun h => hleave (beq_iff_eq.mp h)] at hend
    obtain ⟨more, v, hrest, hmore⟩ := bind_eq_ok hend
    cases hmore
    exact .inr ⟨hleave, more, hrest, rfl⟩

/-- Of the items, one has its body rendered from `u`, when `front` has been put out and the items `rest`
are still to come. -/
inductive EntersItem (σ : Settings) (id : Nat) (itemName : String) (body : Body) (u : RenderState) :
    List Value → RenderState → String → List Value → Prop
  | now {item : Value} {rest : List Value} {s : RenderState} (hdepth : s.scopes.length ≤ maxScopes)
    (hu : u = s.within (itemScope id itemName item)) :
    EntersItem σ id itemName body u (item :: rest) s "" rest
  | later {item : Value} {items rest : List Value} {s t : RenderState} {r : Rendered} {front : String}
    (hitem : (withScope (itemScope id itemName item) body.render).runFrom σ s = (.ok r, t))
    (hsignal : r.signal ≠ some .leave)
    (hrest : EntersItem σ id itemName body u items (t.advanced id) front rest) :
    EntersItem σ id itemName body u (item :: items) s (r.text ++ front) rest

section

variable {id : Nat} {itemName : String} {body : Body} {s u t : RenderState} {items rest : List Value}
  {front : String}

/-- **A break ends the loop behind the current item, and a continue goes on with the next one.** -/
theorem EntersItem.run (h : EntersItem σ id itemName body u items s front rest) {r : Rendered}
    (hbody : body.render.runFrom σ u = (.ok r, t)) :
    (renderItems id itemName body.render items).runFrom σ s =
      goesOn r (front ++ r.text) (t.leave.advanced id)
        ((renderItems id itemName body.render rest).runFrom σ) := by
  -- the items in front were not left with a break, so each of them goes on with the next one
  induction h with
  | now hdepth hu =>
    rw [runFrom_renderItems_cons, runFrom_withScope_of_le hdepth, ← hu, hbody, String.empty_append]
  | later hitem hsignal _ ih =>
    rw [runFrom_renderItems_cons, hitem, String.append_assoc, ← withText_goesOn, ← ih]
    exact if_neg hsignal

theorem EntersItem.run_of_error (h : EntersItem σ id itemName body u items s front rest) {e : Failure}
    (hbody : body.render.runFrom σ u = (.error e, t)) :
    (renderItems id itemName body.render items).runFrom σ s = (.error e, t.leave) := by
  induction h with
  | now hdepth hu => rw [runFrom_renderItems_cons, runFrom_withScope_of_le hdepth, ← hu, hbody]
  | later hitem hsignal _ ih =>
    rw [runFrom_renderItems_cons, hitem]
    dsimp only [goesOn]
    rw [if_neg hsignal, ih]
    rfl

theorem EntersItem.ne_nil (h : EntersItem σ id itemName body u items s front rest) : items ≠ [] := by
  cases h <;> exact List.cons_ne_nil _ _

end

/-- The state in which a loop starts to render its items. -/
def startItems (header : LoopHeader) (items : List Value) (s : RenderState) : RenderState :=
  (s.withInfo (.items header.name items.length 0 s.registers.loopStack.head?)).enterLoop s.loops.size

/-- Rendering the items takes the loop off again. -/
theorem runFrom_startItems (header : LoopHeader) (body : Render Rendered) (items : List Value)
    (t : RenderState) :
    (do
      let id ← addLoop (.items header.name items.length 0 (← innermostLoop))
      return { text := ← withLoop id (renderItems id header.itemName body items) } :
        Render Rendered).runFrom σ t =
      let out := (renderItems t.loops.size header.itemName body items).runFrom σ
        (startItems header items t)
      (out.1.map fun text => { text }, out.2.leaveLoop) := by
  rw [runFrom_bind, runFrom_innermostLoop]
  dsimp only
  rw [runFrom_bind, show (addLoop (.items header.name items.length 0
    t.registers.loopStack.head?)).runFrom σ t = (.ok t.loops.size, t.withInfo _) from rfl]
  dsimp only
  rw [runFrom_bind, runFrom_withLoop, startItems]
  generalize (renderItems t.loops.size header.itemName body items).runFrom σ _ = out
  obtain ⟨outcome, u⟩ := out
  cases outcome with
  | error e => rfl
  | ok text => rfl

/-- A loop with items puts out what its items do, and gives no signal. -/
theorem runFrom_render_items {header : LoopHeader} {body : Render Rendered}
    {otherwise : Option (Render Rendered)} {items : List Value} {s t : RenderState}
    (hitems : header.itemsOf.runFrom σ s = (.ok items, t)) (hsome : items ≠ []) :
    (header.render body otherwise).runFrom σ s =
      let out := (renderItems t.loops.size header.itemName body items).runFrom σ
        (startItems header items t)
      (out.1.map fun text => { text }, out.2.leaveLoop) := by
  have hfalse : ¬ items.isEmpty = true := by rwa [List.isEmpty_iff]
  unfold LoopHeader.render
  rw [runFrom_bind, hitems]
  dsimp only
  rw [if_neg hfalse]
  exact runFrom_startItems header body items t

/-- How a loop ends well: without items as what stands behind its else, if there is any, and otherwise
with the text of its items. -/
theorem loop_eq_ok {header : LoopHeader} {body : Render Rendered} {otherwise : Option (Render Rendered)}
    {s t : RenderState} {r : Rendered} (hrun : (header.render body otherwise).runFrom σ s = (.ok r, t)) :
    ∃ items u, header.itemsOf.runFrom σ s = (.ok items, u) ∧
      ((items = [] ∧ otherwise = none ∧ r = {}) ∨
        (items = [] ∧ ∃ step, otherwise = some step ∧
          (withScope [] step).runFrom σ u = (.ok r, t)) ∨
        (items ≠ [] ∧ ∃ text v, (renderItems u.loops.size header.itemName body items).runFrom σ
          (startItems header items u) = (.ok text, v) ∧ r = { text })) := by
  have hsteps := hrun
  unfold LoopHeader.render at hsteps
  obtain ⟨items, u, hitems, hthen⟩ := bind_eq_ok hsteps
  refine ⟨items, u, hitems, ?_⟩
  cases items with
  | nil =>
    rw [List.isEmpty_nil, if_pos rfl] at hthen
    cases otherwise with
    | none =>
      cases hthen
      exact .inl ⟨rfl, rfl, rfl⟩
    | some step => exact .inr (.inl ⟨rfl, step, rfl, hthen⟩)
  | cons item rest =>
    rw [runFrom_render_items hitems (List.cons_ne_nil _ _)] at hrun
    generalize (renderItems u.loops.size header.itemName body (item :: rest)).runFrom σ
      (startItems header (item :: rest) u) = out at hrun ⊢
    obtain ⟨outcome, v⟩ := out
    cases outcome with
    | error e => cases hrun
    | ok text =>
      cases hrun
      exact .inr (.inr ⟨List.cons_ne_nil _ _, text, v, rfl, rfl⟩)

/-! ## Tables -/

/-- The text of a cell of a table, with what is put between it and the next one. -/
def cellText (info : LoopInfo) (text : String) : String :=
  cellStart info ++ text ++ "</td>" ++ rowBreak info

theorem runFrom_renderCells_cons (σ : Settings) (s : RenderState) (id : Nat) (itemName : String)
    (body : Render Rendered) (item : Value) (rest : List Value) :
    (renderCells id itemName body (item :: rest)).runFrom σ s =
      match (setLocal itemName item).runFrom σ s with
      | (.ok _, t) =>
        match t.loops[id]? with
        | none => (.ok "", t)
        | some info =>
          match body.runFrom σ t with
          | (.ok r, t) => goesOn r (cellText info r.text) (t.advanced id)
            ((renderCells id itemName body rest).runFrom σ)
          | (.error e, t) => (.error e, t)
      | (.error e, t) => (.error e, t) := by
  rw [renderCells, runFrom_bind]
  generalize (setLocal itemName item).runFrom σ s = bound
  match bound with
  | (.error e, t) => rfl
  | (.ok _, t) =>
    dsimp only
    rw [runFrom_bind, show loops.runFrom σ t = (.ok t.loops, t) from rfl]
    dsimp only
    cases t.loops[id]? with
    | none => rfl
    | some info =>
      dsimp only
      rw [runFrom_bind]
      generalize body.runFrom σ t = out
      match out with
      | (.error e, t) => rfl
      | (.ok r, t) => exact runFrom_advanced σ t id r (cellText info r.text) _

/-- Of the items, one has the body of its cell, described by `info`, rendered from `u`, when `front` has
been put out and the items `rest` are still to come. -/
inductive EntersCell (σ : Settings) (id : Nat) (itemName : String) (body : Body) (u : RenderState)
    (info : LoopInfo) : List Value → RenderState → String → List Value → Prop
  | now {item : Value} {rest : List Value} {s : RenderState}
    (hitem : (setLocal itemName item).runFrom σ s = (.ok (), u)) (hinfo : u.loops[id]? = some info) :
    EntersCell σ id itemName body u info (item :: rest) s "" rest
  | later {item : Value} {items rest : List Value} {s t t' : RenderState} {other : LoopInfo}
    {r : Rendered} {front : String} (hitem : (setLocal itemName item).runFrom σ s = (.ok (), t))
    (hother : t.loops[id]? = some other) (hbody : body.render.runFrom σ t = (.ok r, t'))
    (hsignal : r.signal ≠ some .leave)
    (hrest : EntersCell σ id itemName body u info items (t'.advanced id) front rest) :
    EntersCell σ id itemName body u info (item :: items) s (cellText other r.text ++ front) rest

section

variable {id : Nat} {itemName : String} {body : Body} {s u t : RenderState} {info : LoopInfo}
  {items rest : List Value} {front : String}

/-- **A break ends the table behind the current cell, and a continue goes on with the next one.** -/
theorem EntersCell.run (h : EntersCell σ id itemName body u info items s front rest) {r : Rendered}
    (hbody : body.render.runFrom σ u = (.ok r, t)) :
    (renderCells id itemName body.render items).runFrom σ s =
      goesOn r (front ++ cellText info r.text) (t.advanced id)
        ((renderCells id itemName body.render rest).runFrom σ) := by
  induction h with
  | now hitem hinfo =>
    rw [runFrom_renderCells_cons, hitem]
    dsimp only
    rw [hinfo]
    dsimp only
    rw [hbody, String.empty_append]
  | later hitem hother hrun hsignal _ ih =>
    rw [runFrom_renderCells_cons, hitem]
    dsimp only
    rw [hother]
    dsimp only
    rw [hrun, String.append_assoc, ← withText_goesOn, ← ih]
    exact if_neg hsignal

theorem EntersCell.run_of_error (h : EntersCell σ id itemName body u info items s front rest)
    {e : Failure} (hbody : body.render.runFrom σ u = (.error e, t)) :
    (renderCells id itemName body.render items).runFrom σ s = (.error e, t) := by
  induction h with
  | now hitem hinfo =>
    rw [runFrom_renderCells_cons, hitem]
    dsimp only
    rw [hinfo]
    dsimp only
    rw [hbody]
  | later hitem hother hrun hsignal _ ih =>
    rw [runFrom_renderCells_cons, hitem]
    dsimp only
    rw [hother]
    dsimp only
    rw [hrun]
    dsimp only [goesOn]
    rw [if_neg hsignal, ih]
    rfl

end

end Render

namespace TableHeader

open Render

variable {σ : Settings} {header : TableHeader} {body : Render Rendered} {s t : RenderState}

/-- A table puts out what its cells do, between its own text, and gives no signal. -/
theorem runFrom_render_some {id : Nat} {items : List Value}
    (hopened : header.opened.runFrom σ s = (.ok (some (id, items)), t)) :
    (header.render body).runFrom σ s =
      let out := (withScope [("tablerowloop", .loop id)]
        (renderCells id header.itemName body items)).runFrom σ t
      (out.1.map fun cells => { text := tableText cells }, out.2) := by
  rw [render_eq, runFrom_bind, hopened]
  dsimp only
  rw [runFrom_bind]
  generalize (withScope [("tablerowloop", .loop id)]
    (renderCells id header.itemName body items)).runFrom σ t = out
  obtain ⟨outcome, u⟩ := out
  cases outcome with
  | error e => rfl
  | ok cells => rfl

/-- A table that ends well puts out nothing, or its own text around that of its cells. -/
theorem render_eq_ok {r : Rendered} (hrun : (header.render body).runFrom σ s = (.ok r, t)) :
    r = {} ∨ ∃ cells, r = { text := tableText cells } := by
  rw [render_eq] at hrun
  obtain ⟨opened, u, -, hthen⟩ := bind_eq_ok hrun
  cases opened with
  | none =>
    cases hthen
    exact .inl rfl
  | some pair =>
    obtain ⟨cells, v, -, hcells⟩ := bind_eq_ok hthen
    cases hcells
    exact .inr ⟨cells, rfl⟩

end TableHeader

namespace Render

variable {σ : Settings}

/-! ## Repetitions -/

theorem runFrom_renderRepeatedly_succ (σ : Settings) (s : RenderState) (body : Render Rendered)
    (n : Nat) :
    (renderRepeatedly body (n + 1)).runFrom σ s =
      match body.runFrom σ s with
      | (.ok r, t) => withText r.text ((renderRepeatedly body n).runFrom σ t)
      | (.error e, t) => (.error e, t) := by
  rw [renderRepeatedly, runFrom_bind]
  generalize body.runFrom σ s = out
  match out with
  | (.error e, t) => rfl
  | (.ok r, t) =>
    dsimp only
    rw [runFrom_bind_text]

/-- Of a number of turns, one has the body rendered from `u`. -/
inductive EntersTurn (σ : Settings) (body : Body) (u : RenderState) : Nat → RenderState → Prop
  | now {n : Nat} : EntersTurn σ body u (n + 1) u
  | later {n : Nat} {s t : RenderState} {r : Rendered} (hbody : body.render.runFrom σ s = (.ok r, t))
    (hrest : EntersTurn σ body u n t) : EntersTurn σ body u (n + 1) s

theorem EntersTurn.run_of_error {body : Body} {s u t : RenderState} {n : Nat}
    (h : EntersTurn σ body u n s) {e : Failure} (hbody : body.render.runFrom σ u = (.error e, t)) :
    (renderRepeatedly body.render n).runFrom σ s = (.error e, t) := by
  induction h with
  | now => rw [runFrom_renderRepeatedly_succ, hbody]
  | later hrun _ ih =>
    rw [runFrom_renderRepeatedly_succ, hrun]
    dsimp only
    rw [ih]
    rfl

theorem runFrom_render_repeated (σ : Settings) (s : RenderState) (n : Nat) (body : Render Rendered) :
    (BlockKind.render (.repeated n) body).runFrom σ s =
      let out := (renderRepeatedly body n).runFrom σ s
      (out.1.map fun text => { text }, out.2) := by
  rw [BlockKind.render, runFrom_bind]
  generalize (renderRepeatedly body n).runFrom σ s = out
  obtain ⟨outcome, u⟩ := out
  cases outcome with
  | error e => rfl
  | ok text => rfl

/-! ## Blocks that end well -/

section

variable {body : Render Rendered} {s t : RenderState} {r : Rendered}

theorem renderRepeatedly_succ_eq_ok {n : Nat} {text : String}
    (hrun : (renderRepeatedly body (n + 1)).runFrom σ s = (.ok text, t)) :
    ∃ first u more, body.runFrom σ s = (.ok first, u) ∧
      (renderRepeatedly body n).runFrom σ u = (.ok more, t) ∧ text = first.text ++ more := by
  rw [renderRepeatedly] at hrun
  obtain ⟨first, u, hbody, hthen⟩ := bind_eq_ok hrun
  obtain ⟨more, v, hrest, hmore⟩ := bind_eq_ok hthen
  cases hmore
  exact ⟨first, u, more, hbody, hrest, rfl⟩

theorem repeated_eq_ok {n : Nat} (hrun : (BlockKind.render (.repeated n) body).runFrom σ s = (.ok r, t)) :
    ∃ text, (renderRepeatedly body n).runFrom σ s = (.ok text, t) ∧ r = { text } := by
  rw [BlockKind.render] at hrun
  obtain ⟨text, u, hout, htext⟩ := bind_eq_ok hrun
  cases htext
  exact ⟨text, hout, rfl⟩

/-- A capture hands the signal of its body on, and puts nothing out. -/
theorem capture_eq_ok {target : String}
    (hrun : (BlockKind.render (.capture target) body).runFrom σ s = (.ok r, t)) :
    ∃ r' u, body.runFrom σ s = (.ok r', u) ∧ r = { r' with text := "" } := by
  rw [BlockKind.render] at hrun
  obtain ⟨r', u, hbody, hthen⟩ := bind_eq_ok hrun
  obtain ⟨_, v, -, hkept⟩ := bind_eq_ok hthen
  cases hkept
  exact ⟨r', u, hbody, rfl⟩

/-- A change hands the signal of its body on, and puts the text of its body out or nothing. -/
theorem changed_eq_ok (hrun : (BlockKind.render .changed body).runFrom σ s = (.ok r, t)) :
    s.scopes.length ≤ maxScopes ∧ ∃ r' u, body.runFrom σ (s.within []) = (.ok r', u) ∧
      (r = r' ∨ r = { r' with text := "" }) := by
  rw [BlockKind.render, renderChanged] at hrun
  obtain ⟨r', u, hscope, hthen⟩ := bind_eq_ok hrun
  obtain ⟨hdepth, v, hbody, -⟩ := withScope_eq_ok hscope
  refine ⟨hdepth, r', v, hbody, ?_⟩
  rw [runFrom_bind, runFrom_registers] at hthen
  dsimp only at hthen
  split at hthen
  · cases hthen
    exact .inr rfl
  · cases hthen
    exact .inl rfl

end

/-! ## Tags that take signals -/

/-- Rendering the tag from `s`, its body is rendered from `u` in one of the rounds, and the tag takes the
signals of the body. -/
inductive Iterates (σ : Settings) : Node → RenderState → Body → RenderState → Prop
  | item {tag : Tag} {header : LoopHeader} {body : Body} {otherwise : Option Body} {s t u : RenderState}
    {items rest : List Value} {front : String} (hitems : header.itemsOf.runFrom σ s = (.ok items, t))
    (h : EntersItem σ t.loops.size header.itemName body u items (startItems header items t) front rest) :
    Iterates σ (.loop tag header body otherwise) s body u
  | cell {tag : Tag} {header : TableHeader} {body : Body} {s t u : RenderState} {id : Nat}
    {items rest : List Value} {info : LoopInfo} {front : String}
    (hopened : header.opened.runFrom σ s = (.ok (some (id, items)), t))
    (hdepth : t.scopes.length ≤ maxScopes)
    (h : EntersCell σ id header.itemName body u info items (t.within [("tablerowloop", .loop id)])
      front rest) : Iterates σ (.table tag header body) s body u
  | turn {tag : Tag} {n : Nat} {body : Body} {s u : RenderState} (h : EntersTurn σ body u n s) :
    Iterates σ (.block tag (.repeated n) body) s body u

section

variable {node : Node} {body : Body} {s t u : RenderState}

theorem signal_eq_none_of_map {α : Type} {f : α → String} {outcome : Outcome α} {r : Rendered}
    (heq : (outcome.map (fun a => ({ text := f a } : Rendered)), u) = (.ok r, t)) : r.signal = none := by
  cases outcome with
  | error e => cases heq
  | ok a =>
    cases heq
    rfl

theorem Iterates.mem_bodies (h : Iterates σ node s body u) : body ∈ node.bodies := by
  cases h <;> exact List.mem_cons_self

/-- A tag whose body is rendered over and over gives no signal. -/
theorem Iterates.signal_eq_none (h : Iterates σ node s body u) {r : Rendered}
    (hrun : node.render.runFrom σ s = (.ok r, t)) : r.signal = none := by
  cases h with
  | item hitems h =>
    rw [render_loop, runFrom_render_items hitems h.ne_nil] at hrun
    exact signal_eq_none_of_map hrun
  | cell hopened _ _ =>
    rw [render_table, TableHeader.runFrom_render_some hopened] at hrun
    exact signal_eq_none_of_map hrun
  | turn _ =>
    rw [render_block, runFrom_render_repeated] at hrun
    exact signal_eq_none_of_map hrun

theorem Iterates.run_of_error (h : Iterates σ node s body u) {e : Failure}
    (hbody : body.render.runFrom σ u = (.error e, t)) :
    ∃ t', node.render.runFrom σ s = (.error e, t') := by
  cases h with
  | item hitems h =>
    rw [render_loop, runFrom_render_items hitems h.ne_nil, h.run_of_error hbody]
    exact ⟨_, rfl⟩
  | cell hopened hdepth h =>
    rw [render_table, TableHeader.runFrom_render_some hopened, runFrom_withScope_of_le hdepth,
      h.run_of_error hbody]
    exact ⟨_, rfl⟩
  | turn h =>
    rw [render_block, runFrom_render_repeated, h.run_of_error hbody]
    exact ⟨_, rfl⟩

end

end Render

end Stencil
