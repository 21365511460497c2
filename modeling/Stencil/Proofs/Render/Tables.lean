import Stencil.Proofs.Render.Containment
import Stencil.Proofs.Render.Rounds
import Stencil.Proofs.Render.TableLayout

/-!
# Tables are laid out

Rendering a table visits its items one after another, until a break. The metadata of the table tells the row
and the column of each (`AtCell`), and what is put out is the layout of the texts of the cells.

* `VisitsCells`: the states in which the cells are rendered, and what they put out.
* `VisitsCells.run`: the text of the cells, laid out.
* `tables_are_laid_out`: every table.
-/

namespace Stencil

namespace Render

variable {σ : Settings}

/-! ## At a cell -/

/-- A table with a variable for its items is at the item with this place, of `length` items. -/
structure AtCell (id : Nat) (itemName : String) (length : Nat) (cols : Int) (place : Nat) (s : RenderState) :
    Prop where
  info : s.loops[id]? = some (.cell length cols place)
  nonempty : s.scopes ≠ []
  /-- The variable for the table is its metadata, unless the item has its name. -/
  current : itemName ≠ "tablerowloop" → innerBinding? s.scopes "tablerowloop" = some (.loop id)

section

variable {id length place : Nat} {itemName : String} {cols : Int} {s t : RenderState}

theorem AtCell.steady (h : AtCell id itemName length cols place s) (hst : Steady s t) :
    AtCell id itemName length cols place t where
  info := by
    rw [hst.loops id (Array.getElem?_eq_some_iff.mp h.info).1]
    exact h.info
  nonempty := by
    rw [← List.length_pos_iff, hst.depth, List.length_pos_iff]
    exact h.nonempty
  current := by
    rw [innerBinding?, hst.inner]
    exact h.current

/-- A scope that binds nothing hides nothing. -/
theorem AtCell.within (h : AtCell id itemName length cols place s) :
    AtCell id itemName length cols place (s.within []) where
  info := h.info
  nonempty := List.cons_ne_nil _ _
  current hname := by
    rw [RenderState.within, innerBinding?_cons h.nonempty]
    exact h.current hname

theorem AtCell.setLocal (h : AtCell id itemName length cols place s) (item : Value) :
    ∃ t, (setLocal itemName item).runFrom σ s = (.ok (), t) ∧ AtCell id itemName length cols place t := by
  have hnonempty : s.scopes.isEmpty = false := by simpa using h.nonempty
  refine ⟨{ s with scopes := putInnermost itemName item s.scopes }, ?_, h.info, ?_, fun hname => ?_⟩
  · rw [Render.setLocal, runFrom_modifyScopes, hnonempty, if_neg Bool.false_ne_true]
  · obtain ⟨top, below, hscopes⟩ := List.exists_cons_of_ne_nil h.nonempty
    rw [hscopes]
    exact List.cons_ne_nil _ _
  · rw [innerBinding?_putInnermost_of_ne hname.symm]
    exact h.current hname

theorem AtCell.advanced (h : AtCell id itemName length cols place s) :
    AtCell id itemName length cols (place + 1) (s.advanced id) where
  info := by
    rw [RenderState.advanced, Array.getElem?_modify, if_pos rfl, ← advance_cell]
    exact congrArg (Option.map LoopInfo.advance) h.info
  nonempty := h.nonempty
  current := h.current

/-- What the metadata of a table with columns answers at an item. -/
def cellAnswers (cols : Int) (place : Nat) : List (String × Value) :=
  [("row", .int (place / cols + 1)), ("col", .int (place % cols + 1)), ("index0", .int place),
    ("col_first", .bool (decide ((place : Int) % cols = 0))),
    ("col_last", .bool (decide (((place : Int) + 1) % cols = 0)))]

/-- The metadata gives these answers. -/
theorem answer?_cell (length : Nat) (hcols : 1 ≤ cols) {name : String} {v : Value}
    (h : (name, v) ∈ cellAnswers cols place) :
    (LoopInfo.cell length cols place).answer? name = some v ∧ unwrap v = v := by
  have hfirst : (columnOf cols place == 1) = decide ((place : Int) % cols = 0) := by
    rw [Bool.eq_iff_iff, beq_iff_eq, decide_eq_true_iff, columnOf_eq_one_iff hcols]
  have hlast : (columnOf cols place == cols) = decide (((place : Int) + 1) % cols = 0) := by
    rw [Bool.eq_iff_iff, beq_iff_eq, decide_eq_true_iff, columnOf_eq_iff hcols]
  have hrow : rowOf cols place = place / cols + 1 := if_pos hcols
  have hcolumn : columnOf cols place = place % cols + 1 := if_pos hcols
  have hall : ∀ answer ∈ cellAnswers cols place,
      (LoopInfo.cell length cols place).answer? answer.1 = some answer.2 ∧ unwrap answer.2 = answer.2 := by
    unfold cellAnswers
    rw [← hfirst, ← hlast, ← hrow, ← hcolumn]
    simp only [List.forall_mem_cons]
    exact ⟨⟨rfl, rfl⟩, ⟨rfl, rfl⟩, ⟨rfl, rfl⟩, ⟨rfl, rfl⟩, ⟨rfl, rfl⟩, nofun⟩
  exact hall _ h

/-- The variable for the table, with a path of one name. -/
def tableExpr (name : String) : Expr := .lookup (.value (.str "tablerowloop")) [.name name]

/-- At a cell the variable for the table gives the answers, unless the item has its name. -/
theorem AtCell.evaluate_tableExpr (h : AtCell id itemName length cols place s)
    (hname : itemName ≠ "tablerowloop") (hcols : 1 ≤ cols) {name : String} {v : Value}
    (hanswer : (name, v) ∈ cellAnswers cols place) :
    ∃ t, (tableExpr name).evaluate.runFrom σ s = (.ok v, t) := by
  obtain ⟨hfound, hv⟩ := answer?_cell length hcols hanswer
  have hfind : (find "tablerowloop").runFrom σ s = (.ok (.loop id), s.binding (.loop id)) :=
    find_innerBinding h.nonempty (h.current hname) rfl
  obtain ⟨t, hfollow⟩ := follow_name_loop (σ := σ) (s := s.binding (.loop id)) h.info hfound hv
  refine ⟨t, ?_⟩
  rw [tableExpr, Expr.evaluate, runFrom_bind, Expr.evaluate, runFrom_pure]
  dsimp only
  rw [findNamed, runFrom_bind, hfind]
  exact hfollow

end

/-! ## From cell to cell -/

/-- The cells of items are rendered one after another, until one of them breaks: the states in which their
bodies are rendered, with what they put out. -/
inductive VisitsCells (σ : Settings) (id : Nat) (itemName : String) (body : Body) :
    List Value → RenderState → List (RenderState × Rendered) → RenderState → Prop
  | done {s : RenderState} : VisitsCells σ id itemName body [] s [] s
  | breaks {item : Value} {rest : List Value} {s u t : RenderState} {r : Rendered}
    (hitem : (setLocal itemName item).runFrom σ s = (.ok (), u))
    (hbody : body.render.runFrom σ u = (.ok r, t)) (hsignal : r.signal = some .leave) :
    VisitsCells σ id itemName body (item :: rest) s [(u, r)] (t.advanced id)
  | goesOn {item : Value} {rest : List Value} {s u t v : RenderState} {r : Rendered}
    {visits : List (RenderState × Rendered)}
    (hitem : (setLocal itemName item).runFrom σ s = (.ok (), u))
    (hbody : body.render.runFrom σ u = (.ok r, t)) (hsignal : r.signal ≠ some .leave)
    (hrest : VisitsCells σ id itemName body rest (t.advanced id) visits v) :
    VisitsCells σ id itemName body (item :: rest) s ((u, r) :: visits) v

section

open Table

variable {id length place : Nat} {itemName : String} {cols : Int} {s t : RenderState} {body : Body}
  {items : List Value} {visits : List (RenderState × Rendered)}

theorem AtCell.next {u v : RenderState} {item : Value} {o : Outcome Rendered}
    (h : AtCell id itemName length cols place s)
    (hitem : (Render.setLocal itemName item).runFrom σ s = (.ok (), u))
    (hbody : body.render.runFrom σ u = (o, v)) :
    AtCell id itemName length cols place u ∧ AtCell id itemName length cols (place + 1) (v.advanced id) := by
  obtain ⟨u', hitem', hu⟩ := h.setLocal (σ := σ) item
  rw [hitem] at hitem'
  cases hitem'
  exact ⟨hu, (hu.steady (steady_body hbody)).advanced⟩

/-- The cells are visited, unless one of them ends the render with a fatal failure. -/
theorem AtCell.exists_visits (h : AtCell id itemName length cols place s) (hrethrow : σ.rethrow = false)
    (body : Body) (items : List Value) :
    (∃ visits t, VisitsCells σ id itemName body items s visits t) ∨
      ∃ e t, (renderCells id itemName body.render items).runFrom σ s = (.error e, t) ∧ e.isFatal = true := by
  induction items generalizing place s with
  | nil => exact .inl ⟨[], s, .done⟩
  | cons item rest ih =>
    obtain ⟨u, hitem, hu⟩ := h.setLocal (σ := σ) item
    cases hbody : body.render.runFrom σ u with
    | mk outcome v =>
      obtain ⟨-, hnext⟩ := h.next hitem hbody
      cases outcome with
      | error e =>
        refine .inr ⟨e, v, ?_, isFatal_of_body hrethrow hbody⟩
        rw [runFrom_renderCells_cons, hitem]
        dsimp only
        rw [hu.info]
        dsimp only
        rw [hbody]
      | ok r =>
        by_cases hsignal : r.signal = some .leave
        · exact .inl ⟨_, _, .breaks hitem hbody hsignal⟩
        · rcases ih hnext with ⟨visits, t, hvisits⟩ | ⟨e, t, hfails, hfatal⟩
          · exact .inl ⟨_, _, .goesOn hitem hbody hsignal hvisits⟩
          · refine .inr ⟨e, t, ?_, hfatal⟩
            rw [runFrom_renderCells_cons, hitem]
            dsimp only
            rw [hu.info]
            dsimp only
            rw [hbody]
            dsimp only [Render.goesOn]
            rw [if_neg hsignal, hfails]
            rfl

/-- What a cell puts out, and what is between it and the next one. -/
theorem cellText_cell (length : Nat) (cols : Int) (place : Nat) (text : String) :
    cellText (.cell length cols place) text =
      writeMarks (Cell.marks { column := columnOf cols place, text } ++
        if endsRow cols length place then [.closeRow, .openRow (rowOf cols place + 1)] else []) := by
  have hnumber : (rowOf cols place + 1 == 1) = false := by
    have hone := one_le_rowOf cols place
    rw [beq_eq_false_iff_ne]
    omega
  have hbetween : "</tr>\n<tr class=\"row" = "</tr>\n" ++ "<tr class=\"row" := rfl
  have hstart : cellStart (.cell length cols place) =
      "<td class=\"col" ++ toString (columnOf cols place) ++ "\">" := rfl
  have hbreak : rowBreak (.cell length cols place) = if endsRow cols length place then
      "</tr>\n<tr class=\"row" ++ toString (rowOf cols place + 1) ++ "\">" else "" := rfl
  rw [cellText, hstart, hbreak]
  cases endsRow cols length place with
  | true =>
    rw [if_pos rfl, if_pos rfl, hbetween]
    simp only [Cell.marks, List.cons_append, List.nil_append, writeMarks, Table.Mark.text, hnumber,
      Bool.false_eq_true, if_false, String.append_empty, String.append_assoc]
  | false => simp [writeMarks, Cell.marks, Table.Mark.text, String.append_assoc]

/-- **The cells put out the layout of their texts.** Induction on the cells that are visited, each of which is
one place behind the one in front of it. -/
theorem VisitsCells.run (h : VisitsCells σ id itemName body items s visits t)
    (hs : AtCell id itemName length cols place s) :
    (renderCells id itemName body.render items).runFrom σ s =
      (.ok (writeMarks (marksFrom (layOut cols length place (visits.map (·.2.text))))), t) := by
  induction h generalizing place with
  | done => rfl
  | breaks hitem hbody hsignal =>
    obtain ⟨hu, -⟩ := hs.next hitem hbody
    rw [List.map_singleton, marksFrom_layOut_cons, writeMarks_append, ← cellText_cell,
      runFrom_renderCells_cons, hitem]
    dsimp only
    rw [hu.info]
    dsimp only
    rw [hbody]
    dsimp only [Render.goesOn]
    rw [if_pos hsignal]
    exact congrArg (fun text => (Except.ok text, _)) String.append_empty.symm
  | goesOn hitem hbody hsignal _ ih =>
    obtain ⟨hu, hnext⟩ := hs.next hitem hbody
    rw [List.map_cons, marksFrom_layOut_cons, writeMarks_append, ← cellText_cell, runFrom_renderCells_cons,
      hitem]
    dsimp only
    rw [hu.info]
    dsimp only
    rw [hbody]
    dsimp only [Render.goesOn]
    rw [if_neg hsignal, ih hnext]
    rfl

/-- Every cell is rendered where the metadata tells its place. -/
theorem VisitsCells.atCell (h : VisitsCells σ id itemName body items s visits t)
    (hs : AtCell id itemName length cols place s) {i : Nat} {u : RenderState} {r : Rendered}
    (hvisit : visits[i]? = some (u, r)) : AtCell id itemName length cols (place + i) u := by
  induction h generalizing place i with
  | done => cases hvisit
  | breaks hitem hbody _ =>
    obtain ⟨hu, -⟩ := hs.next hitem hbody
    cases i with
    | zero =>
      cases hvisit
      exact hu
    | succ i => cases hvisit
  | goesOn hitem hbody _ _ ih =>
    obtain ⟨hu, hnext⟩ := hs.next hitem hbody
    cases i with
    | zero =>
      cases hvisit
      exact hu
    | succ i =>
      have hplace : place + (i + 1) = place + 1 + i := by omega
      rw [hplace]
      exact ih hnext hvisit

/-- The variable of a table is the item of its place. -/
theorem VisitsCells.item (h : VisitsCells σ id itemName body items s visits t)
    (hs : AtCell id itemName length cols place s) {i : Nat} {u : RenderState} {r : Rendered}
    (hvisit : visits[i]? = some (u, r)) : u.scopes.head?.bind (·.get? itemName) = items[i]? := by
  have hbound {item : Value} {s u : RenderState}
      (hitem : (setLocal itemName item).runFrom σ s = (.ok (), u)) :
      u.scopes.head?.bind (·.get? itemName) = some item := by
    rw [setLocal, runFrom_modifyScopes] at hitem
    split at hitem
    · cases hitem
    · next hnonempty =>
      cases hitem
      obtain ⟨top, below, hscopes⟩ := List.exists_cons_of_ne_nil (by simpa using hnonempty : s.scopes ≠ [])
      rw [hscopes]
      exact Named.get?_put_self top itemName item
  induction h generalizing place i with
  | done => cases hvisit
  | breaks hitem _ _ =>
    cases i with
    | zero =>
      cases hvisit
      exact hbound hitem
    | succ i => cases hvisit
  | goesOn hitem hbody _ _ ih =>
    cases i with
    | zero =>
      cases hvisit
      exact hbound hitem
    | succ i => exact ih (hs.next hitem hbody).2 hvisit

/-- What a cell puts out is what its body does. -/
theorem VisitsCells.exists_run (h : VisitsCells σ id itemName body items s visits t) {u : RenderState}
    {r : Rendered} (hvisit : (u, r) ∈ visits) : ∃ v, body.render.runFrom σ u = (.ok r, v) := by
  induction h with
  | done => cases hvisit
  | breaks _ hbody _ =>
    cases List.mem_singleton.mp hvisit
    exact ⟨_, hbody⟩
  | goesOn _ hbody _ _ ih =>
    rcases List.mem_cons.mp hvisit with hfirst | hlater
    · cases hfirst
      exact ⟨_, hbody⟩
    · exact ih hlater

theorem VisitsCells.length_le (h : VisitsCells σ id itemName body items s visits t) :
    visits.length ≤ items.length := by
  induction h with
  | done => exact Nat.le_refl 0
  | breaks => exact Nat.succ_le_succ (Nat.zero_le _)
  | goesOn _ _ _ _ ih => exact Nat.succ_le_succ ih

/-- Without a break all items are visited. -/
theorem VisitsCells.length_eq (h : VisitsCells σ id itemName body items s visits t)
    (hbreak : ∀ visit ∈ visits, visit.2.signal ≠ some .leave) : visits.length = items.length := by
  induction h with
  | done => rfl
  | breaks _ _ hsignal => exact absurd hsignal (hbreak _ List.mem_cons_self)
  | goesOn _ _ _ _ ih =>
    exact congrArg (· + 1) (ih fun visit hvisit => hbreak visit (List.mem_cons_of_mem _ hvisit))

end

/-- A table is opened at its first item, with the columns that its attribute tells. -/
theorem atCell_opened {header : TableHeader} {s t : RenderState} (hscopes : s.scopes ≠ []) {id : Nat}
    {items : List Value} (hopened : header.opened.runFrom σ s = (.ok (some (id, items)), t)) :
    ∃ cols u v, (bound (header.attributes.get? "cols")).runFrom σ u = (.ok cols, v) ∧
      AtCell id header.itemName items.length (cols.getD 0) 0 (t.within [("tablerowloop", .loop id)]) := by
  have hnonempty : t.scopes ≠ [] := by
    rw [← List.length_pos_iff, (steady_opened hopened).depth, List.length_pos_iff]
    exact hscopes
  unfold TableHeader.opened at hopened
  obtain ⟨collection, u, -, hopened⟩ := bind_eq_ok hopened
  split at hopened
  · cases hopened
  · cases hopened
  · -- the attributes for the slice come in front of the one for the columns
    obtain ⟨start, v, -, hopened⟩ := bind_eq_ok hopened
    obtain ⟨stop, w, -, hopened⟩ := bind_eq_ok hopened
    obtain ⟨cols, x, hcols, hopened⟩ := bind_eq_ok hopened
    cases hopened
    refine ⟨cols, w, x, hcols, ?_, List.cons_ne_nil _ _, fun _ => ?_⟩
    · rw [LoopInfo.cell, rowOf_zero, columnOf_zero]
      exact Array.getElem?_push_size
    · rw [RenderState.within, innerBinding?_cons hnonempty]
      rfl

end Render

open Render Table

/-- **Tables are laid out.** Where failures are recorded, a table over items, whatever its columns and its body
are, puts out the layout of the texts of the cells that it visits, unless it is aborted by a memory error, or
there are too many scopes already. These are the cells of all items, unless one breaks. In each cell the
variable of the table is its item, and its metadata tells the place, the row and the column, wherever in the
body it is asked; the name `tablerowloop` gives the metadata, unless the variable of the table has this
name. -/
theorem tables_are_laid_out (σ : Settings) (hrethrow : σ.rethrow = false) (s t : RenderState)
    (hscopes : s.scopes ≠ []) (tag : Tag) (header : TableHeader) (body : Body) (id : Nat) (items : List Value)
    (hopened : header.opened.runFrom σ s = (.ok (some (id, items)), t))
    (hmemory : ∀ e, ((Node.table tag header body).render.runFrom σ s).1 = .error e → e.isFatal = false) :
    (maxScopes < t.scopes.length ∧
      (Node.table tag header body).render.runFrom σ s = (.error (.template .nestingTooDeep), t)) ∨
    ∃ c u v visits w, (bound (header.attributes.get? "cols")).runFrom σ u = (.ok c, v) ∧
      VisitsCells σ id header.itemName body items (t.within [("tablerowloop", .loop id)]) visits w ∧
      let cols := c.getD 0
      let texts := visits.map (·.2.text)
      let rows := tableRows cols items.length texts
      (Node.table tag header body).render.runFrom σ s =
        (.ok { text := writeMarks (marksOf rows) }, w.leave) ∧
      LaidOut cols items.length texts rows ∧
      ((∀ visit ∈ visits, visit.2.signal ≠ some .leave) → texts.length = items.length) ∧
      ∀ (place : Nat) (x : RenderState) (r : Rendered), visits[place]? = some (x, r) →
        x.scopes.head?.bind (·.get? header.itemName) = items[place]? ∧
        (∃ y, body.render.runFrom σ x = (.ok r, y)) ∧
        ∀ y, Steady x y ∨ Steady (x.within []) y →
          y.loops[id]? = some (.cell items.length cols place) ∧
          (1 ≤ cols → ∀ name answer, (name, answer) ∈ cellAnswers cols place →
            (∃ z, (Expr.follow [.name name] (.loop id)).runFrom σ y = (.ok answer, z)) ∧
            (header.itemName ≠ "tablerowloop" →
              ∃ z, (tableExpr name).evaluate.runFrom σ y = (.ok answer, z))) := by
  by_cases hdeep : maxScopes < t.scopes.length
  · refine .inl ⟨hdeep, ?_⟩
    rw [render_table, TableHeader.runFrom_render_some hopened, runFrom_withScope, if_pos hdeep]
    rfl
  · right
    have hdepth := Nat.le_of_not_lt hdeep
    obtain ⟨c, u, v, hcols, hstart⟩ := atCell_opened hscopes hopened
    rcases hstart.exists_visits hrethrow body items with ⟨visits, w, hvisits⟩ | ⟨e, w, hfails, hfatal⟩
    · have hfit : (visits.map (·.2.text)).length ≤ items.length := by
        rw [List.length_map]
        exact hvisits.length_le
      refine ⟨c, u, v, visits, w, hcols, hvisits, ?_, laidOut_tableRows hfit _, fun hbreak => ?_,
        fun place x r hvisit => ⟨hvisits.item hstart hvisit, hvisits.exists_run (List.mem_of_getElem? hvisit),
          fun y hy => ?_⟩⟩
      · rw [render_table, TableHeader.runFrom_render_some hopened, runFrom_withScope_of_le hdepth,
          hvisits.run hstart, ← tableText_marksFrom]
        rfl
      · rw [List.length_map]
        exact hvisits.length_eq hbreak
      · have hx := hvisits.atCell hstart hvisit
        rw [Nat.zero_add] at hx
        have hcell := hy.elim hx.steady hx.within.steady
        refine ⟨hcell.info, fun hone name answer hanswer => ⟨?_, fun hname =>
          hcell.evaluate_tableExpr hname hone hanswer⟩⟩
        obtain ⟨hfound, hanswers⟩ := answer?_cell items.length hone hanswer
        exact follow_name_loop hcell.info hfound hanswers
    · rw [render_table, TableHeader.runFrom_render_some hopened, runFrom_withScope_of_le hdepth,
        hfails] at hmemory
      have hkept := hmemory e rfl
      rw [hfatal] at hkept
      cases hkept

/-- A table over three numbers, with two columns. -/
def threeCells : TableHeader where
  itemName := "i"
  collection := .range (.value (.int 1)) (.value (.int 3))
  attributes := [("cols", .value (.int 2))]

/-- Three cells with one text each are in two rows. -/
theorem tables_are_laid_out_threeCells :
    ∃ rows w, (Node.table ⟨"tablerow", "", none⟩ threeCells [.text "."]).render.runFrom {} {} =
        (.ok { text := writeMarks (marksOf rows) }, w) ∧
      LaidOut 2 3 [".", ".", "."] rows ∧ rows.length = 2 := by
  have hopened : threeCells.opened.runFrom {} {} = (.ok (some (0, [.int 1, .int 2, .int 3])), _) := rfl
  have hbody (s : RenderState) : (Body.render [.text "."]).runFrom {} s = (.ok { text := "." }, _) := rfl
  obtain ⟨hdeep, -⟩ | ⟨c, u, v, visits, w, hcols, -, hrender, hlaid, hall, hcells⟩ :=
    tables_are_laid_out {} rfl {} _ (List.cons_ne_nil _ _) ⟨"tablerow", "", none⟩ threeCells [.text "."] 0 _
      hopened (fun e he => by cases he)
  · exact absurd hdeep (by decide)
  · have hvisit : ∀ visit ∈ visits, visit.2 = { text := "." } := by
      intro visit hmem
      obtain ⟨place, hplace⟩ := List.mem_iff_getElem?.mp hmem
      obtain ⟨-, ⟨y, hrun⟩, -⟩ := hcells place visit.1 visit.2 hplace
      rw [hbody] at hrun
      exact (Except.ok.inj (Prod.mk.inj hrun).1).symm
    have hlength := hall fun visit hmem => by
      rw [hvisit visit hmem]
      decide
    have htexts : visits.map (·.2.text) = [".", ".", "."] := by
      refine List.eq_replicate_iff.mpr ⟨hlength, fun text htext => ?_⟩
      obtain ⟨visit, hmem, rfl⟩ := List.mem_map.mp htext
      rw [hvisit visit hmem]
    obtain rfl : c = some 2 := (Except.ok.inj (Prod.mk.inj hcols).1).symm
    rw [htexts] at hrender hlaid
    refine ⟨_, _, hrender, hlaid, ?_⟩
    exact Int.ofNat.inj (hlaid.full (by decide) rfl)

/-- A table whose own variable has the name of the variable for the table. -/
def hidingCells : TableHeader where
  itemName := "tablerowloop"
  collection := .range (.value (.int 1)) (.value (.int 2))
  attributes := [("cols", .value (.int 1))]

/-- There the variable is the item, which answers nothing. -/
theorem table_metadata_hidden_by_item :
    ¬ ∀ (σ : Settings) (s t w : RenderState) (header : TableHeader) (body : Body) (id : Nat)
        (items : List Value) (cols : Int) (visits : List (RenderState × Rendered)) (place : Nat)
        (x : RenderState) (r : Rendered) (name : String) (answer : Value),
      header.opened.runFrom σ s = (.ok (some (id, items)), t) →
      t.loops[id]? = some (.cell items.length cols 0) → 1 ≤ cols →
      VisitsCells σ id header.itemName body items (t.within [("tablerowloop", .loop id)]) visits w →
      visits[place]? = some (x, r) → (name, answer) ∈ cellAnswers cols place →
      ∃ y, (tableExpr name).evaluate.runFrom σ x = (.ok answer, y) := by
  intro hclaim
  have hopened : hidingCells.opened.runFrom {} {} = (.ok (some (0, [.int 1, .int 2])), _) := rfl
  obtain ⟨y, hanswer⟩ := hclaim {} {} _ _ hidingCells [] 0 _ 1 _ 0 _ _ "row" (.int 1) hopened rfl (by decide)
    (.goesOn rfl rfl (by decide) (.goesOn rfl rfl (by decide) .done)) rfl List.mem_cons_self
  cases congrArg Prod.fst hanswer

end Stencil
