import Stencil.Proofs.Render.Composition
import Mathlib.Data.Int.Basic

/-!
# The layout of tables

A table puts its cells into rows. Here is what it puts out, as rows of cells, and where each cell stands,
given the number of columns, the number of items, and the texts of the cells that were visited, which are
fewer than the items when a cell breaks.

* `rowOf`, `columnOf`: the row and the column of an item, and `LoopInfo.cell`: the metadata there, which
  `advance` moves to the next item (`advance_cell`).
* `tableRows`: the rows, and `writeMarks (marksOf rows)`: what is put out for them.
* `nests_marksOf`: whatever the rows are, the tags of rows and cells are balanced and properly nested.
* `laidOut_tableRows`: the rows are numbered, the cells are in their rows, and all items fill as many rows as
  they need.
-/

namespace Stencil

/-! ## Rows and columns -/

/-- The row of an item; without columns there is one row. -/
def rowOf (cols : Int) (place : Nat) : Int := if 1 ≤ cols then place / cols + 1 else 1

/-- The column of an item in its row. -/
def columnOf (cols : Int) (place : Nat) : Int := if 1 ≤ cols then place % cols + 1 else place + 1

/-- The metadata of a table at an item. -/
def LoopInfo.cell (length : Nat) (cols : Int) (place : Nat) : LoopInfo :=
  .table length cols place (rowOf cols place) (columnOf cols place)

section

variable {cols : Int} {place : Nat}

theorem rowOf_zero (cols : Int) : rowOf cols 0 = 1 := by
  unfold rowOf
  split <;> simp

theorem columnOf_zero (cols : Int) : columnOf cols 0 = 1 := by
  unfold columnOf
  split <;> simp

theorem one_le_rowOf (cols : Int) (place : Nat) : 1 ≤ rowOf cols place := by
  unfold rowOf
  split
  · next hcols =>
    have hnonneg : 0 ≤ (place : Int) / cols := Int.ediv_nonneg (Int.natCast_nonneg _) (by omega)
    omega
  · exact Int.le_refl 1

/-- Without columns, no column is the last one. -/
theorem columnOf_ne_of_lt (hcols : cols < 1) (place : Nat) : columnOf cols place ≠ cols := by
  have hnone : ¬ 1 ≤ cols := by omega
  rw [columnOf, if_neg hnone]
  omega

/-- Behind the last column comes the first one of the next row. -/
theorem next_of_columnOf_eq (hlast : columnOf cols place = cols) :
    rowOf cols (place + 1) = rowOf cols place + 1 ∧ columnOf cols (place + 1) = 1 := by
  by_cases hcols : 1 ≤ cols
  · simp only [rowOf, columnOf, if_pos hcols] at hlast ⊢
    have hdiv := Int.emod_add_mul_ediv place cols
    obtain ⟨hquotient, hremainder⟩ :
        ((place + 1 : Nat) : Int) / cols = place / cols + 1 ∧ ((place + 1 : Nat) : Int) % cols = 0 := by
      refine (Int.ediv_emod_unique (by omega)).mpr ⟨?_, Int.le_refl 0, by omega⟩
      rw [Int.mul_add, Int.mul_one]
      omega
    exact ⟨by rw [hquotient], by rw [hremainder]; rfl⟩
  · exact absurd hlast (columnOf_ne_of_lt (by omega) place)

/-- Behind any other column comes the next one. -/
theorem next_of_columnOf_ne (hlast : columnOf cols place ≠ cols) :
    rowOf cols (place + 1) = rowOf cols place ∧
      columnOf cols (place + 1) = columnOf cols place + 1 := by
  by_cases hcols : 1 ≤ cols
  · simp only [rowOf, columnOf, if_pos hcols] at hlast ⊢
    have hdiv := Int.emod_add_mul_ediv place cols
    have hnonneg := Int.emod_nonneg (place : Int) (show cols ≠ 0 by omega)
    have hlt := Int.emod_lt_of_pos (place : Int) (show 0 < cols by omega)
    obtain ⟨hquotient, hremainder⟩ : ((place + 1 : Nat) : Int) / cols = place / cols ∧
        ((place + 1 : Nat) : Int) % cols = place % cols + 1 := by
      refine (Int.ediv_emod_unique (by omega)).mpr ⟨?_, ?_, ?_⟩ <;> omega
    exact ⟨by rw [hquotient], by rw [hremainder]⟩
  · simp only [rowOf, columnOf, if_neg hcols]
    exact ⟨trivial, rfl⟩

/-- The metadata goes from item to item. -/
theorem advance_cell (length : Nat) (cols : Int) (place : Nat) :
    (LoopInfo.cell length cols place).advance = .cell length cols (place + 1) := by
  unfold LoopInfo.cell
  rw [LoopInfo.advance]
  by_cases hlast : columnOf cols place = cols
  · obtain ⟨hrow, hcolumn⟩ := next_of_columnOf_eq hlast
    rw [if_pos (beq_iff_eq.mpr hlast), hrow, hcolumn]
    rfl
  · obtain ⟨hrow, hcolumn⟩ := next_of_columnOf_ne hlast
    rw [if_neg fun h => hlast (beq_iff_eq.mp h), hrow, hcolumn]
    rfl

theorem columnOf_eq_one_iff (hcols : 1 ≤ cols) (place : Nat) :
    columnOf cols place = 1 ↔ (place : Int) % cols = 0 := by
  rw [columnOf, if_pos hcols]
  omega

theorem columnOf_eq_iff (hcols : 1 ≤ cols) (place : Nat) :
    columnOf cols place = cols ↔ ((place : Int) + 1) % cols = 0 := by
  have hsucc : ((place + 1 : Nat) : Int) = place + 1 := rfl
  rw [← hsucc, ← columnOf_eq_one_iff hcols]
  refine ⟨fun hlast => (next_of_columnOf_eq hlast).2, fun hfirst => ?_⟩
  by_contra hlast
  have hnext := (next_of_columnOf_ne hlast).2
  have hpositive : 1 ≤ columnOf cols place := by
    rw [columnOf, if_pos hcols]
    have hnonneg := Int.emod_nonneg (place : Int) (show cols ≠ 0 by omega)
    omega
  omega

end

/-! ## What is put out for rows -/

namespace Table

/-- A cell with its column and its text. -/
structure Cell where
  column : Int
  text : String

/-- A row with its number and its cells. -/
structure Row where
  number : Int
  cells : List Cell

/-- What is put out for a table, piece by piece: tags, and what is inside the cells. -/
inductive Mark where
  | openRow (number : Int)
  | closeRow
  | openCell (column : Int)
  | closeCell
  | content (text : String)

/-- The text of a mark; behind the tag of the first row there is a line break. -/
def Mark.text : Mark → String
  | .openRow number =>
    "<tr class=\"row" ++ toString number ++ "\">" ++ if number == 1 then "\n" else ""
  | .closeRow => "</tr>\n"
  | .openCell column => "<td class=\"col" ++ toString column ++ "\">"
  | .closeCell => "</td>"
  | .content text => text

/-- The text of marks, one after another. -/
def writeMarks : List Mark → String
  | [] => ""
  | mark :: rest => mark.text ++ writeMarks rest

@[simp] theorem writeMarks_append (ms ns : List Mark) :
    writeMarks (ms ++ ns) = writeMarks ms ++ writeMarks ns := by
  induction ms with
  | nil => exact String.empty_append.symm
  | cons m ms ih => rw [List.cons_append, writeMarks, writeMarks, ih, String.append_assoc]

/-- What is put out for a cell. -/
def Cell.marks (cell : Cell) : List Mark := [.openCell cell.column, .content cell.text, .closeCell]

/-- What is put out for a row. -/
def Row.marks (row : Row) : List Mark := .openRow row.number :: row.cells.flatMap Cell.marks ++ [.closeRow]

/-- What is put out for rows. -/
def marksOf (rows : List Row) : List Mark := rows.flatMap Row.marks

/-- Where a mark stands: outside of all rows, in a row, or in a cell of a row. -/
inductive Level where
  | outside | inRow | inCell
  deriving DecidableEq

/-- Where the next mark stands. Rows are opened outside, cells in rows, and each is closed where it was
opened; everything else stands in cells. -/
def Level.behind : Level → Mark → Option Level
  | .outside, .openRow _ => some .inRow
  | .inRow, .closeRow => some .outside
  | .inRow, .openCell _ => some .inCell
  | .inCell, .closeCell => some .inRow
  | .inCell, .content _ => some .inCell
  | _, _ => none

/-- The tags are balanced and properly nested: the marks start and end outside of all rows. -/
def Nests (marks : List Mark) : Prop := marks.foldlM Level.behind .outside = some .outside

theorem behind_cells (cells : List Cell) :
    (cells.flatMap Cell.marks).foldlM Level.behind .inRow = some .inRow := by
  induction cells with
  | nil => rfl
  | cons cell cells ih =>
    rw [List.flatMap_cons, List.foldlM_append]
    exact ih

/-- **Whatever its rows and cells are, the tags of a table are balanced and properly nested.** -/
theorem nests_marksOf (rows : List Row) : Nests (marksOf rows) := by
  unfold Nests marksOf
  induction rows with
  | nil => rfl
  | cons row rows ih =>
    have hrow : row.marks.foldlM Level.behind .outside = some .outside := by
      rw [Row.marks, List.foldlM_append, List.foldlM_cons]
      change (do
        let level ← (row.cells.flatMap Cell.marks).foldlM Level.behind .inRow
        [Mark.closeRow].foldlM Level.behind level) = _
      rw [behind_cells]
      rfl
    rw [List.flatMap_cons, List.foldlM_append, hrow]
    exact ih

/-! ## From the cells to the rows -/

/-- Behind an item another row is opened: its column is the last one, and it is not the last item. -/
def endsRow (cols : Int) (length place : Nat) : Bool :=
  columnOf cols place == cols && (place : Int) != length - 1

/-- The rows from an item on, given the texts of the cells that are visited from there: the cells that go to
the row of the item, and the rows behind it. -/
def layOut (cols : Int) (length : Nat) : Nat → List String → List Cell × List Row
  | _, [] => ([], [])
  | place, text :: rest =>
    let cell := { column := columnOf cols place, text }
    let later := layOut cols length (place + 1) rest
    if endsRow cols length place then
      ([cell], { number := rowOf cols place + 1, cells := later.1 } :: later.2)
    else (cell :: later.1, later.2)

/-- The rows of a table with a number of columns and of items, given the texts of the cells that are
visited. -/
def tableRows (cols : Int) (length : Nat) (texts : List String) : List Row :=
  { number := 1, cells := (layOut cols length 0 texts).1 } :: (layOut cols length 0 texts).2

/-- What is put out from an item on, in the row of the item. -/
def marksFrom (laid : List Cell × List Row) : List Mark :=
  laid.1.flatMap Cell.marks ++
    laid.2.flatMap fun row => .closeRow :: .openRow row.number :: row.cells.flatMap Cell.marks

/-- Between the tags of its first row, a table puts out what follows from there. -/
theorem marksOf_cons (number : Int) (cells : List Cell) (rows : List Row) :
    marksOf ({ number, cells } :: rows) = .openRow number :: marksFrom (cells, rows) ++ [.closeRow] := by
  induction rows generalizing number cells with
  | nil => simp [marksOf, marksFrom, Row.marks]
  | cons row rows ih =>
    have hrest := ih row.number row.cells
    rw [marksOf, List.flatMap_cons]
    change Row.marks _ ++ marksOf (row :: rows) = _
    rw [hrest]
    simp [marksFrom, Row.marks]

/-- The text of a table is that of its rows. -/
theorem tableText_marksFrom (cols : Int) (length : Nat) (texts : List String) :
    TableHeader.tableText (writeMarks (marksFrom (layOut cols length 0 texts))) =
      writeMarks (marksOf (tableRows cols length texts)) := by
  have hfirst : Mark.text (.openRow 1) = "<tr class=\"row1\">\n" := by decide
  have hlast : writeMarks [.closeRow] = "</tr>\n" := by decide
  rw [tableRows, marksOf_cons, writeMarks_append, writeMarks, hfirst, hlast]
  rfl

section

variable {cols : Int} {length place : Nat} {texts : List String}

theorem endsRow_eq_true_iff :
    endsRow cols length place = true ↔ columnOf cols place = cols ∧ (place : Int) ≠ length - 1 := by
  simp [endsRow]

theorem layOut_of_endsRow (hends : endsRow cols length place = true) (text : String) (rest : List String) :
    layOut cols length place (text :: rest) = ([{ column := columnOf cols place, text }],
      { number := rowOf cols place + 1, cells := (layOut cols length (place + 1) rest).1 } ::
        (layOut cols length (place + 1) rest).2) := by
  rw [layOut]
  exact if_pos hends

theorem layOut_of_goesOn (hends : endsRow cols length place = false) (text : String) (rest : List String) :
    layOut cols length place (text :: rest) =
      ({ column := columnOf cols place, text } :: (layOut cols length (place + 1) rest).1,
        (layOut cols length (place + 1) rest).2) := by
  rw [layOut]
  exact if_neg (Bool.eq_false_iff.mp hends)

/-- An item puts out its cell and perhaps the tags between two rows, and then its successors follow. -/
theorem marksFrom_layOut_cons (cols : Int) (length place : Nat) (text : String) (rest : List String) :
    marksFrom (layOut cols length place (text :: rest)) =
      (Cell.marks { column := columnOf cols place, text } ++
        if endsRow cols length place then [.closeRow, .openRow (rowOf cols place + 1)] else []) ++
      marksFrom (layOut cols length (place + 1) rest) := by
  cases hends : endsRow cols length place with
  | true =>
    rw [layOut_of_endsRow hends]
    simp [marksFrom]
  | false =>
    rw [layOut_of_goesOn hends]
    simp [marksFrom]

/-- An item whose row goes on has its successor in the same row. -/
theorem rowOf_succ_of_goesOn (hends : endsRow cols length place = false) (hlt : place + 1 < length) :
    rowOf cols (place + 1) = rowOf cols place := by
  refine (next_of_columnOf_ne fun hlast => ?_).1
  rw [endsRow_eq_true_iff.mpr ⟨hlast, by omega⟩] at hends
  cases hends

/-- Only the last item does not tell whether its row goes on, and then nothing is left to lay out. -/
theorem eq_nil_or_lt {rest : List String} {text : String}
    (hfit : place + (text :: rest).length ≤ length) : rest = [] ∨ place + 1 < length := by
  cases rest with
  | nil => exact .inl rfl
  | cons next more =>
    rw [List.length_cons, List.length_cons] at hfit
    exact .inr (by omega)

/-- The rows behind that of an item are numbered on from there. -/
theorem number_layOut (hfit : place + texts.length ≤ length) {i : Nat} {row : Row}
    (hrow : (layOut cols length place texts).2[i]? = some row) : row.number = rowOf cols place + 1 + i := by
  induction texts generalizing place i with
  | nil => cases hrow
  | cons text rest ih =>
    have hfit' : place + 1 + rest.length ≤ length := by
      rw [List.length_cons] at hfit
      omega
    cases hends : endsRow cols length place with
    | true =>
      rw [layOut_of_endsRow hends] at hrow
      have hnext := (next_of_columnOf_eq (endsRow_eq_true_iff.mp hends).1).1
      cases i with
      | zero =>
        cases hrow
        exact (Int.add_zero _).symm
      | succ i =>
        rw [ih hfit' hrow, hnext]
        omega
    | false =>
      rw [layOut_of_goesOn hends] at hrow
      rcases eq_nil_or_lt hfit with rfl | hlt
      · cases hrow
      · rw [ih hfit' hrow, rowOf_succ_of_goesOn hends hlt]

/-- Every cell is in the row of its item. -/
theorem cells_layOut (cols : Int) (hfit : place + texts.length ≤ length) :
    (layOut cols length place texts).1.map (rowOf cols place, ·) ++
        (layOut cols length place texts).2.flatMap (fun row => row.cells.map (row.number, ·)) =
      texts.mapIdx fun i text => (rowOf cols (place + i), ⟨columnOf cols (place + i), text⟩) := by
  induction texts generalizing place with
  | nil => rfl
  | cons text rest ih =>
    have hfit' : place + 1 + rest.length ≤ length := by
      rw [List.length_cons] at hfit
      omega
    have hshift : (fun i text => ((rowOf cols (place + 1 + i), ⟨columnOf cols (place + 1 + i), text⟩) :
        Int × Cell)) = fun i text => (rowOf cols (place + (i + 1)), ⟨columnOf cols (place + (i + 1)), text⟩) := by
      funext i text
      rw [Nat.add_assoc, Nat.add_comm 1 i]
    rw [List.mapIdx_cons, ← hshift, ← ih hfit']
    cases hends : endsRow cols length place with
    | true =>
      have hnext := (next_of_columnOf_eq (endsRow_eq_true_iff.mp hends).1).1
      rw [layOut_of_endsRow hends, hnext]
      rfl
    | false =>
      rw [layOut_of_goesOn hends]
      rcases eq_nil_or_lt hfit with rfl | hlt
      · rfl
      · rw [rowOf_succ_of_goesOn hends hlt]
        rfl

/-- If all items from one on are visited, the rows go up to that of the last item. -/
theorem length_layOut (cols : Int) (hfull : place + texts.length = length) (hne : texts ≠ []) :
    rowOf cols place + (layOut cols length place texts).2.length = rowOf cols (length - 1) := by
  induction texts generalizing place with
  | nil => exact absurd rfl hne
  | cons text rest ih =>
    rw [List.length_cons] at hfull
    by_cases hrest : rest = []
    · -- behind the last item no row is opened
      subst hrest
      obtain rfl : place = length - 1 := by
        rw [List.length_nil] at hfull
        omega
      have hends : endsRow cols length (length - 1) = false := by
        rw [← Bool.not_eq_true, endsRow_eq_true_iff]
        omega
      rw [layOut_of_goesOn hends]
      exact Int.add_zero _
    · have hfull' : place + 1 + rest.length = length := by omega
      have hlast := ih hfull' hrest
      have hpositive := List.length_pos_iff.mpr hrest
      cases hends : endsRow cols length place with
      | true =>
        rw [(next_of_columnOf_eq (endsRow_eq_true_iff.mp hends).1).1] at hlast
        rw [layOut_of_endsRow hends, ← hlast, List.length_cons]
        omega
      | false =>
        rw [rowOf_succ_of_goesOn hends (by omega)] at hlast
        rw [layOut_of_goesOn hends, ← hlast]

/-- Without columns no row is opened. -/
theorem layOut_of_lt (hcols : cols < 1) (length place : Nat) (texts : List String) :
    (layOut cols length place texts).2 = [] := by
  induction texts generalizing place with
  | nil => rfl
  | cons text rest ih =>
    have hends : endsRow cols length place = false := by
      rw [← Bool.not_eq_true, endsRow_eq_true_iff]
      exact fun h => columnOf_ne_of_lt hcols place h.1
    rw [layOut_of_goesOn hends]
    exact ih (place + 1)

end

section

variable {cols : Int} {length : Nat} {texts : List String}

/-- **Rows are numbered from one.** -/
theorem numbers_tableRows (hfit : texts.length ≤ length) {i : Nat} {row : Row}
    (hrow : (tableRows cols length texts)[i]? = some row) : row.number = i + 1 := by
  cases i with
  | zero =>
    cases hrow
    rfl
  | succ i =>
    rw [number_layOut (by omega) hrow, rowOf_zero]
    omega

/-- **Every cell is in the row and the column of its item**, in the order of the items. -/
theorem cells_tableRows (hfit : texts.length ≤ length) :
    (tableRows cols length texts).flatMap (fun row => row.cells.map (row.number, ·)) =
      texts.mapIdx fun place text => (rowOf cols place, ⟨columnOf cols place, text⟩) := by
  have hfit' : 0 + texts.length ≤ length := by omega
  have hcells := cells_layOut cols hfit'
  simp only [Nat.zero_add, rowOf_zero] at hcells
  exact hcells

/-- **All items fill as many rows as they need**, and at least one. -/
theorem length_tableRows (hcols : 1 ≤ cols) (hfull : texts.length = length) :
    ((tableRows cols length texts).length : Int) = max 1 ((length + cols - 1) / cols) := by
  by_cases hempty : texts = []
  · subst hempty
    obtain rfl : 0 = length := hfull
    have hnone : (((0 : Nat) : Int) + cols - 1) / cols = 0 := Int.ediv_eq_zero_of_lt (by omega) (by omega)
    rw [hnone]
    rfl
  · have hpositive := List.length_pos_iff.mpr hempty
    have hfull' : 0 + texts.length = length := by omega
    have hrows := length_layOut cols hfull' hempty
    have hlast : rowOf cols (length - 1) = (length + cols - 1) / cols := by
      rw [rowOf, if_pos hcols, ← Int.add_mul_ediv_right _ 1 (by omega)]
      congr 1
      omega
    have hone := one_le_rowOf cols (length - 1)
    rw [tableRows, List.length_cons, ← hlast, ← hrows, rowOf_zero]
    rw [← hrows, rowOf_zero] at hone
    omega

/-- Without columns there is one row. -/
theorem length_tableRows_of_lt (hcols : cols < 1) (length : Nat) (texts : List String) :
    (tableRows cols length texts).length = 1 := by
  rw [tableRows, layOut_of_lt hcols]
  rfl

end

/-- The rows are laid out: they hold the cells with these texts, of a table with a number of columns and of
items. -/
structure LaidOut (cols : Int) (length : Nat) (texts : List String) (rows : List Row) : Prop where
  /-- The tags are balanced and properly nested. -/
  nests : Nests (marksOf rows)
  /-- The rows are numbered from one. -/
  numbers : ∀ (i : Nat) (row : Row), rows[i]? = some row → row.number = i + 1
  /-- Every cell is in the row and the column of its item. -/
  cells : rows.flatMap (fun row => row.cells.map (row.number, ·)) =
    texts.mapIdx fun place text => (rowOf cols place, ⟨columnOf cols place, text⟩)
  /-- All items fill as many rows as they need, and at least one. -/
  full : 1 ≤ cols → texts.length = length →
    (rows.length : Int) = max 1 ((length + cols - 1) / cols)
  /-- Without columns there is one row. -/
  single : cols < 1 → rows.length = 1

/-- **The rows of a table are laid out.** -/
theorem laidOut_tableRows {texts : List String} {length : Nat} (hfit : texts.length ≤ length) (cols : Int) :
    LaidOut cols length texts (tableRows cols length texts) where
  nests := nests_marksOf _
  numbers _ _ := numbers_tableRows hfit
  cells := cells_tableRows hfit
  full := length_tableRows
  single hcols := length_tableRows_of_lt hcols length texts

end Table

end Stencil
