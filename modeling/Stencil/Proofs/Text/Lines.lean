import Stencil.Text.Lines

/-!
# Two ways to count lines

The lines of a source are counted by its newlines (`newlineLines`). The lines that are shown to a reader
end at every line boundary (`lines`). A reader never sees fewer lines
(`count_newline_lt_length_linesFrom`), and both ways agree on the lines up to a place just when newlines
are the only boundaries up to there, a carriage return in front of them aside (`lines_agree_iff`).
-/

namespace Stencil.Text

variable {s line rest : List Char} {c : Char}

/-! ## Lines that newlines separate -/

/-- The lines of a text, when newlines alone separate them. -/
def newlineLines (s : List Char) : List (List Char) := s.splitOn '\n'

/-- A line without the carriage return at its end. -/
def dropReturn (line : List Char) : List Char :=
  if line.getLast? = some '\r' then line.dropLast else line

/-- Nothing in the line is a line boundary, a carriage return at its end aside. -/
def Unbroken (line : List Char) : Prop := ∀ c ∈ dropReturn line, isLineBreak c = false

theorem dropReturn_cases (line : List Char) :
    dropReturn line = line ∨ line = dropReturn line ++ ['\r'] := by
  unfold dropReturn
  split
  · next hlast =>
    obtain ⟨front, rfl⟩ := List.getLast?_eq_some_iff.mp hlast
    rw [List.dropLast_concat]
    exact .inr rfl
  · exact .inl rfl

/-- A text is a single line, or its first line ends at a newline. -/
theorem newlineLines_cases (s : List Char) :
    newlineLines s = [s] ∨
      ∃ line rest, s = line ++ '\n' :: rest ∧ newlineLines s = line :: newlineLines rest := by
  by_cases hmem : '\n' ∈ s
  · obtain ⟨line, rest, rfl, hline⟩ := List.eq_append_cons_of_mem hmem
    exact .inr ⟨line, rest, rfl, List.splitOn_append_cons_self_of_not_mem hline rest⟩
  · exact .inl (List.splitOn_eq_singleton hmem)

theorem length_newlineLines (s : List Char) : (newlineLines s).length = s.count '\n' + 1 := by
  induction s with
  | nil => rfl
  | cons c s ih =>
    unfold newlineLines at ih ⊢
    rw [List.splitOn_cons_eq_if_modifyHead, List.count_cons]
    split
    · simp only [List.length_cons, ih]
    · simp only [List.length_modifyHead, ih, Nat.add_zero]

/-! ## Lines that a reader sees -/

@[simp] theorem linesFrom_newline (seen rest : List Char) :
    linesFrom seen ('\n' :: rest) = seen.reverse :: linesFrom [] rest := by
  rw [linesFrom.eq_3 _ _ _ fun _ h => absurd h (by decide)]
  rfl

@[simp] theorem linesFrom_return (seen : List Char) : linesFrom seen ['\r'] = [seen.reverse] := by
  rw [linesFrom.eq_3 _ _ _ (by simp)]
  rfl

theorem linesFrom_cons (hc : isLineBreak c = false) (seen rest : List Char) :
    linesFrom seen (c :: rest) = linesFrom (c :: seen) rest := by
  have hreturn : c ≠ '\r' := by
    rintro rfl
    exact absurd hc (by decide)
  rw [linesFrom.eq_3 _ _ _ fun _ h => absurd h hreturn, hc]
  rfl

/-- What holds no boundary belongs to the line that is being read. -/
theorem linesFrom_append (hline : ∀ c ∈ line, isLineBreak c = false) (seen rest : List Char) :
    linesFrom seen (line ++ rest) = linesFrom (line.reverse ++ seen) rest := by
  induction line generalizing seen with
  | nil => rfl
  | cons c line ih =>
    obtain ⟨hc, hline⟩ := List.forall_mem_cons.mp hline
    rw [List.cons_append, linesFrom_cons hc, ih hline, List.reverse_cons, List.append_assoc]
    rfl

/-- A newline ends a line, together with the carriage return in front of it. -/
theorem lines_append_newline (hline : Unbroken line) :
    lines (line ++ '\n' :: rest) = dropReturn line :: lines rest := by
  unfold lines
  rcases dropReturn_cases line with hsame | hreturn
  · rw [Unbroken, hsame] at hline
    rw [linesFrom_append hline, linesFrom_newline, List.append_nil, List.reverse_reverse, hsame]
  · have hsplit : line ++ '\n' :: rest = dropReturn line ++ '\r' :: '\n' :: rest := by
      rw [List.append_cons (dropReturn line), ← hreturn]
    rw [hsplit, linesFrom_append hline, linesFrom.eq_2, List.append_nil, List.reverse_reverse]

/-- The last line need not be ended. -/
theorem lines_of_unbroken (hne : line ≠ []) (hline : Unbroken line) :
    lines line = [dropReturn line] := by
  unfold lines
  rcases dropReturn_cases line with hsame | hreturn
  · rw [Unbroken, hsame] at hline
    have hrun := linesFrom_append hline [] []
    rw [List.append_nil, List.append_nil] at hrun
    rw [hrun, linesFrom, if_neg (by simpa using hne), List.reverse_reverse, hsame]
  · have hrun := linesFrom_append hline [] ['\r']
    rw [← hreturn, List.append_nil] at hrun
    rw [hrun, linesFrom_return, List.reverse_reverse]

/-- The lines that a reader sees are made of the characters of the text that are no boundaries. -/
theorem mem_of_mem_lines : ∀ l ∈ lines s, ∀ c ∈ l, c ∈ s ∧ isLineBreak c = false := by
  have hall (seen t : List Char) (hseen : ∀ c ∈ seen, c ∈ s ∧ isLineBreak c = false)
      (ht : ∀ c ∈ t, c ∈ s) : ∀ l ∈ linesFrom seen t, ∀ c ∈ l, c ∈ s ∧ isLineBreak c = false := by
    fun_induction linesFrom seen t with
    | case1 => simp
    | case2 => simpa using hseen
    | case3 seen rest ih =>
      obtain ⟨-, hrest⟩ := List.forall_mem_cons.mp (List.forall_mem_cons.mp ht).2
      exact List.forall_mem_cons.mpr ⟨by simpa using hseen, ih nofun hrest⟩
    | case4 seen c rest _ _ ih =>
      exact List.forall_mem_cons.mpr ⟨by simpa using hseen, ih nofun (List.forall_mem_cons.mp ht).2⟩
    | case5 seen c rest _ hc ih =>
      obtain ⟨hmem, hrest⟩ := List.forall_mem_cons.mp ht
      exact ih (List.forall_mem_cons.mpr ⟨⟨hmem, Bool.eq_false_iff.mpr hc⟩, hseen⟩) hrest
  exact hall [] s nofun fun _ hc => hc

/-- No line that a reader sees holds a boundary. -/
theorem isLineBreak_of_mem_lines : ∀ l ∈ lines s, ∀ c ∈ l, isLineBreak c = false :=
  fun l hl c hc => (mem_of_mem_lines l hl c hc).2

/-- Every newline in front of the last character ends a line, and the last character is in another one. -/
theorem count_newline_lt_length_linesFrom (hs : s ≠ []) (seen : List Char) :
    s.dropLast.count '\n' < (linesFrom seen s).length := by
  fun_induction linesFrom seen s with
  | case1 | case2 => exact absurd rfl hs
  | case3 seen rest ih =>
    cases rest with
    | nil => simp
    | cons d rest =>
      have hrest := ih (List.cons_ne_nil d rest)
      have hone : ['\r', '\n'].count '\n' = 1 := by decide
      have hsplit : ('\r' :: '\n' :: d :: rest).dropLast = ['\r', '\n'] ++ (d :: rest).dropLast := rfl
      rw [hsplit, List.count_append, hone, List.length_cons]
      omega
  | case4 seen c rest _ hc ih =>
    cases rest with
    | nil => simp
    | cons d rest =>
      have hrest := ih (List.cons_ne_nil d rest)
      have hone : [c].count '\n' ≤ 1 := List.count_le_length
      have hsplit : (c :: d :: rest).dropLast = [c] ++ (d :: rest).dropLast := rfl
      rw [hsplit, List.count_append, List.length_cons]
      omega
  | case5 seen c rest _ hc ih =>
    have hnewline : c ≠ '\n' := by
      rintro rfl
      exact absurd rfl hc
    cases rest with
    | nil => simp [linesFrom]
    | cons d rest =>
      have hrest := ih (List.cons_ne_nil d rest)
      rwa [List.dropLast_cons_of_ne_nil (List.cons_ne_nil d rest), List.count_cons_of_ne hnewline]

/-! ## Where the two ways agree -/

/-- Up to a boundary that is no newline, both ways give the same lines. Induction on the place, along the
lines that newlines separate. -/
theorem getElem?_lines {i : Nat} (hi : i < (lines s).length)
    (hfront : ∀ l ∈ (newlineLines s).take (i + 1), Unbroken l) :
    (lines s)[i]? = ((newlineLines s)[i]?).map dropReturn := by
  induction i generalizing s with
  | zero =>
    rcases newlineLines_cases s with hsingle | ⟨line, rest, rfl, hsplit⟩
    · have hne : s ≠ [] := by
        rintro rfl
        exact absurd hi (by decide)
      rw [hsingle] at hfront ⊢
      rw [lines_of_unbroken hne (hfront s List.mem_cons_self)]
      rfl
    · rw [hsplit] at hfront ⊢
      rw [lines_append_newline (hfront line List.mem_cons_self)]
      rfl
  | succ i ih =>
    rcases newlineLines_cases s with hsingle | ⟨line, rest, rfl, hsplit⟩
    · have hne : s ≠ [] := by
        rintro rfl
        exact absurd hi (Nat.not_lt_zero _)
      rw [hsingle] at hfront
      rw [lines_of_unbroken hne (hfront s List.mem_cons_self)] at hi
      exact absurd hi (by simp)
    · rw [hsplit] at hfront ⊢
      rw [List.take_succ_cons] at hfront
      obtain ⟨hline, hfront⟩ := List.forall_mem_cons.mp hfront
      rw [lines_append_newline hline] at hi ⊢
      exact ih (Nat.lt_of_succ_lt_succ hi) hfront

/-- **Both ways give the same lines up to a place just when newlines are the only boundaries there.** -/
theorem lines_agree_iff {i : Nat} (hi : i < (lines s).length) :
    (∀ j ≤ i, (lines s)[j]? = ((newlineLines s)[j]?).map dropReturn) ↔
      ∀ l ∈ (newlineLines s).take (i + 1), Unbroken l := by
  constructor
  · intro hagree l hl
    obtain ⟨j, hj, rfl⟩ := List.mem_take_iff_getElem.mp hl
    have hline := hagree j (by omega)
    rw [List.getElem?_eq_getElem (l := newlineLines s) (by omega)] at hline
    exact isLineBreak_of_mem_lines _ (List.mem_of_getElem? hline)
  · intro hfront j hj
    refine getElem?_lines (by omega) fun l hl => hfront l ?_
    exact List.take_subset_take_left _ (by omega) hl

end Stencil.Text
