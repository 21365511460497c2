import Mathlib.Data.List.Infix

/-!
# How long the runs of a text are

`RunsBelow p n s` says that fewer than `n` characters of the class stand next to each other anywhere in the
text. It passes to what stands in the text, and to texts that are put together where no run goes on.
-/

namespace Stencil.Text

variable {p : Char → Bool} {n : Nat} {s t x y : List Char}

/-- Every run of characters of the class is shorter than `n`. -/
def RunsBelow (p : Char → Bool) (n : Nat) (s : List Char) : Prop :=
  ∀ run, run <:+: s → (∀ c ∈ run, p c = true) → run.length < n

theorem RunsBelow.within (h : RunsBelow p n s) (ht : t <:+: s) : RunsBelow p n t :=
  fun run hrun => h run (hrun.trans ht)

/-- A short text has no long runs. -/
theorem runsBelow_of_length (hs : s.length < n) : RunsBelow p n s :=
  fun _ hrun _ => Nat.lt_of_le_of_lt hrun.length_le hs

/-- A text without characters of the class has no runs. -/
theorem runsBelow_of_none (hn : 0 < n) (hs : ∀ c ∈ s, p c = false) : RunsBelow p n s := by
  intro run hrun hall
  cases run with
  | nil => exact hn
  | cons c run =>
    have hc := hall c List.mem_cons_self
    rw [hs c (hrun.subset List.mem_cons_self)] at hc
    cases hc

/-- What stands in two texts put together stands in one of them, or across the place where they meet. -/
theorem infix_append {run : List Char} (h : run <:+: x ++ y) :
    run <:+: x ∨ run <:+: y ∨ ∃ a b, run = a ++ b ∧ a ≠ [] ∧ b ≠ [] ∧ a <:+ x ∧ b <+: y := by
  induction x with
  | nil => exact .inr (.inl h)
  | cons c x ih =>
    rw [List.cons_append, List.infix_cons_iff] at h
    rcases h with ⟨rest, hrest⟩ | h
    · rw [← List.cons_append] at hrest
      rcases List.append_eq_append_iff.mp hrest with ⟨after, hx, -⟩ | ⟨b, rfl, rfl⟩
      · exact .inl ⟨[], after, hx.symm⟩
      · cases b with
        | nil => exact .inl (by rw [List.append_nil])
        | cons d b =>
          exact .inr (.inr ⟨c :: x, d :: b, rfl, List.cons_ne_nil _ _, List.cons_ne_nil _ _,
            List.suffix_rfl, List.prefix_append _ _⟩)
    · rcases ih h with hx | hy | ⟨a, b, hrun, ha, hb, hsuffix, hprefix⟩
      · exact .inl (List.infix_cons hx)
      · exact .inr (.inl hy)
      · exact .inr (.inr ⟨a, b, hrun, ha, hb, hsuffix.trans (List.suffix_cons c x), hprefix⟩)

/-- **No run goes on** from one text to the next, if it would have to cross from one class to another. -/
theorem RunsBelow.append (hx : RunsBelow p n x) (hy : RunsBelow p n y)
    (hmeet : ∀ c ∈ x.getLast?, ∀ d ∈ y.head?, ¬ (p c = true ∧ p d = true)) : RunsBelow p n (x ++ y) := by
  intro run hrun hall
  rcases infix_append hrun with hin | hin | ⟨a, b, rfl, ha, hb, ⟨front, rfl⟩, ⟨back, rfl⟩⟩
  · exact hx run hin hall
  · exact hy run hin hall
  · obtain ⟨d, b, rfl⟩ := List.exists_cons_of_ne_nil hb
    have hlast : (front ++ a).getLast? = some (a.getLast ha) := by
      rw [List.getLast?_append_of_ne_nil _ ha, List.getLast?_eq_getLast_of_ne_nil ha]
    exact absurd ⟨hall _ (List.mem_append_left _ (List.getLast_mem ha)),
      hall d (List.mem_append_right _ List.mem_cons_self)⟩ (hmeet _ hlast d rfl)

theorem RunsBelow.cons {c : Char} (hc : p c = false) (hs : RunsBelow p n s) : RunsBelow p n (c :: s) := by
  have hn : 0 < n := hs [] List.nil_infix nofun
  have hfront : RunsBelow p n [c] := runsBelow_of_none hn (List.forall_mem_singleton.mpr hc)
  refine hfront.append hs fun d hd _ _ h => ?_
  cases hd
  exact absurd (h.1.symm.trans hc) (by decide)

end Stencil.Text
