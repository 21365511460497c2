import Stencil.Named

/-!
# Steps that may fail

What is known of steps that ended well: both steps of a sequence did (`bind_eq_ok_iff`), all steps of a
`mapM` did (`exists_of_mapM_eq_ok`), and what every step of a `foldlM` keeps holds at its end
(`foldlM_keeps`). What is known of steps that failed: a computation fails only in the ways in which its
steps do (`FailsOnly`).
-/

namespace Stencil

variable {ε α β : Type}

theorem bind_eq_ok_iff {x : Except ε α} {f : α → Except ε β} {b : β} :
    (x >>= f) = .ok b ↔ ∃ a, x = .ok a ∧ f a = .ok b := by
  cases x with
  | error e => exact ⟨nofun, fun ⟨_, h, _⟩ => nomatch h⟩
  | ok a => exact ⟨fun h => ⟨a, rfl, h⟩, fun ⟨_, h, hf⟩ => by cases h; exact hf⟩

theorem mapError_eq_ok_iff {ε' : Type} {x : Except ε α} {f : ε → ε'} {a : α} :
    x.mapError f = .ok a ↔ x = .ok a := by
  cases x with
  | error e => exact ⟨nofun, nofun⟩
  | ok a => exact ⟨fun h => congrArg _ (Except.ok.inj h), fun h => congrArg _ (Except.ok.inj h)⟩

theorem map_eq_ok_iff {x : Except ε α} {f : α → β} {b : β} :
    x.map f = .ok b ↔ ∃ a, x = .ok a ∧ f a = b := by
  cases x with
  | error e => exact ⟨nofun, fun ⟨_, h, _⟩ => nomatch h⟩
  | ok a => exact ⟨fun h => ⟨a, rfl, Except.ok.inj h⟩, fun ⟨_, h, hf⟩ => by cases h; exact congrArg _ hf⟩

theorem map_eq_error_iff {x : Except ε α} {f : α → β} {e : ε} : x.map f = .error e ↔ x = .error e := by
  cases x with
  | error e' => exact ⟨fun h => congrArg _ (Except.error.inj h), fun h => congrArg _ (Except.error.inj h)⟩
  | ok a => exact ⟨nofun, nofun⟩

/-- If all steps of a `mapM` end well, it does. -/
theorem exists_mapM_eq_ok {f : α → Except ε β} {xs : List α} {Q : β → Prop}
    (hf : ∀ x ∈ xs, ∃ y, f x = .ok y ∧ Q y) : ∃ ys, xs.mapM f = .ok ys ∧ ∀ y ∈ ys, Q y := by
  induction xs with
  | nil => exact ⟨[], rfl, fun _ hy => nomatch hy⟩
  | cons x xs ih =>
    obtain ⟨⟨y, hy, hQ⟩, hrest⟩ := List.forall_mem_cons.mp hf
    obtain ⟨ys, hys, hall⟩ := ih hrest
    rw [List.mapM_cons, hy]
    refine ⟨y :: ys, bind_eq_ok_iff.mpr ⟨y, rfl, bind_eq_ok_iff.mpr ⟨ys, hys, rfl⟩⟩, ?_⟩
    exact List.forall_mem_cons.mpr ⟨hQ, hall⟩

/-- Everything in the result of a `mapM` that ended well is the result of one of its steps. -/
theorem exists_of_mapM_eq_ok {f : α → Except ε β} {xs : List α} {ys : List β}
    (h : xs.mapM f = .ok ys) : ∀ y ∈ ys, ∃ x ∈ xs, f x = .ok y := by
  induction xs generalizing ys with
  | nil =>
    cases h
    exact fun _ hy => nomatch hy
  | cons x rest ih =>
    rw [List.mapM_cons] at h
    obtain ⟨z, hz, h⟩ := bind_eq_ok_iff.mp h
    obtain ⟨zs, hzs, h⟩ := bind_eq_ok_iff.mp h
    cases h
    refine List.forall_mem_cons.mpr ⟨⟨x, List.mem_cons_self, hz⟩, fun y hy => ?_⟩
    obtain ⟨w, hw, hy⟩ := ih hzs y hy
    exact ⟨w, List.mem_cons_of_mem _ hw, hy⟩

theorem eq_nil_of_mapM_eq_ok {f : α → Except ε β} {xs : List α} (h : xs.mapM f = .ok []) : xs = [] := by
  cases xs with
  | nil => rfl
  | cons x rest =>
    rw [List.mapM_cons] at h
    obtain ⟨y, -, h⟩ := bind_eq_ok_iff.mp h
    obtain ⟨ys, -, h⟩ := bind_eq_ok_iff.mp h
    cases h

/-- What every step of a `foldlM` keeps holds at its end. -/
theorem foldlM_keeps {f : β → α → Except ε β} {Q : β → Prop} {xs : List α} {b last : β}
    (h : xs.foldlM f b = .ok last) (hb : Q b)
    (hstep : ∀ b, ∀ a ∈ xs, ∀ b', Q b → f b a = .ok b' → Q b') : Q last := by
  induction xs generalizing b with
  | nil =>
    cases h
    exact hb
  | cons a rest ih =>
    rw [List.foldlM_cons] at h
    obtain ⟨next, hnext, h⟩ := bind_eq_ok_iff.mp h
    exact ih h (hstep b a List.mem_cons_self next hb hnext)
      fun b a ha => hstep b a (List.mem_cons_of_mem _ ha)

/-! ## Failures -/

/-- Whatever the step fails with is of this kind. -/
def FailsOnly (P : ε → Prop) (x : Except ε α) : Prop := ∀ e, x = .error e → P e

section

variable {P : ε → Prop} {x : Except ε α}

theorem failsOnly_ok (a : α) : FailsOnly P (.ok a : Except ε α) := nofun

theorem failsOnly_error {e : ε} (h : P e) : FailsOnly P (.error e : Except ε α) := by
  rintro _ ⟨⟩
  exact h

theorem FailsOnly.bind {f : α → Except ε β} (hx : FailsOnly P x)
    (hf : ∀ a, x = .ok a → FailsOnly P (f a)) : FailsOnly P (x >>= f) := by
  cases x with
  | error e => exact failsOnly_error (hx e rfl)
  | ok a => exact hf a rfl

theorem FailsOnly.map (hx : FailsOnly P x) (f : α → β) : FailsOnly P (x.map f) := by
  cases x with
  | error e => exact failsOnly_error (hx e rfl)
  | ok a => exact failsOnly_ok _

theorem FailsOnly.mapError {ε' : Type} {Q : ε' → Prop} {g : ε → ε'} (hx : FailsOnly P x)
    (h : ∀ e, P e → Q (g e)) : FailsOnly Q (x.mapError g) := by
  cases x with
  | error e => exact failsOnly_error (h e (hx e rfl))
  | ok a => exact failsOnly_ok a

theorem failsOnly_mapError {ε' : Type} {Q : ε' → Prop} {g : ε → ε'} (h : ∀ e, Q (g e)) :
    FailsOnly Q (x.mapError g) :=
  FailsOnly.mapError (P := fun _ => True) (fun _ _ => trivial) fun e _ => h e

theorem failsOnly_mapM {f : α → Except ε β} {xs : List α} (h : ∀ x ∈ xs, FailsOnly P (f x)) :
    FailsOnly P (xs.mapM f) := by
  induction xs with
  | nil => exact failsOnly_ok []
  | cons x rest ih =>
    obtain ⟨hx, hrest⟩ := List.forall_mem_cons.mp h
    rw [List.mapM_cons]
    exact hx.bind fun _ _ => (ih hrest).bind fun _ _ => failsOnly_ok _

theorem failsOnly_foldlM {f : β → α → Except ε β} {xs : List α} {b : β}
    (h : ∀ b, ∀ a ∈ xs, FailsOnly P (f b a)) : FailsOnly P (xs.foldlM f b) := by
  induction xs generalizing b with
  | nil => exact failsOnly_ok b
  | cons a rest ih =>
    rw [List.foldlM_cons]
    exact (h b a List.mem_cons_self).bind fun _ _ =>
      ih fun b a ha => h b a (List.mem_cons_of_mem _ ha)

end

end Stencil
