import Stencil.Proofs.Filter.Invocation
import Stencil.Proofs.Value.Overflow
import Stencil.Proofs.Value.Plain

/-!
# How built-in filters fail

What a filter refuses because of the type or the domain of a value is reported as a bad argument, an error of the
template. What else the host refuses escapes (`Escaping`): it would be recorded as an internal error. Applied to
a plain value, each built-in filter lets escape just what is too large for an operation it is made of
(`BuiltinFilter.Overflows`, `BuiltinFilter.escaping_apply`). A keyword argument that has the name of the filtered
value, of the filter's name or of the render is refused before the filter is applied, and this escapes as well.
In all other cases a filter gives a value or fails with an error of the template
(`builtin_filters_end_in_template`).
-/

namespace Stencil

open Render

variable {α β : Type} {σ : Settings} {s : RenderState}

/-! ## Steps of a render -/

namespace Render

theorem escaping_runFrom_bind (x : Render α) (f : α → Render β) :
    Escaping ((x >>= f).runFrom σ s).1 ↔
      Escaping (x.runFrom σ s).1 ∨ ∃ a t, x.runFrom σ s = (.ok a, t) ∧ Escaping ((f a).runFrom σ t).1 := by
  rw [runFrom_bind]
  cases hx : x.runFrom σ s with
  | mk outcome t =>
    cases outcome with
    | ok a =>
      refine ⟨fun h => .inr ⟨a, t, rfl, h⟩, fun h => ?_⟩
      rcases h with h | ⟨b, u, heq, h⟩
      · exact absurd h (escaping_ok a)
      · cases heq
        exact h
    | error e => simp

theorem escaping_pure (a : α) : Escaping ((pure a : Render α).runFrom σ s).1 ↔ False :=
  iff_false_intro (escaping_ok a)

/-- After a step that leaves the state as it is. -/
theorem escaping_bind_of_steady {x : Render α} {o : Outcome α} (hx : x.runFrom σ s = (o, s))
    (f : α → Render β) :
    Escaping ((x >>= f).runFrom σ s).1 ↔
      Escaping o ∨ ∃ a, o = .ok a ∧ Escaping ((f a).runFrom σ s).1 := by
  rw [runFrom_bind, hx]
  cases o <;> simp

theorem escaping_ofOutcome_bind (o : Outcome α) (f : α → Render β) :
    Escaping ((ofOutcome o >>= f).runFrom σ s).1 ↔
      Escaping o ∨ ∃ a, o = .ok a ∧ Escaping ((f a).runFrom σ s).1 :=
  escaping_bind_of_steady (runFrom_ofOutcome ..) f

theorem not_escaping_mapM {f : α → Render β} {xs : List α}
    (h : ∀ x ∈ xs, ∀ t, ¬ Escaping ((f x).runFrom σ t).1) : ¬ Escaping ((xs.mapM f).runFrom σ s).1 := by
  induction xs generalizing s with
  | nil => exact escaping_ok _
  | cons x rest ih =>
    obtain ⟨hx, hrest⟩ := List.forall_mem_cons.mp h
    simp only [List.mapM_cons, escaping_runFrom_bind, escaping_pure, and_false, exists_false, or_false]
    rintro (hfirst | ⟨y, t, -, hlater⟩)
    · exact hx s hfirst
    · exact ih hrest hlater

end Render

namespace BuiltinFilter

/-! ## Arguments as texts and numbers -/

theorem not_escaping_charsOf (v : Value) : ¬ Escaping ((charsOf v).runFrom σ s).1 := by
  rw [runFrom_charsOf, escaping_map]
  exact (Value.failsOnly_output s.loops v).not_escaping

theorem escaping_charsOf_bind (v : Value) (f : List Char → Render α) :
    Escaping ((charsOf v >>= f).runFrom σ s).1 ↔
      ∃ text, v.output s.loops = .ok text ∧ Escaping ((f text.toList).runFrom σ s).1 := by
  rw [escaping_bind_of_steady (runFrom_charsOf v), escaping_map,
    or_iff_right (Value.failsOnly_output s.loops v).not_escaping]
  cases v.output s.loops <;> simp [Except.map]

theorem escaping_numberOf_bind (v : Value) (f : Numeric → Render α) :
    Escaping ((numberOf v >>= f).runFrom σ s).1 ↔
      ∃ a, v.toNumber s.loops = .ok a ∧ Escaping ((f a).runFrom σ s).1 := by
  rw [escaping_bind_of_steady (runFrom_numberOf v),
    or_iff_right (Value.failsOnly_toNumber s.loops v).not_escaping]

theorem escaping_intOf_bind (v : Value) (f : Int → Render α) :
    Escaping ((intOf v >>= f).runFrom σ s).1 ↔
      v.IsInfinite ∨ ∃ n, v.toInt s.loops = .ok n ∧ Escaping ((f n).runFrom σ s).1 := by
  rw [escaping_bind_of_steady (runFrom_intOf v), Value.escaping_toInt]

theorem not_escaping_onText (f : List Char → List Char) (v : Value) :
    ¬ Escaping ((onText f v).runFrom σ s).1 := by
  simp only [onText, escaping_charsOf_bind, escaping_pure, and_false, exists_false, not_false_iff]

theorem escaping_onNumbers (f : Numeric → Numeric → Outcome Numeric) (v w : Value) :
    Escaping ((onNumbers f v w).runFrom σ s).1 ↔
      ∃ a b, v.toNumber s.loops = .ok a ∧ w.toNumber s.loops = .ok b ∧ Escaping (f a b) := by
  simp only [onNumbers, escaping_numberOf_bind, escaping_ofOutcome_bind, escaping_pure, and_false,
    exists_false, or_false, exists_and_left]

/-! ## Properties of items -/

/-- Loop metadata refuses a key only with an error of the template, unless the key cannot be written. -/
theorem not_escaping_resolve_loop (id : Nat) (key : Value) :
    ¬ Escaping ((resolve (.loop id) key).runFrom σ s).1 := by
  have hmissing (bound : Bool) : ¬ Escaping ((missing bound key).runFrom σ s).1 := by
    rw [runFrom_missing]
    split
    · change ¬ Escaping (key.written s.loops >>= fun text => .error (.template (.undefinedMethod text)))
      rw [escaping_bind, or_iff_right (Value.failsOnly_written s.loops key).not_escaping]
      simp
    · exact escaping_ok _
  simp only [resolve, loops, runFrom_bind, runFrom_get, runFrom_pure]
  split
  · exact escaping_ok _
  · simp only [runFrom_bind, runFrom_get]
    exact hmissing _

theorem not_escaping_property (key : Value) {item : Value} (hitem : item.isPlain) :
    ¬ Escaping ((property key item).runFrom σ s).1 := by
  cases item with
  | drop => cases hitem
  | loop id =>
    simp only [property, runFrom_bind, runFrom_ask]
    exact not_escaping_resolve_loop id key
  | map es =>
    simp only [property, escaping_ofOutcome_bind, escaping_pure, and_false, exists_false, or_false]
    exact (Value.failsOnly_entry es key).not_escaping
  | _ => exact escaping_ok _

theorem not_escaping_keyed (key : Value) {items : List Value} (hitems : ∀ item ∈ items, item.isPlain) :
    ¬ Escaping ((keyed key items).runFrom σ s).1 := by
  unfold keyed
  split
  · exact escaping_ok _
  · refine not_escaping_mapM fun item hitem t => ?_
    simp only [escaping_runFrom_bind, escaping_pure, and_false, exists_false, or_false]
    exact not_escaping_property key (hitems item hitem)

/-! ## Filters -/

/-- An operation of a filter on its value and all its arguments comes upon something that is too large. -/
def Overflows (loops : Loops) (f : BuiltinFilter) (v : Value) (args : List Value) : Prop :=
  match f, args with
  | .plus, [w] | .minus, [w] | .times, [w] =>
    ∃ a b, v.toNumber loops = .ok a ∧ w.toNumber loops = .ok b ∧ a.Clashes b
  | .dividedBy, [w] | .modulo, [w] =>
    ∃ a b, v.toNumber loops = .ok a ∧ w.toNumber loops = .ok b ∧ b.isZero = false ∧ a.Clashes b
  | .round, [digits] => digits.IsInfinite ∨
    ∃ places, digits.toInt loops = .ok places ∧ ∃ a, v.toNumber loops = .ok a ∧ a.RoundsAway places
  | .truncate, [length, mark] =>
    (∃ text, v.output loops = .ok text) ∧ (∃ text, mark.output loops = .ok text) ∧ length.IsInfinite
  | .join, [glue] => (∃ text, glue.output loops = .ok text) ∧ v.IsTooLong
  | .first, _ | .last, _ | .reverse, _ | .size, _ | .uniq, _ | .sort, [_] | .map, [_] | .default, [_, _] =>
    v.IsTooLong
  | _, _ => False

section

variable {v : Value}

theorem escaping_apply_join (v glue : Value) :
    Escaping ((join.apply v [glue]).runFrom σ s).1 ↔ join.Overflows s.loops v [glue] := by
  have htexts (items : List Value) : ¬ Escaping ((items.mapM charsOf).runFrom σ s).1 :=
    not_escaping_mapM fun item _ _ => not_escaping_charsOf item
  simp only [apply, Overflows, escaping_charsOf_bind, escaping_ofOutcome_bind, Filter.escaping_items]
  simp only [escaping_runFrom_bind, htexts, escaping_pure, and_false, exists_false, or_false, exists_and_right]

theorem escaping_apply_sort (hv : v.isPlain) (key : Value) :
    Escaping ((sort.apply v [key]).runFrom σ s).1 ↔ sort.Overflows s.loops v [key] := by
  simp only [apply, Overflows, escaping_ofOutcome_bind, Filter.escaping_items]
  refine or_iff_left ?_
  rintro ⟨items, hitems, hsort⟩
  have hkeyed := not_escaping_keyed (σ := σ) (s := s) key (Value.valueClosed_isPlain.filterItems hv hitems)
  simp only [escaping_runFrom_bind, hkeyed, runFrom_ofOutcome, Filter.not_escaping_sortKeyed, escaping_pure,
    and_false, exists_false, or_false] at hsort

theorem escaping_apply_map (hv : v.isPlain) (key : Value) :
    Escaping ((map.apply v [key]).runFrom σ s).1 ↔ map.Overflows s.loops v [key] := by
  simp only [apply, Overflows, escaping_ofOutcome_bind, Filter.escaping_items]
  refine or_iff_left ?_
  rintro ⟨items, hitems, hmap⟩
  have hplain := Value.valueClosed_isPlain.filterItems hv hitems
  have hproperties : ¬ Escaping ((items.mapM (property key)).runFrom σ s).1 :=
    not_escaping_mapM fun item hitem _ => not_escaping_property key (hplain item hitem)
  simp only [escaping_runFrom_bind, hproperties, escaping_pure, and_false, exists_false, or_false] at hmap

theorem escaping_apply_default (v fallback allowFalse : Value) :
    Escaping ((default.apply v [fallback, allowFalse]).runFrom σ s).1 ↔
      default.Overflows s.loops v [fallback, allowFalse] := by
  simp only [apply, Overflows, escaping_ofOutcome_bind, Filter.escaping_isMissing]
  refine or_iff_left ?_
  rintro ⟨missing, -, h⟩
  cases missing <;> exact escaping_ok _ h

/-- **A built-in filter on a plain value lets nothing escape but what overflows.** -/
theorem escaping_apply {f : BuiltinFilter} (hv : v.isPlain) (args : List Value) :
    Escaping ((f.apply v args).runFrom σ s).1 ↔ f.Overflows s.loops v args := by
  -- with the wrong number of arguments a filter would give its value
  cases f with
  | capitalize | downcase | upcase | strip | lstrip | rstrip =>
    simp only [apply, Overflows, not_escaping_onText]
  | escape =>
    cases v with
    | nil => exact escaping_pure _
    | _ => exact iff_false_intro (not_escaping_onText _ _)
  | append | prepend | remove | split =>
    match args with
    | [w] => simp only [apply, Overflows, escaping_charsOf_bind, escaping_pure, and_false, exists_false]
    | [] | _ :: _ :: _ => simp only [apply, Overflows, escaping_pure]
  | replace =>
    match args with
    | [old, new] => simp only [apply, Overflows, escaping_charsOf_bind, escaping_pure, and_false, exists_false]
    | [] | [_] | _ :: _ :: _ :: _ => simp only [apply, Overflows, escaping_pure]
  | truncate =>
    match args with
    | [length, mark] =>
      simp only [apply, Overflows, escaping_charsOf_bind, escaping_intOf_bind, escaping_pure, and_false,
        exists_false, or_false, exists_and_right]
    | [] | [_] | _ :: _ :: _ :: _ => simp only [apply, Overflows, escaping_pure]
  | abs => simp only [apply, Overflows, escaping_numberOf_bind, escaping_pure, and_false, exists_false]
  | plus | minus | times | dividedBy | modulo | atLeast | atMost =>
    match args with
    | [w] =>
      simp only [apply, Overflows, escaping_onNumbers, Numeric.add, Numeric.sub, Numeric.mul,
        Numeric.escaping_combine, Filter.escaping_dividedBy, Filter.escaping_modulo, escaping_ok, and_false,
        exists_false]
    | [] | _ :: _ :: _ => simp only [apply, Overflows, escaping_pure]
  | round =>
    match args with
    | [digits] =>
      simp only [apply, Overflows, escaping_numberOf_bind, escaping_intOf_bind, escaping_ofOutcome_bind,
        Filter.escaping_round, escaping_pure, and_false, exists_false, or_false]
    | [] | _ :: _ :: _ => simp only [apply, Overflows, escaping_pure]
  | first | last | reverse | uniq | size =>
    simp only [apply, Overflows, escaping_ofOutcome_bind, Filter.escaping_members, Filter.escaping_items,
      Filter.escaping_size, escaping_pure, and_false, exists_false, or_false]
  | join =>
    match args with
    | [glue] => exact escaping_apply_join v glue
    | [] | _ :: _ :: _ => simp only [apply, Overflows, escaping_pure]
  | sort =>
    match args with
    | [key] => exact escaping_apply_sort hv key
    | [] | _ :: _ :: _ => simp only [apply, Overflows, escaping_pure]
  | map =>
    match args with
    | [key] => exact escaping_apply_map hv key
    | [] | _ :: _ :: _ => simp only [apply, Overflows, escaping_pure]
  | default =>
    match args with
    | [fallback, allowFalse] => exact escaping_apply_default v fallback allowFalse
    | [] | [_] | _ :: _ :: _ :: _ => simp only [apply, Overflows, escaping_pure]

end

end BuiltinFilter

/-! ## Invoking -/

/-- The outcome is a value, or an error of the template. -/
def EndsInTemplate (x : Outcome α) : Prop := (∃ a, x = .ok a) ∨ ∃ e, x = .error (.template e)

theorem endsInTemplate_error_iff (e : Failure) : EndsInTemplate (.error e : Outcome α) ↔ ¬ e.IsHost := by
  cases e <;> simp [EndsInTemplate, Failure.IsHost]

namespace Filter

theorem isHost_blame_iff (name : String) (e : Failure) : (blame name e).IsHost ↔ e.Escapes := by
  cases e with
  | template error => simp [blame, Failure.IsHost]
  | host h =>
    obtain ⟨cause, text⟩ := h
    cases cause <;>
      simp [blame, Failure.IsHost, Failure.Escapes, Failure.IsMisuse, Failure.badType, Failure.badValue]

/-- What a filter is blamed for ends in the template, and all else escapes. -/
theorem endsInTemplate_blame_iff (name : String) (x : Outcome α) :
    EndsInTemplate (x.mapError (blame name)) ↔ ¬ Escaping x := by
  cases x with
  | ok a => exact iff_of_true (.inl ⟨a, rfl⟩) (escaping_ok a)
  | error e =>
    rw [escaping_error, ← isHost_blame_iff name e]
    exact endsInTemplate_error_iff _

end Filter

open Stencil.Filter

/-- **A built-in filter on a plain value ends in the template unless something overflows.** It gives a value or
fails with an error of the template for all arguments, except in two cases: a keyword has one of three reserved
names, or the arguments fit the parameters and an operation of the filter comes upon something that is too
large. -/
theorem builtin_filters_end_in_template {name : String} {f : BuiltinFilter} {v : Value}
    (hfilter : σ.filters.get? name = some (.builtin f)) (hv : v.isPlain) (args : List Value)
    (kwargs : Named Value) :
    EndsInTemplate ((invoke name v args kwargs).runFrom σ s).1 ↔
      (∀ entry ∈ kwargs, entry.1 ∉ reservedKeywords) ∧
        ∀ vs, Parameters.bind f.function f.parameters args kwargs = .ok vs → ¬ f.Overflows s.loops v vs := by
  cases hfind : kwargs.find? (reservedKeywords.contains ·.1) with
  | some entry =>
    have hreserved : entry.1 ∈ reservedKeywords := by
      have hcontains := List.find?_some hfind
      rwa [List.contains_iff_mem] at hcontains
    have hinvoke : ∃ text, ((invoke name v args kwargs).runFrom σ s).1 = .error (.badType text) := by
      unfold invoke
      rw [hfind]
      exact ⟨_, rfl⟩
    obtain ⟨text, htext⟩ := hinvoke
    rw [htext, endsInTemplate_error_iff]
    exact iff_of_false (fun h => h ⟨_, rfl⟩)
      fun h => h.1 entry (List.mem_of_find?_eq_some hfind) hreserved
  | none =>
    have hfree : ∀ entry ∈ kwargs, entry.1 ∉ reservedKeywords := fun entry hentry hmem =>
      List.find?_eq_none.mp hfind entry hentry (List.contains_iff_mem.mpr hmem)
    rw [runFrom_invoke hfind hfilter, endsInTemplate_blame_iff, and_iff_right hfree]
    cases hbind : Parameters.bind f.function f.parameters args kwargs with
    | error e =>
      have hmisuse := Parameters.failsOnly_bind _ _ _ _ e hbind
      simp only [Filter.apply, hbind, runFrom_bind, runFrom_ofOutcome, escaping_error]
      refine iff_of_true hmisuse.not_escapes fun vs hvs => ?_
      cases hvs
    | ok vs =>
      rw [runFrom_apply_builtin hbind, BuiltinFilter.escaping_apply hv]
      exact ⟨fun h ws hws => Except.ok.inj hws ▸ h, fun h => h vs rfl⟩

/-- Dividing by zero is an error of the template. -/
theorem builtin_filters_end_in_template_byZero :
    EndsInTemplate ((invoke "divided_by" (.int 1) [.int 0] []).runFrom {} {}).1 := by
  refine (builtin_filters_end_in_template (f := .dividedBy) rfl rfl _ _).mpr ⟨nofun, fun vs hvs => ?_⟩
  cases hvs
  rintro ⟨a, b, -, hb, hzero, -⟩
  cases hb
  cases hzero

/-- A keyword that has the name of the filtered value, and an infinity that is to be rounded to a whole number, are
no errors of the template. A not-a-number is. -/
theorem builtin_filters_let_escape :
    ((invoke "plus" (.int 1) [.int 1] [("value", .int 2)]).runFrom {} {}).1 =
        .error (.badType "invoke() got multiple values for argument 'value'") ∧
      ((invoke "round" (.float (.infinite false)) [] []).runFrom {} {}).1 = .error .infinityToInteger ∧
      ((invoke "round" (.float (.nan 0)) [] []).runFrom {} {}).1 =
        .error (.template (.badArgument "round: cannot convert float NaN to integer")) := by
  refine ⟨rfl, rfl, rfl⟩

end Stencil
