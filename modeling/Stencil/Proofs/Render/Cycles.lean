import Stencil.Proofs.Render.Kept
import Stencil.Proofs.Render.OwnSteps
import Stencil.Proofs.Render.ScopeDiscipline
import Stencil.Proofs.Value.Equality

/-!
# Cycles take turns

The registers keep for each group of cycles which value is next, and which values have been taken so far.
What is kept for a group is what follows from the last value it took (`Registers.IsInStep`), whatever other
groups did in between, and wherever a render was cut off.

* `CycleOutcome`: what becomes of a cycle. It takes the value that is next in its group, or fails before that
  and changes nothing.
* `isInStep_run`, `isInStep_afterRenders`: the registers stay in step through all renders that share them.
* `cycles_take_turns`: the groups go round their values.
-/

namespace Stencil

open Render

/-! ## Keys -/

namespace Value

/-- A value that can be a key holds no mapping. -/
theorem isWellKeyed_of_unhashable? {v : Value} (hv : v.unhashable? = none) : v.isWellKeyed := by
  have hitems {xs : List Value} (h : unhashableAmong? xs = none) : ∀ x ∈ xs, x.unhashable? = none := by
    induction xs with
    | nil => exact fun _ hx => nomatch hx
    | cons x xs ih =>
      rw [unhashableAmong?, Option.or_eq_none_iff] at h
      exact List.forall_mem_cons.mpr ⟨h.1, ih h.2⟩
  induction v using Value.induction with
  | simple v hsimple => cases v <;> first | rfl | cases hsimple
  | list xs => simp [unhashable?] at hv
  | map es => simp [unhashable?] at hv
  | tuple xs ih =>
    rw [unhashable?] at hv
    exact areAllWellKeyed_iff.mpr fun x hx => ih x hx (hitems hv x hx)

/-- Equal keys are equal to the same values. -/
theorem matchesItem_congr {k l : Value} (hk : k.unhashable? = none) (h : matchesItem k l = true)
    (v : Value) : matchesItem k v = matchesItem l v := by
  have hsymm : matchesItem l k = true :=
    matchesItem_symm_of (fun _ => eqv_symm (isWellKeyed_of_unhashable? hk)) h
  exact Bool.eq_iff_iff.mpr ⟨matchesItem_trans hsymm, matchesItem_trans h⟩

/-- Metadata of a loop is equal to itself alone. -/
theorem eq_of_loop_matchesItem {id : Nat} {v : Value} (h : matchesItem (.loop id) v = true) :
    v = .loop id := by
  cases v <;> simp [matchesItem, sameMark, eqv] at h ⊢
  exact h.symm

theorem eq_of_matchesItem_loop {id : Nat} {v : Value} (h : matchesItem v (.loop id) = true) :
    v = .loop id := by
  cases v <;> simp [matchesItem, sameMark, eqv, sameNumber, numeric?] at h ⊢
  exact h

end Value

/-! ## What is next in a group -/

/-- The value was taken in the group of a key. -/
def Turn.isOf (t : Turn) (key : Value) : Bool := t.key.any (Value.matchesItem · key)

/-- The place of the value that comes behind the one that was taken. -/
def Turn.next (t : Turn) : Nat := (t.index + 1) % t.values.length

/-- The values that were taken in the group of a key, first one first. -/
def turnsOf (key : Value) (turns : List Turn) : List Turn := (turns.filter (·.isOf key)).reverse

/-- What comes behind the last value that was taken in a group. -/
def nextAfter (turns : List Turn) (key : Value) : Nat := (turns.find? (·.isOf key)).elim 0 Turn.next

/-- Every value was taken where its group had come to. -/
def InOrder : List Turn → Prop
  | [] => True
  | t :: earlier => InOrder earlier ∧ ∀ key ∈ t.key, key.unhashable? = none ∧
      t.index = nextAfter earlier key % t.values.length

theorem nextAfter_cons (t : Turn) (turns : List Turn) (key : Value) :
    nextAfter (t :: turns) key = if t.isOf key then t.next else nextAfter turns key := by
  unfold nextAfter
  rw [List.find?_cons]
  split <;> simp [*]

theorem turnsOf_cons (key : Value) (t : Turn) (turns : List Turn) :
    turnsOf key (t :: turns) = turnsOf key turns ++ if t.isOf key then [t] else [] := by
  unfold turnsOf
  rw [List.filter_cons]
  split <;> simp

/-- Keys that are equal belong to one group. -/
theorem isOf_congr {turns : List Turn} (horder : InOrder turns) {k l : Value}
    (h : Value.matchesItem k l = true) (hk : k.unhashable? = none) {t : Turn} (ht : t ∈ turns) :
    t.isOf k = t.isOf l := by
  induction turns with
  | nil => cases ht
  | cons first earlier ih =>
    rcases List.mem_cons.mp ht with rfl | ht
    · cases hkey : t.key with
      | none => simp [Turn.isOf, hkey]
      | some key =>
        have hhashable := (horder.2 key hkey).1
        simp only [Turn.isOf, hkey, Option.any_some]
        refine Bool.eq_iff_iff.mpr ⟨fun hmatch => Value.matchesItem_trans hmatch h, fun hmatch => ?_⟩
        have hsymm : Value.matchesItem l k = true :=
          Value.matchesItem_symm_of (fun _ => Value.eqv_symm (Value.isWellKeyed_of_unhashable? hk)) h
        exact Value.matchesItem_trans hmatch hsymm
    · exact ih horder.1 ht

theorem nextAfter_congr {turns : List Turn} (horder : InOrder turns) {k l : Value}
    (h : Value.matchesItem k l = true) (hk : k.unhashable? = none) :
    nextAfter turns k = nextAfter turns l := by
  unfold nextAfter
  rw [List.find?_congr fun t ht => isOf_congr horder h hk ht]

/-- **A group whose cycles list equally many values goes round them**, whatever other groups do. Induction on
the values that were taken: the next one comes as far behind as values were taken. -/
theorem index_of_inOrder {turns : List Turn} (horder : InOrder turns) {key : Value} {n : Nat}
    (hlists : ∀ t ∈ turnsOf key turns, t.values.length = n) :
    nextAfter turns key = (turnsOf key turns).length % n ∧
      ∀ i t, (turnsOf key turns)[i]? = some t → t.index = i % n := by
  induction turns with
  | nil => exact ⟨(Nat.zero_mod n).symm, fun i t h => nomatch h⟩
  | cons last earlier ih =>
    rw [turnsOf_cons] at hlists ⊢
    obtain ⟨hearlier, hlast⟩ := List.forall_mem_append.mp hlists
    obtain ⟨hnext, hindex⟩ := ih horder.1 hearlier
    rw [nextAfter_cons]
    by_cases hof : last.isOf key = true
    · rw [if_pos hof] at hlast ⊢
      rw [if_pos hof]
      have hlength := hlast last (List.mem_singleton_self last)
      obtain ⟨own, hown, hmatch⟩ : ∃ own, last.key = some own ∧ Value.matchesItem own key = true := by
        simpa [Turn.isOf, Option.any_eq_true] using hof
      obtain ⟨hhashable, hplace⟩ := horder.2 own hown
      -- the value was taken where the group of the key had come to
      have hlastIndex : last.index = (turnsOf key earlier).length % n := by
        rw [hplace, hlength, nextAfter_congr horder.1 hmatch hhashable, hnext, Nat.mod_mod]
      refine ⟨?_, fun i t hget => ?_⟩
      · rw [Turn.next, hlength, hlastIndex, List.length_append, List.length_singleton, Nat.mod_add_mod]
      · rw [List.getElem?_append] at hget
        split at hget
        · exact hindex i t hget
        · rw [List.getElem?_singleton] at hget
          split at hget
          · cases hget
            rw [hlastIndex]
            congr 1
            omega
          · cases hget
    · rw [if_neg hof, if_neg hof, List.append_nil]
      exact ⟨hnext, hindex⟩

/-! ## Registers in step -/

namespace Registers

/-- The place of the next value of a group. -/
def next (r : Registers) (key : Value) : Nat := nextOf (r.cycles.getD []) key

/-- What is kept for each group follows from the values that were taken. -/
structure IsInStep (r : Registers) : Prop where
  keys : ∀ g ∈ r.cycles.getD [], ∀ key ∈ g.key, key.unhashable? = none
  next : ∀ key, r.next key = nextAfter r.turns key
  order : InOrder r.turns

/-- The registers after a value was taken. -/
def taking (r : Registers) (key : Value) (values : List Expr) (index : Nat) : Registers :=
  { r with
    cycles := some (setNext (r.cycles.getD []) key ((index + 1) % values.length))
    turns := { key := some key, values, index } :: r.turns }

/-- What is kept for cycles is the same, perhaps in a store that was made by now. -/
structure SameCycles (r r' : Registers) : Prop where
  groups : r'.cycles.getD [] = r.cycles.getD []
  turns : r'.turns = r.turns

variable {r r' : Registers} {key : Value}

theorem SameCycles.next (h : SameCycles r r') (key : Value) : r'.next key = r.next key := by
  rw [Registers.next, Registers.next, h.groups]

theorem IsInStep.same (h : r.IsInStep) (hsame : SameCycles r r') : r'.IsInStep where
  keys := hsame.groups ▸ h.keys
  next key := by rw [hsame.next, hsame.turns, h.next]
  order := hsame.turns ▸ h.order

theorem isInStep_empty : IsInStep {} := ⟨fun _ h => (nomatch h), fun _ => rfl, trivial⟩

theorem CycleGroup.hasKey_iff {g : CycleGroup} {key : Value} :
    CycleGroup.hasKey g key = true ↔ ∃ own, g.key = some own ∧ Value.matchesItem own key = true :=
  Option.any_eq_true _ _

theorem nextOf_cons (g : CycleGroup) (groups : List CycleGroup) (key : Value) :
    nextOf (g :: groups) key = if CycleGroup.hasKey g key then g.next else nextOf groups key := by
  unfold nextOf
  rw [List.find?_cons]
  cases CycleGroup.hasKey g key <;> rfl

/-- Noting the next value of a group makes no difference to other groups. -/
theorem nextOf_setNext {groups : List CycleGroup}
    (hkeys : ∀ g ∈ groups, ∀ key ∈ g.key, key.unhashable? = none) (hkey : key.unhashable? = none)
    (place : Nat) (other : Value) :
    nextOf (setNext groups key place) other =
      if Value.matchesItem key other then place else nextOf groups other := by
  induction groups with
  | nil =>
    cases hmatch : Value.matchesItem key other <;>
      simp [nextOf, setNext, CycleGroup.hasKey, hmatch]
  | cons g rest ih =>
    obtain ⟨hg, hrest⟩ := List.forall_mem_cons.mp hkeys
    rw [setNext]
    by_cases hhas : CycleGroup.hasKey g key = true
    · -- the group is that of the key, so that it has the same values as the key
      obtain ⟨own, hown, hmatch⟩ := CycleGroup.hasKey_iff.mp hhas
      have hsame : CycleGroup.hasKey g other = Value.matchesItem key other := by
        rw [CycleGroup.hasKey, hown, Option.any_some]
        exact Value.matchesItem_congr (hg own hown) hmatch other
      rw [if_pos hhas, nextOf_cons, nextOf_cons]
      show (if CycleGroup.hasKey g other then place else _) = _
      rw [hsame]
      split <;> rfl
    · rw [if_neg hhas, nextOf_cons, nextOf_cons, ih hrest]
      by_cases hother : CycleGroup.hasKey g other = true
      · -- another value in this group is not equal to the key
        have hne : Value.matchesItem key other = false := by
          rw [← Bool.not_eq_true]
          intro hmatch
          obtain ⟨own, hown, hmatch'⟩ := CycleGroup.hasKey_iff.mp hother
          have hsymm : Value.matchesItem other key = true := Value.matchesItem_symm_of
            (fun _ => Value.eqv_symm (Value.isWellKeyed_of_unhashable? hkey)) hmatch
          exact hhas (CycleGroup.hasKey_iff.mpr ⟨own, hown, Value.matchesItem_trans hmatch' hsymm⟩)
        rw [if_pos hother, if_pos hother, hne]
        rfl
      · rw [if_neg hother, if_neg hother]

theorem mem_key_setNext {groups : List CycleGroup} {place : Nat} {k : Value} {g : CycleGroup}
    (hg : g ∈ setNext groups key place) (hk : g.key = some k) :
    k = key ∨ ∃ g' ∈ groups, g'.key = some k := by
  induction groups with
  | nil =>
    obtain rfl := List.mem_singleton.mp hg
    exact .inl (Option.some.inj hk).symm
  | cons first rest ih =>
    rw [setNext] at hg
    split at hg
    · rcases List.mem_cons.mp hg with rfl | hg
      · exact .inr ⟨first, List.mem_cons_self, hk⟩
      · exact .inr ⟨g, List.mem_cons_of_mem _ hg, hk⟩
    · rcases List.mem_cons.mp hg with rfl | hg
      · exact .inr ⟨g, List.mem_cons_self, hk⟩
      · rcases ih hg with h | ⟨g', hg', hk'⟩
        · exact .inl h
        · exact .inr ⟨g', List.mem_cons_of_mem _ hg', hk'⟩

/-- Taking the next value of a group keeps the registers in step. -/
theorem IsInStep.taking (h : r.IsInStep) (hkey : key.unhashable? = none) (values : List Expr) :
    (r.taking key values (r.next key % values.length)).IsInStep where
  keys g hg k hk := by
    rcases mem_key_setNext hg hk with rfl | ⟨g', hg', hk'⟩
    · exact hkey
    · exact h.keys g' hg' k hk'
  next other := by
    change nextOf (setNext (r.cycles.getD []) key _) other = nextAfter (_ :: r.turns) other
    rw [nextOf_setNext h.keys hkey, nextAfter_cons, ← h.next]
    rfl
  order := by
    refine ⟨h.order, fun k hk => ?_⟩
    obtain rfl := Option.some.inj hk
    exact ⟨hkey, by rw [h.next]⟩

/-! ## Between renders -/

/-- What is left of a key when its render is finished. -/
def retiredKey (key : Option Value) : Option Value := if key.any isOfRender then none else key

theorem isOfRender_iff : isOfRender key = true ↔ ∃ id, key = .loop id := by
  cases key <;> simp [isOfRender]

/-- A key that is left is equal to the same values, but for objects of the finished render. -/
theorem any_retiredKey (own : Option Value) (key : Value) :
    (retiredKey own).any (Value.matchesItem · key) =
      (own.any (Value.matchesItem · key) && !isOfRender key) := by
  cases own with
  | none => rfl
  | some k =>
    simp only [retiredKey, Option.any_some]
    cases hmatch : Value.matchesItem k key with
    | false =>
      split
      · rfl
      · rw [Option.any_some, hmatch]
        rfl
    | true =>
      -- of two equal values, both are objects of the render or neither
      have hsame : isOfRender k = isOfRender key := by
        refine Bool.eq_iff_iff.mpr ⟨fun hk => ?_, fun hkey => ?_⟩
        · obtain ⟨id, rfl⟩ := isOfRender_iff.mp hk
          rw [Value.eq_of_loop_matchesItem hmatch]
          rfl
        · obtain ⟨id, rfl⟩ := isOfRender_iff.mp hkey
          rw [Value.eq_of_matchesItem_loop hmatch]
          rfl
      cases hkey : isOfRender key <;> simp [hsame, hkey, hmatch]

/-- What is kept for a key is the same when keys are retired; nothing is kept for an object of the finished
render. -/
theorem elim_find?_retired {α : Type} (keyOf : α → Option Value) (place : α → Nat) (retired : α → α)
    (hkey : ∀ a, keyOf (retired a) = retiredKey (keyOf a)) (hplace : ∀ a, place (retired a) = place a)
    (as : List α) (key : Value) :
    ((as.map retired).find? fun a => (keyOf a).any (Value.matchesItem · key)).elim 0 place =
      if isOfRender key then 0
      else (as.find? fun a => (keyOf a).any (Value.matchesItem · key)).elim 0 place := by
  induction as with
  | nil => simp
  | cons a as ih =>
    rw [List.map_cons, List.find?_cons, List.find?_cons, hkey, any_retiredKey]
    cases hrender : isOfRender key with
    | true =>
      rw [hrender] at ih
      simpa using ih
    | false =>
      rw [hrender] at ih
      cases (keyOf a).any (Value.matchesItem · key) with
      | true => simp [hplace]
      | false => simpa using ih

/-- What is left of a value that was taken. -/
def retiredTurn (t : Turn) : Turn := { t with key := retiredKey t.key }

theorem turns_retire (r : Registers) : r.retire.turns = r.turns.map retiredTurn := by
  refine List.map_congr_left fun t _ => ?_
  unfold retiredTurn retiredKey
  split <;> rfl

/-- What is left of a group. -/
def retiredGroup (g : CycleGroup) : CycleGroup := { g with key := retiredKey g.key }

theorem groups_retire (r : Registers) :
    r.retire.cycles.getD [] = (r.cycles.getD []).map retiredGroup := by
  unfold retire
  cases r.cycles with
  | none => rfl
  | some groups =>
    refine List.map_congr_left fun g _ => ?_
    unfold retiredGroup retiredKey
    split <;> rfl

theorem eq_of_retiredKey_eq_some {own : Option Value} (h : retiredKey own = some key) :
    own = some key ∧ isOfRender key = false := by
  unfold retiredKey at h
  split at h
  · cases h
  · next hrender =>
    rw [h] at hrender
    exact ⟨h, by simpa using hrender⟩

theorem nextAfter_retired (turns : List Turn) (key : Value) :
    nextAfter (turns.map retiredTurn) key = if isOfRender key then 0 else nextAfter turns key :=
  elim_find?_retired Turn.key Turn.next retiredTurn (fun _ => rfl) (fun _ => rfl) turns key

theorem inOrder_retired {turns : List Turn} (h : InOrder turns) : InOrder (turns.map retiredTurn) := by
  induction turns with
  | nil => trivial
  | cons t earlier ih =>
    refine ⟨ih h.1, fun key hkey => ?_⟩
    obtain ⟨hown, hrender⟩ := eq_of_retiredKey_eq_some hkey
    obtain ⟨hhashable, hindex⟩ := h.2 key hown
    refine ⟨hhashable, ?_⟩
    rw [nextAfter_retired, hrender]
    exact hindex

/-- The registers that the next render finds are in step. -/
theorem IsInStep.retire (h : r.IsInStep) : r.retire.IsInStep where
  keys g hg key hkey := by
    rw [groups_retire] at hg
    obtain ⟨g', hg', rfl⟩ := List.mem_map.mp hg
    exact h.keys g' hg' key (eq_of_retiredKey_eq_some hkey).1
  next key := by
    rw [turns_retire, nextAfter_retired, ← h.next, Registers.next, groups_retire]
    exact elim_find?_retired CycleGroup.key CycleGroup.next retiredGroup (fun _ => rfl) (fun _ => rfl) _ key
  order := by
    rw [turns_retire]
    exact inOrder_retired h.order

end Registers

/-! ## Cycles -/

namespace Render

variable {σ : Settings} {s t : RenderState} {group : Expr} {values : List Expr}

theorem evaluationRelation_registers : EvaluationRelation fun _ s t => t.registers = s.registers where
  refl _ _ := rfl
  trans hst htu := htu.trans hst
  bound _ _ _ := rfl
  notices _ _ _ := rfl

/-- Evaluations leave the registers alone. -/
theorem registers_of_evaluate {e : Expr} {o : Outcome Value} (hrun : e.evaluate.runFrom σ s = (o, t)) :
    t.registers = s.registers :=
  ((evaluationRelation_registers.asking fun _ _ _ => rfl).evaluate e).of_run hrun

/-- What a cycle comes to: the outcome, and the state it leaves. -/
inductive CycleOutcome (σ : Settings) (group : Expr) (values : List Expr) (s : RenderState) :
    Outcome String × RenderState → Prop
  /-- Without values there is nothing to put out. -/
  | nothing (hvalues : values = []) : CycleOutcome σ group values s (.ok "", s)
  /-- The group has no value: it stays where it is, like all others. -/
  | groupFails {e : Failure} {t u : RenderState} (ht : Registers.SameCycles s.registers t.registers)
    (hgroup : group.evaluate.runFrom σ t = (.error e, u))
    (hu : Registers.SameCycles s.registers u.registers) : CycleOutcome σ group values s (.error e, u)
  /-- The value of the group cannot be a key. -/
  | noKey {key : Value} {type : String} {t u : RenderState}
    (ht : Registers.SameCycles s.registers t.registers)
    (hgroup : group.evaluate.runFrom σ t = (.ok key, u)) (hkey : key.unhashable? = some type)
    (hu : Registers.SameCycles s.registers u.registers) :
    CycleOutcome σ group values s (.error (.unhashable type), u)
  /-- The value that is next in the group fails: the group stays where it is. -/
  | valueFails {key : Value} {value : Expr} {e : Failure} {t u v : RenderState}
    (ht : Registers.SameCycles s.registers t.registers)
    (hgroup : group.evaluate.runFrom σ t = (.ok key, u)) (hkey : key.unhashable? = none)
    (hvalue : values[s.registers.next key % values.length]? = some value)
    (hfails : value.evaluate.runFrom σ u = (.error e, v))
    (hv : Registers.SameCycles s.registers v.registers) : CycleOutcome σ group values s (.error e, v)
  /-- The value that is next in the group is put out, and is noted as taken. -/
  | takes {key v : Value} {value : Expr} {t u w : RenderState}
    (ht : Registers.SameCycles s.registers t.registers)
    (hgroup : group.evaluate.runFrom σ t = (.ok key, u)) (hkey : key.unhashable? = none)
    (hvalue : values[s.registers.next key % values.length]? = some value)
    (heval : value.evaluate.runFrom σ u = (.ok v, w))
    (hw : Registers.SameCycles s.registers w.registers) :
    CycleOutcome σ group values s (v.output w.loops, { w with
      registers := w.registers.taking key values (s.registers.next key % values.length) })

/-- **Every cycle takes the value that is next in its group, or fails before that and leaves all groups as
they are.** -/
theorem cycleOutcome_cycle (σ : Settings) (group : Expr) (values : List Expr) (s : RenderState) :
    CycleOutcome σ group values s ((cycle group values).runFrom σ s) := by
  unfold cycle
  by_cases hvalues : values = []
  · simp only [hvalues, List.isEmpty_nil, if_true]
    exact .nothing rfl
  · have hempty : values.isEmpty = false := by simpa using hvalues
    simp only [hempty, Bool.false_eq_true, if_false, runFrom_bind, runFrom_modifyRegisters]
    have hopened : Registers.SameCycles s.registers
        { s.registers with cycles := some (s.registers.cycles.getD []) } := ⟨rfl, rfl⟩
    cases hgroup : group.evaluate.runFrom σ { s with
        registers := { s.registers with cycles := some (s.registers.cycles.getD []) } } with
    | mk o u =>
      have hu : Registers.SameCycles s.registers u.registers := registers_of_evaluate hgroup ▸ hopened
      cases o with
      | error e => exact .groupFails hopened hgroup hu
      | ok key =>
        dsimp only
        cases hkey : key.unhashable? with
        | some type => exact .noKey hopened hgroup hkey hu
        | none =>
          have hnext : nextOf (u.registers.cycles.getD []) key = s.registers.next key := hu.next key
          have hlt : s.registers.next key % values.length < values.length :=
            Nat.mod_lt _ (List.length_pos_iff.mpr hvalues)
          have hvalue := List.getElem?_eq_getElem hlt
          simp only [runFrom_bind, runFrom_registers, hnext, hvalue, Option.getD_some]
          cases heval : (values[s.registers.next key % values.length]).evaluate.runFrom σ u with
          | mk o w =>
            have hw : Registers.SameCycles s.registers w.registers := registers_of_evaluate heval ▸ hu
            cases o with
            | error e => exact .valueFails hopened hgroup hkey hvalue heval hw
            | ok v =>
              change CycleOutcome σ group values s ((outputText v).runFrom σ { w with
                registers := w.registers.taking key values (s.registers.next key % values.length) })
              rw [runFrom_outputText]
              exact .takes hopened hgroup hkey hvalue heval hw

/-! ## Renders -/

/-- Leads from registers in step to registers in step, however the step ends. -/
def StaysInStep (_ : Settings) (s t : RenderState) : Prop :=
  s.registers.IsInStep → t.registers.IsInStep

/-- Changes that leave the groups alone keep them in step. -/
theorem StaysInStep.of_same (h : Registers.SameCycles s.registers t.registers) : StaysInStep σ s t :=
  fun hs => hs.same h

theorem evaluationRelation_staysInStep : EvaluationRelation StaysInStep where
  refl _ _ hs := hs
  trans hst htu hs := htu (hst hs)
  bound _ _ _ hs := hs
  notices _ _ _ hs := hs

/-- A cycle keeps the groups in step. One case for each way it ends. -/
theorem staysInStep_cycle (group : Expr) (values : List Expr) :
    Keeps StaysInStep String (cycle group values) := by
  intro σ s
  have houtcome := cycleOutcome_cycle σ group values s
  generalize (cycle group values).runFrom σ s = out at houtcome ⊢
  cases houtcome with
  | nothing => exact fun hs => hs
  | groupFails _ _ hu => exact .of_same hu
  | noKey _ _ _ hu => exact .of_same hu
  | valueFails _ _ _ _ _ hv => exact .of_same hv
  | takes _ _ hkey _ _ hw =>
    intro hs
    have htaking := (hs.same hw).taking hkey values
    rwa [hw.next] at htaking

theorem staysInStep_modifyScopes (f : List Scope → List Scope) :
    Keeps StaysInStep Unit (modifyScopes f) := by
  intro σ s
  rw [runFrom_modifyScopes]
  split <;> exact .of_same ⟨rfl, rfl⟩

theorem ownClosed_staysInStep : OwnClosed (Keeps StaysInStep) where
  toEvaluates := (evaluationRelation_staysInStep.asking fun _ _ _ hs => hs).evaluates
  assign _ _ := staysInStep_modifyScopes _
  countAssigned _ _ _ hs := hs
  registers _ _ hs := hs
  openStore _ _ := .of_same ⟨rfl, rfl⟩
  visit _ _ _ := .of_same ⟨rfl, rfl⟩
  noteShown _ _ _ := .of_same ⟨rfl, rfl⟩
  addLoop _ _ _ hs := hs
  cycle := staysInStep_cycle

theorem treeClosed_staysInStep :
    TreeClosed (Keeps StaysInStep) (Keeps StaysInStep) fun _ => True where
  pure := ownClosed_staysInStep.pure
  bind := ownClosed_staysInStep.bind
  loops _ _ hs := hs
  innermostLoop _ _ hs := hs
  countScore _ _ _ hs := hs
  addLoop := ownClosed_staysInStep.addLoop
  advanceLoop _ _ _ hs := hs
  withLoop {α} {x} id hx := by
    intro σ s hs
    rw [runFrom_withLoop]
    have hbefore : (s.enterLoop id).registers.IsInStep := hs.same ⟨rfl, rfl⟩
    exact (hx σ _ hbefore).same ⟨rfl, rfl⟩
  withScope {α} {x} scope _ hx := by
    intro σ s
    rw [runFrom_withScope]
    split
    · exact fun hs => hs
    · exact hx σ { s with scopes := scope :: s.scopes }
  inner hx := hx
  innerBind := ownClosed_staysInStep.bind
  setLocal _ _ _ := staysInStep_modifyScopes _
  loopValue _ := trivial

theorem staysInStep_handle (e : Failure) (line : Option Int) :
    Keeps StaysInStep String (handle e line) := by
  intro σ s
  rw [runFrom_handle]
  exact .of_same ⟨rfl, rfl⟩

theorem carries_staysInStep (node : Node) : Carries (Keeps StaysInStep) (fun _ => True) node where
  own := ownClosed_staysInStep.own node
  placed := evaluationRelation_staysInStep.keeps_placed (fun length σ s => by
    rw [runFrom_countLength]
    exact .of_same ⟨rfl, rfl⟩) staysInStep_handle node

/-- **A render keeps the groups in step**, however it ends. -/
theorem isInStep_run (body : Body) (σ : Settings) (counts : Counts) {r : Registers} (hr : r.IsInStep) :
    (Environment.run σ counts r body).state.registers.IsInStep :=
  evaluationRelation_staysInStep.keeps_renderWhole staysInStep_handle body
    (treeClosed_staysInStep.body body fun m _ => carries_staysInStep m) σ { registers := r, counts } hr

end Render

/-- So do renders that share their registers, and those that cannot be started. -/
theorem isInStep_render (env : Environment) (call : Outcome (RenderOptions × Option Scope)) {r : Registers}
    (hr : r.IsInStep) (t : Template) : (t.render env call r).registers.IsInStep := by
  unfold Template.render
  cases call with
  | error e => exact hr
  | ok given =>
    obtain ⟨options, data⟩ := given
    dsimp only [Except.bind]
    cases hstart : env.start options data r t with
    | error e => exact hr
    | ok finished =>
      obtain ⟨limits, hlimits, rfl⟩ := start_eq_ok hstart
      exact (isInStep_run t.body _ _ hr).retire

theorem isInStep_afterRenders {r : Registers} (hr : r.IsInStep) (renders : List SharedRender) :
    (r.afterRenders renders).IsInStep := by
  induction renders generalizing r with
  | nil => exact hr
  | cons one renders ih => exact ih (isInStep_render one.env one.call hr one.template)

/-- **Cycles take turns.** Renders of any templates share registers that are empty at first, and another
render goes on from there; each may end in any way. If all values that were taken in the group of a key were
taken by cycles that list `n` values, the `i`-th of them was at place `i % n` of its cycle, whatever the cycles
of other groups did in between. And a cycle, whenever it is rendered, takes and puts out the value that is next
in its group, or fails before that and changes no group. -/
theorem cycles_take_turns (renders : List SharedRender) (σ : Settings) (counts : Counts) (body : Body)
    {key : Value} {n : Nat}
    (hlists : ∀ t ∈ turnsOf key
      (Environment.run σ counts (Registers.afterRenders {} renders) body).state.registers.turns,
      t.values.length = n) :
    (∀ i t, (turnsOf key
      (Environment.run σ counts (Registers.afterRenders {} renders) body).state.registers.turns)[i]? =
        some t → t.index = i % n) ∧
      ∀ (group : Expr) (values : List Expr) (s : RenderState),
        CycleOutcome σ group values s ((cycle group values).runFrom σ s) := by
  have hstart := isInStep_afterRenders Registers.isInStep_empty renders
  have horder := (isInStep_run body σ counts hstart).order
  exact ⟨(index_of_inOrder horder hlists).2, cycleOutcome_cycle σ⟩

/-- A cycle of texts in a group of some name. -/
def textCycle (group : String) (texts : List String) : Node :=
  .cycle ⟨"cycle", "", some 1⟩ (.value (.str group)) (texts.map fun text => .value (.str text))

/-- Three cycles of one group, and one of another group between them. -/
def twoGroups : Body :=
  [textCycle "g" ["a", "b"], textCycle "h" ["x"], textCycle "g" ["c", "d"], textCycle "g" ["e", "f"]]

/-- A second render goes on where the first one stopped. -/
theorem cycles_take_turns_twoGroups :
    (Environment.run {} {} (Registers.afterRenders {} [⟨{}, { body := twoGroups }, .ok ({}, none)⟩])
        twoGroups).result.toOption = some "bxcf" ∧
      (turnsOf (.str "g") (Environment.run {} {} (Registers.afterRenders {}
        [⟨{}, { body := twoGroups }, .ok ({}, none)⟩]) twoGroups).state.registers.turns).length = 6 ∧
      ∀ i t, (turnsOf (.str "g") (Environment.run {} {} (Registers.afterRenders {}
        [⟨{}, { body := twoGroups }, .ok ({}, none)⟩]) twoGroups).state.registers.turns)[i]? = some t →
          t.index = i % 2 := by
  have hlists : ∀ t ∈ turnsOf (.str "g") (Environment.run {} {} (Registers.afterRenders {}
      [⟨{}, { body := twoGroups }, .ok ({}, none)⟩]) twoGroups).state.registers.turns,
      t.values.length = 2 := by decide
  exact ⟨by decide, by decide, (cycles_take_turns _ {} {} twoGroups hlists).1⟩

end Stencil
