import Mathlib
import Stencil.Proofs.Render.Run

/-!
# Names that drops keep to themselves

A drop exposes the names that its class declares. The names of the interface that all drops share, and
names that start with an underscore, are internal: a step of a path to one of them is answered by the
handler for missing keys, which is given the key (`Render.handled`), and it never fails as a member of the
host can.

This holds as long as the class does not declare the name once more. A class that has its own `has_key` or
its own `missing` exposes it, like any member, and a step to it calls it without the key
(`overridden_missing_is_reachable`).
-/

namespace Stencil

namespace Drop

/-- The names of the interface that all drops share. -/
def interface : List String :=
  ["bind", "context", "has_key", "resolve", "supports", "missing", "to_liquid", "invokable_methods"]

/-- The name belongs to the inside of drops: to the interface, or it starts with an underscore. -/
def IsInternal (name : String) : Prop := name ∈ interface ∨ name.startsWith "_" = true

instance (name : String) : Decidable (IsInternal name) :=
  decidable_of_iff (name ∈ interface ∨ ['_'].isPrefixOf name.toList = true) (by simp [IsInternal])

/-- A name is exposed when it is declared, and neither private nor the one that is never exposed. -/
theorem mem_exposed_iff {α : Type} {d : Drop α} {name : String} :
    name ∈ d.exposed ↔
      name ∈ d.members.map (·.1) ++ d.overrides ∧ name.startsWith "_" = false ∧
        name ≠ "to_liquid" := by
  rw [exposed, List.mem_filter, Bool.and_eq_true, Bool.not_eq_true', bne_iff_ne]

/-- No internal name is a command. -/
theorem IsInternal.isCommand {name : String} (h : IsInternal name) : isCommand name = false := by
  have hcommands : ∀ c ∈ ["size", "first", "last"], ¬ IsInternal c := by decide
  by_contra hcommand
  simp only [Stencil.isCommand, Bool.not_eq_false, Bool.or_eq_true, beq_iff_eq] at hcommand
  exact hcommands name (by simpa [or_assoc] using hcommand) h

end Drop

/-- No internal name is an answer of loop metadata. -/
theorem LoopInfo.answer?_internal {info : LoopInfo} {name : String} (h : Drop.IsInternal name) :
    info.answer? name = none := by
  have hnames : ∀ n ∈ info.answers.map (·.1), ¬ Drop.IsInternal n := by
    cases info <;> simp only [answers, shared, List.cons_append, List.nil_append, List.map_cons,
      List.map_nil] <;> decide
  rw [answer?, Option.map_eq_none_iff, List.find?_eq_none]
  intro answer hanswer hname
  exact hnames answer.1 (List.mem_map_of_mem hanswer) (beq_iff_eq.mp hname ▸ h)

namespace Value

/-- The class of a drop declares a name as one of its own and does not keep it back. -/
def Declares (v : Value) (name : String) : Prop :=
  match v with
  | .drop _ d => name ∈ d.exposed
  | _ => False

/-- A step of a path to a name reaches the attribute of a drop: the name is declared, and accepted as a
key. -/
def Reaches (v : Value) (name : String) : Prop :=
  match v with
  | .drop _ d => name ∈ d.exposed ∧ Render.accepts d (.str name) = true
  | _ => False

end Value

namespace Render

variable {σ : Settings} {s : RenderState} {v : Value} {name : String}

/-! ## The handler for missing keys -/

/-- What an object gives that has no answer of its own: nil, or a refusal where variables are strict. -/
def refused (σ : Settings) (bound : Bool) (name : String) : Outcome Value :=
  if bound && σ.strictVariables then .error (.template (.undefinedMethod name)) else .ok .nil

/-- What the handler for missing keys gives for a name, if the object accepts the name as a key. It knows
nothing of the members of the object. -/
def handled (σ : Settings) (s : RenderState) (v : Value) (name : String) : Option (Outcome Value) :=
  match v with
  | .drop id d =>
    if accepts d (.str name) then
      some (match d.missing with
        | some text => .ok (.str (text ++ name))
        | none => refused σ (s.boundDrops.contains id) name)
    else none
  | .loop id => some (refused σ (s.boundLoops.contains id) name)
  | _ => none

theorem refused_cases (σ : Settings) (bound : Bool) (name : String) :
    refused σ bound name = .ok .nil ∨
      refused σ bound name = .error (.template (.undefinedMethod name)) := by
  unfold refused
  split
  · exact .inr rfl
  · exact .inl rfl

/-- The handler gives a text or nil, or says that the name is no method. -/
theorem handled_cases {outcome : Outcome Value} (hhandled : handled σ s v name = some outcome) :
    (∃ text, outcome = .ok (.str text)) ∨ outcome = .ok .nil ∨
      outcome = .error (.template (.undefinedMethod name)) := by
  unfold handled at hhandled
  split at hhandled
  · split at hhandled
    · cases hhandled
      split
      · exact .inl ⟨_, rfl⟩
      · exact .inr (refused_cases ..)
    · cases hhandled
  · cases hhandled
    exact .inr (refused_cases ..)
  · cases hhandled

/-- The handler does not fail as a member of the host can. -/
theorem handled_ne_host {h : HostError} : handled σ s v name ≠ some (.error (.host h)) := by
  intro hhandled
  rcases handled_cases hhandled with ⟨text, htext⟩ | hnil | hrefused
  · cases htext
  · cases hnil
  · cases hrefused

/-- A drop that does not expose a name leaves it to the handler. -/
theorem runFrom_resolve_drop (σ : Settings) (s : RenderState) (id : Nat) {d : Drop Value}
    (hhidden : name ∉ d.exposed) (haccepts : accepts d (.str name) = true) :
    ∃ answer, handled σ s (.drop id d) name = some answer ∧
      (resolve (.drop id d) (.str name)).runFrom σ s = (answer, s) := by
  have hexposed : d.exposed.contains name = false := by simpa using hhidden
  have hwritten : (Value.str name).written s.loops = .ok name := rfl
  refine ⟨_, if_pos haccepts, ?_⟩
  simp only [resolve, hexposed, Bool.not_false, if_true, missingOf]
  cases d.missing with
  | some text =>
    simp only [loops, runFrom_bind, runFrom_get, runFrom_pure, runFrom_ofOutcome, hwritten]
  | none =>
    simp only [runFrom_bind, runFrom_get, runFrom_missing, hwritten]
    rfl

/-- Loop metadata leaves an internal name to the handler. -/
theorem runFrom_resolve_loop (σ : Settings) (s : RenderState) (id : Nat)
    (hinternal : Drop.IsInternal name) :
    ∃ answer, handled σ s (.loop id) name = some answer ∧
      (resolve (.loop id) (.str name)).runFrom σ s = (answer, s) := by
  have hwritten : (Value.str name).written s.loops = .ok name := rfl
  refine ⟨_, rfl, ?_⟩
  simp only [resolve, loops, runFrom_bind, runFrom_get, runFrom_pure]
  cases s.loops[id]? with
  | none =>
    simp only [runFrom_bind, runFrom_get, runFrom_missing, hwritten]
    rfl
  | some info =>
    simp only [LoopInfo.answer?_internal hinternal, runFrom_bind, runFrom_get, runFrom_missing, hwritten]
    rfl

/-! ## Steps of paths -/

/-- **The key route.** It leads to what the handler gives. -/
theorem runFrom_key?_internal (hhost : v.isDrop = true) (hinternal : Drop.IsInternal name)
    (hreaches : ¬ v.Reaches name) :
    (key? v (.str name)).runFrom σ s =
      (match handled σ s v name with
        | some answer => answer.map some
        | none => .ok none, s.noteAsk .path v (.str name)) := by
  -- what is noted is no part of what the handler looks at
  have hsame : handled σ (s.noteAsk .path v (.str name)) v name = handled σ s v name := rfl
  rw [← hsame]
  generalize hnoted : s.noteAsk .path v (.str name) = noted
  cases v with
  | drop id d =>
    simp only [key?, runFrom_bind, runFrom_ask, hnoted]
    by_cases haccepts : accepts d (.str name) = true
    · have hhidden : name ∉ d.exposed := fun hexposed => hreaches ⟨hexposed, haccepts⟩
      obtain ⟨answer, hhandled, hresolve⟩ := runFrom_resolve_drop σ noted id hhidden haccepts
      rw [if_pos haccepts, runFrom_bind, hhandled, hresolve]
      cases answer <;> rfl
    · have hrefused : handled σ noted (.drop id d) name = none := if_neg haccepts
      rw [if_neg haccepts, hrefused]
      rfl
  | loop id =>
    obtain ⟨answer, hhandled, hresolve⟩ := runFrom_resolve_loop σ noted id hinternal
    simp only [key?, runFrom_bind, runFrom_ask, hnoted, hhandled, hresolve]
    cases answer <;> rfl
  | _ => cases hhost

/-- A name that is internal is not exposed, as long as no class declares it. -/
theorem runFrom_exposes_internal (hhost : v.isDrop = true) (hinternal : Drop.IsInternal name)
    (hdeclares : ¬ v.Declares name) : (exposes v name).runFrom σ s = (.ok false, s) := by
  cases v with
  | drop id d =>
    have hexposed : d.exposed.contains name = false := by simpa [Value.Declares] using hdeclares
    simp only [exposes, hexposed, runFrom_pure]
  | loop id =>
    simp only [exposes, loops, runFrom_bind, runFrom_get, runFrom_pure]
    cases s.loops[id]? with
    | none => rfl
    | some info => simp only [Option.any_some, LoopInfo.answer?_internal hinternal, Option.isSome_none]
  | _ => cases hhost

/-- **The command route.** It leads nowhere. -/
theorem runFrom_command?_internal (hhost : v.isDrop = true) (hinternal : Drop.IsInternal name)
    (hdeclares : ¬ v.Declares name) :
    (command? v name).runFrom σ s = (.ok none, s.noteAsk .path v (.str name)) := by
  simp only [command?, runFrom_bind, runFrom_ask, runFrom_exposes_internal hhost hinternal hdeclares,
    Bool.false_eq_true, if_false]
  -- none of the three commands has an internal name
  split
  · exact absurd hinternal (by decide)
  · exact absurd hinternal (by decide)
  · exact absurd hinternal (by decide)
  · rfl

/-- What the handler gives is a text or nil, which binds nothing. -/
theorem runFrom_bind_handled {answer : Value} {t : RenderState}
    (hhandled : handled σ s v name = some (.ok answer)) :
    (Render.bind (unwrap answer)).runFrom σ t = (.ok answer, t) := by
  rcases handled_cases hhandled with ⟨text, htext⟩ | hnil | hrefused
  · cases htext
    rfl
  · cases hnil
    rfl
  · cases hrefused

/-- **Step lemma.** A step to an internal name leads to what the handler gives. -/
theorem runFrom_step?_internal (hhost : v.isDrop = true) (hinternal : Drop.IsInternal name)
    (hreaches : ¬ v.Reaches name) :
    (step? v (.str name) none).runFrom σ s =
      (match handled σ s v name with
        | some answer => answer.map some
        | none => .ok none, s.noteAsk .path v (.str name)) := by
  rw [step?, runFrom_bind, runFrom_key?_internal hhost hinternal hreaches]
  cases hhandled : handled σ s v name with
  | none => rfl
  | some outcome =>
    cases outcome with
    | error e => rfl
    | ok answer =>
      simp only [Except.map, runFrom_bind, runFrom_bind_handled hhandled, runFrom_pure]

/-- The attribute of a drop with a name, read or called without arguments. -/
def declared (id : Nat) (d : Drop Value) (name : String) : Render Value :=
  match d.member? name with
  | some m => member id m
  | none => throw (missingArgument name "key")

/-- A step that reaches an attribute reads it. -/
theorem runFrom_step?_reached {id : Nat} {d : Drop Value} (hreaches : (Value.drop id d).Reaches name) :
    (step? (.drop id d) (.str name) none).runFrom σ s =
      (do return some (← Render.bind (unwrap (← declared id d name))) :
        Render (Option Value)).runFrom σ (s.noteAsk .path (.drop id d) (.str name)) := by
  have hexposed : d.exposed.contains name = true := List.contains_iff_mem.mpr hreaches.1
  have hresolve : resolve (.drop id d) (.str name) = declared id d name := by
    simp only [resolve, hexposed, Bool.not_true, Bool.false_eq_true, if_false]
    rfl
  simp only [step?, key?, runFrom_bind, runFrom_ask, hreaches.2, if_true, hresolve]
  rcases (declared id d name).runFrom σ _ with ⟨_ | found, u⟩
  · rfl
  · simp only [runFrom_pure, runFrom_bind]

end Render

open Render

/-- A step names a key: it is that name, or its index gives that text. The index leaves the second state. -/
def Step.Names (step : Step) (σ : Settings) (s t : RenderState) (name : String) : Prop :=
  match step with
  | .name n => n = name ∧ t = s
  | .index e => e.evaluate.runFrom σ s = (.ok (.str name), t)

/-- A path goes on from where its first step leads, if that is no command. -/
theorem Expr.runFrom_follow_names {σ : Settings} {s t : RenderState} {name : String} {step : Step}
    (hnames : step.Names σ s t name) (hcommand : isCommand name = false) (rest : List Step) (v : Value) :
    (follow (step :: rest) v).runFrom σ s =
      match (step? v (.str name) none).runFrom σ t with
      | (.ok (some next), u) => (follow rest next).runFrom σ u
      | (.ok none, u) => (lost (.str name)).runFrom σ u
      | (.error e, u) => (.error e, u) := by
  cases step with
  | name n =>
    obtain ⟨rfl, rfl⟩ := hnames
    rw [follow, hcommand, if_neg Bool.false_ne_true, runFrom_bind]
    rcases (step? v (.str n) none).runFrom σ t with ⟨_ | _ | next, u⟩ <;> rfl
  | index e =>
    have hkey : e.evaluate.runFrom σ s = (.ok (.str name), t) := hnames
    rw [follow, runFrom_bind, hkey]
    dsimp only
    rw [runFrom_bind]
    rcases (step? v (.str name) none).runFrom σ t with ⟨_ | _ | next, u⟩ <;> rfl

/-- A name that leads nowhere gives nil or an error of the template. -/
theorem Render.lost_ne_host {σ : Settings} {s : RenderState} {name : String} {h : HostError} :
    ((lost (.str name)).runFrom σ s).1 ≠ .error (.host h) := by
  have hwritten : (Value.str name).written s.loops = .ok name := rfl
  rw [runFrom_lost, hwritten]
  cases σ.strictVariables <;> simp [Except.bind]

/-- **Paths leave internal names to the handler for missing keys.** For every host object and every name of
the interface of drops or with an underscore in front: a step that names it leads to what the handler gives
for the name, or nowhere if the name is not accepted as a key, and never ends with an internal error, unless
the class of the object declares the name once more and accepts it; a step to such a name reads the
attribute. A command of that name finds nothing either. -/
theorem internal_names_are_hidden (v : Value) (name : String) (hhost : v.isDrop = true)
    (hinternal : Drop.IsInternal name) :
    (¬ v.Reaches name → ∀ σ s t step, step.Names σ s t name →
      (∀ rest, (Expr.follow (step :: rest) v).runFrom σ s =
        match handled σ t v name with
        | some (.ok answer) => (Expr.follow rest answer).runFrom σ (t.noteAsk .path v (.str name))
        | some (.error e) => (.error e, t.noteAsk .path v (.str name))
        | none => (lost (.str name)).runFrom σ (t.noteAsk .path v (.str name))) ∧
      ∀ h, ((Expr.follow [step] v).runFrom σ s).1 ≠ .error (.host h)) ∧
    (¬ v.Declares name → ∀ σ s,
      (command? v name).runFrom σ s = (.ok none, s.noteAsk .path v (.str name))) ∧
    ∀ id d, v = .drop id d → v.Reaches name → ∀ σ s t step, step.Names σ s t name → ∀ rest,
      (Expr.follow (step :: rest) v).runFrom σ s =
        (do Expr.follow rest (← Render.bind (unwrap (← declared id d name)))).runFrom σ
          (t.noteAsk .path v (.str name)) := by
  -- a step with an internal name never falls back to a command
  have hcommand := hinternal.isCommand
  refine ⟨?_, ?_, ?_⟩
  · intro hreaches σ s t step hnames
    have hfollow (rest : List Step) : (Expr.follow (step :: rest) v).runFrom σ s =
        match handled σ t v name with
        | some (.ok answer) => (Expr.follow rest answer).runFrom σ (t.noteAsk .path v (.str name))
        | some (.error e) => (.error e, t.noteAsk .path v (.str name))
        | none => (lost (.str name)).runFrom σ (t.noteAsk .path v (.str name)) := by
      rw [Expr.runFrom_follow_names hnames hcommand,
        runFrom_step?_internal hhost hinternal hreaches]
      rcases handled σ t v name with _ | (e | answer) <;> rfl
    refine ⟨hfollow, ?_⟩
    intro h
    rw [hfollow]
    cases hhandled : handled σ t v name with
    | none => exact lost_ne_host
    | some outcome =>
      cases outcome with
      | ok answer =>
        dsimp only
        rw [Expr.follow, runFrom_pure]
        intro hfails
        cases hfails
      | error e =>
        rintro ⟨rfl⟩
        exact handled_ne_host hhandled
  · intro hdeclares σ s
    exact runFrom_command?_internal hhost hinternal hdeclares
  · rintro id d rfl hreaches σ s t step hnames rest
    rw [Expr.runFrom_follow_names hnames hcommand, runFrom_step?_reached hreaches]
    simp only [runFrom_bind]
    rcases (declared id d name).runFrom σ _ with ⟨_ | value, u⟩
    · rfl
    · simp only [runFrom_bindHost, runFrom_pure]

/-- A drop with a method, whose class has a handler for missing keys of its own. -/
def answeringDrop : Value :=
  .drop 0 { name := "answering", members := [("title", .method (.str "WIDGET"))], keys := none
            missing := some "no ", items := none, slices := none }

/-- The settings of a render with such a drop. -/
def answeringSettings : Settings where
  environments := [[("d", answeringDrop)]]

/-- A name of the drop is put out. -/
def answeringNode (name : String) : Node := .output {
  pipeline := { expr := .lookup (.value (.str "d")) [.name name] }
  markup := "d." ++ name, line := some 1 }

/-- A method of the interface that the class leaves alone is a missing key. -/
theorem internal_names_are_hidden_bind :
    answeringDrop.isDrop = true ∧ Drop.IsInternal "bind" ∧ ¬ answeringDrop.Reaches "bind" ∧
      ((Expr.follow [.name "bind"] answeringDrop).runFrom answeringSettings {}).1 =
        .ok (.str "no bind") := by
  have hinternal : Drop.IsInternal "bind" := by decide
  have hreaches : ¬ answeringDrop.Reaches "bind" := fun hreaches =>
    absurd (Drop.mem_exposed_iff.mp hreaches.1).1 (by decide)
  have hfollow := ((internal_names_are_hidden answeringDrop "bind" rfl hinternal).1 hreaches
    answeringSettings {} {} (.name "bind") ⟨rfl, rfl⟩).1 []
  exact ⟨rfl, hinternal, hreaches, by rw [hfollow]; cbv⟩

/-- The handler that the class has of its own is exposed, and is called without a key. -/
theorem overridden_missing_is_reachable :
    (Environment.run answeringSettings {} {} [answeringNode "missing"]).result =
        .ok "Ladle error (line 1): internal" ∧
      ¬ ∀ (v : Value) (name : String), v.isDrop = true → Drop.IsInternal name →
        ∀ σ s h, ((Expr.follow [.name name] v).runFrom σ s).1 ≠ .error (.host h) := by
  refine ⟨by cbv, ?_⟩
  intro hall
  have hfails : ((Expr.follow [.name "missing"] answeringDrop).runFrom answeringSettings {}).1 =
      .error (missingArgument "missing" "key") := by cbv
  exact hall answeringDrop "missing" rfl (by decide) answeringSettings {} _ hfails

end Stencil
