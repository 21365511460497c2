import Mathlib
import Stencil.Proofs.Render.Alike
import Stencil.Proofs.Tree.References

/-!
# Variables that a render depends on

A render depends on the data only through the variables that its template refers to: two mappings of plain
values that agree on the referenced variables and on the names in the groups of cycles are rendered alike
(`render_depends_on_references`). The groups cannot be left out: they are evaluated in a render, and they
are not among the children of a cycle (`cycle_groups_not_referenced`).
-/

namespace Stencil

/-! ## Where paths start -/

/-- Whether the expression is a value. -/
def Expr.isValue : Expr → Bool
  | .value _ => true
  | _ => false

/-- Whether every path inside starts with a name, or with a literal in brackets. -/
def Expr.startsWithNames (e : Expr) : Bool :=
  e.subs.all fun
    | .lookup root _ => root.isValue
    | _ => true

/-- Whether every path that the body evaluates starts with a name, or with a literal in brackets. -/
def Body.startsWithNames (body : Body) : Bool :=
  (Node.partsOfBody body).all fun m => m.exprs.all Expr.startsWithNames

theorem Expr.exists_value_of_startsWithNames {e root : Expr} {path : List Step}
    (hstarts : e.startsWithNames = true) (hlookup : .lookup root path ∈ e.subs) :
    ∃ v, root = .value v := by
  have hvalue : root.isValue = true := List.all_eq_true.mp hstarts _ hlookup
  unfold isValue at hvalue
  split at hvalue
  · exact ⟨_, rfl⟩
  · cases hvalue

/-- What a body that has been read evaluates starts its paths from the variables it refers to. -/
theorem Body.known_of_wellRead {body : Body} (hread : body.All Node.WellRead)
    (hstarts : Body.startsWithNames body = true) :
    ∀ m ∈ Node.partsOfBody body, ∀ e ∈ m.exprs,
      e.Known (· ∈ (Item.document body).referencedVariables ++ Body.groupNames body) := by
  intro m hm e he
  refine ⟨(hread m hm).plain e he, fun root path hlookup => ?_⟩
  have hstart : e.startsWithNames = true :=
    List.all_eq_true.mp (List.all_eq_true.mp hstarts m hm) e he
  obtain ⟨v, rfl⟩ := Expr.exists_value_of_startsWithNames hstart hlookup
  refine ⟨v, rfl, fun name hname => ?_⟩
  subst hname
  exact Body.mem_names_of_lookup hread hm he hlookup rfl

/-! ## Renders -/

/-- **A render depends only on the variables its template refers to.** Of every template that has been read
and starts its paths with names, rendered with lax variables from the same registers: two mappings of
plain values that agree on the referenced variables and on the names in the groups of cycles give the
same report, with the same text, errors and registers. The filters of the host look no variable up. -/
theorem render_depends_on_references (reader env : Environment) (overrides : ParseOverrides)
    (name : Option String) (source : String) (t : Template) (options : RenderOptions)
    (data data' : Scope) (registers : Registers)
    (hread : (reader.parse overrides name source).1 = .ok t)
    (hstarts : t.body.startsWithNames = true)
    (hlax : options.strictVariables.getD env.strictVariables = false)
    (hfilters : ∀ name f, env.filters.get? name = some f → f.KeepsPlain)
    (hagree : Agree (· ∈ (Item.document t.body).referencedVariables ++ Body.groupNames t.body)
      data data') :
    t.render env (.ok (options, some data)) registers =
      t.render env (.ok (options, some data')) registers := by
  have hknown := Body.known_of_wellRead (wellRead_of_parse hread) hstarts
  have hstart : env.start options (some data) registers t = env.start options (some data') registers t := by
    cases hlimits : Limits.ofEntries (options.limits.getD env.limits) with
    | error e => rw [Render.start_of_refused env options hlimits, Render.start_of_refused env options hlimits]
    | ok limits =>
      rw [Render.start_of_ofEntries env options hlimits, Render.start_of_ofEntries env options hlimits]
      -- the settings differ in nothing but the data
      let σ := env.settings options limits t.name (some data)
        (env.subrenderWithin Environment.maxSubrenders)
      have hrun : Environment.run (σ.withData data) limits.counts registers t.body =
          Environment.run (σ.withData data') limits.counts registers t.body :=
        Render.run_of_agree hlax hfilters hagree hknown limits.counts registers
      exact congrArg Except.ok hrun
  simp only [Template.render, Except.bind, hstart]

/-- A greeting with a cycle whose group is a variable. -/
def greetingSource : String :=
  "\x7b\x7b user.name | append: mark \x7d\x7d\x7b% cycle g: 'a', 'b' %\x7d"

/-- What the greeting refers to. -/
def greetingData : Scope := [
  ("user", .map [(.str "name", .str "Ann")]), ("mark", .str "!"), ("g", .int 1)]

/-- Nothing else in the data makes a difference to the greeting. -/
theorem render_depends_on_references_greeting :
    ∃ t, (({} : Environment).parse {} none greetingSource).1 = .ok t ∧
      (t.render {} (.ok ({}, some greetingData)) {}).result.toOption = some "Ann!a" ∧
      t.render {} (.ok ({}, some greetingData)) {} =
        t.render {} (.ok ({}, some (greetingData ++ [("h", .int 1)]))) {} := by
  have hfound : (({} : Environment).parse {} none greetingSource).1.toOption.map (fun t =>
      (t.body.startsWithNames, (Item.document t.body).referencedVariables ++ Body.groupNames t.body,
        (t.render {} (.ok ({}, some greetingData)) {}).result.toOption)) =
      some (true, ["user", "mark", "g"], some "Ann!a") := by decide +kernel
  cases ht : (({} : Environment).parse {} none greetingSource).1 with
  | error e =>
    rw [ht] at hfound
    cases hfound
  | ok t =>
    rw [ht] at hfound
    obtain ⟨hstarts, hfound⟩ := Prod.mk.inj (Option.some.inj hfound)
    obtain ⟨hnames, htext⟩ := Prod.mk.inj hfound
    have hsame : ∀ name ∈ ["user", "mark", "g"],
        greetingData.get? name = Named.get? (greetingData ++ [("h", .int 1)]) name :=
      List.forall_mem_cons.mpr ⟨rfl, List.forall_mem_cons.mpr ⟨rfl, List.forall_mem_singleton.mpr rfl⟩⟩
    have hplain : ∀ entry ∈ greetingData, entry.2.isPlain := by decide
    have hplain' : ∀ entry ∈ greetingData ++ [("h", .int 1)], entry.2.isPlain := by decide
    exact ⟨t, rfl, htext, render_depends_on_references {} {} {} none greetingSource t {} _ _ {} ht
      hstarts rfl (fun _ _ => Filter.keepsPlain_of_builtinFilters)
      ⟨hplain, hplain', fun hname => hsame _ (hnames ▸ hname)⟩⟩

/-- Two cycles whose groups are variables. -/
def groupSource : String := "\x7b% cycle g: 'a', 'b' %\x7d\x7b% cycle h: 'a', 'b' %\x7d"

/-- The template refers to no variable, and yet its text depends on whether its groups are the same. -/
theorem cycle_groups_not_referenced :
    ∃ t, (({} : Environment).parse {} none groupSource).1 = .ok t ∧
      t.body.startsWithNames = true ∧ (Item.document t.body).referencedVariables = [] ∧
      (t.render {} (.ok ({}, some [("g", .int 1), ("h", .int 1)])) {}).result.toOption = some "ab" ∧
      (t.render {} (.ok ({}, some [("g", .int 1), ("h", .int 2)])) {}).result.toOption = some "aa" := by
  have hfound : (({} : Environment).parse {} none groupSource).1.toOption.map (fun t =>
      (t.body.startsWithNames, (Item.document t.body).referencedVariables,
        (t.render {} (.ok ({}, some [("g", .int 1), ("h", .int 1)])) {}).result.toOption,
        (t.render {} (.ok ({}, some [("g", .int 1), ("h", .int 2)])) {}).result.toOption)) =
      some (true, [], some "ab", some "aa") := by decide +kernel
  cases ht : (({} : Environment).parse {} none groupSource).1 with
  | error e =>
    rw [ht] at hfound
    cases hfound
  | ok t =>
    rw [ht] at hfound
    obtain ⟨hstarts, hfound⟩ := Prod.mk.inj (Option.some.inj hfound)
    obtain ⟨hnames, hfound⟩ := Prod.mk.inj hfound
    obtain ⟨hsame, hother⟩ := Prod.mk.inj hfound
    exact ⟨t, rfl, hstarts, hnames, hsame, hother⟩

end Stencil
