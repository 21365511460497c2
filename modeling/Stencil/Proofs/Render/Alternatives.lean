import Mathlib.Data.List.Induction
import Stencil.Proofs.Render.Entered

/-!
# Alternatives of a case

The parts of a case are gone through once, with one mark of whether any alternative has been equal to the
subject.

* `Tested σ subject alternatives s hits t`: testing alternatives one after another from `s`, each with its
  body, `hits` are those that are equal to the subject with what their bodies put out.
* `Chooses σ subject first fallback others s out t`: what a case does when the alternatives in front of its
  first else are `first` and those behind it are `others`.
* `renderClauses_eq_ok_iff`: this is how the parts of a case end well.

The others are not tested if none of the first ones is equal to the subject and there is an else. If no
alternative stands behind the else, it is rendered only if there is no match at all.
-/

namespace Stencil

namespace Render

variable {σ : Settings} {subject : Expr} {s t u : RenderState} {out : String}

/-! ## Testing alternatives -/

/-- The alternatives of the parts of a case, each with its body. -/
def alternatives (clauses : List (Option (List Expr) × Body)) : List (Expr × Body) :=
  clauses.flatMap fun clause => (clause.1.getD []).map (·, clause.2)

/-- The body behind the first else of a case. -/
def fallback? (clauses : List (Option (List Expr) × Body)) : Option Body :=
  (clauses.find? (·.1.isNone)).map (·.2)

/-- Alternatives are tested one after another, and the body of each that is equal to the subject is rendered,
where the test left off. Nothing fails, and no body gives a signal. -/
inductive Tested (σ : Settings) (subject : Expr) :
    List (Expr × Body) → RenderState → List (Body × String) → RenderState → Prop
  | nil {s : RenderState} : Tested σ subject [] s [] s
  | differs {value : Expr} {body : Body} {rest : List (Expr × Body)} {s t u : RenderState}
    {hits : List (Body × String)}
    (hholds : (Comparison.holds { left := subject, operator := some "==", right := value }).runFrom σ s =
      (.ok false, t)) (hrest : Tested σ subject rest t hits u) :
    Tested σ subject ((value, body) :: rest) s hits u
  | equals {value : Expr} {body : Body} {rest : List (Expr × Body)} {s t t' u : RenderState}
    {text : String} {hits : List (Body × String)}
    (hholds : (Comparison.holds { left := subject, operator := some "==", right := value }).runFrom σ s =
      (.ok true, t)) (hbody : body.render.runFrom σ t = (.ok { text }, t'))
    (hrest : Tested σ subject rest t' hits u) :
    Tested σ subject ((value, body) :: rest) s ((body, text) :: hits) u

/-- What the bodies put out, one after another. -/
def textOf (hits : List (Body × String)) : String := String.join (hits.map (·.2))

theorem textOf_append (hits more : List (Body × String)) :
    textOf (hits ++ more) = textOf hits ++ textOf more := by
  rw [textOf, List.map_append, String.join_append]
  rfl

theorem textOf_cons (body : Body) (text : String) (hits : List (Body × String)) :
    textOf ((body, text) :: hits) = text ++ textOf hits := by
  rw [textOf, List.map_cons, String.join_cons]
  rfl

/-- Alternatives are tested up to some point, and then from there on. -/
theorem tested_append_iff {first second : List (Expr × Body)} {all : List (Body × String)} :
    Tested σ subject (first ++ second) s all t ↔ ∃ hits more u, all = hits ++ more ∧
      Tested σ subject first s hits u ∧ Tested σ subject second u more t := by
  induction first generalizing s all with
  | nil =>
    constructor
    · exact fun h => ⟨[], all, s, rfl, .nil, h⟩
    · rintro ⟨hits, more, u, rfl, hfirst, hsecond⟩
      cases hfirst
      exact hsecond
  | cons one rest ih =>
    constructor
    · intro h
      cases h with
      | differs hholds hrest =>
        obtain ⟨hits, more, u, rfl, hfirst, hsecond⟩ := ih.mp hrest
        exact ⟨hits, more, u, rfl, .differs hholds hfirst, hsecond⟩
      | equals hholds hbody hrest =>
        obtain ⟨hits, more, u, rfl, hfirst, hsecond⟩ := ih.mp hrest
        exact ⟨_, more, u, rfl, .equals hholds hbody hfirst, hsecond⟩
    · rintro ⟨hits, more, u, rfl, hfirst, hsecond⟩
      cases hfirst with
      | differs hholds hrest => exact .differs hholds (ih.mpr ⟨_, more, u, rfl, hrest, hsecond⟩)
      | equals hholds hbody hrest =>
        exact .equals hholds hbody (ih.mpr ⟨_, more, u, rfl, hrest, hsecond⟩)

/-- The alternatives of one body are tested, and whether one is equal is marked. -/
theorem Tested.renderAlternatives {values : List Expr} {body : Body} {hits : List (Body × String)}
    (h : Tested σ subject (values.map (·, body)) s hits t) (matched : Bool) :
    (Render.renderAlternatives subject body.render matched values).runFrom σ s =
      (.ok ({ text := textOf hits }, matched || !hits.isEmpty), t) := by
  induction values generalizing s hits matched with
  | nil =>
    cases h
    rw [Render.renderAlternatives, runFrom_pure, List.isEmpty_nil, Bool.not_true, Bool.or_false]
    rfl
  | cons value rest ih =>
    cases h with
    | differs hholds hrest =>
      rw [runFrom_renderAlternatives_cons, hholds]
      exact ih hrest matched
    | equals hholds hbody hrest =>
      rw [runFrom_renderAlternatives_cons, hholds]
      dsimp only
      rw [hbody]
      dsimp only
      rw [ih hrest true, textOf_cons, Bool.true_or, List.isEmpty_cons, Bool.not_false, Bool.or_true]
      rfl

/-- And in no other way do they end well, without a signal. -/
theorem exists_tested_of_renderAlternatives {values : List Expr} {body : Body} {matched matched' : Bool}
    {r : Rendered} (hsignal : r.signal = none)
    (hrun : (Render.renderAlternatives subject body.render matched values).runFrom σ s =
      (.ok (r, matched'), t)) :
    ∃ hits, Tested σ subject (values.map (·, body)) s hits t ∧ r = { text := textOf hits } ∧
      matched' = (matched || !hits.isEmpty) := by
  induction values generalizing s matched r with
  | nil =>
    rw [Render.renderAlternatives] at hrun
    cases hrun
    exact ⟨[], .nil, rfl, by simp⟩
  | cons value rest ih =>
    obtain ⟨holds, u, hholds, hcases⟩ := renderAlternatives_cons_eq_ok hrun
    rcases hcases with ⟨rfl, hrest⟩ | ⟨rfl, first, w, hbody, hend⟩
    · obtain ⟨hits, htested, hr, hmatched⟩ := ih hsignal hrest
      exact ⟨hits, .differs hholds htested, hr, hmatched⟩
    · rcases hend with ⟨hsome, rfl, -⟩ | ⟨hnone, more, hrest, rfl⟩
      · rw [hsignal] at hsome
        cases hsome
      · have hmoreSignal : more.signal = none := hsignal
        obtain ⟨hits, htested, hmore, hmatched⟩ := ih hmoreSignal hrest
        obtain ⟨text, signal⟩ := first
        cases hnone
        refine ⟨(body, text) :: hits, .equals hholds hbody htested, ?_, ?_⟩
        · rw [hmore, textOf_cons]
        · rw [hmatched, Bool.true_or, List.isEmpty_cons, Bool.not_false, Bool.or_true]

/-! ## Going through the parts of a case -/

/-- A part with alternatives ends well without a signal just if testing them does, and then the other parts
do, from there on. -/
theorem renderClauses_some_eq_ok_iff {values : List Expr} {body : Body} {matched : Bool}
    {rest : List (Option (List Expr) × Body)} :
    (Node.renderClauses ((some values, body) :: rest) subject matched).runFrom σ s =
        (.ok { text := out }, t) ↔
      ∃ hits u more, Tested σ subject (values.map (·, body)) s hits u ∧
        (Node.renderClauses rest subject (matched || !hits.isEmpty)).runFrom σ u =
          (.ok { text := more }, t) ∧ out = textOf hits ++ more := by
  constructor
  · intro hrun
    obtain ⟨first, matched', u, hvalues, hend⟩ := renderClauses_cons_eq_ok hrun
    rcases hend with ⟨hsome, rfl, -⟩ | ⟨hnone, more, hrest, hr⟩
    · cases hsome
    · obtain ⟨hits, htested, rfl, rfl⟩ := exists_tested_of_renderAlternatives hnone hvalues
      obtain ⟨text, signal⟩ := more
      cases hr
      exact ⟨hits, u, text, htested, hrest, rfl⟩
  · rintro ⟨hits, u, more, htested, hrest, rfl⟩
    rw [runFrom_renderClauses_cons, htested.renderAlternatives matched]
    dsimp only [followedBy]
    rw [hrest]
    rfl

/-- Behind a match, an else is passed over. -/
theorem renderClauses_matched_eq_ok_iff {clauses : List (Option (List Expr) × Body)} :
    (Node.renderClauses clauses subject true).runFrom σ s = (.ok { text := out }, t) ↔
      ∃ hits, Tested σ subject (alternatives clauses) s hits t ∧ out = textOf hits := by
  induction clauses generalizing s out with
  | nil =>
    rw [Node.renderClauses, runFrom_pure]
    constructor
    · intro hrun
      cases hrun
      exact ⟨[], .nil, rfl⟩
    · rintro ⟨hits, htested, rfl⟩
      cases htested
      rfl
  | cons clause rest ih =>
    obtain ⟨values | values, body⟩ := clause
    · rw [Node.renderClauses]
      exact ih
    · rw [renderClauses_some_eq_ok_iff]
      constructor
      · rintro ⟨hits, u, more, hvalues, hrest, rfl⟩
        obtain ⟨later, hlater, rfl⟩ := ih.mp hrest
        exact ⟨hits ++ later, tested_append_iff.mpr ⟨hits, later, u, rfl, hvalues, hlater⟩,
          (textOf_append hits later).symm⟩
      · rintro ⟨all, htested, rfl⟩
        obtain ⟨hits, later, u, rfl, hvalues, hlater⟩ := tested_append_iff.mp htested
        exact ⟨hits, u, textOf later, hvalues, ih.mpr ⟨later, hlater, rfl⟩, textOf_append hits later⟩

/-- What a case does: it tests alternatives; if one of them is equal to the subject, it tests others as well
and puts out what all their bodies do; else it renders its fallback, if it has one. -/
inductive Chooses (σ : Settings) (subject : Expr) (first : List (Expr × Body)) (fallback : Option Body)
    (others : List (Expr × Body)) (s : RenderState) : String → RenderState → Prop
  | matching {hits more : List (Body × String)} {t u : RenderState}
    (hfirst : Tested σ subject first s hits u) (hsome : hits ≠ [])
    (hothers : Tested σ subject others u more t) :
    Chooses σ subject first fallback others s (textOf (hits ++ more)) t
  | otherwise {body : Body} {text : String} {t u : RenderState}
    (hfirst : Tested σ subject first s [] u) (hfallback : fallback = some body)
    (hbody : body.render.runFrom σ u = (.ok { text }, t)) :
    Chooses σ subject first fallback others s text t
  | nothing {t : RenderState} (hfirst : Tested σ subject first s [] t) (hnone : fallback = none) :
    Chooses σ subject first fallback others s "" t

/-- With no alternatives in front, a fallback is rendered at once. -/
theorem chooses_fallback_iff {body : Body} {others : List (Expr × Body)} :
    Chooses σ subject [] (some body) others s out t ↔ body.render.runFrom σ s = (.ok { text := out }, t) := by
  constructor
  · intro hchooses
    cases hchooses with
    | matching hfirst hsome => cases hfirst; exact absurd rfl hsome
    | otherwise hfirst hfallback hbody =>
      cases hfirst
      cases hfallback
      exact hbody
    | nothing _ hfallback => cases hfallback
  · exact fun hbody => .otherwise .nil rfl hbody

/-- With neither alternatives in front nor a fallback, nothing is done. -/
theorem chooses_nothing_iff {others : List (Expr × Body)} :
    Chooses σ subject [] none others s out t ↔ out = "" ∧ t = s := by
  constructor
  · intro hchooses
    cases hchooses with
    | matching hfirst hsome => cases hfirst; exact absurd rfl hsome
    | otherwise _ hfallback => cases hfallback
    | nothing hfirst => cases hfirst; exact ⟨rfl, rfl⟩
  · rintro ⟨rfl, rfl⟩
    exact .nothing .nil rfl

/-- Of the alternatives that are tested first, some are tested before the others. -/
theorem chooses_append_iff {front first others : List (Expr × Body)} {fallback : Option Body} :
    Chooses σ subject (front ++ first) fallback others s out t ↔
      ∃ hits u, Tested σ subject front s hits u ∧
        (hits = [] ∧ Chooses σ subject first fallback others u out t ∨
          hits ≠ [] ∧ ∃ more, Tested σ subject (first ++ others) u more t ∧
            out = textOf (hits ++ more)) := by
  constructor
  · intro h
    cases h with
    | matching hfirst hsome hothers =>
      obtain ⟨hits, more, u, rfl, hfront, hrest⟩ := tested_append_iff.mp hfirst
      refine ⟨hits, u, hfront, ?_⟩
      by_cases hnone : hits = []
      · subst hnone
        exact .inl ⟨rfl, .matching hrest hsome hothers⟩
      · exact .inr ⟨hnone, _, tested_append_iff.mpr ⟨more, _, _, rfl, hrest, hothers⟩,
          by rw [List.append_assoc]⟩
    | otherwise hfirst hfallback hbody =>
      obtain ⟨hits, more, u, hnone, hfront, hrest⟩ := tested_append_iff.mp hfirst
      obtain ⟨rfl, rfl⟩ := List.append_eq_nil_iff.mp hnone.symm
      exact ⟨[], u, hfront, .inl ⟨rfl, .otherwise hrest hfallback hbody⟩⟩
    | nothing hfirst hfallback =>
      obtain ⟨hits, more, u, hnone, hfront, hrest⟩ := tested_append_iff.mp hfirst
      obtain ⟨rfl, rfl⟩ := List.append_eq_nil_iff.mp hnone.symm
      exact ⟨[], u, hfront, .inl ⟨rfl, .nothing hrest hfallback⟩⟩
  · rintro ⟨hits, u, hfront, ⟨rfl, hchooses⟩ | ⟨hsome, more, hmore, rfl⟩⟩
    · cases hchooses with
      | matching hfirst hsome hothers =>
        exact .matching (tested_append_iff.mpr ⟨[], _, u, rfl, hfront, hfirst⟩) hsome hothers
      | otherwise hfirst hfallback hbody =>
        exact .otherwise (tested_append_iff.mpr ⟨[], [], u, rfl, hfront, hfirst⟩) hfallback hbody
      | nothing hfirst hfallback =>
        exact .nothing (tested_append_iff.mpr ⟨[], [], u, rfl, hfront, hfirst⟩) hfallback
    · obtain ⟨later, last, v, rfl, hfirst, hothers⟩ := tested_append_iff.mp hmore
      rw [← List.append_assoc]
      refine .matching (tested_append_iff.mpr ⟨hits, later, u, rfl, hfront, hfirst⟩) ?_ hothers
      exact fun h => hsome (List.append_eq_nil_iff.mp h).1

theorem alternatives_takeWhile_append (clauses : List (Option (List Expr) × Body)) :
    alternatives (clauses.takeWhile (·.1.isSome)) ++ alternatives (clauses.dropWhile (·.1.isSome)) =
      alternatives clauses := by
  rw [alternatives, alternatives, alternatives, ← List.flatMap_append, List.takeWhile_append_dropWhile]

/-- **How a case ends well without a signal.** Induction on its parts: one with alternatives is tested in
front of the others, and an else ends the case. -/
theorem renderClauses_eq_ok_iff {clauses : List (Option (List Expr) × Body)} :
    (Node.renderClauses clauses subject false).runFrom σ s = (.ok { text := out }, t) ↔
      Chooses σ subject (alternatives (clauses.takeWhile (·.1.isSome))) (fallback? clauses)
        (alternatives (clauses.dropWhile (·.1.isSome))) s out t := by
  induction clauses generalizing s out with
  | nil =>
    rw [Node.renderClauses, runFrom_pure]
    refine Iff.trans ?_ chooses_nothing_iff.symm
    constructor
    · rintro ⟨⟩
      exact ⟨rfl, rfl⟩
    · rintro ⟨rfl, rfl⟩
      rfl
  | cons clause rest ih =>
    obtain ⟨values | values, body⟩ := clause
    · rw [Node.renderClauses]
      exact chooses_fallback_iff.symm
    · rw [renderClauses_some_eq_ok_iff]
      have hfront : alternatives (((some values, body) :: rest).takeWhile (·.1.isSome)) =
          values.map (·, body) ++ alternatives (rest.takeWhile (·.1.isSome)) := rfl
      have hback : alternatives (((some values, body) :: rest).dropWhile (·.1.isSome)) =
          alternatives (rest.dropWhile (·.1.isSome)) := rfl
      have hfallback : fallback? ((some values, body) :: rest) = fallback? rest := rfl
      rw [hfront, hback, hfallback, chooses_append_iff, alternatives_takeWhile_append]
      constructor
      · rintro ⟨hits, u, more, hvalues, hrest, rfl⟩
        refine ⟨hits, u, hvalues, ?_⟩
        cases hits with
        | nil => exact .inl ⟨rfl, ih.mp hrest⟩
        | cons hit hits =>
          obtain ⟨later, hlater, rfl⟩ := renderClauses_matched_eq_ok_iff.mp hrest
          exact .inr ⟨List.cons_ne_nil _ _, later, hlater, (textOf_append _ later).symm⟩
      · rintro ⟨hits, u, hvalues, ⟨rfl, hchooses⟩ | ⟨hsome, more, hmore, rfl⟩⟩
        · exact ⟨[], u, out, hvalues, ih.mpr hchooses, rfl⟩
        · refine ⟨hits, u, textOf more, hvalues, ?_, textOf_append hits more⟩
          rw [Bool.false_or, List.isEmpty_eq_false_iff.mpr hsome, Bool.not_false]
          exact renderClauses_matched_eq_ok_iff.mpr ⟨more, hmore, rfl⟩

/-- If no alternative stands behind the first else, all are tested in front of it. -/
theorem alternatives_of_else_last {clauses : List (Option (List Expr) × Body)}
    (hlast : ∀ clause ∈ clauses.dropWhile (·.1.isSome), clause.1 = none) :
    alternatives (clauses.takeWhile (·.1.isSome)) = alternatives clauses ∧
      alternatives (clauses.dropWhile (·.1.isSome)) = [] := by
  have hnone : alternatives (clauses.dropWhile (·.1.isSome)) = [] := by
    rw [alternatives, List.flatMap_eq_nil_iff]
    intro clause hclause
    rw [hlast clause hclause]
    rfl
  refine ⟨?_, hnone⟩
  rw [← alternatives_takeWhile_append clauses, hnone, List.append_nil]

/-! ## Cases that end well -/

/-- Nothing fails and no signal is given where a case gets to: an alternative that is reached can be compared
with the subject, a body that is rendered for one ends well, and so does the fallback. -/
structure Undisturbed (σ : Settings) (subject : Expr) (all : List (Expr × Body)) (fallback : Option Body)
    (s : RenderState) : Prop where
  compares : ∀ front value body back hits u, all = front ++ (value, body) :: back →
    Tested σ subject front s hits u → ∃ holds t,
      (Comparison.holds { left := subject, operator := some "==", right := value }).runFrom σ u =
        (.ok holds, t) ∧ (holds = true → ∃ text v, body.render.runFrom σ t = (.ok { text }, v))
  falls : ∀ body u, fallback = some body → Tested σ subject all s [] u →
    ∃ text t, body.render.runFrom σ u = (.ok { text }, t)

/-- All alternatives of an undisturbed case can be tested. Induction on those that have been, the last one
first: what is known is where each of them is reached. -/
theorem Undisturbed.exists_tested {all : List (Expr × Body)} {fallback : Option Body}
    (h : Undisturbed σ subject all fallback s) : ∃ hits t, Tested σ subject all s hits t := by
  have hfront (front back : List (Expr × Body)) (hall : all = front ++ back) :
      ∃ hits t, Tested σ subject front s hits t := by
    induction front using List.reverseRecOn generalizing back with
    | nil => exact ⟨[], s, .nil⟩
    | append_singleton front one ih =>
      rw [List.append_assoc, List.singleton_append] at hall
      obtain ⟨hits, u, htested⟩ := ih (one :: back) hall
      obtain ⟨holds, t, hholds, hbody⟩ := h.compares front one.1 one.2 back hits u hall htested
      cases holds with
      | false => exact ⟨_, t, tested_append_iff.mpr ⟨hits, [], u, rfl, htested, .differs hholds .nil⟩⟩
      | true =>
        obtain ⟨text, v, hrun⟩ := hbody rfl
        exact ⟨_, v, tested_append_iff.mpr
          ⟨hits, [(one.2, text)], u, rfl, htested, .equals hholds hrun .nil⟩⟩
  exact hfront all [] (List.append_nil all).symm

theorem Undisturbed.exists_chooses {all : List (Expr × Body)} {fallback : Option Body}
    (h : Undisturbed σ subject all fallback s) : ∃ out t, Chooses σ subject all fallback [] s out t := by
  obtain ⟨hits, u, htested⟩ := h.exists_tested
  cases hits with
  | cons hit hits => exact ⟨_, u, .matching htested (List.cons_ne_nil hit hits) .nil⟩
  | nil =>
    cases fallback with
    | none => exact ⟨"", u, .nothing htested rfl⟩
    | some body =>
      obtain ⟨text, t, hbody⟩ := h.falls body u rfl htested
      exact ⟨text, t, .otherwise htested rfl hbody⟩

end Render

open Render

/-- **A case renders every match, and its else only without one**, if no alternative stands behind the else.
It ends well without a signal just if there is room for a scope, and in that scope all its alternatives are
tested in order: it puts out what the bodies do, each once for every alternative of its that is equal to
the subject, or, if there is none, what the body of its first else does. So it ends where no comparison
fails and no body gives a signal. In general the alternatives in front of the first else are tested, and
those behind it only if there was a match. -/
theorem case_renders_matches (tag : Tag) (subject : Expr) (preamble : Body)
    (clauses : List (Option (List Expr) × Body)) (σ : Settings) (s : RenderState) :
    ((∀ clause ∈ clauses.dropWhile (·.1.isSome), clause.1 = none) →
      (∀ out t, (Node.case tag subject preamble clauses).render.runFrom σ s = (.ok { text := out }, t) ↔
        s.scopes.length ≤ maxScopes ∧ ∃ u, t = u.leave ∧
          Chooses σ subject (alternatives clauses) (fallback? clauses) [] (s.within []) out u) ∧
      (s.scopes.length ≤ maxScopes →
        Undisturbed σ subject (alternatives clauses) (fallback? clauses) (s.within []) →
        ∃ out t, (Node.case tag subject preamble clauses).render.runFrom σ s =
          (.ok { text := out }, t))) ∧
      ∀ out t, (Node.case tag subject preamble clauses).render.runFrom σ s = (.ok { text := out }, t) ↔
        s.scopes.length ≤ maxScopes ∧ ∃ u, t = u.leave ∧
          Chooses σ subject (alternatives (clauses.takeWhile (·.1.isSome))) (fallback? clauses)
            (alternatives (clauses.dropWhile (·.1.isSome))) (s.within []) out u := by
  have hgeneral (out : String) (t : RenderState) :
      (Node.case tag subject preamble clauses).render.runFrom σ s = (.ok { text := out }, t) ↔
        s.scopes.length ≤ maxScopes ∧ ∃ u, t = u.leave ∧
          Chooses σ subject (alternatives (clauses.takeWhile (·.1.isSome))) (fallback? clauses)
            (alternatives (clauses.dropWhile (·.1.isSome))) (s.within []) out u := by
    rw [Node.render]
    constructor
    · intro hrun
      obtain ⟨hdepth, u, hclauses, hleave⟩ := withScope_eq_ok hrun
      exact ⟨hdepth, u, hleave, renderClauses_eq_ok_iff.mp hclauses⟩
    · rintro ⟨hdepth, u, rfl, hchooses⟩
      rw [runFrom_withScope_of_le hdepth, renderClauses_eq_ok_iff.mpr hchooses]
  refine ⟨fun hlast => ?_, hgeneral⟩
  obtain ⟨hfront, hback⟩ := alternatives_of_else_last hlast
  rw [hfront, hback] at hgeneral
  refine ⟨hgeneral, fun hdepth hundisturbed => ?_⟩
  obtain ⟨out, u, hchooses⟩ := hundisturbed.exists_chooses
  exact ⟨out, u.leave, (hgeneral out u.leave).mpr ⟨hdepth, u, rfl, hchooses⟩⟩

/-- A case on the number one. -/
def caseOfOne (clauses : List (Option (List Expr) × Body)) : Node :=
  .case ⟨"case", "1", some 1⟩ (.value (.int 1)) [.text "in front"] clauses

/-- A part of a case with numbers as alternatives. -/
def whenNumbers (ns : List Int) (text : String) : Option (List Expr) × Body :=
  (some (ns.map fun n => .value (.int n)), [.text text])

/-- Parts of a case, one of which has the number one twice. -/
def onesTwice : List (Option (List Expr) × Body) :=
  [whenNumbers [2] "a", whenNumbers [1, 3, 1] "b", (none, [.text "c"])]

/-- The body is rendered once for each alternative. -/
theorem case_renders_matches_onesTwice :
    (∀ clause ∈ onesTwice.dropWhile (·.1.isSome), clause.1 = none) ∧
      Undisturbed {} (.value (.int 1)) (alternatives onesTwice) (fallback? onesTwice)
        (({} : RenderState).within []) ∧
      ∃ t u, (caseOfOne onesTwice).render.runFrom {} {} = (.ok { text := "bb" }, t) ∧
        Chooses {} (.value (.int 1)) (alternatives onesTwice) (fallback? onesTwice) []
          (({} : RenderState).within []) "bb" u := by
  have hlast : ∀ clause ∈ onesTwice.dropWhile (·.1.isSome), clause.1 = none := by
    simp [onesTwice, whenNumbers]
  have hbody (text : String) (w : RenderState) :
      ∃ out v, (Body.render [.text text]).runFrom {} w = (.ok { text := out }, v) := ⟨_, _, rfl⟩
  have hshape : ∀ one ∈ alternatives onesTwice,
      ∃ n text, one = (.value (.int n), [.text text]) := by
    simp [alternatives, onesTwice, whenNumbers]
  have hundisturbed : Undisturbed {} (.value (.int 1)) (alternatives onesTwice) (fallback? onesTwice)
      (({} : RenderState).within []) := by
    refine ⟨?_, ?_⟩
    · intro front value body back hits u hall _
      obtain ⟨n, text, hone⟩ := hshape (value, body) (by simp [hall])
      cases hone
      exact ⟨_, u, rfl, fun _ => hbody text u⟩
    · intro body u hfallback _
      cases hfallback
      exact hbody "c" u
  obtain ⟨hiff, hends⟩ := (case_renders_matches ⟨"case", "1", some 1⟩ (.value (.int 1))
    [.text "in front"] onesTwice {} {}).1 hlast
  obtain ⟨out, t, hrun⟩ := hends (by decide) hundisturbed
  have hout : out = "bb" := by
    cases hrun
    rfl
  subst hout
  obtain ⟨-, u, -, hchooses⟩ := (hiff "bb" t).mp hrun
  exact ⟨hlast, hundisturbed, t, u, hrun, hchooses⟩

/-- An else is rendered although an alternative behind it is equal to the subject, and not the body of that. -/
theorem else_hides_later_match :
    ∃ t, (caseOfOne [(none, [.text "else"]), whenNumbers [1] "one"]).render.runFrom {} {} =
        (.ok { text := "else" }, t) ∧
      (Comparison.holds { left := .value (.int 1), operator := some "==", right := .value (.int 1) }).runFrom
        {} {} = (.ok true, {}) :=
  ⟨_, rfl, rfl⟩

end Stencil
