import Stencil.Proofs.Render.Lockstep

/-!
# How far ceilings bound a render

A count is compared with its ceiling when text is put out, and the text of a failure is put out
without being counted or compared. A render that finishes may therefore have counts above its ceilings
and give a text that is longer than what was counted.

* `Settled` says that the latest check saw the counts a render ended with.
* `tally` measures what a body puts out without counting it, and what it counts without putting it out.
* `ceilings_bound_iff`: exactly the renders that end settled, and whose uncounted texts are no longer
  than what was withheld, are bounded by all ceilings under which they finish.
-/

namespace Stencil

open Render

/-! ## Ceilings as entries -/

namespace Ceilings

/-- The entries that set these ceilings. -/
def entries (L : Ceilings) : LimitEntries :=
  [("render_length_limit", L.length), ("render_score_limit", L.score),
    ("assign_score_limit", L.assigned)]

theorem ofEntries_entries (L : Ceilings) : Limits.ofEntries L.entries = .ok { ceilings := L } := rfl

/-- Ceilings at the counts themselves. -/
def ofCounts (c : Counts) : Ceilings where
  length := some c.length
  score := some c.score
  assigned := some c.assigned

theorem allows_ofCounts_iff (c d : Counts) : (Ceilings.ofCounts c).Allows d ↔ d ≤ c := by
  rw [Counts.le_def]
  simp only [Allows, Ceilings.ofCounts, Option.some.injEq, forall_eq']

end Ceilings

namespace Render

variable {σ : Settings} {s t : RenderState} {node : Node} {nodes : List Node} {r : Rendered}

/-! ## What is put out and what is counted -/

/-- The latest check saw what has been counted. -/
def Settled (s : RenderState) : Prop :=
  ∃ latest others, s.checks = latest :: others ∧ latest.counts = s.counts

/-- How the text of a body differs from what is counted for it. -/
structure Tally where
  /-- The length of texts of failures, which are put out and not counted. -/
  uncounted : Nat := 0
  /-- What is counted and not put out: all that is counted inside nodes, and the texts of blank
  nodes. -/
  withheld : Nat := 0

/-- The tally of one node, which is rendered from a state. -/
def tallyNode (σ : Settings) (node : Node) (s : RenderState) : Tally :=
  let inside (t : RenderState) := (t.counts.length - s.counts.length).toNat
  match node.render.runFrom σ s with
  | (.ok r, t) => { withheld := inside t + if node.isHidden then r.text.length else 0 }
  | (.error e, t) => {
      uncounted := (σ.errorStyle.render (errorAt σ e (lineOf node))).length
      withheld := inside t }

/-- The tally of the nodes of a body up to the one that ends it. -/
def tally (σ : Settings) : List Node → RenderState → Tally
  | [], _ => {}
  | node :: rest, s =>
    let here := tallyNode σ node s
    match (placed node node.render).runFrom σ s with
    | (.ok r, t) =>
      if r.signal.isSome then here
      else
        let later := tally σ rest t
        { uncounted := here.uncounted + later.uncounted, withheld := here.withheld + later.withheld }
    | (.error _, _) => here

/-- The text of a node and what it withheld are what was counted for it and what was not. -/
theorem length_placed (hplaced : (placed node node.render).runFrom σ s = (.ok r, t)) :
    (r.text.length : Int) + (tallyNode σ node s).withheld =
      (t.counts.length - s.counts.length) + (tallyNode σ node s).uncounted := by
  have hgrown := (grown_node node σ s).counts.1
  rcases placed_eq_ok hplaced with ⟨r', u, hrun, rfl, htext, -⟩ | ⟨e, u, hrun, -, rfl, rfl⟩
  · rw [hrun] at hgrown
    simp only [tallyNode, hrun, htext, RenderState.counted, RenderState.noteCheck] at hgrown ⊢
    -- a hidden text is counted and withheld, any other is counted and put out
    split
    · rw [String.length_empty]
      omega
    · omega
  · rw [hrun] at hgrown
    simp only [tallyNode, hrun, RenderState.record] at hgrown ⊢
    omega

/-- The same for the nodes of a body. Induction on the nodes. -/
theorem length_renderNodes (hrun : (Node.renderNodes nodes).runFrom σ s = (.ok r, t)) :
    (r.text.length : Int) + (tally σ nodes s).withheld =
      (t.counts.length - s.counts.length) + (tally σ nodes s).uncounted := by
  induction nodes generalizing s r with
  | nil =>
    rw [Node.renderNodes] at hrun
    cases hrun
    simp [tally]
  | cons node rest ih =>
    obtain ⟨first, u, hplaced, hend⟩ := renderNodes_cons_eq_ok hrun
    have hfirst := length_placed hplaced
    simp only [tally, hplaced]
    rcases hend with ⟨hsignal, rfl, rfl⟩ | ⟨hsignal, more, hrest, rfl⟩
    · rw [if_pos hsignal]
      exact hfirst
    · have hmore := ih hrest
      simp only [hsignal, Bool.false_eq_true, if_false]
      rw [String.length_append]
      push_cast
      omega

/-! ## Renders without failures -/

/-- A node that recorded no failure ends with a check, and puts out nothing uncounted. -/
theorem settled_placed (hplaced : (placed node node.render).runFrom σ s = (.ok r, t))
    (hclean : t.errors.length = s.errors.length) :
    Settled t ∧ (tallyNode σ node s).uncounted = 0 := by
  have hgrown := (grown_node node σ s).errors.length_le
  rcases placed_eq_ok hplaced with ⟨r', u, hrun, rfl, -⟩ | ⟨e, u, hrun, -, rfl, -⟩
  · refine ⟨⟨_, _, rfl, rfl⟩, ?_⟩
    simp only [tallyNode, hrun]
  · -- the recorded failure would make the errors longer
    rw [hrun] at hgrown
    simp only [RenderState.record, List.length_append, List.length_singleton] at hclean hgrown
    omega

/-- A body with nodes that recorded no failure does so as well. -/
theorem settled_renderNodes (hne : nodes ≠ [])
    (hrun : (Node.renderNodes nodes).runFrom σ s = (.ok r, t))
    (hclean : t.errors.length = s.errors.length) :
    Settled t ∧ (tally σ nodes s).uncounted = 0 := by
  induction nodes generalizing s r with
  | nil => exact absurd rfl hne
  | cons node rest ih =>
    obtain ⟨first, u, hplaced, hend⟩ := renderNodes_cons_eq_ok hrun
    have hfirstGrown := (grown_placed node (grown_node node) σ s).errors.length_le
    rw [hplaced] at hfirstGrown
    dsimp only at hfirstGrown
    simp only [tally, hplaced]
    rcases hend with ⟨hsignal, rfl, rfl⟩ | ⟨hsignal, more, hrest, rfl⟩
    · rw [if_pos hsignal]
      exact settled_placed hplaced hclean
    · have hrestGrown := (grown_renderNodes rest σ u).errors.length_le
      rw [hrest] at hrestGrown
      dsimp only at hrestGrown
      simp only [hsignal, Bool.false_eq_true, if_false]
      have hfirst := settled_placed hplaced (by omega)
      cases rest with
      | nil =>
        rw [Node.renderNodes] at hrest
        cases hrest
        exact ⟨hfirst.1, hfirst.2⟩
      | cons next others =>
        have hmore := ih (List.cons_ne_nil next others) hrest (by omega)
        exact ⟨hmore.1, by rw [hfirst.2, hmore.2]⟩

end Render

/-! ## Whole renders -/

/-- The tally of a body, whose nodes are counted first. -/
def Body.tally (body : Body) (σ : Settings) (s : RenderState) : Tally :=
  Render.tally σ body { s with counts := { s.counts with score := s.counts.score + body.length } }

section

variable {σ : Settings} {L : Ceilings} {counts : Counts} {registers : Registers} {body : Body}
  {text : String}

/-- A render that completes under its ceilings is the same as without them, where they allow all that
was checked. -/
theorem run_under_of_completes (hF : (Environment.run (σ.under L) counts registers body).Completes
    text) :
    Environment.run (σ.under L) counts registers body =
        Environment.run (σ.under {}) counts registers body ∧
      ∀ c ∈ (Environment.run (σ.under {}) counts registers body).state.checks,
        L.Allows c.counts := by
  obtain ⟨r, t, notices, hbody, -, hstate⟩ := body_of_completes hF
  have hagrees := (lockstep_body L body).agrees σ { registers, counts }
  rw [hbody] at hagrees
  cases hagrees with
  | through new hchecks hallowed hsame =>
    have hrun := run_under_congr (hbody.trans hsame)
    refine ⟨hrun, fun c hc => ?_⟩
    rw [← hrun, hstate] at hc
    rw [← hsame, List.append_nil] at hchecks
    exact hallowed c (hchecks ▸ hc)
  | cut later c earlier hchecks hallowed hover hcut => cases hcut.result

/-- The length of what a render gives, measured from its start. -/
theorem length_of_completes (hU : (Environment.run σ {} registers body).Completes text) :
    (text.length : Int) + (body.tally σ { registers }).withheld =
      (Environment.run σ {} registers body).state.counts.length +
        (body.tally σ { registers }).uncounted := by
  obtain ⟨r, t, notices, hbody, rfl, hstate⟩ := body_of_completes hU
  rw [Body.render, runFrom_scored] at hbody
  have hlength := length_renderNodes hbody
  rw [hstate, Body.tally]
  dsimp only at hlength ⊢
  omega

/-- When all ceilings under which a render completes allow the counts it ends with, it ends settled:
otherwise ceilings at the counts of the latest check would not. -/
theorem settled_of_allows
    (hU : (Environment.run (σ.under {}) {} registers body).Completes text)
    (hbound : ∀ L, Environment.run (σ.under L) {} registers body =
      Environment.run (σ.under {}) {} registers body →
        L.Allows (Environment.run (σ.under {}) {} registers body).state.counts) :
    Settled (Environment.run (σ.under {}) {} registers body).state := by
  obtain ⟨r, t, notices, hbody, -, hstate⟩ := body_of_completes hU
  have hgrown := grown_body body (σ.under {}) { registers, counts := {} }
  rw [hbody] at hgrown
  dsimp only at hgrown
  have hchecks : (Environment.run (σ.under {}) {} registers body).state.checks = t.checks := by
    rw [hstate]
  have hcounts : (Environment.run (σ.under {}) {} registers body).state.counts = t.counts := by
    rw [hstate]
  cases hlist : t.checks with
  | nil =>
    -- without any check, every ceiling lets the render through
    have hsame : Environment.run (σ.under { length := some (t.counts.length - 1) }) {} registers
        body = Environment.run (σ.under {}) {} registers body := by
      refine run_under_of_allowed hU fun c hc => ?_
      rw [hchecks, hlist] at hc
      cases hc
    have hle := (hbound _ hsame).1 _ rfl
    rw [hcounts] at hle
    omega
  | cons latest others =>
    have hsame : Environment.run (σ.under (Ceilings.ofCounts latest.counts)) {} registers body =
        Environment.run (σ.under {}) {} registers body := by
      refine run_under_of_allowed hU fun c hc => ?_
      rw [hchecks] at hc
      rw [Ceilings.allows_ofCounts_iff]
      exact hgrown.le_head rfl hlist c hc
    have hle := hbound _ hsame
    rw [Ceilings.allows_ofCounts_iff, hcounts] at hle
    obtain ⟨new, hnew, hbounds, -⟩ := hgrown.checks
    have hmem : latest ∈ new := by
      rw [show t.checks = new from hnew.trans (List.append_nil new)] at hlist
      rw [hlist]
      exact List.mem_cons_self
    refine ⟨latest, others, hchecks.trans hlist, ?_⟩
    rw [hcounts]
    exact le_antisymm (hbounds latest hmem).2 hle

/-- A render of some nodes that recorded nothing ends settled, and put out nothing uncounted. -/
theorem settled_of_errors_eq_nil (hU : (Environment.run σ {} registers body).Completes text)
    (hclean : (Environment.run σ {} registers body).state.errors = []) (hne : body ≠ []) :
    Settled (Environment.run σ {} registers body).state ∧
      (body.tally σ { registers }).uncounted = 0 := by
  obtain ⟨r, t, notices, hbody, -, hstate⟩ := body_of_completes hU
  rw [Body.render, runFrom_scored] at hbody
  rw [hstate] at hclean
  have hsettled := settled_renderNodes hne hbody (congrArg List.length hclean)
  rw [hstate]
  exact hsettled

end

/-- **How far ceilings bound a render.** Let `U` be a render without ceilings. All ceilings under which
the same render completes allow the counts it ends with, and its text is no longer than what was
counted, exactly when `U`, if it completes, ends settled and puts out no more uncounted text than it
withholds. A render of some nodes that records no failure does so. -/
theorem ceilings_bound_iff (env : Environment) (options : RenderOptions) (data : Option Scope)
    (registers : Registers) (t : Template) :
    ∃ U, env.start { options with limits := some [] } data registers t = .ok U ∧
      let σ := env.settings options {} t.name data (env.subrenderWithin Environment.maxSubrenders)
      let measured := t.body.tally σ { registers }
      ((∀ entries L F text, Limits.ofEntries entries = .ok { ceilings := L } →
          env.start { options with limits := some entries } data registers t = .ok F →
          F.Completes text →
            L.Allows F.state.counts ∧ (text.length : Int) ≤ F.state.counts.length) ↔
        ∀ text, U.Completes text → Settled U.state ∧ measured.uncounted ≤ measured.withheld) ∧
      ∀ text, U.Completes text → U.state.errors = [] → t.body ≠ [] →
        Settled U.state ∧ measured.uncounted = 0 := by
  have hstart (L : Ceilings) {entries : LimitEntries}
      (hentries : Limits.ofEntries entries = .ok { ceilings := L }) :
      env.start { options with limits := some entries } data registers t =
        .ok (Environment.run ((env.settings options {} t.name data
          (env.subrenderWithin Environment.maxSubrenders)).under L) {} registers t.body) :=
    start_of_ofEntries env { options with limits := some entries } hentries data registers t
  have hnone : Limits.ofEntries [] = .ok { ceilings := {} } := rfl
  refine ⟨_, hstart {} hnone, ?_⟩
  intro σ measured
  refine ⟨⟨fun hbound text hU => ?_, fun hcondition entries L F text hentries hF hcompletes => ?_⟩,
    fun text hU hclean hne => settled_of_errors_eq_nil hU hclean hne⟩
  · have hcompleted (L : Ceilings) (hsame : Environment.run (σ.under L) {} registers t.body =
        Environment.run (σ.under {}) {} registers t.body) :=
      hbound L.entries L _ text L.ofEntries_entries (hstart L L.ofEntries_entries)
        (hsame ▸ hU)
    refine ⟨settled_of_allows hU fun L hsame => hsame ▸ (hcompleted L hsame).1, ?_⟩
    have hlength := length_of_completes hU
    have hle := (hcompleted {} rfl).2
    change (text.length : Int) + measured.withheld = _ + (measured.uncounted : Int) at hlength
    omega
  · rw [hstart L hentries] at hF
    cases hF
    obtain ⟨hsame, hall⟩ := run_under_of_completes hcompletes
    rw [hsame] at hcompletes ⊢
    obtain ⟨⟨latest, others, hchecks, hcounts⟩, htally⟩ := hcondition text hcompletes
    have hlength := length_of_completes hcompletes
    constructor
    · have hlatest : latest ∈ (Environment.run (σ.under {}) {} registers t.body).state.checks := by
        rw [show (Environment.run (σ.under {}) {} registers t.body).state.checks = _ from hchecks]
        exact List.mem_cons_self
      have hallowed := hall latest hlatest
      rw [hcounts] at hallowed
      exact hallowed
    · change (text.length : Int) + measured.withheld = _ + (measured.uncounted : Int) at hlength
      omega

/-- A template of nothing but a failing output visits one node where none is allowed, and gives a text
of which nothing was counted. -/
theorem ceilings_exceeded_failingOutput :
    ∃ F, ({} : Environment).start { limits := some [("render_score_limit", some 0)] } none {}
        { body := [failingOutput] } = .ok F ∧
      F.Completes "Ladle error (line 1): divided by 0" ∧
      ¬ Ceilings.Allows { score := some 0 } F.state.counts ∧
      ¬ ("Ladle error (line 1): divided by 0".length : Int) ≤ F.state.counts.length := by
  have hrun : (({} : Environment).start { limits := some [("render_score_limit", some 0)] } none {}
      { body := [failingOutput] }).map
        (fun F => (F.result, F.state.errors.map (·.kind), F.state.counts)) =
      .ok (.ok "Ladle error (line 1): divided by 0", [.badArgument], { score := 1 }) := rfl
  cases hstart : ({} : Environment).start { limits := some [("render_score_limit", some 0)] } none {}
      { body := [failingOutput] } with
  | error e =>
    rw [hstart] at hrun
    cases hrun
  | ok F =>
    rw [hstart] at hrun
    obtain ⟨hresult, hrest⟩ := Prod.mk.inj (Except.ok.inj hrun)
    obtain ⟨hkinds, hcounts⟩ := Prod.mk.inj hrest
    refine ⟨F, rfl, ⟨hresult, ne_memory_of_map_kind hkinds (by decide)⟩, fun hallowed => ?_, ?_⟩
    · rw [hcounts] at hallowed
      exact absurd (hallowed.2.1 0 rfl) (by decide)
    · rw [hcounts]
      decide

end Stencil
