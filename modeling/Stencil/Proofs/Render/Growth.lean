import Mathlib.Order.Basic
import Stencil.Proofs.Render.Kept

/-!
# What a render uses up only grows

Counts are never lowered, recorded errors and checks are never taken back, and a check sees what has
been counted when it is made (`Grown`). Every step of a render grows these accounts (`grown_body`), so
that of all checks the latest one saw the most (`Grown.le_head`).
-/

namespace Stencil

/-! ## Counts in order -/

namespace Counts

/-- One render has used up at most what another one has, in every respect. -/
instance : LE Counts where
  le c d := c.length ≤ d.length ∧ c.score ≤ d.score ∧ c.assigned ≤ d.assigned

theorem le_def (c d : Counts) :
    c ≤ d ↔ c.length ≤ d.length ∧ c.score ≤ d.score ∧ c.assigned ≤ d.assigned := Iff.rfl

instance : PartialOrder Counts where
  le_refl c := by
    rw [le_def]
    omega
  le_trans c d e hcd hde := by
    rw [le_def] at *
    omega
  le_antisymm c d hcd hdc := by
    rw [le_def] at *
    have hlength : c.length = d.length := by omega
    have hscore : c.score = d.score := by omega
    have hassigned : c.assigned = d.assigned := by omega
    cases c
    cases d
    exact mk.injEq .. ▸ ⟨hlength, hscore, hassigned⟩

end Counts

namespace Render

variable {α β : Type} {s t u : RenderState}

/-! ## Grown accounts -/

/-- The accounts of `t` are those of `s` and what came later. -/
structure Grown (s t : RenderState) : Prop where
  counts : s.counts ≤ t.counts
  errors : s.errors <+: t.errors
  /-- The new checks saw counts between those of the two states, later ones at least as much as
  earlier ones. -/
  checks : ∃ new, t.checks = new ++ s.checks ∧
    (∀ c ∈ new, s.counts ≤ c.counts ∧ c.counts ≤ t.counts) ∧
    new.Pairwise fun later earlier => earlier.counts ≤ later.counts

/-- Nothing was checked or recorded, and no count was lowered. -/
theorem Grown.of_le (hcounts : s.counts ≤ t.counts) (hchecks : t.checks = s.checks)
    (herrors : t.errors = s.errors) : Grown s t where
  counts := hcounts
  errors := herrors ▸ List.prefix_rfl
  checks := ⟨[], hchecks, by simp, List.Pairwise.nil⟩

theorem Grown.trans (hst : Grown s t) (htu : Grown t u) : Grown s u := by
  obtain ⟨new, hnew, hbounds, hsorted⟩ := hst.checks
  obtain ⟨newer, hnewer, hbounds', hsorted'⟩ := htu.checks
  refine ⟨hst.counts.trans htu.counts, hst.errors.trans htu.errors, newer ++ new, ?_, ?_, ?_⟩
  · rw [hnewer, hnew, List.append_assoc]
  · intro c hc
    rcases List.mem_append.mp hc with hc | hc
    · exact ⟨hst.counts.trans (hbounds' c hc).1, (hbounds' c hc).2⟩
    · exact ⟨(hbounds c hc).1, (hbounds c hc).2.trans htu.counts⟩
  · -- a check of the second part saw at least what the first part ended with
    refine List.pairwise_append.mpr ⟨hsorted', hsorted, fun later hlater earlier hearlier => ?_⟩
    exact (hbounds earlier hearlier).2.trans (hbounds' later hlater).1

theorem grown_counted (s : RenderState) (length : Nat) : Grown s (s.counted length) := by
  have hcounts : s.counts ≤ (s.counted length).counts := by
    rw [Counts.le_def]
    simp only [RenderState.counted, RenderState.noteCheck]
    omega
  refine ⟨hcounts, List.prefix_rfl, [_], rfl, fun c hc => ?_, List.pairwise_singleton ..⟩
  rw [List.mem_singleton.mp hc]
  exact ⟨hcounts, le_refl _⟩

theorem grown_record (s : RenderState) (e : TemplateError) : Grown s (s.record e) where
  counts := le_refl _
  errors := List.prefix_append ..
  checks := ⟨[], rfl, by simp, List.Pairwise.nil⟩

/-- When nothing had been checked before, no check saw more than the latest one. -/
theorem Grown.le_head (hst : Grown s t) (hnone : s.checks = []) {latest : Check}
    {others : List Check} (hchecks : t.checks = latest :: others) :
    ∀ c ∈ t.checks, c.counts ≤ latest.counts := by
  obtain ⟨new, hnew, -, hsorted⟩ := hst.checks
  rw [hnone, List.append_nil] at hnew
  rw [← hnew, hchecks] at hsorted
  intro c hc
  rw [hchecks] at hc
  rcases List.mem_cons.mp hc with rfl | hc
  · exact le_refl _
  · exact (List.pairwise_cons.mp hsorted).1 c hc

/-! ## Every step grows the accounts -/

theorem accountRelation_grown : AccountRelation fun _ => Grown where
  same hcounts hchecks herrors := .of_le (by rw [hcounts]) hchecks herrors
  trans := Grown.trans
  score σ s n := by
    refine .of_le ?_ rfl rfl
    rw [Counts.le_def]
    dsimp only
    omega
  assigned σ s n := by
    refine .of_le ?_ rfl rfl
    rw [Counts.le_def]
    dsimp only
    omega

theorem grown_countLength (length : Nat) : Keeps (fun _ => Grown) Unit (countLength length) := by
  intro σ s
  rw [runFrom_countLength]
  exact grown_counted s length

theorem grown_handle (e : Failure) (line : Option Int) :
    Keeps (fun _ => Grown) String (handle e line) := by
  intro σ s
  rw [runFrom_handle]
  exact grown_record s _

theorem grown_placed (node : Node) (hnode : Keeps (fun _ => Grown) Rendered node.render) :
    Keeps (fun _ => Grown) Rendered (placed node node.render) :=
  accountRelation_grown.evaluation.keeps_placed grown_countLength grown_handle node hnode

theorem grown_node (node : Node) : Keeps (fun _ => Grown) Rendered node.render :=
  accountRelation_grown.keeps_node node fun m _ => grown_placed m

theorem grown_renderNodes (nodes : List Node) :
    Keeps (fun _ => Grown) Rendered (Node.renderNodes nodes) :=
  accountRelation_grown.renderClosed.nodes nodes fun m _ =>
    accountRelation_grown.supports (grown_placed m)

theorem grown_body (body : Body) : Keeps (fun _ => Grown) Rendered body.render :=
  accountRelation_grown.keeps_body body fun m _ => grown_placed m

end Render

end Stencil
