import Mathlib.Data.List.Induction
import Stencil.Proofs.Render.Run

/-!
# Chains of comparisons

A chain is kept from its front to its end, whichever way it is built (`link?_eq_ofLinks`,
`foldl_chain_eq_ofLinks`), and it is folded from the left: what the comparisons so far give is joined with
the next one, which is evaluated only if it matters (`holds_ofConnectives`, `runFrom_join`). All words
bind alike. What is evaluated (`Evaluates`) shows in how a chain fails.
-/

namespace Stencil

/-- The words that join comparisons. -/
inductive Connective where
  | and | or
  deriving DecidableEq

namespace Connective

/-- The word of a connective. -/
def word : Connective → String
  | .and => "and"
  | .or => "or"

/-- Whether what stands behind a connective matters, given what stands in front of it. -/
def demands : Connective → Bool → Bool
  | .and, sofar => sofar
  | .or, sofar => !sofar

/-- Two tests joined by a connective, the second of which is made only if it matters. -/
def join (r : Connective) (x y : Render Bool) : Render Bool :=
  match r with
  | .and => do if ← x then y else return false
  | .or => do if ← x then return true else y

end Connective

namespace Condition

variable {σ : Settings} {s t : RenderState} {first : Comparison}

/-! ## Building chains -/

/-- A chain of a first comparison and further ones, each behind a connective. -/
def ofConnectives (first : Comparison) (links : List (Connective × Comparison)) : Condition :=
  ofLinks first (links.map fun l => (l.1.word, l.2))

/-- A comparison in front of a chain goes with the first word. -/
theorem link?_cons {comparisons : List Comparison} {relations : List String} {rest : Condition}
    (hlength : comparisons.length = relations.length + 1)
    (hrest : link? comparisons relations = some rest) (c : Comparison) (relation : String) :
    link? (c :: comparisons) (relation :: relations) = some (.joined c relation rest) := by
  unfold link? at hrest ⊢
  rw [List.reverse_cons, List.reverse_cons]
  cases hreverse : comparisons.reverse with
  | nil =>
    rw [hreverse] at hrest
    cases hrest
  | cons last earlier =>
    rw [hreverse] at hrest
    cases hrest
    have hearlier : earlier.length = relations.reverse.length := by
      have hsame := congrArg List.length hreverse
      simp only [List.length_reverse, List.length_cons] at hsame ⊢
      omega
    rw [List.cons_append]
    dsimp only
    rw [List.zip_append hearlier, List.foldl_append]
    rfl

/-- **Linking gives the chain of its comparisons and words.** -/
theorem link?_eq_ofLinks (first : Comparison) (links : List (String × Comparison)) :
    link? (first :: links.map (·.2)) (links.map (·.1)) = some (ofLinks first links) := by
  induction links generalizing first with
  | nil => rfl
  | cons l rest ih => exact link?_cons (by simp) (ih l.2) first l.1

/-- A comparison that is chained stands at the end. -/
theorem chain_ofLinks (first : Comparison) (links : List (String × Comparison)) (relation : String)
    (c : Comparison) :
    (ofLinks first links).chain relation (.single c) = ofLinks first (links ++ [(relation, c)]) := by
  induction links generalizing first with
  | nil => rfl
  | cons l rest ih => exact congrArg (joined first l.1) (ih l.2)

/-- **Chaining comparison after comparison gives the same chain.** -/
theorem foldl_chain_eq_ofLinks (first : Comparison) (links : List (String × Comparison)) :
    links.foldl (fun c l => c.chain l.1 (.single l.2)) (.single first) = ofLinks first links := by
  have hfold (front : List (String × Comparison)) :
      links.foldl (fun c l => c.chain l.1 (.single l.2)) (ofLinks first front) =
        ofLinks first (front ++ links) := by
    induction links generalizing front with
    | nil => rw [List.append_nil, List.foldl_nil]
    | cons l rest ih => rw [List.foldl_cons, chain_ofLinks, ih, List.append_assoc, List.singleton_append]
  exact hfold []

/-! ## Evaluating chains -/

/-- What is joined to a result so far is joined to the test that gave it. -/
theorem bind_join (x : Render Bool) (r : Connective) (c : Comparison) :
    (do Condition.join (← x) r.word c) = r.join x c.holds := by
  cases r <;> rfl

/-- The rest of a chain goes on from the test in front of it. Induction on the rest. -/
theorem bind_holdsFrom (x : Render Bool) (r : Connective) (c : Comparison)
    (links : List (Connective × Comparison)) :
    (do holdsFrom (← x) r.word (ofConnectives c links)) =
      links.foldl (fun x l => l.1.join x l.2.holds) (r.join x c.holds) := by
  induction links generalizing x r c with
  | nil => exact bind_join x r c
  | cons l rest ih =>
    have hstep (sofar : Bool) : holdsFrom sofar r.word (ofConnectives c (l :: rest)) =
        Condition.join sofar r.word c >>= fun b => holdsFrom b l.1.word (ofConnectives l.2 rest) := rfl
    simp only [hstep]
    rw [← bind_assoc, bind_join, ih, List.foldl_cons]

/-- **A chain is folded from the left.** -/
theorem holds_ofConnectives (first : Comparison) (links : List (Connective × Comparison)) :
    (ofConnectives first links).holds =
      links.foldl (fun x l => l.1.join x l.2.holds) first.holds := by
  cases links with
  | nil => rfl
  | cons l rest => exact bind_holdsFrom first.holds l.1 l.2 rest

/-- The second of two tests is made from the state that the first one left, if it matters. -/
theorem runFrom_join (r : Connective) (x y : Render Bool) (σ : Settings) (s : RenderState) :
    (r.join x y).runFrom σ s =
      match x.runFrom σ s with
      | (.ok sofar, t) => if r.demands sofar then y.runFrom σ t else (.ok sofar, t)
      | (.error e, t) => (.error e, t) := by
  cases r <;>
  · simp only [Connective.join, Render.runFrom_bind]
    cases x.runFrom σ s with
    | mk outcome t =>
      cases outcome with
      | error e => rfl
      | ok sofar => cases sofar <;> rfl

/-- **Step lemma.** A chain with one more comparison goes on from the chain without it. -/
theorem runFrom_snoc (first : Comparison) (front : List (Connective × Comparison)) (r : Connective)
    (c : Comparison) (σ : Settings) (s : RenderState) :
    (ofConnectives first (front ++ [(r, c)])).holds.runFrom σ s =
      match (ofConnectives first front).holds.runFrom σ s with
      | (.ok sofar, t) => if r.demands sofar then c.holds.runFrom σ t else (.ok sofar, t)
      | (.error e, t) => (.error e, t) := by
  rw [holds_ofConnectives, List.foldl_append, ← holds_ofConnectives]
  exact runFrom_join r _ _ σ s

/-- A comparison of a chain is evaluated, from a state that those in front of it lead to: it is the first
one, or what those in front of it give makes it matter. -/
inductive Evaluates (σ : Settings) (s : RenderState) (first : Comparison)
    (links : List (Connective × Comparison)) : Comparison → RenderState → Prop
  | head : Evaluates σ s first links first s
  | later {front back : List (Connective × Comparison)} {r : Connective} {c : Comparison}
      {sofar : Bool} {t : RenderState} (hlinks : links = front ++ (r, c) :: back)
      (hfront : (ofConnectives first front).holds.runFrom σ s = (.ok sofar, t))
      (hdemands : r.demands sofar = true) : Evaluates σ s first links c t

/-- The comparisons that a chain's front has evaluated are evaluated in the longer chain. -/
theorem Evaluates.append {links : List (Connective × Comparison)} {c : Comparison}
    (h : Evaluates σ s first links c t) (more : List (Connective × Comparison)) :
    Evaluates σ s first (links ++ more) c t := by
  cases h with
  | head => exact .head
  | @later front back r _ sofar _ hlinks hfront hdemands =>
    have hmore : links ++ more = front ++ (r, c) :: (back ++ more) := by
      rw [hlinks, List.append_assoc, List.cons_append]
    exact .later hmore hfront hdemands

/-- What is evaluated of a chain with one more comparison is evaluated of the chain without it, or it is
that comparison. -/
theorem Evaluates.of_snoc {front : List (Connective × Comparison)} {r : Connective}
    {last c : Comparison} (h : Evaluates σ s first (front ++ [(r, last)]) c t) :
    Evaluates σ s first front c t ∨
      c = last ∧ ∃ sofar, (ofConnectives first front).holds.runFrom σ s = (.ok sofar, t) ∧
        r.demands sofar = true := by
  cases h with
  | head => exact .inl .head
  | @later before behind r' _ sofar _ hlinks hbefore hdemands =>
    rcases List.eq_nil_or_concat behind with rfl | ⟨most, last', rfl⟩
    · have hends := List.append_inj' hlinks rfl
      obtain ⟨rfl, hlast⟩ := hends
      cases hlast
      exact .inr ⟨rfl, sofar, hbefore, hdemands⟩
    · rw [List.concat_eq_append, ← List.cons_append, ← List.append_assoc] at hlinks
      exact .inl (.later (List.append_inj' hlinks rfl).1 hbefore hdemands)

/-- **A chain fails just as a comparison that is evaluated does.** Induction on the chain, its last
comparison first: a longer chain goes on from the one in front (`runFrom_snoc`). -/
theorem runFrom_eq_error_iff {links : List (Connective × Comparison)} {e : Failure} :
    (ofConnectives first links).holds.runFrom σ s = (.error e, t) ↔
      ∃ c u, Evaluates σ s first links c u ∧ c.holds.runFrom σ u = (.error e, t) := by
  induction links using List.reverseRecOn with
  | nil =>
    constructor
    · exact fun hrun => ⟨first, s, .head, hrun⟩
    · rintro ⟨c, u, hevaluates, hrun⟩
      cases hevaluates with
      | head => exact hrun
      | later hlinks => exact absurd hlinks (by simp)
  | append_singleton front l ih =>
    obtain ⟨r, last⟩ := l
    rw [runFrom_snoc]
    constructor
    · intro hrun
      cases hfront : (ofConnectives first front).holds.runFrom σ s with
      | mk outcome u =>
        rw [hfront] at hrun
        cases outcome with
        | error e' =>
          obtain ⟨c, v, hevaluates, hfails⟩ := ih.1 (hfront.trans hrun)
          exact ⟨c, v, hevaluates.append _, hfails⟩
        | ok sofar =>
          dsimp only at hrun
          split at hrun
          · exact ⟨last, u, .later rfl hfront ‹_›, hrun⟩
          · cases hrun
    · rintro ⟨c, u, hevaluates, hfails⟩
      rcases hevaluates.of_snoc with hearlier | ⟨rfl, sofar, hfront, hdemands⟩
      · rw [ih.2 ⟨c, u, hearlier, hfails⟩]
      · rw [hfront]
        exact (if_pos hdemands).trans hfails

/-- **Chains of comparisons fold from the left, with short circuit.** Linking comparisons gives the chain
that chaining them one by one gives; it gives what joining them from the left does, all words alike; a
comparison behind a word is evaluated, where those in front of it ended, just when what they gave makes
it matter; and the chain fails just as the comparison that fails among those evaluated. -/
theorem chains_fold_left (first : Comparison) (links : List (Connective × Comparison)) :
    ∃ cond,
      link? (first :: links.map (·.2)) (links.map (·.1.word)) = some cond ∧
      links.foldl (fun c l => c.chain l.1.word (.single l.2)) (.single first) = cond ∧
      cond.holds = links.foldl (fun x l => l.1.join x l.2.holds) first.holds ∧
      (∀ front r c back, links = front ++ (r, c) :: back →
        cond.holds = back.foldl (fun x l => l.1.join x l.2.holds)
          (r.join (ofConnectives first front).holds c.holds) ∧
        ∀ σ s, (r.join (ofConnectives first front).holds c.holds).runFrom σ s =
          match (ofConnectives first front).holds.runFrom σ s with
          | (.ok sofar, t) => if r.demands sofar then c.holds.runFrom σ t else (.ok sofar, t)
          | (.error e, t) => (.error e, t)) ∧
      ∀ σ s e t, cond.holds.runFrom σ s = (.error e, t) ↔
        ∃ c u, Evaluates σ s first links c u ∧ c.holds.runFrom σ u = (.error e, t) := by
  refine ⟨ofConnectives first links, ?_, ?_, holds_ofConnectives first links, ?_, ?_⟩
  · have hlink := link?_eq_ofLinks first (links.map fun l => (l.1.word, l.2))
    rwa [List.map_map, List.map_map] at hlink
  · rw [ofConnectives, ← foldl_chain_eq_ofLinks, List.foldl_map]
  · rintro front r c back rfl
    refine ⟨?_, runFrom_join r _ _⟩
    -- the front folds to the chain of its own
    rw [holds_ofConnectives, List.foldl_append, ← holds_ofConnectives, List.foldl_cons]
  · intro σ s e t
    exact runFrom_eq_error_iff

end Condition

end Stencil
