import Stencil.Proofs.Tree.Established

/-!
# Lines in a tree

When lines are counted, every node of a tree but text has a line, and otherwise none has
(`lined_of_parseBody`): a node has the line of the segment it was read of, and a block that of its head.
-/

namespace Stencil

open Parsing

/-! ## Nodes with lines -/

/-- The node is text, or its line is there just if lines are known. -/
def Node.HasLine (known : Bool) (node : Node) : Prop :=
  (∃ s, node = .text s) ∨ node.line?.isSome = known

/-- Every part of the body has a line, or none has. -/
def Body.Lined (known : Bool) (body : Body) : Prop := body.All (Node.HasLine known)

/-! ## Lines of what is read -/

/-- A block that is closed has the line of its head. -/
theorem Frame.line_finish (f : Frame) : f.finish.line? = f.tag.line := by
  obtain ⟨tag, opening, parts, guard, nodes⟩ := f
  cases opening <;> rfl

/-- A tag that is a node by itself gives it its line. -/
theorem Builder.ReadsAs.line_node {kind : TagKind} {tag : Tag} {node : Node}
    (hreads : ReadsAs tag kind (.node node)) : node.line? = tag.line := by
  cases hreads <;> rfl

/-- A tag has the line of its segment. -/
theorem Segment.Placed.IsRegistered.line {p : Placed} {options : ParseOptions} {tag : Tag}
    {reading : TagReading} (htag : p.IsRegistered options tag reading) : tag.line = p.line := by
  obtain ⟨markup, kind, ⟨-, name, -, rfl⟩, -, -⟩ := htag
  rfl

/-- Segments that have lines, or have none, give nodes that do so too. -/
theorem establishes_hasLine (options : ParseOptions) (known : Bool) :
    Establishes options (fun p => p.line.isSome = known) (Node.HasLine known)
      (fun tag _ => tag.line.isSome = known) fun _ => True where
  text s := .inl ⟨s, rfl⟩
  output {p _ o} hp hread := by
    have hline : o.line = p.line := (Builder.readOutput_eq_ok hread).2
    exact .inr (by rw [← hp, ← hline]; rfl)
  node hp htag := by
    obtain ⟨kind, -, hreads⟩ := Builder.readsAs_of_isRegistered htag
    exact .inr (by rw [hreads.line_node, htag.line, hp])
  raw {p tag} hp htag text := by
    have hline : tag.line.isSome = known := by rw [htag.line, hp]
    exact .inr hline
  opens hp htag := ⟨by rw [htag.line, hp], trivial⟩
  starts _ _ _ := trivial
  finish {f} hhead _ := .inr (by rw [f.line_finish, hhead])

/-! ## Whole templates -/

/-- Segments have lines just if lines are counted. -/
theorem Segment.line_of_mem_place {line : Option Nat} {segments : List Segment} :
    ∀ p ∈ place line segments, p.line.isSome = line.isSome := by
  induction segments generalizing line with
  | nil => exact fun _ hp => nomatch hp
  | cons s rest ih =>
    refine List.forall_mem_cons.mpr ⟨rfl, fun p hp => ?_⟩
    rw [ih p hp, Option.isSome_map]

theorem Segment.line_of_mem_scanPlaced {numbered : Bool} {source : List Char} :
    ∀ p ∈ scanPlaced numbered source, p.line.isSome = numbered := by
  intro p hp
  rw [line_of_mem_place p hp]
  cases numbered <;> rfl

/-- **Every node of a tree but text has a line just if lines are counted.** -/
theorem lined_of_parseBody {options : ParseOptions} {source : List Char} {body : Body}
    (hparse : (parseBody options source).outcome = .ok body) :
    Body.Lined options.numbered body :=
  all_of_parseBody (establishes_hasLine options options.numbered) Segment.line_of_mem_scanPlaced hparse

/-- The nodes of a template that has been read all have lines, or none has. -/
theorem lined_of_parse {env : Environment} {overrides : ParseOverrides} {name : Option String}
    {source : String} {t : Template} (ht : (env.parse overrides name source).1 = .ok t) :
    ∃ known, Body.Lined known t.body := by
  obtain ⟨options, hbody⟩ := exists_parseBody_of_parse ht
  exact ⟨options.numbered, lined_of_parseBody hbody⟩

end Stencil
