import Stencil.Proofs.Tree.Established

/-!
# How deeply blocks are nested

The builder counts the blocks that are open, and opens no block when as many stand around it as the options
allow. Nothing in the tree it builds is therefore nested more deeply (`nestedWithin_of_parseBody`): a block
is closed inside the blocks that were open around it, where there is room for one level more than inside it
(`OpenWithin`).
-/

namespace Stencil

open Parsing

/-- Around anything inside the node stand at most `n` blocks, the node itself included. -/
def Node.NestedWithin : Nat → Node → Prop
  | 0, node => node.isBlock = false
  | n + 1, node => ∀ body ∈ node.bodies, ∀ inner ∈ body, inner.NestedWithin n

/-- Around anything inside the body stand at most `n` blocks of the body. -/
def Body.NestedWithin (n : Nat) (body : Body) : Prop := ∀ node ∈ body, node.NestedWithin n

/-- A node that is no block fits in anywhere. -/
theorem Node.nestedWithin_of_leaf {node : Node} (hleaf : node.isBlock = false) (n : Nat) :
    node.NestedWithin n := by
  cases n with
  | zero => exact hleaf
  | succ n =>
    cases node with
    | choose | case | loop | table | block => cases hleaf
    | _ => exact fun _ hbody => nomatch hbody

/-! ## Open blocks -/

/-- The nodes that an open block has so far are nested within `n` blocks of it. -/
structure Frame.NestedWithin (n : Nat) (f : Frame) : Prop where
  nodes : Body.NestedWithin n f.nodes
  parts : ∀ part ∈ f.parts, Body.NestedWithin n part.2

/-- Of `depth` blocks that may stand inside each other, there is room for `n` more inside the open ones. -/
inductive OpenWithin (depth : Nat) : Nat → List Frame → Prop
  | outside : OpenWithin depth depth []
  | inside {n : Nat} {f : Frame} {rest : List Frame} (hf : f.NestedWithin n)
    (hrest : OpenWithin depth (n + 1) rest) : OpenWithin depth n (f :: rest)

theorem OpenWithin.length {depth n : Nat} {frames : List Frame} (h : OpenWithin depth n frames) :
    frames.length + n = depth := by
  induction h with
  | outside => exact Nat.zero_add _
  | inside _ _ ih =>
    rw [List.length_cons]
    omega

namespace Frame

variable {n : Nat} {f : Frame}

theorem NestedWithin.allParts (hf : f.NestedWithin n) :
    ∀ part ∈ f.allParts, Body.NestedWithin n part.2 := by
  intro part hpart
  rw [allParts_eq, List.mem_append, List.mem_reverse, List.mem_singleton] at hpart
  rcases hpart with hpart | rfl
  · exact hf.parts part hpart
  · exact fun node hnode => hf.nodes node (List.mem_reverse.mp hnode)

theorem NestedWithin.startPart (hf : f.NestedWithin n) (guard : Guard) :
    (f.startPart guard).NestedWithin n where
  nodes _ hnode := nomatch hnode
  parts part hpart := by
    rcases List.mem_cons.mp hpart with rfl | hpart
    · exact fun node hnode => hf.nodes node (List.mem_reverse.mp hnode)
    · exact hf.parts part hpart

/-- A block that is closed is one more that stands around what is inside it. -/
theorem NestedWithin.finish (hf : f.NestedWithin n) : f.finish.NestedWithin (n + 1) := by
  intro body hbody
  rcases mem_bodies_finish hbody with rfl | ⟨part, hpart, rfl⟩
  · exact fun _ hnode => nomatch hnode
  · exact hf.allParts part hpart

end Frame

/-! ## The builder -/

/-- Of `depth` blocks that may stand inside each other, there is room for `n` more where the builder is. -/
structure Builder.NestedWithin (depth n : Nat) (b : Builder) : Prop where
  nodes : Body.NestedWithin depth b.nodes
  frames : OpenWithin depth n b.frames

namespace Builder

variable {options : ParseOptions} {depth n : Nat} {b b' : Builder} {node : Node} {nodes : List Node}

theorem NestedWithin.current (hb : b.NestedWithin depth n) : Body.NestedWithin n b.current := by
  obtain ⟨outer, frames, verbatim, trimNext⟩ := b
  cases hb.frames with
  | outside => exact hb.nodes
  | inside hf _ => exact hf.nodes

theorem NestedWithin.setCurrent (hb : b.NestedWithin depth n) (hnodes : Body.NestedWithin n nodes) :
    (b.setCurrent nodes).NestedWithin depth n := by
  obtain ⟨outer, frames, verbatim, trimNext⟩ := b
  cases hb.frames with
  | outside => exact { hb with nodes := hnodes }
  | inside hf hrest => exact { hb with frames := .inside { hf with nodes := hnodes } hrest }

theorem NestedWithin.add (hb : b.NestedWithin depth n) (hnode : node.NestedWithin n) :
    (b.add node).NestedWithin depth n :=
  hb.setCurrent (List.forall_mem_cons.mpr ⟨hnode, hb.current⟩)

theorem NestedWithin.addLeaf (hb : b.NestedWithin depth n) (node : Node) (hleaf : node.isBlock = false) :
    (b.add node).NestedWithin depth n :=
  hb.add (node.nestedWithin_of_leaf hleaf n)

theorem nestedWithin_trimLast (hnodes : Body.NestedWithin n nodes) :
    Body.NestedWithin n (trimLast nodes) := by
  unfold trimLast
  split
  · exact List.forall_mem_cons.mpr
      ⟨Node.nestedWithin_of_leaf rfl n, (List.forall_mem_cons.mp hnodes).2⟩
  · exact hnodes

theorem NestedWithin.applyTrims (hb : b.NestedWithin depth n) (s : Segment) :
    (b.applyTrims s).NestedWithin depth n := by
  unfold Builder.applyTrims
  dsimp only
  split
  · exact { hb.setCurrent (nestedWithin_trimLast hb.current) with }
  · exact { hb with }

theorem NestedWithin.takeVerbatim (hb : b.NestedWithin depth n) (v : Verbatim) (s : Segment) :
    (b.takeVerbatim v s).NestedWithin depth n := by
  unfold Builder.takeVerbatim
  split
  · split
    · exact { hb.addLeaf (.raw _ _) rfl with }
    · exact { hb with }
  · exact { hb with }

/-- A tag that is read as a node is no block. -/
theorem ReadsAs.isBlock_node {kind : TagKind} {tag : Tag} (hreads : ReadsAs tag kind (.node node)) :
    node.isBlock = false := by
  cases hreads <;> rfl

/-- **Step lemma.** However a segment is taken, everything stays nested within the depth that the options
allow. -/
theorem Takes.nestedWithin {p : Segment.Placed} (htakes : Takes options b p b')
    (hdepth : (depth : Int) + 1 = options.maxDepth) (hb : b.NestedWithin depth n) :
    ∃ n', b'.NestedWithin depth n' := by
  have htrimmed : (b.applyTrims p.segment).NestedWithin depth n := hb.applyTrims p.segment
  cases htakes with
  | verbatim v _ => exact ⟨n, hb.takeVerbatim v p.segment⟩
  | text => exact ⟨n, { hb.addLeaf (.text _) rfl with }⟩
  | output => exact ⟨n, htrimmed.addLeaf _ rfl⟩
  | node _ htag =>
    obtain ⟨kind, -, hreads⟩ := readsAs_of_isRegistered htag
    exact ⟨n, htrimmed.addLeaf _ hreads.isBlock_node⟩
  | opens _ _ hroom =>
    -- there is room for one more, or the block would not have been opened
    have hlength := hb.frames.length
    obtain ⟨m, rfl⟩ : ∃ m, n = m + 1 := Nat.exists_eq_add_one.mpr (by omega)
    exact ⟨m, { htrimmed with
      frames := .inside ⟨(fun _ hnode => nomatch hnode), fun _ hpart => nomatch hpart⟩ htrimmed.frames }⟩
  | raw => exact ⟨n, { htrimmed with }⟩
  | ends _ _ hframes _ =>
    have hopen := htrimmed.frames
    rw [hframes] at hopen
    cases hopen with
    | inside hf hrest => exact ⟨n + 1, NestedWithin.add { htrimmed with frames := hrest } hf.finish⟩
  | starts _ _ hframes _ =>
    have hopen := htrimmed.frames
    rw [hframes] at hopen
    cases hopen with
    | inside hf hrest => exact ⟨n, { htrimmed with frames := .inside (hf.startPart _) hrest }⟩
  | skipped => exact ⟨n, htrimmed⟩

/-- **Run lemma.** -/
theorem Builds.nestedWithin {segments : List Segment.Placed} (hbuilds : Builds options b segments b')
    (hdepth : (depth : Int) + 1 = options.maxDepth) (hb : b.NestedWithin depth n) :
    ∃ n', b'.NestedWithin depth n' := by
  induction segments generalizing b n with
  | nil =>
    cases builds_nil.mp hbuilds
    exact ⟨n, hb⟩
  | cons p rest ih =>
    obtain ⟨next, htakes, hbuilds⟩ := builds_cons.mp hbuilds
    obtain ⟨m, hnext⟩ := htakes.nestedWithin hdepth hb
    exact ih hbuilds hnext

end Builder

/-- **The blocks of a tree are nested no more deeply than the options allow**: the outermost body counts
as one level. -/
theorem nestedWithin_of_parseBody {options : ParseOptions} {source : List Char} {body : Body}
    (hparse : (parseBody options source).outcome = .ok body) :
    ∃ depth : Nat, (depth : Int) + 1 = options.maxDepth ∧ body.NestedWithin depth := by
  obtain ⟨hpositive, b, hbuilds, -, hframes, rfl⟩ := parseBody_eq_ok_iff.mp hparse
  obtain ⟨depth, hdepth⟩ := Int.eq_ofNat_of_zero_le (Int.sub_nonneg_of_le hpositive)
  have hlevels : (depth : Int) + 1 = options.maxDepth := by omega
  have hempty : Builder.NestedWithin depth depth {} := ⟨(fun _ hnode => nomatch hnode), .outside⟩
  obtain ⟨n, hb⟩ := hbuilds.nestedWithin hlevels hempty
  exact ⟨depth, hlevels, fun node hnode => hb.nodes node (List.mem_reverse.mp hnode)⟩

end Stencil
