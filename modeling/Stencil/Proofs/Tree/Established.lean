import Stencil.Proofs.Render.Composition
import Stencil.Proofs.Tree.Acceptance

/-!
# Properties of all nodes of a tree

A property of nodes holds of every part of a tree that is read (`all_of_parseBody`) if it is established
by whatever a segment is read as (`Establishes`). A block has it once it is closed, by a property of its
head (`O`) and one of what its parts stand behind (`G`), which are established when these are read.
-/

namespace Stencil

open Parsing

section

variable {Q : Node → Prop} {m node : Node} {nodes : List Node}

/-! ## Bodies -/

/-- Every part of the body has the property. -/
def Body.All (Q : Node → Prop) (body : Body) : Prop := ∀ m ∈ Node.partsOfBody body, Q m

theorem Body.all_iff : Body.All Q nodes ↔ ∀ node ∈ nodes, ∀ m ∈ node.parts, Q m := by
  constructor
  · exact fun h node hnode m hm => h m (Node.mem_partsOfBody.mpr ⟨node, hnode, hm⟩)
  · intro h m hm
    obtain ⟨node, hnode, hm⟩ := Node.mem_partsOfBody.mp hm
    exact h node hnode m hm

theorem Body.all_nil : Body.All Q [] := by
  rw [all_iff]
  exact fun _ hnode => nomatch hnode

theorem Body.all_cons :
    Body.All Q (node :: nodes) ↔ (∀ m ∈ node.parts, Q m) ∧ Body.All Q nodes := by
  rw [all_iff, all_iff, List.forall_mem_cons]

/-- The order of the nodes makes no difference. -/
theorem Body.all_reverse : Body.All Q nodes.reverse ↔ Body.All Q nodes := by
  simp only [all_iff, List.mem_reverse]

end

/-! ## What segments establish -/

/-- A property of nodes, and with it of the heads and guards of blocks, that every segment with the
property `S` establishes, whatever it is read as. -/
structure Establishes (options : ParseOptions) (S : Segment.Placed → Prop) (Q : Node → Prop)
    (O : Tag → Opening → Prop) (G : Guard → Prop) : Prop where
  text (s : String) : Q (.text s)
  output {p : Segment.Placed} {markup : List Char} {o : Output} (hp : S p)
    (hread : (Builder.readOutput options p.line markup).outcome = .ok o) : Q (.output o)
  node {p : Segment.Placed} {tag : Tag} {node : Node} (hp : S p)
    (htag : p.IsRegistered options tag (.node node)) : Q node
  raw {p : Segment.Placed} {tag : Tag} (hp : S p) (htag : p.IsRegistered options tag .verbatim)
    (text : String) : Q (.raw tag text)
  opens {p : Segment.Placed} {tag : Tag} {opening : Opening} {guard : Guard} (hp : S p)
    (htag : p.IsRegistered options tag (.opens opening guard)) : O tag opening ∧ G guard
  starts {p : Segment.Placed} {tag : Tag} {markup : List Char} {f : Frame} {guard : Guard} (hp : S p)
    (htag : p.IsBare options tag markup)
    (hread : (Builder.readPart options f tag.name p.line markup).outcome = .ok (.starts guard)) :
    G guard
  finish {f : Frame} (hhead : O f.tag f.opening) (hguards : ∀ part ∈ f.allParts, G part.1) :
    Q f.finish

/-- An open block has a head and guards of this kind, and nodes with the property in its parts. -/
structure Frame.Holds (Q : Node → Prop) (O : Tag → Opening → Prop) (G : Guard → Prop) (f : Frame) :
    Prop where
  head : O f.tag f.opening
  guard : G f.guard
  nodes : Body.All Q f.nodes
  parts : ∀ part ∈ f.parts, G part.1 ∧ Body.All Q part.2

/-- All nodes that have been built have the property, and a verbatim section will have it. -/
structure Builder.Holds (Q : Node → Prop) (O : Tag → Opening → Prop) (G : Guard → Prop) (b : Builder) :
    Prop where
  nodes : Body.All Q b.nodes
  frames : ∀ f ∈ b.frames, f.Holds Q O G
  verbatim : ∀ v, b.verbatim = some v → ∀ text, Q (.raw v.tag text)

section

variable {options : ParseOptions} {S : Segment.Placed → Prop} {Q : Node → Prop}
  {O : Tag → Opening → Prop} {G : Guard → Prop}

namespace Frame

variable {f : Frame}

theorem Holds.allParts (hf : f.Holds Q O G) :
    ∀ part ∈ f.allParts, G part.1 ∧ Body.All Q part.2 := by
  intro part hpart
  rw [allParts_eq, List.mem_append, List.mem_reverse, List.mem_singleton] at hpart
  rcases hpart with hpart | rfl
  · exact hf.parts part hpart
  · exact ⟨hf.guard, Body.all_reverse.mpr hf.nodes⟩

theorem Holds.startPart (hf : f.Holds Q O G) {guard : Guard} (hguard : G guard) :
    (f.startPart guard).Holds Q O G where
  head := hf.head
  guard := hguard
  nodes := Body.all_nil
  parts part hpart := by
    rcases List.mem_cons.mp hpart with rfl | hpart
    · exact ⟨hf.guard, Body.all_reverse.mpr hf.nodes⟩
    · exact hf.parts part hpart

/-- The bodies of a block that is closed are its parts. -/
theorem mem_bodies_finish {body : Body} (hbody : body ∈ f.finish.bodies) :
    body = [] ∨ ∃ part ∈ f.allParts, part.2 = body := by
  have hfirst : (f.allParts.head?.map (·.2)).getD [] = [] ∨
      ∃ part ∈ f.allParts, part.2 = (f.allParts.head?.map (·.2)).getD [] := by
    cases hhead : f.allParts.head? with
    | none => exact .inl rfl
    | some part => exact .inr ⟨part, List.mem_of_mem_head? hhead, rfl⟩
  unfold finish at hbody
  dsimp only at hbody
  split at hbody
  · obtain ⟨branch, hbranch, rfl⟩ := List.mem_map.mp hbody
    obtain ⟨⟨guard, inner⟩, hpart, rfl⟩ := List.mem_map.mp hbranch
    exact .inr ⟨_, hpart, by cases guard <;> rfl⟩
  · obtain ⟨clause, hclause, rfl⟩ := List.mem_map.mp hbody
    obtain ⟨⟨guard, inner⟩, hpart, rfl⟩ := List.mem_map.mp hclause
    exact .inr ⟨_, List.mem_of_mem_tail hpart, by cases guard <;> rfl⟩
  · rcases List.mem_cons.mp hbody with rfl | hother
    · exact hfirst
    · -- what stands behind an else is the second part
      obtain ⟨part, hpart, rfl⟩ := Option.map_eq_some_iff.mp (Option.mem_toList.mp hother)
      exact .inr ⟨part, List.mem_of_mem_tail (List.mem_of_mem_head? hpart), rfl⟩
  · exact List.mem_singleton.mp hbody ▸ hfirst
  · exact List.mem_singleton.mp hbody ▸ hfirst

/-- A block that is closed has the property, and so has everything in its parts. -/
theorem Holds.finish (h : Establishes options S Q O G) (hf : f.Holds Q O G) :
    ∀ m ∈ f.finish.parts, Q m := by
  intro m hm
  rcases Node.mem_parts_iff.mp hm with rfl | ⟨body, hbody, hm⟩
  · exact h.finish hf.head fun part hpart => (hf.allParts part hpart).1
  · rcases mem_bodies_finish (Node.mem_bodies_of_mem_rendered hbody) with rfl | ⟨part, hpart, rfl⟩
    · cases hm
    · exact (hf.allParts part hpart).2 m hm

end Frame

namespace Builder

variable {b b' : Builder} {node : Node} {nodes : List Node}

theorem Holds.current (hb : b.Holds Q O G) : Body.All Q b.current := by
  obtain ⟨outer, frames, verbatim, trimNext⟩ := b
  cases frames with
  | nil => exact hb.nodes
  | cons f rest => exact (hb.frames f List.mem_cons_self).nodes

theorem Holds.setCurrent (hb : b.Holds Q O G) (hnodes : Body.All Q nodes) :
    (b.setCurrent nodes).Holds Q O G := by
  obtain ⟨outer, frames, verbatim, trimNext⟩ := b
  cases frames with
  | nil => exact { hb with nodes := hnodes }
  | cons f rest =>
    obtain ⟨hf, hrest⟩ := List.forall_mem_cons.mp hb.frames
    exact { hb with frames := List.forall_mem_cons.mpr ⟨{ hf with nodes := hnodes }, hrest⟩ }

theorem Holds.add (hb : b.Holds Q O G) (hnode : ∀ m ∈ node.parts, Q m) :
    (b.add node).Holds Q O G :=
  hb.setCurrent (Body.all_cons.mpr ⟨hnode, hb.current⟩)

/-- A node that is read of a tag has no other node in it. -/
theorem ReadsAs.parts_node {kind : TagKind} {tag : Tag} (hreads : ReadsAs tag kind (.node node)) :
    node.parts = [node] := by
  cases hreads <;> rfl

variable (h : Establishes options S Q O G)

include h

theorem forall_parts_text (s : String) : ∀ m ∈ (Node.text s).parts, Q m :=
  List.forall_mem_singleton.mpr (h.text s)

theorem Holds.addText (hb : b.Holds Q O G) (s : Segment) : (b.addText s).Holds Q O G :=
  { hb.add (forall_parts_text h _) with }

theorem all_trimLast (hnodes : Body.All Q nodes) : Body.All Q (trimLast nodes) := by
  unfold trimLast
  split
  · exact Body.all_cons.mpr ⟨forall_parts_text h _, (Body.all_cons.mp hnodes).2⟩
  · exact hnodes

theorem Holds.applyTrims (hb : b.Holds Q O G) (s : Segment) : (b.applyTrims s).Holds Q O G := by
  unfold Builder.applyTrims
  dsimp only
  split
  · exact { hb.setCurrent (all_trimLast h hb.current) with }
  · exact { hb with }

omit h in
/-- A verbatim section that is closed becomes a node. -/
theorem Holds.takeVerbatim (hb : b.Holds Q O G) {v : Verbatim} (hverbatim : b.verbatim = some v)
    (s : Segment) : (b.takeVerbatim v s).Holds Q O G := by
  have htag : ∀ text, Q (.raw v.tag text) := hb.verbatim v hverbatim
  have hkept : ({ b with verbatim := some { v with pieces := s.chars :: v.pieces } } :
      Builder).Holds Q O G := { hb with verbatim := fun _ hv => by cases hv; exact htag }
  unfold Builder.takeVerbatim
  split
  · split
    · dsimp only
      refine { hb.add ?_ with verbatim := fun _ hv => nomatch hv }
      exact List.forall_mem_singleton.mpr (htag _)
    · exact hkept
  · exact hkept

/-- **Step lemma.** What has been built keeps the property when a segment is taken. -/
theorem Takes.holds {p : Segment.Placed} (htakes : Takes options b p b') (hp : S p)
    (hb : b.Holds Q O G) : b'.Holds Q O G := by
  have htrimmed : (b.applyTrims p.segment).Holds Q O G := hb.applyTrims h p.segment
  cases htakes with
  | verbatim v hverbatim => exact hb.takeVerbatim hverbatim p.segment
  | text => exact hb.addText h p.segment
  | output _ _ hread => exact htrimmed.add (List.forall_mem_singleton.mpr (h.output hp hread))
  | node _ htag =>
    obtain ⟨kind, -, hreads⟩ := readsAs_of_isRegistered htag
    refine htrimmed.add ?_
    rw [hreads.parts_node]
    exact List.forall_mem_singleton.mpr (h.node hp htag)
  | opens _ htag _ =>
    -- a block starts with what its tag was read as, and with nothing in it
    obtain ⟨hhead, hguard⟩ := h.opens hp htag
    exact { htrimmed with
      frames := List.forall_mem_cons.mpr
        ⟨⟨hhead, hguard, Body.all_nil, fun _ hpart => nomatch hpart⟩, htrimmed.frames⟩ }
  | raw _ htag => exact { htrimmed with verbatim := fun _ hv => by cases hv; exact h.raw hp htag }
  | ends _ _ hframes _ =>
    -- the block that is closed becomes a node of the body around it
    have hopen := htrimmed.frames
    rw [hframes, List.forall_mem_cons] at hopen
    exact Holds.add { htrimmed with frames := hopen.2 } (hopen.1.finish h)
  | starts _ htag hframes hread =>
    have hopen := htrimmed.frames
    rw [hframes, List.forall_mem_cons] at hopen
    exact { htrimmed with
      frames := List.forall_mem_cons.mpr ⟨hopen.1.startPart (h.starts hp htag hread), hopen.2⟩ }
  | skipped => exact htrimmed

/-- **Run lemma.** What has been built keeps the property when segments are taken one after another. -/
theorem Builds.holds {segments : List Segment.Placed} (hbuilds : Builds options b segments b')
    (hsegments : ∀ p ∈ segments, S p) (hb : b.Holds Q O G) : b'.Holds Q O G := by
  induction segments generalizing b with
  | nil =>
    cases builds_nil.mp hbuilds
    exact hb
  | cons p rest ih =>
    obtain ⟨hp, hrest⟩ := List.forall_mem_cons.mp hsegments
    obtain ⟨next, htakes, hbuilds⟩ := builds_cons.mp hbuilds
    exact ih hbuilds hrest (htakes.holds h hp hb)

end Builder

/-! ## Whole templates -/

/-- **Every part of a tree that is read has the property** that its segments establish. -/
theorem all_of_parseBody (h : Establishes options S Q O G) {source : List Char} {body : Body}
    (hsegments : ∀ p ∈ Segment.scanPlaced options.numbered source, S p)
    (hparse : (parseBody options source).outcome = .ok body) : body.All Q := by
  obtain ⟨-, b, hbuilds, -, -, rfl⟩ := parseBody_eq_ok_iff.mp hparse
  have hempty : Builder.Holds Q O G {} :=
    ⟨Body.all_nil, (fun _ hf => nomatch hf), fun _ hv => nomatch hv⟩
  exact Body.all_reverse.mpr (hbuilds.holds h hsegments hempty).nodes

end

/-- A template that has been read was read with some options. -/
theorem exists_parseBody_of_parse {env : Environment} {overrides : ParseOverrides}
    {name : Option String} {source : String} {t : Template}
    (ht : (env.parse overrides name source).1 = .ok t) :
    ∃ options, (parseBody options source.toList).outcome = .ok t.body := by
  cases hoptions : env.parseOptions overrides name with
  | error e =>
    unfold Environment.parse at ht
    rw [hoptions] at ht
    cases ht
  | ok options => exact ⟨options, Environment.body_of_parse hoptions ht⟩

end Stencil
