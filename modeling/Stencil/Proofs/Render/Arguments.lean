import Mathlib.Data.List.Induction
import Stencil.Proofs.Expr.EagerRanges
import Stencil.Proofs.Render.Idempotence

/-!
# Arguments of loops and tables

A loop and a table go through the items of a collection from an offset on, up to a limit. What a text gives
for these is read when the template is, and evaluated in a render.

* `Arguments`, `LoopHeader.HasArguments`, `TableHeader.HasArguments`: what a text gives, and the heads that
  are read from it. Of several attributes of a name the last one counts.
* `Expr.SameValue`: a literal, and a variable that stands for its value.
* `Arguments.slice`: the items that the arguments stand for. `LoopHeader.visited_eq` and
  `TableHeader.visited_eq` say that loops and tables go through these.
* `items_depend_on_values`: so the values of the arguments decide. A limit that is written as nil is the
  exception: for a loop it is no limit, and a table takes no item (`loop_takes_nil_for_no_limit`).
-/

namespace Stencil

/-! ## What a text gives -/

/-- What is given for an attribute: of several of the name, the last one. -/
def lastGiven? (attributes : List (List Char × List Char)) (key : String) : Option (List Char) :=
  (attributes.reverse.find? (·.1 == key.toList)).map (·.2)

section

variable {attributes : List (List Char × List Char)} {key : String} {name : List Char}

theorem lastGiven?_concat_of_eq (value : List Char) (h : name = key.toList) :
    lastGiven? (attributes ++ [(name, value)]) key = some value := by
  simp [lastGiven?, h]

theorem lastGiven?_concat_of_ne (value : List Char) (h : name ≠ key.toList) :
    lastGiven? (attributes ++ [(name, value)]) key = lastGiven? attributes key := by
  simp [lastGiven?, h]

end

/-- The arguments of a loop or a table, as they are given. -/
structure Arguments where
  collection : Expr
  offset : Option Expr
  limit : Option Expr

/-- Offset and limit are the ones given by the attributes. -/
structure Arguments.ReadFrom (a : Arguments) (attributes : List (List Char × List Char)) : Prop where
  offset : (lastGiven? attributes "offset").mapM Expr.read = .ok a.offset
  limit : (lastGiven? attributes "limit").mapM Expr.read = .ok a.limit

namespace LoopHeader

/-- The head of a loop after its attributes have been set, one after another. -/
def SetBy (attributes : List (List Char × List Char)) (header : LoopHeader) : Prop :=
  ∃ itemName collection reversed first, start itemName collection reversed = .ok first ∧
    attributes.foldlM (fun h (key, value) => h.withAttribute key value) first = .ok header

/-- The head is read from a text with these arguments, and does not go on where another loop stopped. -/
structure HasArguments (header : LoopHeader) (a : Arguments) : Prop where
  collection : header.collection = a.collection
  fresh : header.continues = false
  given : ∃ attributes, header.SetBy attributes ∧ a.ReadFrom attributes

variable {attributes : List (List Char × List Char)} {header : LoopHeader} {a : Arguments}
  {markup : List Char}

/-- What the attributes of a loop have set: those that are written as nil are absent. -/
structure Arranged (header : LoopHeader) (attributes : List (List Char × List Char)) : Prop where
  limit : ∃ e, (lastGiven? attributes "limit").mapM Expr.read = .ok e ∧ header.limit = e.bind Expr.unlessNil
  offset : header.continues = false →
    ∃ e, (lastGiven? attributes "offset").mapM Expr.read = .ok e ∧ header.offset = e.bind Expr.unlessNil

theorem Arranged.withAttribute {next : LoopHeader} {name value : List Char} (h : header.Arranged attributes)
    (hnext : header.withAttribute name value = .ok next) : next.Arranged (attributes ++ [(name, value)]) := by
  have hlimit := h.limit
  have hoffset := h.offset
  have hgiven {e : Expr} (he : Expr.read value = .ok e) :
      (some value).mapM Expr.read = (.ok (some e) : Outcome (Option Expr)) :=
    bind_eq_ok_iff.mpr ⟨e, he, rfl⟩
  unfold LoopHeader.withAttribute at hnext
  by_cases hname : name = "offset".toList
  · have hother : name ≠ "limit".toList := by
      rw [hname]
      decide
    rw [if_pos (beq_iff_eq.mpr hname)] at hnext
    rw [← lastGiven?_concat_of_ne value hother] at hlimit
    split at hnext
    · -- a loop that goes on where another one stopped has no offset to speak of
      cases hnext
      exact ⟨hlimit, nofun⟩
    · obtain ⟨e, he, hnext⟩ := bind_eq_ok_iff.mp hnext
      cases hnext
      refine ⟨hlimit, fun _ => ?_⟩
      rw [lastGiven?_concat_of_eq _ hname]
      exact ⟨some e, hgiven he, rfl⟩
  · rw [if_neg fun heq => hname (beq_iff_eq.mp heq)] at hnext
    rw [← lastGiven?_concat_of_ne value hname] at hoffset
    by_cases hname' : name = "limit".toList
    · rw [if_pos (beq_iff_eq.mpr hname')] at hnext
      obtain ⟨e, he, hnext⟩ := bind_eq_ok_iff.mp hnext
      cases hnext
      refine ⟨?_, hoffset⟩
      rw [lastGiven?_concat_of_eq _ hname']
      exact ⟨some e, hgiven he, rfl⟩
    · rw [if_neg fun heq => hname' (beq_iff_eq.mp heq)] at hnext
      rw [← lastGiven?_concat_of_ne value hname'] at hlimit
      -- other names are passed over
      cases hnext
      exact ⟨hlimit, hoffset⟩

/-- **Attributes that are set one after another.** Induction on the attributes from the end. -/
theorem SetBy.arranged (h : header.SetBy attributes) : header.Arranged attributes := by
  obtain ⟨itemName, collection, reversed, first, hfirst, hset⟩ := h
  induction attributes using List.reverseRecOn generalizing header with
  | nil =>
    cases hset
    obtain ⟨e, -, hfirst⟩ := bind_eq_ok_iff.mp hfirst
    cases hfirst
    exact ⟨⟨none, rfl, rfl⟩, fun _ => ⟨none, rfl, rfl⟩⟩
  | append_singleton attributes pair ih =>
    rw [List.foldlM_append] at hset
    obtain ⟨last, hlast, hset⟩ := bind_eq_ok_iff.mp hset
    obtain ⟨next, hnext, hset⟩ := bind_eq_ok_iff.mp hset
    cases hset
    exact (ih hlast).withAttribute hnext

theorem HasArguments.limit (h : header.HasArguments a) : header.limit = a.limit.bind Expr.unlessNil := by
  obtain ⟨attributes, hset, hread⟩ := h.given
  obtain ⟨e, he, hlimit⟩ := hset.arranged.limit
  rw [hread.limit] at he
  cases he
  exact hlimit

theorem HasArguments.offset (h : header.HasArguments a) : header.offset = a.offset.bind Expr.unlessNil := by
  obtain ⟨attributes, hset, hread⟩ := h.given
  obtain ⟨e, he, hoffset⟩ := hset.arranged.offset h.fresh
  rw [hread.offset] at he
  cases he
  exact hoffset

theorem SetBy.exists_hasArguments (h : header.SetBy attributes) (hfresh : header.continues = false) :
    ∃ a, header.HasArguments a := by
  obtain ⟨limit, hlimit, -⟩ := h.arranged.limit
  obtain ⟨offset, hoffset, -⟩ := h.arranged.offset hfresh
  exact ⟨⟨header.collection, offset, limit⟩, rfl, hfresh, attributes, h, hoffset, hlimit⟩

theorem setBy_of_readLax (h : readLax markup = .ok header) : header.SetBy (Fragment.attributes markup) := by
  unfold readLax at h
  split at h
  · cases h
  · obtain ⟨first, hfirst, hset⟩ := bind_eq_ok_iff.mp h
    exact ⟨_, _, _, first, hfirst, hset⟩

/-- The strict grammar sets the attributes that it reads. -/
theorem exists_foldlM_of_readAttributes {fuel : Nat} {first : LoopHeader} {ls : Grammar.Rest}
    (h : readAttributes fuel first ls = .ok header) :
    ∃ attributes : List (List Char × List Char),
      attributes.foldlM (fun h (key, value) => h.withAttribute key value) first = .ok header := by
  induction fuel generalizing first ls with
  | zero => exact ⟨[], h⟩
  | succ fuel ih =>
    unfold readAttributes at h
    split at h
    · split at h
      · cases h
      · next key rest _ =>
        obtain ⟨⟨value, rest⟩, -, h⟩ := bind_eq_ok_iff.mp h
        obtain ⟨next, hnext, h⟩ := bind_eq_ok_iff.mp h
        obtain ⟨attributes, hset⟩ := ih h
        exact ⟨(key, value) :: attributes, bind_eq_ok_iff.mpr ⟨next, hnext, hset⟩⟩
    · obtain ⟨_, -, h⟩ := bind_eq_ok_iff.mp h
      exact ⟨[], h⟩

theorem exists_setBy_of_readStrict (h : readStrict markup = .ok header) :
    ∃ attributes, header.SetBy attributes := by
  unfold readStrict at h
  obtain ⟨ls, -, h⟩ := bind_eq_ok_iff.mp h
  obtain ⟨⟨itemName, rest⟩, -, h⟩ := bind_eq_ok_iff.mp h
  dsimp only at h
  split at h
  · cases h
  · obtain ⟨⟨collection, rest⟩, -, h⟩ := bind_eq_ok_iff.mp h
    dsimp only at h
    split at h
    all_goals
      obtain ⟨first, hfirst, h⟩ := bind_eq_ok_iff.mp h
      obtain ⟨attributes, hset⟩ := exists_foldlM_of_readAttributes h
      exact ⟨attributes, _, _, _, first, hfirst, hset⟩

end LoopHeader

namespace TableHeader

/-- The head of a table after its attributes have been set, one after another. -/
def SetBy (attributes : List (List Char × List Char)) (header : TableHeader) : Prop :=
  ∃ itemName collection, attributes.foldlM
    (fun h (key, value) => do
      return { h with attributes := h.attributes.put (String.ofList key) (← Expr.read value) })
    ({ itemName, collection } : TableHeader) = .ok header

/-- The head is read from a text with these arguments. -/
structure HasArguments (header : TableHeader) (a : Arguments) : Prop where
  collection : header.collection = a.collection
  given : ∃ attributes, header.SetBy attributes ∧ a.ReadFrom attributes

variable {attributes : List (List Char × List Char)} {header : TableHeader} {a : Arguments}
  {markup : List Char}

theorem SetBy.get? (h : header.SetBy attributes) (key : String) :
    (lastGiven? attributes key).mapM Expr.read = .ok (header.attributes.get? key) := by
  obtain ⟨itemName, collection, hset⟩ := h
  induction attributes using List.reverseRecOn generalizing header with
  | nil =>
    cases hset
    rfl
  | append_singleton attributes pair ih =>
    rw [List.foldlM_append] at hset
    obtain ⟨last, hlast, hset⟩ := bind_eq_ok_iff.mp hset
    obtain ⟨next, hnext, hset⟩ := bind_eq_ok_iff.mp hset
    cases hset
    obtain ⟨e, he, hnext⟩ := bind_eq_ok_iff.mp hnext
    cases hnext
    by_cases hname : pair.1 = key.toList
    · have hkey : String.ofList pair.1 = key := by rw [hname, String.ofList_toList]
      rw [lastGiven?_concat_of_eq _ hname, hkey, Named.get?_put_self]
      exact bind_eq_ok_iff.mpr ⟨e, he, rfl⟩
    · have hkey : key ≠ String.ofList pair.1 := by
        rintro rfl
        exact hname String.toList_ofList.symm
      rw [lastGiven?_concat_of_ne _ hname, Named.get?_put_of_ne _ hkey]
      exact ih hlast

theorem HasArguments.limit (h : header.HasArguments a) : header.attributes.get? "limit" = a.limit := by
  obtain ⟨attributes, hset, hread⟩ := h.given
  exact Except.ok.inj ((hset.get? "limit").symm.trans hread.limit)

theorem HasArguments.offset (h : header.HasArguments a) : header.attributes.get? "offset" = a.offset := by
  obtain ⟨attributes, hset, hread⟩ := h.given
  exact Except.ok.inj ((hset.get? "offset").symm.trans hread.offset)

theorem setBy_of_read (h : read markup = .ok header) : header.SetBy (Fragment.attributes markup) := by
  unfold read at h
  split at h
  · cases h
  · obtain ⟨collection, -, hset⟩ := bind_eq_ok_iff.mp h
    exact ⟨_, collection, hset⟩

theorem SetBy.exists_hasArguments (h : header.SetBy attributes) : ∃ a, header.HasArguments a :=
  ⟨⟨header.collection, header.attributes.get? "offset", header.attributes.get? "limit"⟩, rfl, attributes, h,
    h.get? "offset", h.get? "limit"⟩

end TableHeader

/-! ## Literals and variables -/

namespace Expr

open Render

variable {σ : Settings} {s t : RenderState} {e e' : Expr}

/-- The expressions are the same, or one is a literal and the other one a variable that stands for its value;
a variable that nothing binds stands for nil, unless variables are strict. -/
inductive SameValue (σ : Settings) (s : RenderState) : Expr → Expr → Prop
  | refl (e : Expr) : SameValue σ s e e
  | bound {v : Value} {name : String}
    (h : (s.scopes ++ σ.environments).findSome? (·.get? name) = some v) :
    SameValue σ s (.value v) (.lookup (.value (.str name)) [])
  | unbound {name : String} (hlax : σ.strictVariables = false)
    (h : (s.scopes ++ σ.environments).findSome? (·.get? name) = none) :
    SameValue σ s (.value .nil) (.lookup (.value (.str name)) [])
  | symm {e e' : Expr} (h : SameValue σ s e e') : SameValue σ s e' e

theorem evaluate_unbound {name : String} (hlax : σ.strictVariables = false)
    (h : (t.scopes ++ σ.environments).findSome? (·.get? name) = none) :
    (Expr.lookup (.value (.str name)) []).evaluate.runFrom σ t = (.ok .nil, t) := by
  have hlayers : layers.runFrom σ t = (.ok (t.scopes ++ σ.environments), t) := rfl
  have hundefined : (undefined (.str name)).runFrom σ t = (.ok .nil, t) := by
    rw [runFrom_undefined, hlax, if_neg Bool.false_ne_true]
  simp only [evaluate, follow, findNamed, find, findWithin, runFrom_bind, runFrom_pure, hlayers, h, hundefined]

/-- The expressions are evaluated in the same way wherever there are the same scopes. -/
theorem SameValue.evaluate (h : SameValue σ s e e') (he : ∀ v, e = .value v → v.isLiteral = true)
    (he' : ∀ v, e' = .value v → v.isLiteral = true) (hscopes : t.scopes = s.scopes) :
    e.evaluate.runFrom σ t = e'.evaluate.runFrom σ t := by
  induction h with
  | refl => rfl
  | bound h =>
    rw [← hscopes] at h
    rw [evaluate_variable h (he _ rfl), Expr.evaluate]
    rfl
  | unbound hlax h =>
    rw [← hscopes] at h
    rw [evaluate_unbound hlax h, Expr.evaluate]
    rfl
  | symm _ ih => exact (ih he' he).symm

end Expr

namespace Arguments

open Render

variable {σ : Settings} {s t : RenderState} {a b : Arguments}

/-- The arguments have the same values, one by one. -/
structure SameValues (σ : Settings) (s : RenderState) (a b : Arguments) : Prop where
  collection : b.collection = a.collection
  offset : Option.Rel (Expr.SameValue σ s) a.offset b.offset
  limit : Option.Rel (Expr.SameValue σ s) a.limit b.limit

/-- The items that the arguments stand for, in the order of the collection. -/
def slice (a : Arguments) : Render (List Value) := do
  let collection ← a.collection.evaluate
  let start := (← bound a.offset).getD 0
  let limit ← bound a.limit
  return collection.slice start (limit.map (start + ·))

theorem isLiteral_of_mapM {text : Option (List Char)} {e : Option Expr}
    (h : text.mapM Expr.read = .ok e) : ∀ v, e = some (.value v) → v.isLiteral = true := by
  rintro v rfl
  cases text with
  | none => cases h
  | some text =>
    obtain ⟨e, he, h⟩ := bind_eq_ok_iff.mp h
    cases h
    exact Expr.isLiteral_of_read he

/-- Evaluating changes no scope. -/
theorem scopes_of_evaluates {α : Type} {x : Render α}
    (hx : ∀ {P : (α : Type) → Render α → Prop}, Evaluates P → P α x) {o : Outcome α}
    (hrun : x.runFrom σ s = (o, t)) : t.scopes = s.scopes :=
  (hx scopeRelation_eq.asking.evaluates).of_run hrun

theorem runFrom_bound_congr {e e' : Option Expr} (h : Option.Rel (Expr.SameValue σ s) e e')
    (he : ∀ v, e = some (.value v) → v.isLiteral = true)
    (he' : ∀ v, e' = some (.value v) → v.isLiteral = true) (hscopes : t.scopes = s.scopes) :
    (bound e).runFrom σ t = (bound e').runFrom σ t := by
  cases h with
  | none => rfl
  | some h =>
    have hsame := h.evaluate (fun v hv => he v (congrArg some hv)) (fun v hv => he' v (congrArg some hv))
      hscopes
    rw [bound, bound, runFrom_bind, runFrom_bind, hsame]

/-- **Arguments with the same values stand for the same items.** -/
theorem SameValues.slice (h : SameValues σ s a b) {given given' : List (List Char × List Char)}
    (ha : a.ReadFrom given) (hb : b.ReadFrom given') : b.slice.runFrom σ s = a.slice.runFrom σ s := by
  rw [Arguments.slice, Arguments.slice, h.collection, runFrom_bind, runFrom_bind]
  cases hcollection : a.collection.evaluate.runFrom σ s with
  | mk outcome t =>
    cases outcome with
    | error e => rfl
    | ok collection =>
      -- one argument leaves the scopes in which the next one is looked up
      have ht : t.scopes = s.scopes := scopes_of_evaluates (fun h => h.evaluate _) hcollection
      have hoffset := runFrom_bound_congr h.offset (isLiteral_of_mapM ha.offset)
        (isLiteral_of_mapM hb.offset) ht
      dsimp only
      rw [runFrom_bind, runFrom_bind, ← hoffset]
      cases hstart : (bound a.offset).runFrom σ t with
      | mk outcome u =>
        cases outcome with
        | error e => rfl
        | ok start =>
          have hu : u.scopes = s.scopes := (scopes_of_evaluates (fun h => h.bound _) hstart).trans ht
          have hlimit := runFrom_bound_congr h.limit (isLiteral_of_mapM ha.limit)
            (isLiteral_of_mapM hb.limit) hu
          dsimp only
          rw [runFrom_bind, runFrom_bind, ← hlimit]

theorem forgets_slice (a : Arguments) : Forgets (List Value) a.slice := by
  have h := renderClosed_forgets.toEvaluates
  exact h.bind (h.evaluate _) fun _ => h.bind (h.bound _) fun _ => h.bind (h.bound _) fun _ => h.pure _

end Arguments

open Render

/-! ## Loops -/

namespace LoopHeader

variable {σ : Settings} {s : RenderState} {header : LoopHeader} {a : Arguments}

/-- The items that a loop goes through, in this order; none if it fails before. -/
def visited (header : LoopHeader) (σ : Settings) (s : RenderState) : List Value :=
  (header.itemsOf.runFrom σ s).1.toOption.getD []

/-- An offset that is written as nil is the start, as if there were none. -/
theorem bound_unlessNil (e : Option Expr) :
    (do return (← bound (e.bind Expr.unlessNil)).getD 0 : Render Int) = do return (← bound e).getD 0 := by
  refine Render.ext fun σ s => ?_
  cases e with
  | none => rfl
  | some e =>
    rw [Option.bind_some]
    unfold Expr.unlessNil
    split <;> rfl

theorem unlessNil_of_ne {e : Option Expr} (h : e ≠ some (.value .nil)) : e.bind Expr.unlessNil = e := by
  cases e with
  | none => rfl
  | some e =>
    rw [Option.bind_some]
    unfold Expr.unlessNil
    split
    · exact absurd rfl h
    · rfl

/-- A loop goes through the items between its offset and its limit. -/
theorem itemsOf_of_limit (hcollection : header.collection = a.collection) (hfresh : header.continues = false)
    (hoffset : header.offset = a.offset.bind Expr.unlessNil) (hlimit : header.limit = a.limit) (σ : Settings)
    (s : RenderState) :
    (header.itemsOf.runFrom σ s).1 =
      (a.slice.runFrom σ s).1.map fun items => if header.reversed then items.reverse else items := by
  have hstart : header.startOf = do return (← bound a.offset).getD 0 := by
    rw [startOf, hfresh, if_neg Bool.false_ne_true, hoffset, bound_unlessNil]
  -- the places of loops are made ready first, which makes no difference to the arguments
  have hcore : ({ s with
      registers := { s.registers with offsets := some (s.registers.offsets.getD []) } } : RenderState).core =
      s.core := rfl
  have hforgets := (Prod.mk.inj ((Arguments.forgets_slice a).congr hcore (σ := σ))).1
  rw [← hforgets, LoopHeader.itemsOf, runFrom_bind, runFrom_modifyRegisters]
  dsimp only
  rw [Arguments.slice, runFrom_bind, runFrom_bind, hcollection, hstart, hlimit]
  generalize a.collection.evaluate.runFrom σ _ = collection
  match collection with
  | (.error e, t) => rfl
  | (.ok collection, t) =>
    dsimp only
    rw [runFrom_bind, runFrom_bind, runFrom_bind]
    generalize (bound a.offset).runFrom σ t = offset
    match offset with
    | (.error e, u) => rfl
    | (.ok offset, u) =>
      simp only [runFrom_pure, runFrom_bind]
      generalize (bound a.limit).runFrom σ u = limit
      match limit with
      | (.error e, v) => rfl
      | (.ok limit, v) => rfl

theorem visited_of_limit (hcollection : header.collection = a.collection) (hfresh : header.continues = false)
    (hoffset : header.offset = a.offset.bind Expr.unlessNil) (hlimit : header.limit = a.limit) (σ : Settings)
    (s : RenderState) :
    header.visited σ s =
      let items := (a.slice.runFrom σ s).1.toOption.getD []
      if header.reversed then items.reverse else items := by
  rw [visited, itemsOf_of_limit hcollection hfresh hoffset hlimit]
  cases (a.slice.runFrom σ s).1 with
  | error e => cases header.reversed <;> rfl
  | ok items => rfl

/-- **A loop goes through the items that its arguments stand for**, if its limit is not written as nil. -/
theorem HasArguments.visited (h : header.HasArguments a) (hlimit : a.limit ≠ some (.value .nil))
    (σ : Settings) (s : RenderState) :
    header.visited σ s =
      let items := (a.slice.runFrom σ s).1.toOption.getD []
      if header.reversed then items.reverse else items :=
  visited_of_limit h.collection h.fresh h.offset (h.limit.trans (unlessNil_of_ne hlimit)) σ s

/-- A loop whose limit is written as nil has none. -/
theorem HasArguments.visited_of_nil (h : header.HasArguments a) (hlimit : a.limit = some (.value .nil))
    (σ : Settings) (s : RenderState) :
    header.visited σ s =
      let items := (({ a with limit := none } : Arguments).slice.runFrom σ s).1.toOption.getD []
      if header.reversed then items.reverse else items := by
  have hnone : header.limit = none := by
    rw [h.limit, hlimit]
    rfl
  exact visited_of_limit (a := { a with limit := none }) h.collection h.fresh h.offset hnone σ s

end LoopHeader

/-! ## Tables -/

namespace TableHeader

variable {σ : Settings} {s : RenderState} {header : TableHeader} {a : Arguments}

/-- The items that a table goes through, in this order; none if it fails before. -/
def visited (header : TableHeader) (σ : Settings) (s : RenderState) : List Value :=
  ((header.opened.runFrom σ s).1.toOption.bind id).elim [] (·.2)

/-- The number of columns is absent, or can be converted. -/
def HasColumns (header : TableHeader) (σ : Settings) (s : RenderState) : Prop :=
  ∀ t, t.scopes = s.scopes → ∃ cols u, (bound (header.attributes.get? "cols")).runFrom σ t = (.ok cols, u)

/-- Nothing to go through stays nothing, whatever the bounds are. -/
theorem toOption_bounds_of_empty {collection : Value}
    (hempty : ∀ start stop, collection.slice start stop = []) (offset limit : Option Expr) (σ : Settings)
    (t : RenderState) :
    ((do
      let start := (← bound offset).getD 0
      let limit ← bound limit
      return collection.slice start (limit.map (start + ·)) :
        Render (List Value)).runFrom σ t).1.toOption.getD [] = [] := by
  rw [runFrom_bind]
  generalize (bound offset).runFrom σ t = start
  match start with
  | (.error e, u) => rfl
  | (.ok start, u) =>
    dsimp only
    rw [runFrom_bind]
    generalize (bound limit).runFrom σ u = stop
    match stop with
    | (.error e, v) => rfl
    | (.ok stop, v) => exact hempty _ _

/-- **A table goes through the items that its arguments stand for.** -/
theorem HasArguments.visited (h : header.HasArguments a) (hcols : header.HasColumns σ s) :
    header.visited σ s = (a.slice.runFrom σ s).1.toOption.getD [] := by
  rw [TableHeader.visited, opened, Arguments.slice, runFrom_bind, runFrom_bind, h.collection, h.offset,
    h.limit]
  cases hcollection : a.collection.evaluate.runFrom σ s with
  | mk outcome t =>
    cases outcome with
    | error e => rfl
    | ok collection =>
      have ht : t.scopes = s.scopes := Arguments.scopes_of_evaluates (fun h => h.evaluate _) hcollection
      dsimp only
      -- nil and false have no items, and a table does not look at the other arguments then
      split
      · exact (toOption_bounds_of_empty (fun _ _ => rfl) ..).symm
      · exact (toOption_bounds_of_empty (fun _ _ => rfl) ..).symm
      · rw [runFrom_bind, runFrom_bind]
        cases hoffset : (bound a.offset).runFrom σ t with
        | mk outcome u =>
          cases outcome with
          | error e => rfl
          | ok offset =>
            have hu : u.scopes = s.scopes :=
              (Arguments.scopes_of_evaluates (fun h => h.bound _) hoffset).trans ht
            dsimp only
            rw [runFrom_bind, runFrom_bind]
            cases hlimit : (bound a.limit).runFrom σ u with
            | mk outcome v =>
              cases outcome with
              | error e => rfl
              | ok limit =>
                have hv : v.scopes = s.scopes :=
                  (Arguments.scopes_of_evaluates (fun h => h.bound _) hlimit).trans hu
                obtain ⟨cols, w, hrun⟩ := hcols v hv
                dsimp only
                rw [runFrom_bind, hrun]
                rfl

end TableHeader

/-- **The items of a loop depend on the values of its arguments.** The heads of loops, unless they go on where
another one stopped, and of tables are read from texts that give them arguments. Loops in the same direction
go through the same items when each of their arguments is the same, or a literal in one and a variable that
stands for its value in the other; and a table with such arguments goes through them in the order of the
collection, unless it fails at the number of its columns. Only the limit of a loop must not be written as nil:
that is no limit. -/
theorem items_depend_on_values (σ : Settings) (s : RenderState) :
    (∀ markup header, LoopHeader.readLax markup = .ok header ∨ LoopHeader.readStrict markup = .ok header →
      header.continues = false → ∃ a, header.HasArguments a) ∧
    (∀ markup header, TableHeader.read markup = .ok header → ∃ a, header.HasArguments a) ∧
    (∀ (a b : Arguments) (loop : LoopHeader), Arguments.SameValues σ s a b → loop.HasArguments a →
      a.limit ≠ some (.value .nil) →
      (∀ other : LoopHeader, other.HasArguments b → b.limit ≠ some (.value .nil) →
        other.reversed = loop.reversed → other.visited σ s = loop.visited σ s) ∧
      ∀ table : TableHeader, table.HasArguments b → table.HasColumns σ s →
        loop.visited σ s = if loop.reversed then (table.visited σ s).reverse else table.visited σ s) ∧
    ∀ (a : Arguments) (loop other : LoopHeader), loop.HasArguments a → a.limit = some (.value .nil) →
      other.HasArguments { a with limit := none } → other.reversed = loop.reversed →
      other.visited σ s = loop.visited σ s := by
  refine ⟨fun markup header hread hfresh => ?_, fun markup header hread =>
    (TableHeader.setBy_of_read hread).exists_hasArguments, fun a b loop hsame hloop hlimit => ?_,
    fun a loop other hloop hlimit hother hreversed => ?_⟩
  · rcases hread with hread | hread
    · exact (LoopHeader.setBy_of_readLax hread).exists_hasArguments hfresh
    · obtain ⟨attributes, hset⟩ := LoopHeader.exists_setBy_of_readStrict hread
      exact hset.exists_hasArguments hfresh
  · obtain ⟨given, -, ha⟩ := hloop.given
    refine ⟨fun other hother hlimit' hreversed => ?_, fun table htable hcols => ?_⟩
    · obtain ⟨given', -, hb⟩ := hother.given
      rw [hother.visited hlimit', hloop.visited hlimit, hsame.slice ha hb, hreversed]
    · obtain ⟨given', -, hb⟩ := htable.given
      rw [hloop.visited hlimit, htable.visited hcols, hsame.slice ha hb]
  · rw [hother.visited nofun, hloop.visited_of_nil hlimit, hreversed]

/-- Settings with a number and nil as data. -/
def countSettings : Settings := { environments := [[("two", .int 2), ("none", .nil)]] }

/-- The same items through literals, through variables, and in a table. -/
theorem items_depend_on_values_two :
    ∃ loop other table, LoopHeader.readLax "i in (1..4) limit: 2 offset: nil".toList = .ok loop ∧
      LoopHeader.readLax "i in (1..4) limit: two offset: none".toList = .ok other ∧
      TableHeader.read "i in (1..4) limit: two offset: none cols: 2".toList = .ok table ∧
      loop.visited countSettings {} = [.int 1, .int 2] ∧
      other.visited countSettings {} = loop.visited countSettings {} ∧
      loop.visited countSettings {} = table.visited countSettings {} := by
  have hsame : Arguments.SameValues countSettings {}
      ⟨.value (.range (.inclusive 1 4)), some (.value .nil), some (.value (.int 2))⟩
      ⟨.value (.range (.inclusive 1 4)), some (.lookup (.value (.str "none")) []),
        some (.lookup (.value (.str "two")) [])⟩ := ⟨rfl, .some (.bound rfl), .some (.bound rfl)⟩
  have hloop : LoopHeader.readLax "i in (1..4) limit: 2 offset: nil".toList = .ok _ := rfl
  have hother : LoopHeader.readLax "i in (1..4) limit: two offset: none".toList = .ok _ := rfl
  have htable : TableHeader.read "i in (1..4) limit: two offset: none cols: 2".toList = .ok _ := rfl
  obtain ⟨hloops, htables⟩ := (items_depend_on_values countSettings {}).2.2.1 _ _ _ hsame
    ⟨rfl, rfl, _, LoopHeader.setBy_of_readLax hloop, rfl, rfl⟩ nofun
  refine ⟨_, _, _, hloop, hother, htable, rfl, ?_, ?_⟩
  · exact hloops _ ⟨rfl, rfl, _, LoopHeader.setBy_of_readLax hother, rfl, rfl⟩ nofun rfl
  · exact htables _ ⟨rfl, _, TableHeader.setBy_of_read htable, rfl, rfl⟩ fun t _ => ⟨some 2, t, rfl⟩

/-- A limit that is written as nil, and a variable that stands for nil. The loop takes the first one for no
limit; a table does not. -/
theorem loop_takes_nil_for_no_limit :
    ∃ loop other table, LoopHeader.readLax "i in (1..3) limit: nil".toList = .ok loop ∧
      LoopHeader.readLax "i in (1..3) limit: none".toList = .ok other ∧
      TableHeader.read "i in (1..3) limit: nil".toList = .ok table ∧
      loop.visited countSettings {} = [.int 1, .int 2, .int 3] ∧ other.visited countSettings {} = [] ∧
      table.visited countSettings {} = [] :=
  ⟨_, _, _, rfl, rfl, rfl, rfl, rfl, rfl⟩

end Stencil
