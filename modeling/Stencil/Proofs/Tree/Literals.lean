import Stencil.Proofs.Fallible
import Stencil.Proofs.Expr.Subexpressions
import Stencil.Proofs.Tree.Established
import Stencil.Proofs.Value.Plain

/-!
# The literals of a tree that has been read

Reading an expression makes values of its own, and all of them are plain (`Expr.isPlain_of_read`). So every
literal in a tree that has been read is plain, and every alternative of a case has something to compare
with (`wellRead_of_parse`).
-/

namespace Stencil

open Parsing

/-! ## Expressions -/

namespace Expr

/-- Every literal in the expression is plain. -/
def IsPlain (e : Expr) : Prop := ∀ v, .value v ∈ e.subs → v.isPlain

theorem isPlain_value {v : Value} (hv : v.isPlain) : (Expr.value v).IsPlain := literals_value hv

theorem isPlain_nil : (Expr.value .nil).IsPlain := isPlain_value rfl

theorem isPlain_range {first last : Expr} (hfirst : first.IsPlain) (hlast : last.IsPlain) :
    (Expr.range first last).IsPlain := literals_range hfirst hlast

theorem isPlain_lookup {root : Expr} {path : List Step} (hroot : root.IsPlain)
    (hpath : ∀ step ∈ path, step.key.IsPlain) : (Expr.lookup root path).IsPlain :=
  literals_lookup hroot hpath

/-! ### What is read -/

theorem isPlain_of_literalWord? {s : List Char} {v : Value} (h : literalWord? s = some v) :
    v.isPlain := by
  unfold literalWord? at h
  split at h
  · cases h
    rfl
  · split at h <;> cases h <;> rfl

theorem isPlain_of_between {first last e : Expr} (hfirst : first.IsPlain) (hlast : last.IsPlain)
    (h : between first last = .ok e) : e.IsPlain := by
  unfold between at h
  split at h
  · split at h
    · cases h
      exact isPlain_range hfirst hlast
    · obtain ⟨start, -, h⟩ := bind_eq_ok_iff.mp h
      obtain ⟨stop, -, h⟩ := bind_eq_ok_iff.mp h
      cases h
      exact isPlain_value rfl
  · cases h
    exact isPlain_range hfirst hlast

section

variable {read : List Char → Outcome Expr} (hread : ∀ s e, read s = .ok e → e.IsPlain)

include hread

theorem isPlain_of_toRoot {part : Part} {e : Expr} (h : part.toRoot read = .ok e) : e.IsPlain := by
  cases part with
  | name s =>
    cases h
    exact isPlain_value rfl
  | index content => exact hread content e h

theorem isPlain_of_toStep {part : Part} {step : Step} (h : part.toStep read = .ok step) :
    step.key.IsPlain := by
  cases part with
  | name s =>
    cases h
    exact isPlain_value rfl
  | index content =>
    obtain ⟨key, hkey, rfl⟩ := map_eq_ok_iff.mp h
    exact hread content key hkey

end

theorem isPlain_of_readWithin {fuel : Nat} {s : List Char} {e : Expr}
    (h : readWithin fuel s = .ok e) : e.IsPlain := by
  induction fuel generalizing s e with
  | zero =>
    cases h
    exact isPlain_nil
  | succ fuel ih =>
    unfold readWithin at h
    dsimp only at h
    -- in the order in which it is decided what the text is
    split at h
    · next hword =>
      cases h
      exact isPlain_value (isPlain_of_literalWord? hword)
    split at h
    · cases h
      exact isPlain_value rfl
    split at h
    · obtain ⟨n, -, rfl⟩ := map_eq_ok_iff.mp h
      exact isPlain_value rfl
    split at h
    · obtain ⟨first, hfirst, h⟩ := bind_eq_ok_iff.mp h
      obtain ⟨last, hlast, h⟩ := bind_eq_ok_iff.mp h
      exact isPlain_of_between (ih hfirst) (ih hlast) h
    split at h
    · cases h
      exact isPlain_value rfl
    split at h
    · cases h
      exact isPlain_lookup isPlain_nil fun _ hstep => nomatch hstep
    · have hread : ∀ s e, readWithin fuel s = .ok e → e.IsPlain := fun _ _ => ih
      obtain ⟨root, hroot, h⟩ := bind_eq_ok_iff.mp h
      obtain ⟨path, hpath, h⟩ := bind_eq_ok_iff.mp h
      cases h
      refine isPlain_lookup (isPlain_of_toRoot hread hroot) fun step hstep => ?_
      obtain ⟨part, -, hpart⟩ := exists_of_mapM_eq_ok hpath step hstep
      exact isPlain_of_toStep hread hpart

/-- **Every literal in an expression that has been read is plain.** -/
theorem isPlain_of_read {s : List Char} {e : Expr} (h : read s = .ok e) : e.IsPlain :=
  isPlain_of_readWithin h

theorem isPlain_of_mapM_read {texts : List (List Char)} {es : List Expr}
    (h : texts.mapM read = .ok es) : ∀ e ∈ es, e.IsPlain := by
  intro e he
  obtain ⟨s, -, hs⟩ := exists_of_mapM_eq_ok h e he
  exact isPlain_of_read hs

end Expr

/-! ## Pipelines -/

theorem FilterCall.isPlain_of_ofArguments {name : List Char} {arguments : List (List Char)}
    {call : FilterCall} (h : ofArguments name arguments = .ok call) :
    ∀ e ∈ call.exprs, e.IsPlain := by
  refine foldlM_keeps (Q := fun call : FilterCall => ∀ e ∈ call.exprs, e.IsPlain) h
    (fun _ he => nomatch he) fun call argument _ next hcall hnext => ?_
  -- an argument comes behind the others of its kind
  unfold addArgument at hnext
  split at hnext
  · obtain ⟨value, hvalue, hnext⟩ := bind_eq_ok_iff.mp hnext
    cases hnext
    intro e he
    simp only [exprs, List.map_append, List.map_cons, List.map_nil, ← List.append_assoc] at he
    rcases List.mem_append.mp he with he | he
    · exact hcall e he
    · cases List.mem_singleton.mp he
      exact Expr.isPlain_of_read hvalue
  · obtain ⟨value, hvalue, hnext⟩ := bind_eq_ok_iff.mp hnext
    cases hnext
    intro e he
    simp only [exprs, List.mem_append, List.mem_singleton] at he hcall
    rcases he with (he | rfl) | he
    · exact hcall e (.inl he)
    · exact Expr.isPlain_of_read hvalue
    · exact hcall e (.inr he)

namespace Pipeline

/-- Every literal in the pipeline is plain. -/
def IsPlain (p : Pipeline) : Prop := ∀ e ∈ p.exprs, e.IsPlain

theorem isPlain_mk {expr : Expr} {filters : List FilterCall} (hexpr : expr.IsPlain)
    (hfilters : ∀ call ∈ filters, ∀ e ∈ call.exprs, e.IsPlain) :
    IsPlain { expr, filters } := by
  refine List.forall_mem_cons.mpr ⟨hexpr, fun e he => ?_⟩
  obtain ⟨call, hcall, he⟩ := List.mem_flatMap.mp he
  exact hfilters call hcall e he

theorem isPlain_of_readStretches {stretches : List (List Char)} {filters : List FilterCall}
    (h : readStretches stretches = .ok filters) :
    ∀ call ∈ filters, ∀ e ∈ call.exprs, e.IsPlain := by
  induction stretches generalizing filters with
  | nil =>
    cases h
    exact fun _ hcall => nomatch hcall
  | cons stretch rest ih =>
    unfold readStretches at h
    split at h
    · exact ih h
    · obtain ⟨call, hcall, h⟩ := bind_eq_ok_iff.mp h
      obtain ⟨more, hmore, h⟩ := bind_eq_ok_iff.mp h
      cases h
      exact List.forall_mem_cons.mpr ⟨FilterCall.isPlain_of_ofArguments hcall, ih hmore⟩

theorem isPlain_of_readLax {markup : List Char} {p : Pipeline} (h : readLax markup = .ok p) :
    p.IsPlain := by
  unfold readLax at h
  split at h
  · cases h
    exact isPlain_mk Expr.isPlain_nil fun _ hcall => nomatch hcall
  · obtain ⟨expr, hexpr, h⟩ := bind_eq_ok_iff.mp h
    have hexpr := Expr.isPlain_of_read hexpr
    split at h
    · cases h
      exact isPlain_mk hexpr fun _ hcall => nomatch hcall
    · obtain ⟨filters, hfilters, h⟩ := bind_eq_ok_iff.mp h
      cases h
      exact isPlain_mk hexpr (isPlain_of_readStretches hfilters)

theorem isPlain_of_readFilters {fuel : Nat} {ls rest : Grammar.Rest} {filters : List FilterCall}
    (h : readFilters fuel ls = .ok (filters, rest)) :
    ∀ call ∈ filters, ∀ e ∈ call.exprs, e.IsPlain := by
  induction fuel generalizing ls rest filters with
  | zero =>
    cases h
    exact fun _ hcall => nomatch hcall
  | succ fuel ih =>
    unfold readFilters at h
    split at h
    · cases h
      exact fun _ hcall => nomatch hcall
    · obtain ⟨⟨name, rest⟩, -, h⟩ := bind_eq_ok_iff.mp h
      obtain ⟨⟨arguments, rest⟩, -, h⟩ := bind_eq_ok_iff.mp h
      obtain ⟨call, hcall, h⟩ := bind_eq_ok_iff.mp h
      obtain ⟨⟨more, rest⟩, hmore, h⟩ := bind_eq_ok_iff.mp h
      cases h
      exact List.forall_mem_cons.mpr ⟨FilterCall.isPlain_of_ofArguments hcall, ih hmore⟩

theorem isPlain_of_readStrict {markup : List Char} {p : Pipeline}
    (h : readStrict markup = .ok p) : p.IsPlain := by
  unfold readStrict at h
  obtain ⟨ls, -, h⟩ := bind_eq_ok_iff.mp h
  split at h
  · cases h
    exact isPlain_mk Expr.isPlain_nil fun _ hcall => nomatch hcall
  · obtain ⟨⟨text, rest⟩, -, h⟩ := bind_eq_ok_iff.mp h
    obtain ⟨expr, hexpr, h⟩ := bind_eq_ok_iff.mp h
    obtain ⟨⟨filters, rest⟩, hfilters, h⟩ := bind_eq_ok_iff.mp h
    obtain ⟨_, -, h⟩ := bind_eq_ok_iff.mp h
    cases h
    exact isPlain_mk (Expr.isPlain_of_read hexpr) (isPlain_of_readFilters hfilters)

theorem isPlain_of_readBy {p : Pipeline} (h : ReadBy readStrict readLax p) : p.IsPlain := by
  obtain ⟨markup, h | h⟩ := h
  · exact isPlain_of_readStrict h
  · exact isPlain_of_readLax h

end Pipeline

/-! ## Conditions -/

namespace Condition

/-- Every literal in the condition is plain. -/
def IsPlain (c : Condition) : Prop := ∀ e ∈ c.exprs, e.IsPlain

theorem isPlain_ofLinks {first : Comparison} {links : List (String × Comparison)}
    (hfirst : ∀ e ∈ first.exprs, e.IsPlain) (hlinks : ∀ link ∈ links, ∀ e ∈ link.2.exprs, e.IsPlain) :
    (ofLinks first links).IsPlain := by
  induction links generalizing first with
  | nil =>
    intro e he
    obtain ⟨link, hlink, he⟩ := List.mem_flatMap.mp he
    cases List.mem_singleton.mp hlink
    exact hfirst e he
  | cons link rest ih =>
    obtain ⟨hlink, hrest⟩ := List.forall_mem_cons.mp hlinks
    intro e he
    rcases List.mem_append.mp he with he | he
    · exact hfirst e he
    · exact ih hlink hrest e he

theorem isPlain_comparison {left right : Expr} (hleft : left.IsPlain) (hright : right.IsPlain)
    (operator : Option String) :
    ∀ e ∈ (Comparison.mk left operator right).exprs, e.IsPlain :=
  List.forall_mem_cons.mpr ⟨hleft, List.forall_mem_singleton.mpr hright⟩

theorem isPlain_of_readFragment {tag : String} {fragment : List Char} {c : Comparison}
    (h : readFragment tag fragment = .ok c) : ∀ e ∈ c.exprs, e.IsPlain := by
  unfold readFragment at h
  split at h
  · cases h
  · obtain ⟨left, hleft, h⟩ := bind_eq_ok_iff.mp h
    have hleft := Expr.isPlain_of_read hleft
    dsimp only at h
    split at h
    · obtain ⟨right, hright, h⟩ := bind_eq_ok_iff.mp h
      cases h
      exact isPlain_comparison hleft (Expr.isPlain_of_read hright) _
    · cases h
      exact isPlain_comparison hleft Expr.isPlain_nil _

theorem isPlain_of_readLinks {tag : String} {fragments : List (List Char)}
    {links : List (String × Comparison)} (h : readLinks tag fragments = .ok links) :
    ∀ link ∈ links, ∀ e ∈ link.2.exprs, e.IsPlain := by
  induction fragments using readLinks.induct generalizing links with
  | case1 =>
    cases h
    exact fun _ hlink => nomatch hlink
  | case2 => cases h
  | case3 word fragment rest hword =>
    rw [readLinks, if_pos hword] at h
    cases h
  | case4 word fragment rest hword ih =>
    rw [readLinks, if_neg hword] at h
    obtain ⟨comparison, hcomparison, h⟩ := bind_eq_ok_iff.mp h
    obtain ⟨more, hmore, h⟩ := bind_eq_ok_iff.mp h
    cases h
    exact List.forall_mem_cons.mpr ⟨isPlain_of_readFragment hcomparison, ih hmore⟩

theorem isPlain_of_readLax {tag : String} {markup : List Char} {c : Condition}
    (h : readLax tag markup = .ok c) : c.IsPlain := by
  unfold readLax at h
  split at h
  · cases h
  · obtain ⟨head, hhead, h⟩ := bind_eq_ok_iff.mp h
    obtain ⟨links, hlinks, h⟩ := bind_eq_ok_iff.mp h
    cases h
    exact isPlain_ofLinks (isPlain_of_readFragment hhead) (isPlain_of_readLinks hlinks)

theorem isPlain_of_readComparison {ls rest : Grammar.Rest} {c : Comparison}
    (h : readComparison ls = .ok (c, rest)) : ∀ e ∈ c.exprs, e.IsPlain := by
  unfold readComparison at h
  obtain ⟨⟨text, after⟩, -, h⟩ := bind_eq_ok_iff.mp h
  obtain ⟨left, hleft, h⟩ := bind_eq_ok_iff.mp h
  have hleft := Expr.isPlain_of_read hleft
  split at h
  · cases h
    exact isPlain_comparison hleft Expr.isPlain_nil _
  · obtain ⟨⟨text, after⟩, -, h⟩ := bind_eq_ok_iff.mp h
    obtain ⟨right, hright, h⟩ := bind_eq_ok_iff.mp h
    cases h
    exact isPlain_comparison hleft (Expr.isPlain_of_read hright) _

theorem isPlain_of_readComparisons {fuel : Nat} {ls : Grammar.Rest}
    {links : List (String × Comparison)} (h : readComparisons fuel ls = .ok links) :
    ∀ link ∈ links, ∀ e ∈ link.2.exprs, e.IsPlain := by
  induction fuel generalizing ls links with
  | zero =>
    cases h
    exact fun _ hlink => nomatch hlink
  | succ fuel ih =>
    unfold readComparisons at h
    split at h
    · obtain ⟨⟨next, rest⟩, hnext, h⟩ := bind_eq_ok_iff.mp h
      obtain ⟨more, hmore, h⟩ := bind_eq_ok_iff.mp h
      cases h
      exact List.forall_mem_cons.mpr ⟨isPlain_of_readComparison hnext, ih hmore⟩
    · obtain ⟨_, -, h⟩ := bind_eq_ok_iff.mp h
      cases h
      exact fun _ hlink => nomatch hlink

theorem isPlain_of_readStrict {markup : List Char} {c : Condition}
    (h : readStrict markup = .ok c) : c.IsPlain := by
  unfold readStrict at h
  obtain ⟨ls, -, h⟩ := bind_eq_ok_iff.mp h
  obtain ⟨⟨first, rest⟩, hfirst, h⟩ := bind_eq_ok_iff.mp h
  obtain ⟨links, hlinks, h⟩ := bind_eq_ok_iff.mp h
  cases h
  exact isPlain_ofLinks (isPlain_of_readComparison hfirst) (isPlain_of_readComparisons hlinks)

theorem isPlain_of_readBy {tag : String} {c : Condition} (h : ReadBy readStrict (readLax tag) c) :
    c.IsPlain := by
  obtain ⟨markup, h | h⟩ := h
  · exact isPlain_of_readStrict h
  · exact isPlain_of_readLax h

end Condition

/-! ## Heads of tags -/

namespace LoopHeader

/-- Every literal in the head of a loop is plain. -/
structure IsPlain (header : LoopHeader) : Prop where
  collection : header.collection.IsPlain
  offset : ∀ e, header.offset = some e → e.IsPlain
  limit : ∀ e, header.limit = some e → e.IsPlain

theorem IsPlain.exprs {header : LoopHeader} (h : header.IsPlain) : ∀ e ∈ header.exprs, e.IsPlain := by
  refine List.forall_mem_cons.mpr ⟨h.collection, fun e he => ?_⟩
  rcases List.mem_append.mp he with he | he
  · exact h.offset e (Option.mem_toList.mp he)
  · exact h.limit e (Option.mem_toList.mp he)

theorem isPlain_of_start {itemName collection : List Char} {reversed : Bool} {header : LoopHeader}
    (h : start itemName collection reversed = .ok header) : header.IsPlain := by
  obtain ⟨e, he, h⟩ := bind_eq_ok_iff.mp h
  cases h
  exact ⟨Expr.isPlain_of_read he, nofun, nofun⟩

theorem isPlain_of_unlessNil {e e' : Expr} (he : e.IsPlain) (h : e.unlessNil = some e') :
    e'.IsPlain := by
  unfold Expr.unlessNil at h
  split at h
  · cases h
  · cases h
    exact he

theorem IsPlain.withAttribute {header header' : LoopHeader} (hheader : header.IsPlain)
    {key value : List Char} (h : header.withAttribute key value = .ok header') :
    header'.IsPlain := by
  unfold LoopHeader.withAttribute at h
  split at h
  · split at h
    · -- a loop that goes on where the last one stopped has no offset of its own
      cases h
      exact { hheader with offset := nofun }
    · obtain ⟨e, he, h⟩ := bind_eq_ok_iff.mp h
      cases h
      exact { hheader with offset := fun _ => isPlain_of_unlessNil (Expr.isPlain_of_read he) }
  · split at h
    · obtain ⟨e, he, h⟩ := bind_eq_ok_iff.mp h
      cases h
      exact { hheader with limit := fun _ => isPlain_of_unlessNil (Expr.isPlain_of_read he) }
    · cases h
      exact hheader

theorem isPlain_of_readLax {markup : List Char} {header : LoopHeader}
    (h : readLax markup = .ok header) : header.IsPlain := by
  unfold readLax at h
  split at h
  · cases h
  · obtain ⟨first, hfirst, h⟩ := bind_eq_ok_iff.mp h
    exact foldlM_keeps h (isPlain_of_start hfirst) fun _ _ _ _ hheader => hheader.withAttribute

theorem IsPlain.readAttributes {fuel : Nat} {header header' : LoopHeader} {ls : Grammar.Rest}
    (hheader : header.IsPlain) (h : LoopHeader.readAttributes fuel header ls = .ok header') :
    header'.IsPlain := by
  induction fuel generalizing header ls with
  | zero =>
    cases h
    exact hheader
  | succ fuel ih =>
    unfold LoopHeader.readAttributes at h
    split at h
    · split at h
      · cases h
      · obtain ⟨⟨value, rest⟩, -, h⟩ := bind_eq_ok_iff.mp h
        obtain ⟨next, hnext, h⟩ := bind_eq_ok_iff.mp h
        exact ih (hheader.withAttribute hnext) h
    · obtain ⟨_, -, h⟩ := bind_eq_ok_iff.mp h
      cases h
      exact hheader

theorem isPlain_of_readStrict {markup : List Char} {header : LoopHeader}
    (h : readStrict markup = .ok header) : header.IsPlain := by
  unfold readStrict at h
  obtain ⟨ls, -, h⟩ := bind_eq_ok_iff.mp h
  obtain ⟨⟨itemName, rest⟩, -, h⟩ := bind_eq_ok_iff.mp h
  dsimp only at h
  split at h
  · cases h
  · obtain ⟨⟨collection, rest⟩, -, h⟩ := bind_eq_ok_iff.mp h
    split at h
    · obtain ⟨first, hfirst, h⟩ := bind_eq_ok_iff.mp h
      exact (isPlain_of_start hfirst).readAttributes h
    · obtain ⟨first, hfirst, h⟩ := bind_eq_ok_iff.mp h
      exact (isPlain_of_start hfirst).readAttributes h

theorem isPlain_of_readBy {header : LoopHeader} (h : ReadBy readStrict readLax header) :
    header.IsPlain := by
  obtain ⟨markup, h | h⟩ := h
  · exact isPlain_of_readStrict h
  · exact isPlain_of_readLax h

end LoopHeader

theorem TableHeader.isPlain_of_read {markup : List Char} {header : TableHeader}
    (h : read markup = .ok header) : ∀ e ∈ header.exprs, e.IsPlain := by
  unfold read at h
  split at h
  · cases h
  · obtain ⟨collection, hcollection, h⟩ := bind_eq_ok_iff.mp h
    refine foldlM_keeps (Q := fun header : TableHeader => ∀ e ∈ header.exprs, e.IsPlain) h
      (List.forall_mem_singleton.mpr (Expr.isPlain_of_read hcollection))
      fun header entry _ next hheader hnext => ?_
    obtain ⟨value, hvalue, hnext⟩ := bind_eq_ok_iff.mp hnext
    cases hnext
    obtain ⟨hfirst, hattributes⟩ := List.forall_mem_cons.mp hheader
    refine List.forall_mem_cons.mpr ⟨hfirst, fun e he => ?_⟩
    -- a repeated attribute only loses a value
    obtain ⟨pair, hpair, rfl⟩ := List.mem_map.mp he
    rcases Named.mem_put hpair with hold | rfl
    · exact hattributes _ (List.mem_map_of_mem hold)
    · exact Expr.isPlain_of_read hvalue

theorem isPlain_of_readCycle {markup : List Char} {group : Expr} {values : List Expr}
    (h : readCycle markup = .ok (group, values)) : ∀ e ∈ group :: values, e.IsPlain := by
  unfold readCycle at h
  split at h
  · obtain ⟨read, hvalues, h⟩ := bind_eq_ok_iff.mp h
    obtain ⟨e, he, h⟩ := bind_eq_ok_iff.mp h
    cases h
    exact List.forall_mem_cons.mpr ⟨Expr.isPlain_of_read he, Expr.isPlain_of_mapM_read hvalues⟩
  · split at h
    · cases h
    · -- a group that is not named is a text made of the values
      obtain ⟨read, hvalues, h⟩ := bind_eq_ok_iff.mp h
      obtain ⟨names, -, h⟩ := bind_eq_ok_iff.mp h
      cases h
      exact List.forall_mem_cons.mpr ⟨Expr.isPlain_value rfl, Expr.isPlain_of_mapM_read hvalues⟩

/-! ## Trees -/

/-- The literals of a node are plain, and every clause of a case has something to compare with. -/
structure Node.WellRead (m : Node) : Prop where
  plain : ∀ e ∈ m.exprs, e.IsPlain
  compared : ∀ tag subject preamble clauses, m = .case tag subject preamble clauses →
    ∀ clause ∈ clauses, ∀ values, clause.1 = some values → values ≠ []

/-- The literals in the head of a block are plain. -/
def Opening.IsPlain : Opening → Prop
  | .case subject => subject.IsPlain
  | .loop header => ∀ e ∈ header.exprs, e.IsPlain
  | .table header => ∀ e ∈ header.exprs, e.IsPlain
  | .choose _ | .block _ => True

/-- What a part stands behind has plain literals, and is not empty. -/
def Guard.WellRead : Guard → Prop
  | .condition c => c.IsPlain
  | .alternatives values => values ≠ [] ∧ ∀ e ∈ values, e.IsPlain
  | .opening | .otherwise => True

theorem Node.WellRead.of_plain {m : Node} (hplain : ∀ e ∈ m.exprs, e.IsPlain)
    (hcase : ∀ tag subject preamble clauses, m ≠ .case tag subject preamble clauses) : m.WellRead :=
  ⟨hplain, fun tag subject preamble clauses hm => absurd hm (hcase tag subject preamble clauses)⟩

/-- What a tag is read as has plain literals. -/
theorem Builder.ReadsAs.wellRead {kind : TagKind} {tag : Tag} {node : Node}
    (hreads : ReadsAs tag kind (.node node)) : node.WellRead := by
  refine .of_plain ?_ fun _ _ _ _ hnode => by cases hreads <;> cases hnode
  cases hreads with
  | assign target source hline hread => exact Pipeline.isPlain_of_readBy hread
  | cycle group values hread =>
    obtain ⟨markup, hread⟩ := hread
    exact isPlain_of_readCycle hread
  | _ => exact fun _ he => nomatch he

theorem Builder.ReadsAs.wellRead_opens {kind : TagKind} {tag : Tag} {opening : Opening} {guard : Guard}
    (hreads : ReadsAs tag kind (.opens opening guard)) : opening.IsPlain ∧ guard.WellRead := by
  cases hreads with
  | choose c hread => exact ⟨trivial, Condition.isPlain_of_readBy hread⟩
  | negated c hread => exact ⟨trivial, Condition.isPlain_of_readBy hread⟩
  | case subject hread =>
    obtain ⟨s, hread⟩ := hread
    exact ⟨Expr.isPlain_of_read hread, trivial⟩
  | loop header hread => exact ⟨(LoopHeader.isPlain_of_readBy hread).exprs, trivial⟩
  | table header hread =>
    obtain ⟨markup, hread⟩ := hread
    exact ⟨TableHeader.isPlain_of_read hread, trivial⟩
  | _ => exact ⟨trivial, trivial⟩

/-- The alternatives of a part are not empty, and the literals in front of it are plain. -/
theorem Continues.wellRead {options : ParseOptions} {block : String} {p : Segment.Placed}
    {k k' : Continuation} {guard : Guard} (hcontinues : Continues options block p k (some guard) k') :
    guard.WellRead := by
  cases hcontinues with
  | elsif _ _ hread => exact Condition.isPlain_of_readBy (readBy_of_select hread)
  | when _ _ hsome hread =>
    refine ⟨fun hvalues => hsome ?_, Expr.isPlain_of_mapM_read hread⟩
    subst hvalues
    exact eq_nil_of_mapM_eq_ok hread
  | _ => trivial

/-- A block that is closed has the literals of its head and of what its parts stand behind. -/
theorem Frame.wellRead_finish {f : Frame} (hhead : f.opening.IsPlain)
    (hguards : ∀ part ∈ f.allParts, part.1.WellRead) : f.finish.WellRead := by
  obtain ⟨tag, opening, parts, guard, nodes⟩ := f
  cases opening with
  | choose negated =>
    refine .of_plain (fun e he => ?_) nofun
    obtain ⟨branch, hbranch, he⟩ := List.mem_flatMap.mp he
    obtain ⟨⟨guard', body⟩, hpart, rfl⟩ := List.mem_map.mp hbranch
    have hguard : guard'.WellRead := hguards _ hpart
    cases guard' with
    | condition c => exact hguard e he
    | _ => cases he
  | case subject =>
    -- the first part stands in front of all alternatives and is no clause
    have hclause : ∀ c ∈ (Frame.mk tag (.case subject) parts guard nodes).allParts.tail.map clause,
        ∀ values, c.1 = some values → values ≠ [] ∧ ∀ e ∈ values, e.IsPlain := by
      intro c hclause values hvalues
      obtain ⟨⟨guard', body⟩, hpart, rfl⟩ := List.mem_map.mp hclause
      have hguard : guard'.WellRead := hguards _ (List.mem_of_mem_tail hpart)
      cases guard' <;> cases hvalues
      exact hguard
    refine ⟨List.forall_mem_cons.mpr ⟨hhead, fun e he => ?_⟩, fun _ _ _ _ hnode => ?_⟩
    · obtain ⟨⟨values, body⟩, hmem, he⟩ := List.mem_flatMap.mp he
      cases values with
      | none => cases he
      | some values => exact (hclause _ hmem values rfl).2 e he
    · cases hnode
      exact fun clause hmem values hvalues => (hclause clause hmem values hvalues).1
  | loop header => exact .of_plain hhead nofun
  | table header => exact .of_plain hhead nofun
  | block kind => exact .of_plain (fun _ he => nomatch he) nofun

theorem establishes_wellRead (options : ParseOptions) :
    Establishes options (fun _ => True) Node.WellRead (fun _ opening => opening.IsPlain)
      Guard.WellRead where
  text s := .of_plain (fun _ he => nomatch he) nofun
  output _ hread := .of_plain (Pipeline.isPlain_of_readBy (Builder.readBy_of_readOutput hread)) nofun
  node _ htag := by
    obtain ⟨kind, -, hreads⟩ := Builder.readsAs_of_isRegistered htag
    exact hreads.wellRead
  raw _ _ _ := .of_plain (fun _ he => nomatch he) nofun
  opens _ htag := by
    obtain ⟨kind, -, hreads⟩ := Builder.readsAs_of_isRegistered htag
    exact hreads.wellRead_opens
  starts _ htag hread := Continues.wellRead (Builder.readsPart_of_readPart htag hread)
  finish := Frame.wellRead_finish

/-- **Every part of a template that has been read is well read.** -/
theorem wellRead_of_parse {env : Environment} {overrides : ParseOverrides} {name : Option String}
    {source : String} {t : Template} (ht : (env.parse overrides name source).1 = .ok t) :
    t.body.All Node.WellRead := by
  obtain ⟨options, hbody⟩ := exists_parseBody_of_parse ht
  exact all_of_parseBody (establishes_wellRead options) (fun _ _ => trivial) hbody

end Stencil
