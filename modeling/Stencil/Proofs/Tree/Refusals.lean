import Stencil.Proofs.Markup.Expressions
import Stencil.Proofs.Markup.Within
import Stencil.Tree.Header

/-!
# How the reading of markup fails

Everything in the markup of tags and outputs is read by a few readers, which complain of the markup or fail
with what the reading of one of its expressions fails with. So what these failures are is a matter of texts
of a kind (`SafeTexts`), and follows for each reader (`failsOnly_…`).
-/

namespace Stencil

variable {P : Failure → Prop} {T : List Char → Prop}

/-- What is left of the lexemes of a text of a kind. -/
def Grammar.RestOf (T : List Char → Prop) (ls : Grammar.Rest) : Prop :=
  ∃ markup before, T markup ∧ Grammar.lexemes markup = .ok (before ++ ls)

/-- Complaints are failures of the kind `P`, and so is whatever the reading of a text of the kind `T` fails
with. Texts that stand in one of the kind, or that the strict grammar reads off it, are of it, too. -/
structure SafeTexts (P : Failure → Prop) (T : List Char → Prop) : Prop where
  complaint (c : Complaint) : P c.toFailure
  read {s : List Char} (hs : T s) : FailsOnly P (Expr.read s)
  /-- An expression that has been read may be shown, as a name for a cycle. -/
  shown {s : List Char} {e : Expr} (hs : T s) (he : Expr.read s = .ok e) : FailsOnly P e.shown
  within {s t : List Char} (ht : t <:+: s) (hs : T s) : T t
  expression {ls rest : Grammar.Rest} {t : List Char} (hls : Grammar.RestOf T ls)
    (ht : Grammar.expression ls = .ok (t, rest)) : T t
  argument {ls rest : Grammar.Rest} {t : List Char} (hls : Grammar.RestOf T ls)
    (ht : Grammar.argument ls = .ok (t, rest)) : T t

/-! ## What is left of a markup -/

namespace Grammar

variable {ls rest : Rest} {t : List Char}

theorem RestOf.right {front : Rest} (h : RestOf T (front ++ rest)) : RestOf T rest := by
  obtain ⟨markup, before, hmarkup, hls⟩ := h
  exact ⟨markup, before ++ front, hmarkup, by rw [List.append_assoc, hls]⟩

theorem RestOf.drop (h : RestOf T ls) (n : Nat) : RestOf T (ls.drop n) := by
  rw [← List.take_append_drop n ls] at h
  exact h.right

theorem RestOf.tail (h : RestOf T ls) : RestOf T ls.tail := by
  rw [← List.drop_one]
  exact h.drop 1

theorem RestOf.proper (h : RestOf T ls) : Proper ls := by
  obtain ⟨markup, before, -, hls⟩ := h
  exact (proper_of_lexemes hls).right

theorem restOf_of_lexemes {markup : List Char} (hmarkup : T markup) (h : lexemes markup = .ok ls) :
    RestOf T ls := ⟨markup, [], hmarkup, h⟩

theorem RestOf.after_take {kind : Lexeme.Kind} (h : RestOf T ls) (htake : take kind ls = .ok (t, rest)) :
    RestOf T rest := by
  unfold take at htake
  split at htake
  · cases htake
    exact h.tail
  · cases htake

theorem RestOf.after_take? {kind : Lexeme.Kind} (h : RestOf T ls) (htake : take? kind ls = some (t, rest)) :
    RestOf T rest := by
  obtain ⟨-, heq⟩ := take?_eq_some htake
  cases heq
  exact h.tail

theorem RestOf.after_word? {word : String} (h : RestOf T ls) (hword : word? word ls = some (t, rest)) :
    RestOf T rest := by
  obtain ⟨-, heq⟩ := word?_eq_some hword
  cases heq
  exact h.tail

theorem RestOf.after_expression (h : RestOf T ls) (hread : expression ls = .ok (t, rest)) :
    RestOf T rest := by
  obtain ⟨front, -, rfl, -⟩ := forms_of_expression h.proper hread
  exact h.right

theorem RestOf.after_argument (h : RestOf T ls) (hread : argument ls = .ok (t, rest)) :
    RestOf T rest := by
  unfold argument at hread
  split at hread
  · obtain ⟨⟨value, after⟩, hvalue, hread⟩ := bind_eq_ok_iff.mp hread
    cases hread
    exact (h.drop 2).after_expression hvalue
  · exact h.after_expression hread

end Grammar

open Grammar (RestOf)

namespace SafeTexts

variable (h : SafeTexts P T) {s : List Char} {ls rest : Grammar.Rest}

include h

theorem complain {α : Type} (c : Complaint) : FailsOnly P (Stencil.complain c : Outcome α) :=
  failsOnly_error (h.complaint c)

/-- A refusal of the strict grammar is a complaint. -/
theorem refusal {α : Type} (x : Except Grammar.Refusal α) :
    FailsOnly P (x.mapError (·.complaint.toFailure)) :=
  failsOnly_mapError fun r => h.complaint r.complaint

theorem mapM_read {texts : List (List Char)} (htexts : ∀ s ∈ texts, T s) :
    FailsOnly P (texts.mapM Expr.read) :=
  failsOnly_mapM fun s hs => h.read (htexts s hs)

/-! ## Pipelines -/

theorem addArgument (call : FilterCall) (hs : T s) : FailsOnly P (call.addArgument s) := by
  unfold FilterCall.addArgument
  split
  · next key value hattribute =>
    have hvalue := (Fragment.within_of_wholeAttribute? hattribute).trans (Text.trim_isInfix s)
    exact (h.read (h.within hvalue hs)).bind fun _ _ => failsOnly_ok _
  · exact (h.read hs).bind fun _ _ => failsOnly_ok _

theorem ofArguments (name : List Char) {arguments : List (List Char)} (hs : ∀ s ∈ arguments, T s) :
    FailsOnly P (FilterCall.ofArguments name arguments) :=
  failsOnly_foldlM fun call s hmem => h.addArgument call (hs s hmem)

theorem readStretches {stretches : List (List Char)} (hs : ∀ s ∈ stretches, T s) :
    FailsOnly P (Pipeline.readStretches stretches) := by
  induction stretches with
  | nil => exact failsOnly_ok []
  | cons stretch rest ih =>
    obtain ⟨hstretch, hrest⟩ := List.forall_mem_cons.mp hs
    unfold Pipeline.readStretches
    split
    · exact ih hrest
    · next name _ =>
      have hcall := h.ofArguments name fun s hmem =>
        h.within (Fragment.within_of_mem_arguments hmem) hstretch
      exact hcall.bind fun _ _ => (ih hrest).bind fun _ _ => failsOnly_ok _

theorem pipeline_readLax (hs : T s) : FailsOnly P (Pipeline.readLax s) := by
  unfold Pipeline.readLax
  split
  · exact failsOnly_ok _
  · next expr rest hfirst =>
    have hfound := Fragment.found_of_first? hfirst
    refine (h.read (h.within hfound.within hs)).bind fun e _ => ?_
    split
    · exact failsOnly_ok _
    · next filters hbar =>
      have hfilters := ((Fragment.suffix_of_afterBar? hbar).trans hfound.rest).isInfix
      have hread := h.readStretches fun s hmem =>
        h.within ((Fragment.within_of_mem_stretches hmem).trans hfilters) hs
      exact hread.bind fun _ _ => failsOnly_ok _

omit h in
/-- The arguments are of the kind, and so is what is left. -/
theorem of_readArguments (h : SafeTexts P T) {fuel : Nat} {arguments : List (List Char)} (hls : RestOf T ls)
    (hread : Pipeline.readArguments fuel ls = .ok (arguments, rest)) :
    (∀ s ∈ arguments, T s) ∧ RestOf T rest := by
  induction fuel generalizing ls arguments with
  | zero =>
    cases hread
    exact ⟨(fun _ hs => nomatch hs), hls⟩
  | succ fuel ih =>
    unfold Pipeline.readArguments at hread
    split at hread
    · cases hread
      exact ⟨(fun _ hs => nomatch hs), hls⟩
    · next _ behind htake =>
      have hbehind := hls.after_take? htake
      obtain ⟨⟨argument, after⟩, hargument, hread⟩ := bind_eq_ok_iff.mp hread
      have hargument := mapError_eq_ok_iff.mp hargument
      obtain ⟨⟨more, last⟩, hmore, hread⟩ := bind_eq_ok_iff.mp hread
      cases hread
      obtain ⟨hmore, hrest⟩ := ih (hbehind.after_argument hargument) hmore
      exact ⟨List.forall_mem_cons.mpr ⟨h.argument hbehind hargument, hmore⟩, hrest⟩

theorem readArguments (fuel : Nat) (ls : Grammar.Rest) :
    FailsOnly P (Pipeline.readArguments fuel ls) := by
  induction fuel generalizing ls with
  | zero => exact failsOnly_ok _
  | succ fuel ih =>
    unfold Pipeline.readArguments
    split
    · exact failsOnly_ok _
    · exact (h.refusal _).bind fun _ _ => (ih _).bind fun _ _ => failsOnly_ok _

theorem readArgumentList (ls : Grammar.Rest) : FailsOnly P (Pipeline.readArgumentList ls) := by
  unfold Pipeline.readArgumentList
  split
  · exact failsOnly_ok _
  · exact (h.refusal _).bind fun _ _ => (h.readArguments _ _).bind fun _ _ => failsOnly_ok _

theorem of_readArgumentList {arguments : List (List Char)} (hls : RestOf T ls)
    (hread : Pipeline.readArgumentList ls = .ok (arguments, rest)) :
    (∀ s ∈ arguments, T s) ∧ RestOf T rest := by
  unfold Pipeline.readArgumentList at hread
  split at hread
  · cases hread
    exact ⟨(fun _ hs => nomatch hs), hls⟩
  · next _ behind htake =>
    have hbehind := hls.after_take? htake
    obtain ⟨⟨argument, after⟩, hargument, hread⟩ := bind_eq_ok_iff.mp hread
    have hargument := mapError_eq_ok_iff.mp hargument
    obtain ⟨⟨more, last⟩, hmore, hread⟩ := bind_eq_ok_iff.mp hread
    cases hread
    obtain ⟨hmore, hrest⟩ := of_readArguments h (hbehind.after_argument hargument) hmore
    exact ⟨List.forall_mem_cons.mpr ⟨h.argument hbehind hargument, hmore⟩, hrest⟩

theorem readFilters {fuel : Nat} (hls : RestOf T ls) : FailsOnly P (Pipeline.readFilters fuel ls) := by
  induction fuel generalizing ls with
  | zero => exact failsOnly_ok _
  | succ fuel ih =>
    unfold Pipeline.readFilters
    split
    · exact failsOnly_ok _
    · next _ behind htake =>
      refine (h.refusal _).bind fun ⟨name, afterName⟩ hname => ?_
      have hafter := (hls.after_take? htake).after_take (mapError_eq_ok_iff.mp hname)
      refine (h.readArgumentList _).bind fun ⟨arguments, last⟩ harguments => ?_
      obtain ⟨harguments, hlast⟩ := h.of_readArgumentList hafter harguments
      exact (h.ofArguments name harguments).bind fun _ _ => (ih hlast).bind fun _ _ => failsOnly_ok _

omit h in
/-- A markup whose lexemes cannot be read is complained of. -/
theorem lexemes (h : SafeTexts P T) {markup : List Char} :
    FailsOnly P ((Grammar.lexemes markup).mapError Complaint.toFailure) :=
  failsOnly_mapError h.complaint

theorem pipeline_readStrict (hs : T s) : FailsOnly P (Pipeline.readStrict s) := by
  unfold Pipeline.readStrict
  refine h.lexemes.bind fun ls hls => ?_
  have hls := Grammar.restOf_of_lexemes hs (mapError_eq_ok_iff.mp hls)
  split
  · exact failsOnly_ok _
  · refine (h.refusal _).bind fun ⟨expr, rest⟩ hexpr => ?_
    have hexpr := mapError_eq_ok_iff.mp hexpr
    refine (h.read (h.expression hls hexpr)).bind fun _ _ => ?_
    refine (h.readFilters (hls.after_expression hexpr)).bind fun _ _ => ?_
    exact (h.refusal _).bind fun _ _ => failsOnly_ok _

/-! ## Conditions -/

theorem readFragment (tag : String) (hs : T s) : FailsOnly P (Condition.readFragment tag s) := by
  unfold Condition.readFragment
  split
  · exact h.complain _
  · next left operator right hcomparison =>
    obtain ⟨hleft, hright⟩ := Fragment.within_of_comparison? hcomparison
    refine (h.read (h.within hleft hs)).bind fun _ _ => ?_
    dsimp only
    split
    · next t => exact (h.read (h.within (hright t rfl) hs)).bind fun _ _ => failsOnly_ok _
    · exact failsOnly_ok _

theorem readLinks (tag : String) {fragments : List (List Char)} (hs : ∀ s ∈ fragments, T s) :
    FailsOnly P (Condition.readLinks tag fragments) := by
  induction fragments using Condition.readLinks.induct with
  | case1 => exact failsOnly_ok []
  | case2 => exact h.complain _
  | case3 word fragment rest hword =>
    rw [Condition.readLinks, if_pos hword]
    exact h.complain _
  | case4 word fragment rest hword ih =>
    obtain ⟨hfragment, hrest⟩ := List.forall_mem_cons.mp (List.forall_mem_cons.mp hs).2
    rw [Condition.readLinks, if_neg hword]
    exact (h.readFragment tag hfragment).bind fun _ _ => (ih hrest).bind fun _ _ => failsOnly_ok _

theorem condition_readLax (tag : String) (hs : T s) : FailsOnly P (Condition.readLax tag s) := by
  have hparts : ∀ t ∈ Fragment.conditions s, T t := fun t ht =>
    h.within (Fragment.within_of_mem_conditions ht) hs
  unfold Condition.readLax
  split
  · exact h.complain _
  · next first rest heq =>
    rw [heq] at hparts
    obtain ⟨hfirst, hrest⟩ := List.forall_mem_cons.mp hparts
    exact (h.readFragment tag hfirst).bind fun _ _ => (h.readLinks tag hrest).bind fun _ _ =>
      failsOnly_ok _

theorem readComparison (hls : RestOf T ls) : FailsOnly P (Condition.readComparison ls) := by
  unfold Condition.readComparison
  refine (h.refusal _).bind fun ⟨left, afterLeft⟩ hleft => ?_
  have hleft := mapError_eq_ok_iff.mp hleft
  have hafter := hls.after_expression hleft
  refine (h.read (h.expression hls hleft)).bind fun _ _ => ?_
  split
  · exact failsOnly_ok _
  · next _ behind htake =>
    have hbehind := hafter.after_take? htake
    refine (h.refusal _).bind fun ⟨right, afterRight⟩ hright => ?_
    exact (h.read (h.expression hbehind (mapError_eq_ok_iff.mp hright))).bind fun _ _ => failsOnly_ok _

omit h in
theorem after_readComparison {c : Comparison} (hls : RestOf T ls)
    (hread : Condition.readComparison ls = .ok (c, rest)) : RestOf T rest := by
  unfold Condition.readComparison at hread
  obtain ⟨⟨left, afterLeft⟩, hleft, hread⟩ := bind_eq_ok_iff.mp hread
  obtain ⟨_, -, hread⟩ := bind_eq_ok_iff.mp hread
  have hafter := hls.after_expression (mapError_eq_ok_iff.mp hleft)
  split at hread
  · cases hread
    exact hafter
  · next _ behind htake =>
    obtain ⟨⟨right, afterRight⟩, hright, hread⟩ := bind_eq_ok_iff.mp hread
    obtain ⟨_, -, hread⟩ := bind_eq_ok_iff.mp hread
    cases hread
    exact (hafter.after_take? htake).after_expression (mapError_eq_ok_iff.mp hright)

theorem readComparisons {fuel : Nat} (hls : RestOf T ls) :
    FailsOnly P (Condition.readComparisons fuel ls) := by
  induction fuel generalizing ls with
  | zero => exact failsOnly_ok []
  | succ fuel ih =>
    unfold Condition.readComparisons
    split
    · next word behind hword =>
      have hbehind : RestOf T behind := by
        rcases Option.or_eq_some_iff.mp hword with hword | ⟨-, hword⟩ <;> exact hls.after_word? hword
      refine (h.readComparison hbehind).bind fun ⟨next, after⟩ hnext => ?_
      exact (ih (after_readComparison hbehind hnext)).bind fun _ _ => failsOnly_ok _
    · exact (h.refusal _).bind fun _ _ => failsOnly_ok _

theorem condition_readStrict (hs : T s) : FailsOnly P (Condition.readStrict s) := by
  unfold Condition.readStrict
  refine h.lexemes.bind fun ls hls => ?_
  have hls := Grammar.restOf_of_lexemes hs (mapError_eq_ok_iff.mp hls)
  refine (h.readComparison hls).bind fun ⟨first, rest⟩ hfirst => ?_
  exact (h.readComparisons (after_readComparison hls hfirst)).bind fun _ _ => failsOnly_ok _

/-! ## Heads of tags -/

theorem start (itemName : List Char) (hs : T s) (reversed : Bool) :
    FailsOnly P (LoopHeader.start itemName s reversed) :=
  (h.read hs).bind fun _ _ => failsOnly_ok _

theorem withAttribute (header : LoopHeader) (key : List Char) (hs : T s) :
    FailsOnly P (header.withAttribute key s) := by
  unfold LoopHeader.withAttribute
  split
  · split
    · exact failsOnly_ok _
    · exact (h.read hs).bind fun _ _ => failsOnly_ok _
  · split
    · exact (h.read hs).bind fun _ _ => failsOnly_ok _
    · exact failsOnly_ok _

theorem loop_readLax (hs : T s) : FailsOnly P (LoopHeader.readLax s) := by
  unfold LoopHeader.readLax
  split
  · exact h.complain _
  · next itemName collection reversed hheader =>
    have hcollection := h.within (Fragment.within_of_loopHeader? hheader) hs
    refine (h.start itemName hcollection reversed).bind fun _ _ => ?_
    exact failsOnly_foldlM fun header pair hpair =>
      h.withAttribute header pair.1 (h.within (Fragment.within_of_mem_attributes hpair) hs)

theorem readAttributes {fuel : Nat} (header : LoopHeader) (hls : RestOf T ls) :
    FailsOnly P (LoopHeader.readAttributes fuel header ls) := by
  induction fuel generalizing header ls with
  | zero => exact failsOnly_ok header
  | succ fuel ih =>
    unfold LoopHeader.readAttributes
    split
    · split
      · exact h.complain _
      · next key behind hkey =>
        have hbehind : RestOf T behind.tail := by
          rcases Option.or_eq_some_iff.mp hkey with hkey | ⟨-, hkey⟩ <;>
            exact (hls.after_word? hkey).tail
        refine (h.refusal _).bind fun ⟨value, after⟩ hvalue => ?_
        have hvalue := mapError_eq_ok_iff.mp hvalue
        refine (h.withAttribute header key (h.expression hbehind hvalue)).bind fun next _ => ?_
        exact ih next (hbehind.after_expression hvalue)
    · exact (h.refusal _).bind fun _ _ => failsOnly_ok _

theorem loop_readStrict (hs : T s) : FailsOnly P (LoopHeader.readStrict s) := by
  unfold LoopHeader.readStrict
  refine h.lexemes.bind fun ls hls => ?_
  have hls := Grammar.restOf_of_lexemes hs (mapError_eq_ok_iff.mp hls)
  refine (h.refusal _).bind fun ⟨itemName, afterName⟩ hname => ?_
  have hname := hls.after_take (mapError_eq_ok_iff.mp hname)
  dsimp only
  split
  · exact h.complain _
  · next _ behind hin =>
    have hbehind := hname.after_word? hin
    refine (h.refusal _).bind fun ⟨collection, after⟩ hcollection => ?_
    have hcollection := mapError_eq_ok_iff.mp hcollection
    have hafter := hbehind.after_expression hcollection
    have hstart (reversed : Bool) :=
      h.start itemName (h.expression hbehind hcollection) reversed
    dsimp only
    split
    · next _ last hreversed =>
      exact (hstart true).bind fun header _ => h.readAttributes header (hafter.after_word? hreversed)
    · exact (hstart false).bind fun header _ => h.readAttributes header hafter

theorem table_read (hs : T s) : FailsOnly P (TableHeader.read s) := by
  unfold TableHeader.read
  split
  · exact h.complain _
  · next itemName collection hheader =>
    refine (h.read (h.within (Fragment.within_of_tableHeader? hheader) hs)).bind fun _ _ => ?_
    exact failsOnly_foldlM fun header pair hpair =>
      (h.read (h.within (Fragment.within_of_mem_attributes hpair) hs)).bind fun _ _ => failsOnly_ok _

theorem readCycle (hs : T s) : FailsOnly P (readCycle s) := by
  unfold Stencil.readCycle
  split
  · next group values hnamed =>
    obtain ⟨hgroup, hvalues⟩ := Fragment.within_of_namedCycle? hnamed
    have hread := h.mapM_read fun t ht =>
      h.within ((Fragment.within_of_mem_cycleValues ht).trans hvalues) hs
    exact hread.bind fun _ _ => (h.read (h.within hgroup hs)).bind fun _ _ => failsOnly_ok _
  · split
    · exact h.complain _
    · -- a group that is not named is named by its values
      have hvalues : ∀ t ∈ Fragment.cycleValues s, T t := fun t ht =>
        h.within (Fragment.within_of_mem_cycleValues ht) hs
      refine (h.mapM_read hvalues).bind fun values hread => ?_
      have hshown : FailsOnly P (values.mapM Expr.shown) := failsOnly_mapM fun e he => by
        obtain ⟨t, ht, he⟩ := exists_of_mapM_eq_ok hread e he
        exact h.shown (hvalues t ht) he
      exact hshown.bind fun _ _ => failsOnly_ok _

end SafeTexts

end Stencil
