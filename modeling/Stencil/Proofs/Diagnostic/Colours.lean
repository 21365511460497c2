import Mathlib.Data.List.Forall2
import Stencil.Proofs.Diagnostic.Snippets

/-!
# Colours are taken off again

A painted text is a text with escape sequences around it. `Decorates painted text` says that nothing but
these sequences goes when they are taken off, whatever follows. Texts without escape characters decorate
themselves (`decorates_self`), and painting, putting behind each other and joining keep the relation, so that the
diagnostic of an error with colours decorates the one without (`TemplateError.decorates_diagnostic`).
`colours_are_decoration` says this of diagnostics and of the messages of undefined variables.
-/

namespace Stencil

namespace Style

/-! ## Taking escape sequences off -/

variable {s rest after : List Char}

theorem length_lt_of_dropSequence (hdrop : dropSequence s = some after) : after.length < s.length := by
  have hshort (p : Char → Bool) (s : List Char) : (s.dropWhile p).length ≤ s.length :=
    (List.dropWhile_suffix p).length_le
  unfold dropSequence at hdrop
  split at hdrop
  · cases hdrop
  · next c rest =>
    split at hdrop
    · cases hdrop
      exact Nat.lt_add_one _
    · split at hdrop
      · -- parameters and intermediate bytes may be missing, the final byte may not
        unfold dropControl at hdrop
        have hparameters := hshort (fun c => '0' ≤ c && c ≤ '?') rest
        have hintermediate := hshort (fun c => ' ' ≤ c && c ≤ '/')
          (rest.dropWhile fun c => '0' ≤ c && c ≤ '?')
        dsimp only at hdrop
        split at hdrop
        · next d tail htail =>
          rw [htail, List.length_cons] at hintermediate
          split at hdrop
          · cases hdrop
            rw [List.length_cons]
            omega
          · cases hdrop
        · cases hdrop
      · cases hdrop

/-- With a step for every character it makes no difference how many there are. -/
theorem stripWithin_eq {fuel more : Nat} (hfuel : s.length ≤ fuel) (hmore : s.length ≤ more) :
    stripWithin fuel s = stripWithin more s := by
  induction fuel generalizing s more with
  | zero =>
    obtain rfl := List.length_eq_zero_iff.mp (Nat.le_zero.mp hfuel)
    cases more <;> rfl
  | succ fuel ih =>
    cases s with
    | nil => cases more <;> rfl
    | cons c rest =>
      cases more with
      | zero => exact absurd hmore (Nat.not_succ_le_zero _)
      | succ more =>
        have hrest := ih (Nat.le_of_succ_le_succ hfuel) (Nat.le_of_succ_le_succ hmore)
        rw [stripWithin, stripWithin, hrest]
        split
        · split
          · next after hdrop =>
            -- a sequence has at least one character, so steps are left on both sides
            have hlength := length_lt_of_dropSequence hdrop
            rw [List.length_cons] at hfuel hmore
            exact ih (by omega) (by omega)
          · rfl
        · rfl

theorem strip_cons {c : Char} (hc : c ≠ escape) (rest : List Char) : strip (c :: rest) = c :: strip rest := by
  rw [strip, List.length_cons, stripWithin, if_neg (by simpa using hc), strip]

theorem strip_sequence (hdrop : dropSequence rest = some after) : strip (escape :: rest) = strip after := by
  have hlength := length_lt_of_dropSequence hdrop
  rw [strip, List.length_cons, stripWithin, if_pos (beq_self_eq_true _), hdrop]
  exact stripWithin_eq (by omega) (Nat.le_refl _)

theorem strip_append (hs : escape ∉ s) (rest : List Char) : strip (s ++ rest) = s ++ strip rest := by
  induction s with
  | nil => rfl
  | cons c s ih =>
    obtain ⟨hc, hs⟩ := List.ne_and_not_mem_of_not_mem_cons hs
    rw [List.cons_append, strip_cons hc.symm, ih hs, List.cons_append]

/-! ## Painted texts -/

/-- The text holds no escape character. -/
def Unescaped (text : String) : Prop := escape ∉ text.toList

instance (text : String) : Decidable (Unescaped text) :=
  inferInstanceAs (Decidable (escape ∉ text.toList))

/-- The first text is the second one with escape sequences in it; whatever follows, they are all that is taken
off. -/
def Decorates (painted text : String) : Prop :=
  ∀ rest, strip (painted.toList ++ rest) = text.toList ++ strip rest

variable {painted painted' text text' : String}

theorem Decorates.strip_eq (h : Decorates painted text) : strip painted.toList = text.toList := by
  have hall := h []
  rwa [List.append_nil, show strip [] = [] from rfl, List.append_nil] at hall

theorem Unescaped.append (htext : Unescaped text) (htext' : Unescaped text') : Unescaped (text ++ text') := by
  rw [Unescaped, String.toList_append, List.mem_append, not_or]
  exact ⟨htext, htext'⟩

theorem decorates_self (htext : Unescaped text) : Decorates text text := strip_append htext

theorem Decorates.append (h : Decorates painted text) (h' : Decorates painted' text') :
    Decorates (painted ++ painted') (text ++ text') := by
  intro rest
  rw [String.toList_append, String.toList_append, List.append_assoc, h, h', List.append_assoc]

/-- What puts a colour on is taken off. -/
theorem decorates_sequence (colour : Colour) : Decorates colour.sequence "" := by
  intro rest
  cases colour <;> exact strip_sequence rfl

theorem decorates_sequences (colours : List Colour) :
    Decorates (String.join (colours.map Colour.sequence)) "" := by
  induction colours with
  | nil => exact decorates_self (by decide)
  | cons colour rest ih =>
    rw [List.map_cons, String.join_cons]
    exact (decorates_sequence colour).append ih

/-- **Painting decorates.** -/
theorem decorates_paint (colours : List Colour) (htext : Unescaped text) :
    Decorates (paint true colours text) (paint false colours text) := by
  -- without a colour not even the sequence that takes it off is written
  rw [show paint false colours text = text from rfl, paint]
  split
  · have hpainted := ((decorates_sequences colours).append (decorates_self htext)).append
      (decorates_sequence .reset)
    rwa [String.empty_append, String.append_empty] at hpainted
  · exact decorates_self htext

theorem decorates_style (role : Role) (htext : Unescaped text) :
    Decorates (style true role text) (style false role text) := decorates_paint role.colours htext

theorem Decorates.intercalate {separator : String} {rows rows' : List String} (hseparator : Unescaped separator)
    (hrows : List.Forall₂ Decorates rows rows') :
    Decorates (separator.intercalate rows) (separator.intercalate rows') := by
  induction hrows with
  | nil => exact decorates_self (show Unescaped "" by decide)
  | @cons row row' rows rows' hrow hrows ih =>
    cases hrows with
    | nil => simpa using hrow
    | cons hnext hlater =>
      rw [String.intercalate_cons_cons, String.intercalate_cons_cons]
      exact (hrow.append (decorates_self hseparator)).append ih

end Style

open Style

/-! ## Snippets -/

theorem unescaped_toString (n : Int) : Unescaped (toString n) := not_mem_toString (by decide) (by decide) n

theorem unescaped_gutterNumber (line : Int) : Unescaped (gutterNumber line) := by
  refine Unescaped.append (fun hmem => ?_) (unescaped_toString line)
  rw [String.toList_ofList] at hmem
  exact absurd (List.eq_of_mem_replicate hmem) (by decide)

theorem decorates_gutterLine (line : Int) {content : String} (hcontent : Unescaped content) (offending : Bool) :
    Decorates (gutterLine true line content offending) (gutterLine false line content offending) := by
  have hmarker : Unescaped (if offending then ">" else " ") := by cases offending <;> decide
  have hnumber := hmarker.append (unescaped_gutterNumber line)
  exact ((decorates_style .gutter hnumber).append (decorates_self (by decide))).append
    (decorates_style _ hcontent)

theorem Snippet.decorates_text {snippet : Snippet} (hlines : ∀ l ∈ snippet.lines, Unescaped l.2) :
    Decorates (snippet.text true) (snippet.text false) := by
  have hrule : Decorates (gutterRule true) (gutterRule false) := decorates_style .source (by decide)
  refine Decorates.intercalate (by decide) (.cons hrule (List.rel_append ?_ (.cons hrule .nil)))
  rw [List.forall₂_map_left_iff, List.forall₂_map_right_iff, List.forall₂_same]
  exact fun l hl => decorates_gutterLine l.1 (hlines l hl) _

theorem Snippet.unescaped_of_mem_build {source : String} (hsource : Unescaped source) {line around : Int} :
    ∀ l ∈ (build source line around).lines, Unescaped l.2 := by
  intro l hl hmem
  obtain ⟨row, hrow, heq⟩ := exists_line_of_mem_build hl
  rw [heq] at hmem
  exact hsource (Text.mem_of_mem_lines row hrow _ hmem).1

/-! ## Diagnostics -/

namespace TemplateError

/-- No text of the error holds an escape character. -/
structure Unescaped (e : TemplateError) : Prop where
  message : Style.Unescaped e.message
  templateName : ∀ name ∈ e.templateName, Style.Unescaped name
  markup : ∀ markup ∈ e.markup, Style.Unescaped markup
  suggestion : ∀ suggestion ∈ e.suggestion, Style.Unescaped suggestion
  source : ∀ source ∈ e.source, Style.Unescaped source

theorem unescaped_code (code : ErrorCode) : Style.Unescaped code.text := by
  cases code <;> exact of_decide_eq_true rfl

theorem decorates_header (code : Option ErrorCode) {message : String} (hmessage : Style.Unescaped message) :
    Decorates (header true (code.map ErrorCode.text) message)
      (header false (code.map ErrorCode.text) message) := by
  cases code with
  | none => exact decorates_self hmessage
  | some code =>
    simp only [header, Option.map_some]
    split
    · exact decorates_self hmessage
    · exact ((decorates_style .code (unescaped_code code)).append (decorates_self (by decide))).append
        (decorates_self hmessage)

theorem mem_of_mem_present {part : Option String} {text : String} (htext : text ∈ present part) : text ∈ part :=
  (Option.filter_eq_some_iff.mp htext).1

/-- Rows that are written for an optional part. -/
theorem forall₂_present {part : Option String} {row row' : String → String}
    (hrow : ∀ text ∈ part, Decorates (row text) (row' text)) :
    List.Forall₂ Decorates ((present part).toList.map row) ((present part).toList.map row') := by
  rw [List.forall₂_map_left_iff, List.forall₂_map_right_iff, List.forall₂_same]
  exact fun text htext => hrow text (mem_of_mem_present (Option.mem_toList.mp htext))

/-- **The diagnostic with colours is the one without them, decorated.** Row by row. -/
theorem decorates_diagnostic {e : TemplateError} (he : e.Unescaped) :
    Decorates (e.diagnostic true) (e.diagnostic false) := by
  have hname : Style.Unescaped ((present e.templateName).getD "<template>") := by
    cases hpresent : present e.templateName with
    | none => exact of_decide_eq_true rfl
    | some name => exact he.templateName name (mem_of_mem_present hpresent)
  refine Decorates.intercalate (by decide)
    (List.rel_append (List.rel_append (List.rel_append
      (.cons (decorates_header e.code he.message) (.cons ?location .nil)) ?markup) ?snippet) ?hint)
  case location =>
    refine (decorates_self (by decide)).append (decorates_style .location ?_)
    cases e.line with
    | none => exact hname
    | some line => exact (hname.append (by decide)).append (unescaped_toString line)
  case markup =>
    exact forall₂_present fun markup hmarkup =>
      (decorates_self (by decide)).append (decorates_self (he.markup markup hmarkup))
  case snippet =>
    split
    · next source line hsource _ =>
      split
      · exact .nil
      · exact .cons (Snippet.decorates_text
          (Snippet.unescaped_of_mem_build (he.source source (mem_of_mem_present hsource)))) .nil
    · exact .nil
  case hint =>
    exact forall₂_present fun suggestion hsuggestion =>
      (((decorates_self (by decide)).append (decorates_style .hint (by decide))).append
        (decorates_self (by decide))).append (decorates_self (he.suggestion suggestion hsuggestion))

end TemplateError

/-! ## Undefined variables -/

namespace Text.Likeness

/-- The choice between candidates takes one of them. -/
theorem mem_of_foldl_eq_some {best : Option Candidate} {candidates : List Candidate} {c : Candidate}
    (hc : candidates.foldl (fun best c =>
      match best with
      | none => some c
      | some b => if b.isBetter c then some c else some b) best = some c) :
    best = some c ∨ c ∈ candidates := by
  induction candidates generalizing best with
  | nil => exact .inl hc
  | cons d rest ih =>
    rw [List.foldl_cons] at hc
    rcases ih hc with hbest | hmem
    · split at hbest
      · exact .inr (Option.some_inj.mp hbest ▸ List.mem_cons_self)
      · split at hbest
        · exact .inr (Option.some_inj.mp hbest ▸ List.mem_cons_self)
        · exact .inl hbest
    · exact .inr (List.mem_cons_of_mem _ hmem)

/-- What is offered is one of the names. -/
theorem mem_of_closest_eq_some {wanted other : String} {names : List String}
    (hother : closest wanted names = some other) : other ∈ names := by
  obtain ⟨c, hc, rfl⟩ := Option.map_eq_some_iff.mp hother
  rcases mem_of_foldl_eq_some hc with hnone | hmem
  · cases hnone
  · obtain ⟨name, hname, rfl⟩ := List.mem_map.mp (List.mem_of_mem_filter hmem)
    exact hname

end Text.Likeness

namespace TemplateError

theorem decorates_undefinedVariable {name : String} (hname : Style.Unescaped name) {known : List String}
    (hknown : ∀ other ∈ known, Style.Unescaped other) :
    Decorates (undefinedVariable true name known).message (undefinedVariable false name known).message := by
  refine ((decorates_self (by decide)).append (decorates_self hname)).append ?_
  split
  · next other hother =>
    exact ((decorates_self (by decide)).append (decorates_style .suggestion
      (hknown other (Text.Likeness.mem_of_closest_eq_some hother)))).append (decorates_self (by decide))
  · exact decorates_self (by decide)

end TemplateError

/-- **Colours are decoration.** -/
theorem colours_are_decoration :
    (∀ e : TemplateError, e.Unescaped →
      strip (e.diagnostic true).toList = (e.diagnostic false).toList) ∧
    ∀ name known, Unescaped name → (∀ other ∈ known, Unescaped other) →
      strip (TemplateError.undefinedVariable true name known).message.toList =
        (TemplateError.undefinedVariable false name known).message.toList :=
  ⟨fun _ he => (TemplateError.decorates_diagnostic he).strip_eq,
    fun _ _ hname hknown => (TemplateError.decorates_undefinedVariable hname hknown).strip_eq⟩

/-- An error with all its parts, and a name that one of the known names is offered for. -/
theorem colours_are_decoration_endfi :
    let e : TemplateError :=
      { kind := .malformed, message := "Unknown tag 'endfi'", code := some .unknownTag, line := some 2,
        templateName := some "page", markup := some "in endfi", suggestion := some "Remove it",
        source := some "one\ntwo" }
    e.Unescaped ∧ strip (e.diagnostic true).toList = (e.diagnostic false).toList ∧
      e.diagnostic false = "LD-PAR-003: Unknown tag 'endfi'\n  --> page:2\n  Markup: in endfi\n   |\n" ++
        "   1 | one\n>  2 | two\n   |\n  Hint: Remove it" ∧
      (TemplateError.undefinedVariable true "titl" ["title"]).message =
        "undefined variable titl. Did you mean '\x1b[92m\x1b[1mtitle\x1b[0m'?" ∧
      strip (TemplateError.undefinedVariable true "titl" ["title"]).message.toList =
        (TemplateError.undefinedVariable false "titl" ["title"]).message.toList := by
  intro e
  have he : e.Unescaped :=
    { message := by decide
      templateName := by simp only [e, Option.mem_some_iff, forall_eq']; decide
      markup := by simp only [e, Option.mem_some_iff, forall_eq']; decide
      suggestion := by simp only [e, Option.mem_some_iff, forall_eq']; decide
      source := by simp only [e, Option.mem_some_iff, forall_eq']; decide }
  exact ⟨he, colours_are_decoration.1 e he, by decide +kernel, by decide +kernel,
    colours_are_decoration.2 "titl" ["title"] (by decide) (by decide)⟩

end Stencil
