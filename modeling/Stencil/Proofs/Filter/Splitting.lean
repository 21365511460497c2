import Stencil.Proofs.Filter.Invocation
import Stencil.Proofs.Text.Search

/-!
# The filters `split` and `join`

A text that is split at a separator other than a single space is what its pieces are joined to
(`join_undoes_split`). Unless the separator is empty, its occurrences, counted from the left, are all gone from
the pieces, and there is one more piece than occurrences.
-/

namespace Stencil

open Text
open Render

namespace Filter

variable {σ : Settings} {s : RenderState} {separator text : List Char}

theorem split_eq_pieces (hspace : separator ≠ [' ']) (hempty : separator ≠ []) (text : List Char) :
    split separator text = pieces separator text := by
  rw [split, if_neg (by simpa using hspace), if_neg (by simpa using hempty)]

/-- Joined again with the separator, the pieces are the text. -/
theorem joined_split (hspace : separator ≠ [' ']) (text : List Char) :
    joined separator (split separator text) = text := by
  by_cases hempty : separator = []
  · -- every character is a piece, and nothing is put between them
    subst hempty
    exact joined_singletons text
  · rw [split_eq_pieces hspace hempty]
    exact (cuts_pieces hempty text).joined_eq

theorem runFrom_charsOf_str (text : String) :
    (BuiltinFilter.charsOf (.str text)).runFrom σ s = (.ok text.toList, s) := by
  rw [BuiltinFilter.runFrom_charsOf, Value.output]
  rfl

theorem runFrom_split (text separator : String)
    (hfilter : σ.filters.get? "split" = some (.builtin .split)) :
    (invoke "split" (.str text) [.str separator] []).runFrom σ s =
      (.ok (.list ((split separator.toList text.toList).map BuiltinFilter.ofChars)), s) := by
  have hbind : Parameters.bind BuiltinFilter.split.function BuiltinFilter.split.parameters
      [.str separator] [] = .ok [.str separator] := rfl
  rw [runFrom_invoke rfl hfilter, runFrom_apply_builtin hbind]
  simp only [BuiltinFilter.apply, runFrom_bind, runFrom_charsOf_str]
  rfl

theorem runFrom_mapM_charsOf (texts : List (List Char)) :
    ((texts.map BuiltinFilter.ofChars).mapM BuiltinFilter.charsOf).runFrom σ s = (.ok texts, s) := by
  have hchars : ∀ text ∈ texts, ((BuiltinFilter.charsOf ∘ BuiltinFilter.ofChars) text).runFrom σ s =
      (.ok (id text), s) := by
    intro text _
    rw [Function.comp_apply, BuiltinFilter.ofChars, runFrom_charsOf_str, String.toList_ofList, id_eq]
  rw [List.mapM_map, runFrom_mapM hchars, mapM_pure, List.map_id]

theorem runFrom_join (texts : List (List Char)) (glue : String)
    (hfilter : σ.filters.get? "join" = some (.builtin .join)) :
    (invoke "join" (.list (texts.map BuiltinFilter.ofChars)) [.str glue] []).runFrom σ s =
      (.ok (BuiltinFilter.ofChars (joined glue.toList texts)), s) := by
  have hbind : Parameters.bind BuiltinFilter.join.function BuiltinFilter.join.parameters
      [.str glue] [] = .ok [.str glue] := rfl
  rw [runFrom_invoke rfl hfilter, runFrom_apply_builtin hbind]
  simp only [BuiltinFilter.apply, items, Value.toItems, runFrom_bind, runFrom_charsOf_str, runFrom_ofOutcome,
    runFrom_mapM_charsOf]
  rfl

end Filter

open Stencil.Filter

/-- **`join` undoes `split`.** For every text and every separator other than a single space, splitting gives
pieces that joining puts together to the text again. If the separator is not empty, no piece holds it, and there
is one more piece than there are occurrences of it that do not overlap, counted from the left. -/
theorem join_undoes_split {σ : Settings} (s : RenderState) (text separator : String)
    (hsplit : σ.filters.get? "split" = some (.builtin .split))
    (hjoin : σ.filters.get? "join" = some (.builtin .join)) (hspace : separator ≠ " ") :
    ∃ pieces : List String,
      (invoke "split" (.str text) [.str separator] []).runFrom σ s = (.ok (.list (pieces.map .str)), s) ∧
      (invoke "join" (.list (pieces.map .str)) [.str separator] []).runFrom σ s = (.ok (.str text), s) ∧
      (separator ≠ "" →
        (∀ piece ∈ pieces, ¬ separator.toList <:+: piece.toList) ∧
        ∃ places, (∀ others, Occurrences separator.toList text.toList 0 others ↔ others = places) ∧
          pieces.length = places.length + 1) := by
  have hspace : separator.toList ≠ [' '] := fun h => hspace (String.toList_inj.mp h)
  have hvalues : (split separator.toList text.toList).map BuiltinFilter.ofChars =
      ((split separator.toList text.toList).map String.ofList).map .str := by
    rw [List.map_map]
    rfl
  refine ⟨(split separator.toList text.toList).map String.ofList, ?_, ?_, fun hne => ?_⟩
  · rw [runFrom_split text separator hsplit, hvalues]
  · rw [← hvalues, runFrom_join _ separator hjoin, joined_split hspace, BuiltinFilter.ofChars,
      String.ofList_toList]
  · have hempty : separator.toList ≠ [] := fun h => hne (String.toList_inj.mp h)
    have hcuts := cuts_pieces hempty text.toList
    obtain ⟨places, hplaces, hlength⟩ := hcuts.exists_occurrences []
    rw [split_eq_pieces hspace hempty]
    refine ⟨fun piece hpiece => ?_, places, fun others => ⟨fun h => h.unique hplaces, ?_⟩, ?_⟩
    · obtain ⟨chars, hchars, rfl⟩ := List.mem_map.mp hpiece
      rw [String.toList_ofList]
      exact hcuts.not_infix hempty chars hchars
    · rintro rfl
      exact hplaces
    · rw [List.length_map]
      exact hlength

/-- A separator that overlaps itself is found from the left. -/
theorem join_undoes_split_overlapping :
    ∃ pieces : List String,
      (invoke "split" (.str "aaaab") [.str "aa"] []).runFrom {} {} = (.ok (.list (pieces.map .str)), {}) ∧
      (invoke "join" (.list (pieces.map .str)) [.str "aa"] []).runFrom {} {} = (.ok (.str "aaaab"), {}) ∧
      (∀ piece ∈ pieces, ¬ "aa".toList <:+: piece.toList) ∧
      ∃ places, (∀ others, Occurrences "aa".toList "aaaab".toList 0 others ↔ others = places) ∧
        pieces.length = places.length + 1 := by
  obtain ⟨pieces, hsplit, hjoin, hpieces⟩ :=
    join_undoes_split (σ := {}) {} "aaaab" "aa" rfl rfl (by decide)
  exact ⟨pieces, hsplit, hjoin, hpieces (by decide)⟩

example : (invoke "split" (.str "aaaab") [.str "aa"] []).runFrom {} {} =
    (.ok (.list [.str "", .str "", .str "b"]), {}) := by rfl

end Stencil
