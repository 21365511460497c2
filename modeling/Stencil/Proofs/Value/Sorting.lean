import Mathlib.Data.String.Basic
import Stencil.Proofs.Value.Members

/-!
# Sorting by keys

When all keys are whole numbers, or all are texts, they are compared by a linear order (`ranks_number`,
`ranks_text`). Items with such keys can be sorted, and sorting is stable (`exists_sort`, `StablySorted`): the
items are the same, they are in the order of their keys, and those with equal keys are in the order in which they
were given. The invariant is carried from the run at the front (`StablySorted.of_run`,
`StablySorted.of_falling_run`) over the insertions of the other items (`exists_foldlM_insertSorted`), each of
which finds its place by halving (`exists_placeWithin`).

A text cannot be compared with anything else. Sorting compares each item with some other one, so that it ends well
only if all keys are texts or none is (`isText_of_sort`).
-/

namespace Stencil.Value

/-! ## What stable sorting gives -/

section

variable {α : Type} [LinearOrder α] {rank : Keyed → α}

/-- The items in the order of their ranks, those with equal ranks in the order in which they were given. -/
structure StablySorted (rank : Keyed → α) (ks sorted : List Keyed) : Prop where
  perm : sorted.Perm ks
  ordered : sorted.Pairwise fun k l => rank k ≤ rank l
  stable (r : α) : sorted.filter (rank · = r) = ks.filter (rank · = r)

/-- Among the items of one rank, an item passes all items that have other ranks. -/
theorem filter_append_singleton {ks : List Keyed} {k : Keyed} (hne : ∀ l ∈ ks, rank l ≠ rank k) (r : α) :
    ks.filter (rank · = r) ++ [k].filter (rank · = r) = (k :: ks).filter (rank · = r) := by
  by_cases hr : rank k = r
  · have hnone : ks.filter (rank · = r) = [] :=
      List.filter_eq_nil_iff.mpr fun l hl => by simpa [hr] using hne l hl
    simp [hr, hnone]
  · simp [hr]

theorem StablySorted.of_run {ks : List Keyed} (hrun : ks.Pairwise fun k l => rank k ≤ rank l) :
    StablySorted rank ks ks :=
  ⟨.refl _, hrun, fun _ => rfl⟩

/-- A run that falls strictly may be turned round, because no two of its items have equal ranks. -/
theorem StablySorted.of_falling_run {ks : List Keyed} (hrun : ks.Pairwise fun k l => rank l < rank k) :
    StablySorted rank ks ks.reverse := by
  refine ⟨List.reverse_perm ks, List.pairwise_reverse.mpr (hrun.imp le_of_lt), fun r => ?_⟩
  induction ks with
  | nil => rfl
  | cons k rest ih =>
    obtain ⟨hk, hrest⟩ := List.pairwise_cons.mp hrun
    rw [List.reverse_cons, List.filter_append, ih hrest]
    exact filter_append_singleton (fun l hl => (hk l hl).ne) r

/-- The run at the front is turned round if it falls. -/
theorem StablySorted.of_isChain {ks : List Keyed} {descending : Bool}
    (hchain : ks.IsChain fun k l => decide (rank l < rank k) = descending) :
    StablySorted rank ks (if descending then ks.reverse else ks) := by
  cases descending with
  | true =>
    simp only [decide_eq_true_eq] at hchain
    have : Trans (fun k l : Keyed => rank l < rank k) (fun k l => rank l < rank k) (fun k l => rank l < rank k) :=
      ⟨fun hkl hlm => lt_trans hlm hkl⟩
    exact .of_falling_run (List.isChain_iff_pairwise.mp hchain)
  | false =>
    simp only [decide_eq_false_iff_not, not_lt] at hchain
    have : Trans (fun k l : Keyed => rank k ≤ rank l) (fun k l => rank k ≤ rank l) (fun k l => rank k ≤ rank l) :=
      ⟨le_trans⟩
    exact .of_run (List.isChain_iff_pairwise.mp hchain)

/-- An item that comes last goes behind all items whose ranks are not greater. -/
theorem StablySorted.insert {done front back : List Keyed} {k : Keyed}
    (h : StablySorted rank done (front ++ back)) (hfront : ∀ l ∈ front, rank l ≤ rank k)
    (hback : ∀ l ∈ back, rank k < rank l) : StablySorted rank (done ++ [k]) (front ++ k :: back) where
  perm := calc
    List.Perm (front ++ k :: back) (k :: (front ++ back)) := List.perm_middle
    List.Perm _ (k :: done) := h.perm.cons k
    List.Perm _ (done ++ [k]) := (List.perm_append_singleton k done).symm
  ordered := by
    obtain ⟨hfronts, hbacks, hacross⟩ := List.pairwise_append.mp h.ordered
    refine List.pairwise_append.mpr
      ⟨hfronts, List.pairwise_cons.mpr ⟨fun l hl => (hback l hl).le, hbacks⟩, fun l hl => ?_⟩
    exact List.forall_mem_cons.mpr ⟨hfront l hl, hacross l hl⟩
  stable r := by
    rw [List.filter_append, ← filter_append_singleton (fun l hl => (hback l hl).ne') r, ← List.append_assoc,
      ← List.filter_append, h.stable r, ← List.filter_append]

/-! ## Keys with a linear order -/

/-- The keys of the items in `P` are compared by their ranks. -/
def Ranks (rank : Keyed → α) (P : Keyed → Prop) : Prop :=
  ∀ k l, P k → P l → less? k.key l.key = some (decide (rank k < rank l))

variable {P : Keyed → Prop} (hranks : Ranks rank P)

include hranks

theorem exists_runLength (descending : Bool) {last : Keyed} {ks : List Keyed} (hlast : P last)
    (hks : ∀ k ∈ ks, P k) :
    ∃ n, runLength? descending last ks = some n ∧
      (last :: ks.take n).IsChain fun k l => decide (rank l < rank k) = descending := by
  induction ks generalizing last with
  | nil => exact ⟨0, rfl, .singleton last⟩
  | cons k rest ih =>
    obtain ⟨hk, hrest⟩ := List.forall_mem_cons.mp hks
    obtain ⟨n, hn, hchain⟩ := ih hk hrest
    simp only [runLength?, hranks k last hk hlast, hn, Option.bind_eq_bind, Option.bind_some, Option.pure_def]
    by_cases hstep : decide (rank k < rank last) = descending
    · exact ⟨n + 1, by rw [if_pos (beq_iff_eq.mpr hstep)], .cons_cons hstep hchain⟩
    · exact ⟨0, by rw [if_neg (mt beq_iff_eq.mp hstep)], .singleton last⟩

/-- Halving finds the place in front of the first item with a greater rank. -/
theorem exists_placeWithin {sorted : List Keyed} {k : Keyed}
    (hsorted : sorted.Pairwise fun k l => rank k ≤ rank l) (hP : ∀ l ∈ sorted, P l) (hk : P k)
    (fuel lo hi : Nat) (hfuel : hi - lo ≤ fuel) (hhi : hi ≤ sorted.length)
    (hlow : ∀ l ∈ sorted.take lo, rank l ≤ rank k) (hhigh : ∀ l ∈ sorted.drop hi, rank k < rank l)
    (hle : lo ≤ hi) :
    ∃ i, placeWithin? sorted k.key fuel lo hi = some i ∧ (∀ l ∈ sorted.take i, rank l ≤ rank k) ∧
      ∀ l ∈ sorted.drop i, rank k < rank l := by
  induction fuel generalizing lo hi with
  | zero =>
    obtain rfl : lo = hi := by omega
    exact ⟨lo, rfl, hlow, hhigh⟩
  | succ fuel ih =>
    unfold placeWithin?
    by_cases hlt : lo < hi
    · have hmid : (lo + hi) / 2 < sorted.length := by omega
      generalize hm : (lo + hi) / 2 = mid at hmid
      have hdrop : sorted.drop mid = sorted[mid] :: sorted.drop (mid + 1) := List.drop_eq_getElem_cons hmid
      have htake : sorted.take (mid + 1) = sorted.take mid ++ [sorted[mid]] :=
        List.take_succ_eq_append_getElem hmid
      simp only [if_pos hlt, List.getElem?_eq_getElem hmid,
        hranks k sorted[mid] hk (hP _ (List.getElem_mem hmid)), Option.bind_eq_bind, Option.bind_some,
        decide_eq_true_eq]
      split
      · next hless =>
        -- everything from the middle on is greater as well
        refine ih _ _ (by omega) (by omega) hlow (hdrop ▸ List.forall_mem_cons.mpr ⟨hless, fun l hl => ?_⟩)
          (by omega)
        exact hless.trans_le ((List.pairwise_cons.mp (hdrop ▸ hsorted.drop)).1 l hl)
      · next hnot =>
        refine ih _ _ (by omega) hhi (htake ▸ List.forall_mem_append.mpr
          ⟨fun l hl => ?_, List.forall_mem_singleton.mpr (not_lt.mp hnot)⟩) hhigh (by omega)
        have hacross := (List.pairwise_append.mp (htake ▸ hsorted.take)).2.2
        exact (hacross l hl _ List.mem_cons_self).trans (not_lt.mp hnot)
    · obtain rfl : lo = hi := by omega
      rw [if_neg hlt]
      exact ⟨lo, rfl, hlow, hhigh⟩

theorem exists_insertSorted {done sorted : List Keyed} {k : Keyed} (h : StablySorted rank done sorted)
    (hdone : ∀ l ∈ done, P l) (hk : P k) :
    ∃ out, insertSorted? sorted k = some out ∧ StablySorted rank (done ++ [k]) out := by
  obtain ⟨i, hplace, hlow, hhigh⟩ := exists_placeWithin hranks h.ordered
    (fun l hl => hdone l (h.perm.mem_iff.mp hl)) hk (sorted.length + 1) 0 sorted.length (by omega)
    (Nat.le_refl _) (by simp) (by simp) (Nat.zero_le _)
  refine ⟨sorted.take i ++ k :: sorted.drop i, ?_, ?_⟩
  · rw [insertSorted?, hplace, Option.map_some]
  · exact StablySorted.insert (by rwa [List.take_append_drop]) hlow hhigh

theorem exists_foldlM_insertSorted (ks : List Keyed) {done sorted : List Keyed}
    (h : StablySorted rank done sorted) (hdone : ∀ l ∈ done, P l) (hks : ∀ k ∈ ks, P k) :
    ∃ out, ks.foldlM insertSorted? sorted = some out ∧ StablySorted rank (done ++ ks) out := by
  induction ks generalizing done sorted with
  | nil => exact ⟨sorted, rfl, by rwa [List.append_nil]⟩
  | cons k rest ih =>
    obtain ⟨hk, hrest⟩ := List.forall_mem_cons.mp hks
    obtain ⟨next, hnext, hinserted⟩ := exists_insertSorted hranks h hdone hk
    obtain ⟨out, hout, hall⟩ := ih hinserted
      (List.forall_mem_append.mpr ⟨hdone, List.forall_mem_singleton.mpr hk⟩) hrest
    refine ⟨out, ?_, by rwa [List.append_assoc] at hall⟩
    rw [List.foldlM_cons, hnext]
    exact hout

/-- **Items whose keys have a linear order can be sorted, and sorting is stable.** -/
theorem exists_sort {ks : List Keyed} (hks : ∀ k ∈ ks, P k) :
    ∃ out, sort? ks = some out ∧ StablySorted rank ks out := by
  match ks, hks with
  | [], _ => exact ⟨[], rfl, .of_run .nil⟩
  | [k], _ => exact ⟨[k], rfl, .of_run (List.pairwise_singleton _ k)⟩
  | k :: l :: rest, hks =>
    obtain ⟨hk, hl, hrest⟩ : P k ∧ P l ∧ ∀ x ∈ rest, P x := by simpa using hks
    obtain ⟨n, hn, hchain⟩ := exists_runLength hranks (decide (rank l < rank k)) hl hrest
    have hrun : StablySorted rank (k :: l :: rest.take n) (if decide (rank l < rank k) then
        (k :: l :: rest.take n).reverse else k :: l :: rest.take n) := .of_isChain (.cons_cons rfl hchain)
    have hfront : ∀ x ∈ k :: l :: rest.take n, P x :=
      List.forall_mem_cons.mpr ⟨hk, List.forall_mem_cons.mpr ⟨hl, fun x hx =>
        hrest x (List.mem_of_mem_take hx)⟩⟩
    obtain ⟨out, hout, hall⟩ := exists_foldlM_insertSorted hranks (rest.drop n) hrun hfront
      fun x hx => hrest x (List.mem_of_mem_drop hx)
    refine ⟨out, ?_, ?_⟩
    · simp only [sort?, hranks l k hl hk, hn, Option.bind_eq_bind, Option.bind_some, List.take_succ_cons,
        List.drop_succ_cons]
      exact hout
    · rwa [List.cons_append, List.cons_append, List.take_append_drop] at hall

end

/-! ## Whole numbers and texts -/

/-- The whole number that a key is. -/
def Keyed.number (k : Keyed) : Int :=
  match k.key with
  | .int n => n
  | _ => 0

/-- The text that a key is. -/
def Keyed.text (k : Keyed) : String :=
  match k.key with
  | .str s => s
  | _ => ""

theorem ranks_number : Ranks Keyed.number fun k => ∃ n, k.key = .int n := by
  rintro ⟨_, item⟩ ⟨_, other⟩ ⟨m, rfl⟩ ⟨n, rfl⟩
  have hless : (Numeric.int m).less (.int n) = decide (m < n) := by
    rw [Numeric.less, Numeric.compare?, Bool.eq_iff_iff, beq_iff_eq, Option.some.injEq, compare_lt_iff_lt,
      decide_eq_true_iff]
  simp only [less?, numeric?, Option.map_some, hless, Keyed.number]
  congr

theorem ranks_text : Ranks Keyed.text fun k => ∃ s, k.key = .str s := by
  rintro ⟨_, item⟩ ⟨_, other⟩ ⟨s, rfl⟩ ⟨t, rfl⟩
  simp only [less?, Keyed.text]
  congr

/-! ## Keys of different types -/

section

variable {ks sorted out : List Keyed} {k : Keyed} {kind : Bool}

/-- A text is compared with texts alone. -/
theorem isText_of_less {v w : Value} {b : Bool} (hless : less? v w = some b) : v.isText = w.isText := by
  have hnumber {f : Numeric → Bool} (h : w.numeric?.map f = some b) : w.isText = false := by
    cases w <;> first | rfl | cases h
  unfold less? at hless
  split at hless
  · exact (hnumber hless).symm
  · exact (hnumber hless).symm
  · exact (hnumber hless).symm
  · split at hless
    · rfl
    · cases hless
  · split at hless
    · rfl
    · cases hless
  · split at hless
    · rfl
    · cases hless
  · split at hless
    · rfl
    · cases hless
  · cases hless

theorem isText_of_runLength {descending : Bool} {last : Keyed} {n : Nat}
    (hrun : runLength? descending last ks = some n) : ∀ k ∈ ks.take n, k.key.isText = last.key.isText := by
  induction ks generalizing last n with
  | nil => simp
  | cons k rest ih =>
    obtain ⟨less, hless, hrun⟩ := Option.bind_eq_some_iff.mp hrun
    split at hrun
    · obtain ⟨m, hm, hn⟩ := Option.bind_eq_some_iff.mp hrun
      cases hn
      have hk := isText_of_less hless
      rw [List.take_succ_cons]
      exact List.forall_mem_cons.mpr ⟨hk, fun l hl => (ih hm l hl).trans hk⟩
    · cases hrun
      simp

/-- An item is compared with the one in the middle first. -/
theorem isText_of_insertSorted (hinsert : insertSorted? sorted k = some out) (hne : sorted ≠ [])
    (hsorted : ∀ l ∈ sorted, l.key.isText = kind) : k.key.isText = kind := by
  obtain ⟨i, hplace, -⟩ := Option.map_eq_some_iff.mp hinsert
  have hlength : 0 < sorted.length := List.length_pos_iff.mpr hne
  have hmid : (0 + sorted.length) / 2 < sorted.length := by omega
  rw [placeWithin?, if_pos hlength] at hplace
  dsimp only at hplace
  rw [List.getElem?_eq_getElem hmid] at hplace
  obtain ⟨less, hless, -⟩ := Option.bind_eq_some_iff.mp hplace
  exact (isText_of_less hless).trans (hsorted _ (List.getElem_mem hmid))

theorem isText_of_foldlM_insertSorted (hfold : ks.foldlM insertSorted? sorted = some out) (hne : sorted ≠ [])
    (hsorted : ∀ l ∈ sorted, l.key.isText = kind) : ∀ k ∈ ks, k.key.isText = kind := by
  induction ks generalizing sorted with
  | nil => exact fun _ hk => nomatch hk
  | cons k rest ih =>
    rw [List.foldlM_cons] at hfold
    obtain ⟨next, hinsert, hfold⟩ := Option.bind_eq_some_iff.mp hfold
    have hk := isText_of_insertSorted hinsert hne hsorted
    have hnext : next ≠ [] := by
      obtain ⟨i, -, rfl⟩ := Option.map_eq_some_iff.mp hinsert
      simp
    refine List.forall_mem_cons.mpr ⟨hk, ih hfold hnext fun l hl => ?_⟩
    rcases mem_insertSorted hinsert hl with hl | rfl
    · exact hsorted l hl
    · exact hk

/-- **If items can be sorted, all their keys are texts or none is.** -/
theorem isText_of_sort (hsort : sort? ks = some out) : ∃ kind, ∀ k ∈ ks, k.key.isText = kind := by
  match ks, hsort with
  | [], _ => exact ⟨true, fun _ hk => nomatch hk⟩
  | [k], _ => exact ⟨k.key.isText, by simp⟩
  | k :: l :: rest, hsort =>
    refine ⟨k.key.isText, ?_⟩
    obtain ⟨descending, hless, hsort⟩ := Option.bind_eq_some_iff.mp hsort
    obtain ⟨n, hn, hfold⟩ := Option.bind_eq_some_iff.mp hsort
    have hl := isText_of_less hless
    have hfront : ∀ x ∈ k :: l :: rest.take n, x.key.isText = k.key.isText := by
      refine List.forall_mem_cons.mpr ⟨rfl, List.forall_mem_cons.mpr ⟨hl, fun x hx => ?_⟩⟩
      exact (isText_of_runLength hn x hx).trans hl
    have hrun : ∀ x ∈ (if descending then ((k :: l :: rest).take (n + 2)).reverse
        else (k :: l :: rest).take (n + 2)), x.key.isText = k.key.isText := by
      split
      · exact fun x hx => hfront x (List.mem_reverse.mp hx)
      · exact hfront
    have hrest := isText_of_foldlM_insertSorted hfold (by split <;> simp) hrun
    rw [← List.take_append_drop (n + 2) (k :: l :: rest)]
    exact List.forall_mem_append.mpr ⟨hfront, hrest⟩

end

end Stencil.Value
