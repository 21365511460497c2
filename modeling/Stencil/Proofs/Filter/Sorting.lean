import Stencil.Proofs.Filter.Invocation
import Stencil.Proofs.Value.Sorting

/-!
# The filter `sort`

Items are sorted by themselves or, when a property is named, by what they hold under it (`sortKey`). If the keys
are whole numbers or nil, or texts or nil, sorting is stable and puts the items without a key last (`SortedBy`).
If a whole number and a text are among the keys, wherever they stand, the filter refuses its value
(`sort_is_stable`).
-/

namespace Stencil

open Value (Keyed StablySorted Ranks)
open Render

/-- A key is not greater than another one of its kind. -/
inductive Value.KeyLe : Value → Value → Prop
  | number {m n : Int} (h : m ≤ n) : KeyLe (.int m) (.int n)
  | text {s t : String} (h : s ≤ t) : KeyLe (.str s) (.str t)

namespace Filter

/-! ## Keys that may be nil -/

/-- Nothing is lost or added; the items with a key come first, in the order of their keys; those without one
follow as they stood; and items with equal keys stay in the order in which they were given. -/
structure SortedBy (ks sorted : List Keyed) : Prop where
  perm : sorted.Perm ks
  nilLast : ∃ front, sorted = front ++ ks.filter (!hasKey ·) ∧ (∀ k ∈ front, hasKey k) ∧
    front.Pairwise fun k l => k.key.KeyLe l.key
  stable : ∀ k ∈ ks, sorted.filter (·.key.eqv k.key) = ks.filter (·.key.eqv k.key)

section

variable {α : Type} [LinearOrder α] {rank : Keyed → α} {P : Keyed → Prop} {ks : List Keyed}

/-- The keys of the items in `P` are of one kind, and their ranks say how they compare. -/
structure OneKind (rank : Keyed → α) (P : Keyed → Prop) : Prop where
  ranks : Ranks rank P
  le {k l : Keyed} (hk : P k) (hl : P l) : rank k ≤ rank l → k.key.KeyLe l.key
  eqv {k l : Keyed} (hk : P k) (hl : P l) : k.key.eqv l.key = true ↔ rank k = rank l
  present {k : Keyed} (hk : P k) : hasKey k

theorem oneKind_number : OneKind Keyed.number fun k => ∃ n, k.key = .int n where
  ranks := Value.ranks_number
  le := by
    rintro ⟨_, item⟩ ⟨_, other⟩ ⟨m, rfl⟩ ⟨n, rfl⟩ h
    exact .number h
  eqv := by
    rintro ⟨_, item⟩ ⟨_, other⟩ ⟨m, rfl⟩ ⟨n, rfl⟩
    simp only [Value.eqv, Value.sameNumber, Value.numeric?, Numeric.same, Numeric.compare?, Keyed.number]
    rw [beq_iff_eq, Option.some.injEq, compare_eq_iff_eq]
  present := by
    rintro ⟨_, item⟩ ⟨n, rfl⟩
    rfl

theorem oneKind_text : OneKind Keyed.text fun k => ∃ s, k.key = .str s where
  ranks := Value.ranks_text
  le := by
    rintro ⟨_, item⟩ ⟨_, other⟩ ⟨s, rfl⟩ ⟨t, rfl⟩ h
    exact .text h
  eqv := by
    rintro ⟨_, item⟩ ⟨_, other⟩ ⟨s, rfl⟩ ⟨t, rfl⟩
    simp only [Value.eqv, Keyed.text, beq_iff_eq]
  present := by
    rintro ⟨_, item⟩ ⟨s, rfl⟩
    rfl

theorem key_eq_nil {k : Keyed} (hk : hasKey k = false) : k.key = .nil := by
  unfold hasKey at hk
  split at hk
  · assumption
  · cases hk

/-- What has no key is in no place with what has one. -/
theorem eqv_of_keyless {k l : Keyed} (hk : hasKey k = false) : k.key.eqv l.key = !hasKey l := by
  obtain ⟨v, item⟩ := l
  rw [key_eq_nil hk]
  cases v <;> rfl

theorem eqv_keyless {k l : Keyed} (hl : hasKey l = false) : k.key.eqv l.key = !hasKey k := by
  obtain ⟨v, item⟩ := k
  rw [key_eq_nil hl]
  cases v <;> rfl

/-- The items with the key of an item that has one are among those that have one. -/
theorem filter_eqv_of_present (ks : List Keyed) {k : Keyed} (hkey : hasKey k = true) :
    (ks.filter hasKey).filter (·.key.eqv k.key) = ks.filter (·.key.eqv k.key) ∧
      (ks.filter (!hasKey ·)).filter (·.key.eqv k.key) = [] := by
  have hother : ∀ l, hasKey l = false → l.key.eqv k.key = false := fun l hl => by
    rw [eqv_of_keyless hl, hkey, Bool.not_true]
  constructor
  · rw [List.filter_filter]
    refine List.filter_congr fun l hl => ?_
    cases hl : hasKey l with
    | true => rw [Bool.and_true]
    | false => rw [hother l hl, Bool.and_false]
  · refine List.filter_eq_nil_iff.mpr fun l hl => ?_
    rw [hother l (by simpa using (List.mem_filter.mp hl).2)]
    exact Bool.false_ne_true

/-- The items without a key are those that have none. -/
theorem filter_eqv_of_keyless {k : Keyed} (hkey : hasKey k = false) :
    ks.filter (·.key.eqv k.key) = ks.filter (!hasKey ·) :=
  List.filter_congr fun _ _ => eqv_keyless hkey

/-- **Items with keys of one kind, or none, are sorted stably, with those that have none last.** -/
theorem exists_sortKeyed (hkind : OneKind rank P) (hks : ∀ k ∈ ks, hasKey k → P k) :
    ∃ sorted, sortKeyed ks = .ok (sorted.map (·.item)) ∧ SortedBy ks sorted := by
  have hpresent : ∀ k ∈ ks.filter hasKey, P k := fun k hk =>
    hks k (List.mem_filter.mp hk).1 (List.mem_filter.mp hk).2
  obtain ⟨front, hfront, hsorted⟩ := Value.exists_sort hkind.ranks hpresent
  have hP : ∀ k ∈ front, P k := fun k hk => hpresent k (hsorted.perm.mem_iff.mp hk)
  have hkeys : ∀ k ∈ front, hasKey k := fun k hk => hkind.present (hP k hk)
  refine ⟨front ++ ks.filter (!hasKey ·), by rw [sortKeyed, hfront, List.map_append], ?_, ?_, ?_⟩
  · exact (hsorted.perm.append_right _).trans (List.filter_append_perm hasKey ks)
  · exact ⟨front, rfl, hkeys, hsorted.ordered.imp_of_mem fun hk hl => hkind.le (hP _ hk) (hP _ hl)⟩
  · intro k hk
    rw [List.filter_append]
    cases hkey : hasKey k with
    | true =>
      obtain ⟨hamong, hnone⟩ := filter_eqv_of_present ks hkey
      have hrank : ∀ l, P l → l.key.eqv k.key = decide (rank l = rank k) := fun l hl => by
        rw [Bool.eq_iff_iff, hkind.eqv hl (hks k hk hkey), decide_eq_true_iff]
      calc front.filter (·.key.eqv k.key) ++ (ks.filter (!hasKey ·)).filter (·.key.eqv k.key)
          = front.filter (rank · = rank k) := by
            rw [hnone, List.append_nil, List.filter_congr fun l hl => hrank l (hP l hl)]
        _ = (ks.filter hasKey).filter (rank · = rank k) := hsorted.stable _
        _ = ks.filter (·.key.eqv k.key) := by
            rw [← hamong, List.filter_congr fun l hl => hrank l (hpresent l hl)]
    | false =>
      have hnone : front.filter (!hasKey ·) = [] :=
        List.filter_eq_nil_iff.mpr fun l hl => by simp [hkeys l hl]
      rw [filter_eqv_of_keyless hkey, filter_eqv_of_keyless hkey, filter_eqv_of_keyless hkey, hnone,
        List.filter_filter, List.nil_append]
      exact List.filter_congr fun l _ => Bool.and_self _

/-- A text and a key of another type are refused wherever they stand. -/
theorem sortKeyed_of_mixed {k l : Keyed} (hk : k ∈ ks) (hl : l ∈ ks) (hkey : hasKey k) (hother : hasKey l)
    (hmixed : k.key.isText ≠ l.key.isText) :
    sortKeyed ks = .error (.template (.badArgument "cannot sort values of different types")) := by
  unfold sortKeyed
  cases hsort : Value.sort? (ks.filter hasKey) with
  | none => rfl
  | some out =>
    obtain ⟨kind, hkind⟩ := Value.isText_of_sort hsort
    have hsame := (hkind k (List.mem_filter.mpr ⟨hk, hkey⟩)).trans
      (hkind l (List.mem_filter.mpr ⟨hl, hother⟩)).symm
    exact absurd hsame hmixed

end

/-! ## Keys of items -/

/-- What `sort` orders an item by: the item itself, or what it holds under a key. -/
def sortKey (key item : Value) : Value :=
  match key with
  | .nil => item
  | key => item.held key

/-- Items with what they are sorted by. -/
def decorated (key : Value) (items : List Value) : List Keyed :=
  items.map fun item => ⟨sortKey key item, item⟩

variable {σ : Settings} {s : RenderState} {key : Value} {items : List Value}

theorem runFrom_keyed (hkey : key.unhashable? = none) (hitems : ∀ item ∈ items, item.isDrop = false) :
    (BuiltinFilter.keyed key items).runFrom σ s = (.ok (decorated key items), s) := by
  have hproperty : ∀ item ∈ items,
      (do return ⟨← BuiltinFilter.property key item, item⟩ : Render Keyed).runFrom σ s =
        (.ok ⟨item.held key, item⟩, s) := by
    intro item hitem
    rw [runFrom_bind, BuiltinFilter.runFrom_property hkey (hitems item hitem)]
    rfl
  cases key with
  | nil => rfl
  | _ =>
    simp only [BuiltinFilter.keyed]
    rw [runFrom_mapM hproperty, mapM_pure]
    rfl

/-- The ways of telling `sort` what to sort by: a property is not named, or it is the first argument or the one
called `key`. -/
inductive SortArguments : Value → List Value → Named Value → Prop
  | none : SortArguments .nil [] []
  | first (key : Value) : SortArguments key [key] []
  | named (key : Value) : SortArguments key [] [("key", key)]

theorem runFrom_sort {args : List Value} {kwargs : Named Value}
    (hfilter : σ.filters.get? "sort" = some (.builtin .sort)) (hargs : SortArguments key args kwargs)
    (hkey : key.unhashable? = none) (hitems : ∀ item ∈ items, item.isDrop = false) :
    (invoke "sort" (.list items) args kwargs).runFrom σ s =
      (((sortKeyed (decorated key items)).map .list).mapError (blame "sort"), s) := by
  have hnames : kwargs.find? (reservedKeywords.contains ·.1) = none := by
    cases hargs <;> rfl
  have hbind : Parameters.bind BuiltinFilter.sort.function BuiltinFilter.sort.parameters args kwargs =
      .ok [key] := by
    cases hargs <;> rfl
  rw [runFrom_invoke hnames hfilter, runFrom_apply_builtin hbind]
  simp only [BuiltinFilter.apply, Filter.items, Value.toItems, runFrom_bind, runFrom_ofOutcome,
    runFrom_keyed hkey hitems]
  cases sortKeyed (decorated key items) <;> rfl

end Filter

open Stencil.Filter

/-- **`sort` is a stable sort with nil last.** The keys of a list may be whole numbers and nil, or texts and nil:
then the sorted items are those of the list, in the order of their keys. If there is a whole number as well as a
text among the keys, the value is refused. -/
theorem sort_is_stable {σ : Settings} (s : RenderState) {key : Value} {args items : List Value}
    {kwargs : Named Value} (hfilter : σ.filters.get? "sort" = some (.builtin .sort))
    (hargs : SortArguments key args kwargs) (hkey : key.unhashable? = none)
    (hitems : ∀ item ∈ items, item.isDrop = false) :
    ((∀ item ∈ items, sortKey key item = .nil ∨ ∃ n, sortKey key item = .int n) ∨
        (∀ item ∈ items, sortKey key item = .nil ∨ ∃ t, sortKey key item = .str t) →
      ∃ sorted, (invoke "sort" (.list items) args kwargs).runFrom σ s =
          (.ok (.list (sorted.map (·.item))), s) ∧ SortedBy (decorated key items) sorted) ∧
    ((∃ item ∈ items, ∃ n, sortKey key item = .int n) → (∃ item ∈ items, ∃ t, sortKey key item = .str t) →
      (invoke "sort" (.list items) args kwargs).runFrom σ s =
        (.error (.template (.badArgument "cannot sort values of different types")), s)) := by
  have hrun := runFrom_sort (s := s) hfilter hargs hkey hitems
  have hpresent {Q : Value → Prop} (h : ∀ item ∈ items, sortKey key item = .nil ∨ Q (sortKey key item)) :
      ∀ k ∈ decorated key items, hasKey k → Q k.key := by
    intro k hk hhas
    obtain ⟨item, hitem, rfl⟩ := List.mem_map.mp hk
    refine (h item hitem).resolve_left fun hnil => ?_
    rw [hasKey, hnil] at hhas
    cases hhas
  constructor
  · intro hkeys
    obtain ⟨sorted, hsorted, hby⟩ : ∃ sorted,
        sortKeyed (decorated key items) = .ok (sorted.map (·.item)) ∧ SortedBy (decorated key items) sorted := by
      rcases hkeys with hnumbers | htexts
      · exact exists_sortKeyed oneKind_number (hpresent (Q := fun v => ∃ n, v = .int n) hnumbers)
      · exact exists_sortKeyed oneKind_text (hpresent (Q := fun v => ∃ t, v = .str t) htexts)
    exact ⟨sorted, by rw [hrun, hsorted]; rfl, hby⟩
  · rintro ⟨item, hitem, n, hn⟩ ⟨other, hother, t, ht⟩
    have hmem {v : Value} (hv : v ∈ items) : (⟨sortKey key v, v⟩ : Keyed) ∈ decorated key items :=
      List.mem_map_of_mem hv
    have hmixed := sortKeyed_of_mixed (hmem hitem) (hmem hother) (by rw [hasKey, hn]) (by rw [hasKey, ht])
      (by rw [hn, ht]; exact Bool.false_ne_true)
    rw [hrun, hmixed]
    rfl

/-- Two goods of the same price and one without a price. -/
def pricedGoods : List Value :=
  let good (name : String) (price : Value) : Value := .map [(.str "name", .str name), (.str "price", price)]
  [good "pen" (.int 3), good "gift" .nil, good "pad" (.int 1), good "ink" (.int 3)]

/-- The goods are sorted by their prices; a text and a number are not. -/
theorem sort_is_stable_pricedGoods :
    (∃ sorted, (invoke "sort" (.list pricedGoods) [.str "price"] []).runFrom {} {} =
        (.ok (.list (sorted.map (·.item))), {}) ∧ SortedBy (decorated (.str "price") pricedGoods) sorted) ∧
      (invoke "sort" (.list [.str "pen", .nil, .int 3]) [] []).runFrom {} {} =
        (.error (.template (.badArgument "cannot sort values of different types")), {}) := by
  have hitems : ∀ item ∈ pricedGoods, item.isDrop = false := by simp [pricedGoods, Value.isDrop]
  have hothers : ∀ item ∈ [Value.str "pen", .nil, .int 3], item.isDrop = false := by simp [Value.isDrop]
  have hgoods := sort_is_stable (σ := {}) {} rfl (.first (.str "price")) rfl hitems
  have hmixed := sort_is_stable (σ := {}) {} rfl .none rfl hothers
  refine ⟨hgoods.1 (.inl ?_), hmixed.2 ⟨.int 3, by simp, 3, rfl⟩ ⟨.str "pen", by simp, "pen", rfl⟩⟩
  simp [pricedGoods, sortKey, Value.held, Value.matchesItem, Value.sameMark, Value.eqv]

example : (invoke "sort" (.list [.int 2, .nil, .int 1]) [] []).runFrom {} {} =
    (.ok (.list [.int 1, .int 2, .nil]), {}) := by rfl

end Stencil
