import Stencil.Filter.Invoke
import Stencil.Proofs.Value.Comparison

/-!
# Members and duplicates

`contains` and `uniq` look for a value among the items of a list with the equality of items
(`matchesItem`), where `==` compares two values with that of conditions (`Value.equal`). For data
(`isData`) the two differ in one thing: items that are true or false are equal to the numbers one and zero,
which conditions deny (`eqv_iff_equal`). But for such pairs (`mixes`) a list has the members that are equal
to one of its items, and `uniq` keeps one of all items that are equal.
-/

namespace Stencil

namespace Value

/-! ## Data -/

mutual

/-- Whether a value is nil, a boolean, a number, a text, or a list or a mapping of such values. What is not
a number is none, and no mapping has two equal keys. -/
def isData (v : Value) : Bool :=
  match v with
  | .nil | .bool _ | .int _ | .str _ => true
  | .float x => !x.isNaN
  | .list xs => areAllData xs
  | .map es => keysApart es && areEntriesData es
  | .tuple _ | .range _ | .literal _ | .function .. | .proxy .. | .sealed .. | .version _ | .drop ..
  | .loop _ => false
termination_by structural v

/-- Whether all of the values are data. -/
def areAllData (xs : List Value) : Bool :=
  match xs with
  | [] => true
  | x :: xs => isData x && areAllData xs
termination_by structural xs

/-- Whether all of the keys and values are data. -/
def areEntriesData (es : List (Value × Value)) : Bool :=
  match es with
  | [] => true
  | (k, v) :: es => isData k && isData v && areEntriesData es
termination_by structural es

end

variable {v w : Value} {xs : List Value}

theorem areAllData_iff : areAllData xs ↔ ∀ x ∈ xs, x.isData := by
  induction xs with
  | nil => simp [areAllData]
  | cons x rest ih => simp [areAllData, ih]

theorem areEntriesData_iff {es : List (Value × Value)} :
    areEntriesData es ↔ ∀ e ∈ es, e.1.isData ∧ e.2.isData := by
  induction es with
  | nil => simp [areEntriesData]
  | cons e rest ih => simp [areEntriesData, ih]

/-- The mappings in data have no equal keys. -/
theorem isWellKeyed_of_isData (hv : v.isData) : v.isWellKeyed := by
  induction v using Value.induction with
  | simple v hsimple => cases v <;> first | rfl | cases hsimple
  | list xs ih => exact areAllWellKeyed_iff.mpr fun x hx => ih x hx (areAllData_iff.mp hv x hx)
  | tuple xs => cases hv
  | map es ih =>
    rw [isData, Bool.and_eq_true, areEntriesData_iff] at hv
    obtain ⟨hapart, hentries⟩ := hv
    rw [isWellKeyed, hapart, Bool.true_and, areEntriesWellKeyed_iff]
    exact fun e he => ⟨(ih e he).1 (hentries e he).1, (ih e he).2 (hentries e he).2⟩

/-- **Data is equal to itself.** Induction on the value. -/
theorem eqv_self (hv : v.isData) : eqv v v = true := by
  induction v using Value.induction with
  | simple v hsimple =>
    have htoken : ∃ t, v.token? = some t := by
      cases v with
      | float x => cases x <;> first | exact ⟨_, rfl⟩ | cases hv
      | _ => first | exact ⟨_, rfl⟩ | cases hsimple
    obtain ⟨t, ht⟩ := htoken
    exact (eqv_iff_token hsimple).mpr ⟨t, ht, ht⟩
  | list xs ih =>
    have hitems := areAllData_iff.mp hv
    refine eqv_list_iff.mpr ⟨xs, rfl, List.forall₂_same.mpr fun x hx => ?_⟩
    exact matchesItem_iff.mpr (.inr (ih x hx (hitems x hx)))
  | tuple xs => cases hv
  | map es ih =>
    rw [isData, Bool.and_eq_true, areEntriesData_iff] at hv
    obtain ⟨-, hentries⟩ := hv
    refine eqv_map_iff.mpr ⟨es, rfl, rfl, fun e he => ⟨e, he, ?_, ?_⟩⟩
    · exact matchesItem_iff.mpr (.inr ((ih e he).1 (hentries e he).1))
    · exact matchesItem_iff.mpr (.inr ((ih e he).2 (hentries e he).2))

/-- Nothing in data is found by what it is, and not by what it is equal to. -/
theorem matchesItem_of_isData (hv : v.isData) (w : Value) : matchesItem v w = eqv v w := by
  have hmark : sameMark v w = false := by
    rw [Bool.eq_false_iff, Ne, sameMark_iff]
    rintro ⟨m, -, rfl, -⟩
    cases hv
  rw [matchesItem, hmark, Bool.false_or]

/-! ## Two equalities -/

/-- Whether one of two values is true or false, and the other one a number equal to the one that it counts
as. -/
def mixes (v w : Value) : Bool :=
  v.isBool != w.isBool && v.numeric?.any fun a => w.numeric?.any a.same

theorem isBool_eq_of_eqv (heqv : eqv v w = true) (hmixes : v.mixes w = false) :
    v.isBool = w.isBool := by
  by_contra hdiffer
  have hnumbers : (v.numeric?.any fun a => w.numeric?.any a.same) = false := by
    simpa [mixes, hdiffer] using hmixes
  have hnumber {a : Numeric} (hsame : sameNumber a w = true) : w.numeric?.any a.same = true := by
    unfold sameNumber at hsame
    split at hsame
    · next b hb => rwa [hb]
    · cases hsame
  cases v with
  | bool b => exact Bool.false_ne_true (hnumbers.symm.trans (hnumber heqv))
  | int n => exact Bool.false_ne_true (hnumbers.symm.trans (hnumber heqv))
  | float x => exact Bool.false_ne_true (hnumbers.symm.trans (hnumber heqv))
  -- only numbers are equal to a boolean
  | _ => cases w <;> first | exact hdiffer rfl | cases heqv

theorem equal_of_isData (hv : v.isData) (hw : w.isData) :
    v.equal w = .ok (v.isBool == w.isBool && eqv v w) := by
  refine equal_of_not_literal ?_ ?_
  · rintro l rfl
    cases hv
  · rintro l rfl
    cases hw

theorem eqv_of_equal (hv : v.isData) (hw : w.isData) (hequal : v.equal w = .ok true) :
    eqv v w = true := by
  rw [equal_of_isData hv hw] at hequal
  exact (Bool.and_eq_true_iff.mp (Except.ok.inj hequal)).2

/-- **The equality of items is that of conditions**, but for a boolean and a number. -/
theorem eqv_iff_equal (hv : v.isData) (hw : w.isData) (hmixes : v.mixes w = false) :
    eqv v w = true ↔ v.equal w = .ok true := by
  refine ⟨fun heqv => ?_, eqv_of_equal hv hw⟩
  rw [equal_of_isData hv hw, isBool_eq_of_eqv heqv hmixes, heqv, beq_self_eq_true, Bool.and_self]

theorem equal_of_not_eqv (hv : v.isData) (hw : w.isData) (h : eqv v w = false) :
    v.equal w = .ok false := by
  rw [equal_of_isData hv hw, h, Bool.and_false]

/-! ## Members of lists -/

theorem hasMember_list (loops : Loops) (xs : List Value) (hnil : v ≠ .nil) :
    (Value.list xs).hasMember loops v = .ok (xs.any (matchesItem · v)) := by
  cases v <;> first | rfl | exact absurd rfl hnil

theorem hasMember_nil (loops : Loops) (v : Value) : v.hasMember loops .nil = .ok false := by
  cases v <;> rfl

theorem any_matchesItem_iff (hxs : ∀ x ∈ xs, x.isData) :
    xs.any (matchesItem · v) = true ↔ ∃ x ∈ xs, eqv x v = true := by
  rw [List.any_eq_true]
  refine exists_congr fun x => and_congr_right fun hx => ?_
  rw [matchesItem_of_isData (hxs x hx)]

end Value

/-! ## Lists without duplicates -/

namespace Filter

open Value

variable {seen xs : List Value}

/-- What is kept in addition to earlier items is a part of the others, in their order. -/
theorem exists_uniqAfter (seen xs : List Value) :
    ∃ new, uniqAfter seen xs = seen ++ new ∧ new.Sublist xs := by
  induction xs generalizing seen with
  | nil => exact ⟨[], (List.append_nil seen).symm, .slnil⟩
  | cons x rest ih =>
    rw [uniqAfter]
    split
    · obtain ⟨new, hnew, hsub⟩ := ih seen
      exact ⟨new, hnew, hsub.cons x⟩
    · obtain ⟨new, hnew, hsub⟩ := ih (seen ++ [x])
      refine ⟨x :: new, ?_, hsub.cons_cons x⟩
      rw [hnew, List.append_assoc, List.singleton_append]

theorem uniq_sublist (xs : List Value) : (uniq xs).Sublist xs := by
  obtain ⟨new, hnew, hsub⟩ := exists_uniqAfter [] xs
  rw [uniq, hnew]
  exact hsub

/-- An item is only kept when no earlier one is found for it. -/
theorem pairwise_uniqAfter (h : seen.Pairwise fun x y => matchesItem x y = false) :
    (uniqAfter seen xs).Pairwise fun x y => matchesItem x y = false := by
  induction xs generalizing seen with
  | nil => exact h
  | cons x rest ih =>
    rw [uniqAfter]
    split
    · exact ih h
    · rename_i hnew
      have hapart : ∀ y ∈ seen, matchesItem y x = false := by simpa using hnew
      exact ih (List.pairwise_append.mpr ⟨h, List.pairwise_singleton _ _, by simpa using hapart⟩)

/-- An item is kept, or one is that is found for it. -/
theorem exists_mem_uniqAfter {x : Value} (hx : x ∈ seen ++ xs) :
    ∃ y ∈ uniqAfter seen xs, y = x ∨ matchesItem y x = true := by
  induction xs generalizing seen with
  | nil =>
    rw [List.append_nil] at hx
    exact ⟨x, hx, .inl rfl⟩
  | cons z rest ih =>
    rw [uniqAfter]
    split
    · rename_i hfound
      rcases List.mem_append.mp hx with hseen | hrest
      · exact ih (List.mem_append_left _ hseen)
      · rcases List.mem_cons.mp hrest with rfl | hrest
        · -- what is found for a dropped item stays
          obtain ⟨y, hy, hmatch⟩ := List.any_eq_true.mp hfound
          obtain ⟨new, hnew, -⟩ := exists_uniqAfter seen rest
          exact ⟨y, hnew ▸ List.mem_append_left _ hy, .inr hmatch⟩
        · exact ih (List.mem_append_right _ hrest)
    · refine ih ?_
      rwa [List.append_assoc, List.singleton_append]

end Filter

open Value

/-- **Members and duplicates are told by equality.** Let the items of a list be data. Then nil is not a
member; any other data is a member if an item is equal to it, and, if it is not mixed with one of the items
as a boolean with a number, only then. What `uniq` gives is a part of the list in its order; no two of its
items are equal; and every item that is not mixed with another one is equal to one that is kept. -/
theorem membership_is_equality (loops : Loops) (xs : List Value) (hxs : ∀ x ∈ xs, x.isData) :
    Operator.contains.apply loops (.list xs) .nil = .ok false ∧
      (∀ v : Value, v.isData → v ≠ .nil →
        ∃ found, Operator.contains.apply loops (.list xs) v = .ok found ∧
          ((∃ x ∈ xs, Operator.equal.apply loops x v = .ok true) → found = true) ∧
          ((∀ x ∈ xs, x.mixes v = false) → found = true →
            ∃ x ∈ xs, Operator.equal.apply loops x v = .ok true)) ∧
      (Filter.builtin .uniq).apply (.list xs) [] [] = pure (.list (Filter.uniq xs)) ∧
      (Filter.uniq xs).Sublist xs ∧
      (Filter.uniq xs).Pairwise (fun x y => Operator.equal.apply loops x y = .ok false ∧
        Operator.equal.apply loops y x = .ok false) ∧
      ∀ x ∈ xs, (∀ y ∈ xs, y.mixes x = false) →
        ∃ y ∈ Filter.uniq xs, Operator.equal.apply loops x y = .ok true := by
  refine ⟨hasMember_nil loops (.list xs), ?_, rfl, Filter.uniq_sublist xs, ?_, ?_⟩
  · intro v hv hnil
    refine ⟨_, hasMember_list loops xs hnil, ?_, ?_⟩
    · rintro ⟨x, hx, hequal⟩
      exact (any_matchesItem_iff hxs).mpr ⟨x, hx, eqv_of_equal (hxs x hx) hv hequal⟩
    · intro hmixes hfound
      obtain ⟨x, hx, heqv⟩ := (any_matchesItem_iff hxs).mp hfound
      exact ⟨x, hx, (eqv_iff_equal (hxs x hx) hv (hmixes x hx)).mp heqv⟩
  · refine (Filter.pairwise_uniqAfter List.Pairwise.nil).imp_of_mem ?_
    intro x y hx hy hdiffer
    have hdata {z : Value} (hz : z ∈ Filter.uniq xs) : z.isData :=
      hxs z ((Filter.uniq_sublist xs).mem hz)
    rw [matchesItem_of_isData (hdata hx)] at hdiffer
    refine ⟨equal_of_not_eqv (hdata hx) (hdata hy) hdiffer, ?_⟩
    refine equal_of_not_eqv (hdata hy) (hdata hx) ?_
    rwa [eqv_comm (isWellKeyed_of_isData (hdata hy)) (isWellKeyed_of_isData (hdata hx))]
  · intro x hx hmixes
    obtain ⟨y, hy, hfound⟩ := Filter.exists_mem_uniqAfter (show x ∈ [] ++ xs from hx)
    have hymem : y ∈ xs := (Filter.uniq_sublist xs).mem hy
    have heqv : eqv y x = true := by
      rcases hfound with rfl | hmatch
      · exact eqv_self (hxs y hymem)
      · rwa [matchesItem_of_isData (hxs y hymem)] at hmatch
    refine ⟨y, hy, ?_⟩
    have hequal := (eqv_iff_equal (hxs y hymem) (hxs x hx) (hmixes y hymem)).mp heqv
    exact (equal_comm (isWellKeyed_of_isData (hxs x hx))
      (isWellKeyed_of_isData (hxs y hymem))).trans hequal

/-- Values some of which are equal, by their numbers, item by item, or entry by entry. -/
def repeatedValues : List Value :=
  [.int 2, .nil, .list [.int 1], .float (.finite false 1 1), .list [.bool true], twoPrices,
    twoPricesReordered]

/-- A mapping is found by its entries, and of the values that are equal one is kept. -/
theorem membership_is_equality_repeatedValues :
    (∀ x ∈ repeatedValues, x.isData) ∧ twoPricesReordered.isData ∧
      (∀ x ∈ repeatedValues, ∀ y ∈ repeatedValues, x.mixes y = false) ∧
      Operator.contains.apply #[] (.list repeatedValues) twoPricesReordered = .ok true ∧
      Filter.uniq repeatedValues = [.int 2, .nil, .list [.int 1], twoPrices] ∧
      ∀ x ∈ repeatedValues, ∃ y ∈ Filter.uniq repeatedValues,
        Operator.equal.apply #[] x y = .ok true := by
  have hdata : ∀ x ∈ repeatedValues, x.isData := by decide
  have hprices : twoPricesReordered.isData := by decide
  have hmixes : ∀ x ∈ repeatedValues, ∀ y ∈ repeatedValues, x.mixes y = false := by decide
  have hequal : Operator.equal.apply #[] twoPrices twoPricesReordered = .ok true := by rfl
  have hmem : twoPrices ∈ repeatedValues := by simp [repeatedValues]
  obtain ⟨-, hmember, -, -, -, hkept⟩ := membership_is_equality #[] repeatedValues hdata
  obtain ⟨found, hfound, hof, -⟩ := hmember twoPricesReordered hprices nofun
  obtain rfl := hof ⟨twoPrices, hmem, hequal⟩
  refine ⟨hdata, hprices, hmixes, hfound, by rfl, ?_⟩
  exact fun x hx => hkept x hx fun y hy => hmixes y hy x hx

/-- Nil is equal to itself and no member of the list of it. A number is found for true, to which it is not
equal, and takes its place among the values that are kept. -/
theorem membership_differs_from_equality :
    Operator.equal.apply #[] .nil .nil = .ok true ∧
      Operator.contains.apply #[] (.list [.nil]) .nil = .ok false ∧
      Operator.equal.apply #[] (.int 1) (.bool true) = .ok false ∧
      Operator.contains.apply #[] (.list [.int 1]) (.bool true) = .ok true ∧
      (Filter.builtin .uniq).apply (.list [.int 1, .bool true]) [] [] = pure (.list [.int 1]) :=
  ⟨rfl, rfl, rfl, rfl, rfl⟩

end Stencil
