import Mathlib
import Stencil.Proofs.Number.Order
import Stencil.Value.Equality

/-!
# Equality of values

A value that is no collection is equal to those that have the same token (`eqv_iff_token`): true and false
have those of one and zero, numbers that of what they stand for, ranges that of the integers they hold,
and a not-a-number has none. Collections are equal item by item. So equality is transitive
(`matchesItem_trans`).

Equality of mappings looks for the entries of the first one in the second one alone. It is symmetric all
the same (`eqv_comm`) if no mapping has two equal keys (`WellKeyed`), as mappings are made
(`wellKeyed_ofEntries`): the entries found are then as many as there are.
-/

namespace Stencil

/-- The integers that a span holds, by the least that tells them: the first one, and how many and how far
apart they are if there are more. -/
def Span.shape (r : Span) : Option (Int × Option (Nat × Int)) :=
  if r.count = 0 then none
  else some (r.start, if r.count = 1 then none else some (r.count, r.step))

theorem Span.same_iff {r s : Span} : r.same s = true ↔ r.shape = s.shape := by
  unfold same shape
  by_cases hr : r.count = 0 <;> by_cases hs : s.count = 0 <;>
    by_cases hr1 : r.count = 1 <;> by_cases hs1 : s.count = 1 <;> simp [*] <;> omega

namespace Value

/-- What a value that is no collection is compared by. -/
inductive Token where
  | nil
  | number (x : Extended)
  | text (s : String)
  | span (shape : Option (Int × Option (Nat × Int)))
  | literal (l : Literal)
  | function (id : Nat)
  | proxy (id : Nat)
  | sealed (id : Nat)
  | version (n : Int)
  | drop (id : Nat)
  | loop (id : Nat)

/-- The token of a value; collections have none, nor does what is not a number. -/
def token? (v : Value) : Option Token :=
  match v with
  | .nil => some .nil
  | .bool b => ((Numeric.int (if b then 1 else 0)).value?).map .number
  | .int n => ((Numeric.int n).value?).map .number
  | .float x => ((Numeric.float x).value?).map .number
  | .str s => some (.text s)
  | .range r => some (.span r.shape)
  | .literal l => some (.literal l)
  | .function id _ => some (.function id)
  | .proxy id _ => some (.proxy id)
  | .sealed id _ => some (.sealed id)
  | .version n => some (.version n)
  | .drop id _ => some (.drop id)
  | .loop id => some (.loop id)
  | .list _ | .tuple _ | .map _ => none

/-- A list, a tuple or a mapping. -/
def isCollection : Value → Bool
  | .list _ | .tuple _ | .map _ => true
  | _ => false

theorem sameNumber_iff {a : Numeric} {w : Value} :
    sameNumber a w = true ↔ ∃ t, a.value?.map .number = some t ∧ w.token? = some t := by
  have hnumber (b : Numeric) : a.same b = true ↔
      ∃ t, a.value?.map Token.number = some t ∧ b.value?.map .number = some t := by
    rw [Numeric.same_iff]
    constructor
    · rintro ⟨x, ha, hb⟩
      exact ⟨.number x, by rw [ha]; rfl, by rw [hb]; rfl⟩
    · rintro ⟨t, ha, hb⟩
      obtain ⟨x, hx, rfl⟩ := Option.map_eq_some_iff.mp ha
      obtain ⟨y, hy, hxy⟩ := Option.map_eq_some_iff.mp hb
      cases hxy
      exact ⟨x, hx, hy⟩
  cases w with
  | bool b => exact hnumber (.int (if b then 1 else 0))
  | int n => exact hnumber (.int n)
  | float x => exact hnumber (.float x)
  | _ => simp [sameNumber, numeric?, token?]

/-- **Values that are no collections are equal if they have the same token.** -/
theorem eqv_iff_token {v w : Value} (hv : v.isCollection = false) :
    eqv v w = true ↔ ∃ t, v.token? = some t ∧ w.token? = some t := by
  cases v with
  | bool b => exact sameNumber_iff
  | int n => exact sameNumber_iff
  | float x => exact sameNumber_iff
  | list | tuple | map => cases hv
  | _ => cases w <;> simp [eqv, token?, Span.same_iff] <;> exact eq_comm

/-! ## Items of collections -/

/-- A not-a-number with a mark is the same object as one with that mark. -/
theorem sameMark_iff {v w : Value} :
    sameMark v w = true ↔ ∃ m, m ≠ 0 ∧ v = .float (.nan m) ∧ w = .float (.nan m) := by
  constructor
  · intro hsame
    unfold sameMark at hsame
    split at hsame
    · rename_i m n
      obtain ⟨hm, rfl⟩ : m ≠ 0 ∧ m = n := by simpa using hsame
      exact ⟨m, hm, rfl, rfl⟩
    · cases hsame
  · rintro ⟨m, hm, rfl, rfl⟩
    simpa [sameMark] using hm

theorem sameMark_comm (v w : Value) : sameMark v w = sameMark w v := by
  rw [Bool.eq_iff_iff, sameMark_iff, sameMark_iff]
  exact exists_congr fun m => and_congr_right fun _ => and_comm

/-- Nothing is equal to what is not a number. -/
theorem eqv_nan_right (v : Value) (m : Nat) : eqv v (.float (.nan m)) = false := by
  cases hv : v.isCollection with
  | true => cases v <;> first | rfl | cases hv
  | false =>
    rw [Bool.eq_false_iff, Ne, eqv_iff_token hv]
    rintro ⟨t, -, ht⟩
    cases ht

theorem matchesItem_iff {v w : Value} :
    matchesItem v w = true ↔ sameMark v w = true ∨ eqv v w = true := by
  rw [matchesItem, Bool.or_eq_true]

/-- Sequences are equal item by item. -/
theorem eqvAll_iff {xs ys : List Value} :
    eqvAll xs ys = true ↔ List.Forall₂ (fun x y => matchesItem x y = true) xs ys := by
  induction xs generalizing ys with
  | nil => cases ys <;> simp [eqvAll]
  | cons x xs ih =>
    cases ys with
    | nil => simp [eqvAll]
    | cons y ys => simp [eqvAll, ih, matchesItem]

/-- An entry stands for another one: their keys are equal, and their values. -/
def EntryMatches (e f : Value × Value) : Prop :=
  matchesItem e.1 f.1 = true ∧ matchesItem e.2 f.2 = true

/-- The entries of one mapping are found in another. -/
theorem eqvEntries_iff {es fs : List (Value × Value)} :
    eqvEntries es fs = true ↔ ∀ e ∈ es, ∃ f ∈ fs, EntryMatches e f := by
  induction es with
  | nil => simp [eqvEntries]
  | cons e rest ih =>
    rw [eqvEntries, Bool.and_eq_true, ih, List.forall_mem_cons, List.any_eq_true]
    apply and_congr_left
    intro _
    apply exists_congr
    intro f
    show f ∈ fs ∧ (matchesItem e.1 f.1 && matchesItem e.2 f.2) = true ↔ f ∈ fs ∧ EntryMatches e f
    rw [Bool.and_eq_true, EntryMatches]

/-- Induction over values whose collections hold lists of values. -/
theorem induction {motive : Value → Prop} (simple : ∀ v, v.isCollection = false → motive v)
    (list : ∀ xs, (∀ x ∈ xs, motive x) → motive (.list xs))
    (tuple : ∀ xs, (∀ x ∈ xs, motive x) → motive (.tuple xs))
    (map : ∀ es, (∀ e ∈ es, motive e.1 ∧ motive e.2) → motive (.map es)) (v : Value) : motive v :=
  match v with
  | .list xs => list xs fun x _ => induction simple list tuple map x
  | .tuple xs => tuple xs fun x _ => induction simple list tuple map x
  | .map es => map es fun e _ =>
    ⟨induction simple list tuple map e.1, induction simple list tuple map e.2⟩
  | .nil => simple _ rfl
  | .bool _ => simple _ rfl
  | .int _ => simple _ rfl
  | .float _ => simple _ rfl
  | .str _ => simple _ rfl
  | .range _ => simple _ rfl
  | .literal _ => simple _ rfl
  | .function .. => simple _ rfl
  | .proxy .. => simple _ rfl
  | .sealed .. => simple _ rfl
  | .version _ => simple _ rfl
  | .drop .. => simple _ rfl
  | .loop _ => simple _ rfl
termination_by sizeOf v
decreasing_by
  all_goals rename_i hmem
  all_goals have hsize := List.sizeOf_lt_of_mem hmem
  · simp only [Value.list.sizeOf_spec]
    omega
  · simp only [Value.tuple.sizeOf_spec]
    omega
  · obtain ⟨k, w⟩ := e
    simp only [Value.map.sizeOf_spec, Prod.mk.sizeOf_spec] at hsize ⊢
    omega
  · obtain ⟨k, w⟩ := e
    simp only [Value.map.sizeOf_spec, Prod.mk.sizeOf_spec] at hsize ⊢
    omega

/-! ## Transitivity -/

theorem eqv_list_iff {xs : List Value} {w : Value} :
    eqv (.list xs) w = true ↔
      ∃ ys, w = .list ys ∧ List.Forall₂ (fun x y => matchesItem x y = true) xs ys := by
  cases w <;> simp [eqv, eqvAll_iff]

theorem eqv_tuple_iff {xs : List Value} {w : Value} :
    eqv (.tuple xs) w = true ↔
      ∃ ys, w = .tuple ys ∧ List.Forall₂ (fun x y => matchesItem x y = true) xs ys := by
  cases w <;> simp [eqv, eqvAll_iff]

theorem eqv_map_iff {es : List (Value × Value)} {w : Value} :
    eqv (.map es) w = true ↔
      ∃ fs, w = .map fs ∧ es.length = fs.length ∧ ∀ e ∈ es, ∃ f ∈ fs, EntryMatches e f := by
  cases w <;> simp only [eqv, Bool.and_eq_true, beq_iff_eq, eqvEntries_iff, Bool.false_eq_true,
    Value.map.injEq, exists_eq_left', reduceCtorEq, false_and, exists_false]

/-- Where equality is transitive, so is standing in the place of an item. -/
theorem matchesItem_trans_of {u v w : Value}
    (hu : ∀ v w, eqv u v = true → eqv v w = true → eqv u w = true) (huv : matchesItem u v = true)
    (hvw : matchesItem v w = true) : matchesItem u w = true := by
  rw [matchesItem_iff] at huv hvw ⊢
  rcases huv with hmark | huv
  · obtain ⟨m, -, rfl, rfl⟩ := sameMark_iff.mp hmark
    exact hvw
  · rcases hvw with hmark | hvw
    · obtain ⟨m, -, rfl, -⟩ := sameMark_iff.mp hmark
      rw [eqv_nan_right] at huv
      cases huv
    · exact .inr (hu v w huv hvw)

theorem forall₂_trans_of {xs ys zs : List Value}
    (hxs : ∀ x ∈ xs, ∀ v w, eqv x v = true → eqv v w = true → eqv x w = true)
    (hxy : List.Forall₂ (fun x y => matchesItem x y = true) xs ys)
    (hyz : List.Forall₂ (fun x y => matchesItem x y = true) ys zs) :
    List.Forall₂ (fun x y => matchesItem x y = true) xs zs := by
  induction hxy generalizing zs with
  | nil => exact hyz
  | cons hfirst _ ih =>
    cases hyz with
    | cons hsecond hrest =>
      obtain ⟨hx, hxs⟩ := List.forall_mem_cons.mp hxs
      exact .cons (matchesItem_trans_of hx hfirst hsecond) (ih hxs hrest)

/-- **Equality is transitive.** Induction on the first value. -/
theorem eqv_trans {u v w : Value} (huv : eqv u v = true) (hvw : eqv v w = true) : eqv u w = true := by
  induction u using Value.induction generalizing v w with
  | simple u hu =>
    obtain ⟨t, hut, hvt⟩ := (eqv_iff_token hu).mp huv
    have hv : v.isCollection = false := by cases v <;> first | rfl | cases hvt
    obtain ⟨t', hvt', hwt⟩ := (eqv_iff_token hv).mp hvw
    obtain rfl := Option.some.inj (hvt.symm.trans hvt')
    exact (eqv_iff_token hu).mpr ⟨t, hut, hwt⟩
  | list xs ih =>
    obtain ⟨ys, rfl, hxy⟩ := eqv_list_iff.mp huv
    obtain ⟨zs, rfl, hyz⟩ := eqv_list_iff.mp hvw
    exact eqv_list_iff.mpr ⟨zs, rfl, forall₂_trans_of (fun x hx _ _ => ih x hx) hxy hyz⟩
  | tuple xs ih =>
    obtain ⟨ys, rfl, hxy⟩ := eqv_tuple_iff.mp huv
    obtain ⟨zs, rfl, hyz⟩ := eqv_tuple_iff.mp hvw
    exact eqv_tuple_iff.mpr ⟨zs, rfl, forall₂_trans_of (fun x hx _ _ => ih x hx) hxy hyz⟩
  | map es ih =>
    obtain ⟨fs, rfl, hlength, hfound⟩ := eqv_map_iff.mp huv
    obtain ⟨gs, rfl, hlength', hfound'⟩ := eqv_map_iff.mp hvw
    refine eqv_map_iff.mpr ⟨gs, rfl, hlength.trans hlength', ?_⟩
    intro e he
    obtain ⟨f, hf, hkey, hvalue⟩ := hfound e he
    obtain ⟨g, hg, hkey', hvalue'⟩ := hfound' f hf
    refine ⟨g, hg, ?_, ?_⟩
    · exact matchesItem_trans_of (fun _ _ => (ih e he).1) hkey hkey'
    · exact matchesItem_trans_of (fun _ _ => (ih e he).2) hvalue hvalue'

theorem matchesItem_trans {u v w : Value} (huv : matchesItem u v = true) (hvw : matchesItem v w = true) :
    matchesItem u w = true :=
  matchesItem_trans_of (fun _ _ => eqv_trans) huv hvw

/-! ## Mappings without equal keys -/

/-- No key of a mapping is equal to a later one. -/
def keysApart (es : List (Value × Value)) : Bool :=
  decide ((es.map (·.1)).Pairwise fun k l => matchesItem k l = false)

mutual

/-- Whether no mapping in a value has two equal keys. -/
def isWellKeyed (v : Value) : Bool :=
  match v with
  | .list xs | .tuple xs => areAllWellKeyed xs
  | .map es => keysApart es && areEntriesWellKeyed es
  | .nil | .bool _ | .int _ | .float _ | .str _ | .range _ | .literal _ | .function .. | .proxy ..
  | .sealed .. | .version _ | .drop .. | .loop _ => true
termination_by structural v

/-- Whether no mapping in any of the values has two equal keys. -/
def areAllWellKeyed (xs : List Value) : Bool :=
  match xs with
  | [] => true
  | x :: xs => isWellKeyed x && areAllWellKeyed xs
termination_by structural xs

/-- Whether no mapping in any of the keys and values has two equal keys. -/
def areEntriesWellKeyed (es : List (Value × Value)) : Bool :=
  match es with
  | [] => true
  | (k, v) :: es => isWellKeyed k && isWellKeyed v && areEntriesWellKeyed es
termination_by structural es

end

theorem areAllWellKeyed_iff {xs : List Value} : areAllWellKeyed xs ↔ ∀ x ∈ xs, x.isWellKeyed := by
  induction xs with
  | nil => simp [areAllWellKeyed]
  | cons x rest ih => simp [areAllWellKeyed, ih]

theorem areEntriesWellKeyed_iff {es : List (Value × Value)} :
    areEntriesWellKeyed es ↔ ∀ e ∈ es, e.1.isWellKeyed ∧ e.2.isWellKeyed := by
  induction es with
  | nil => simp [areEntriesWellKeyed]
  | cons e rest ih => simp [areEntriesWellKeyed, ih]

theorem isWellKeyed_map_iff {es : List (Value × Value)} :
    (Value.map es).isWellKeyed ↔
      (es.map (·.1)).Pairwise (fun k l => matchesItem k l = false) ∧
        ∀ e ∈ es, e.1.isWellKeyed ∧ e.2.isWellKeyed := by
  rw [isWellKeyed, Bool.and_eq_true, areEntriesWellKeyed_iff, keysApart, decide_eq_true_iff]

/-- A key that is put into a mapping is there already, or comes behind keys that are not equal to it. -/
theorem keys_putEntry (es : List (Value × Value)) (key value : Value) :
    (putEntry es key value).map (·.1) = es.map (·.1) ∨
      (putEntry es key value).map (·.1) = es.map (·.1) ++ [key] ∧
        ∀ k ∈ es.map (·.1), matchesItem k key = false := by
  induction es with
  | nil => exact .inr ⟨rfl, by simp⟩
  | cons e rest ih =>
    rw [putEntry]
    split
    · exact .inl rfl
    · rename_i hmatches
      rcases ih with hkeys | ⟨hkeys, hapart⟩
      · exact .inl (by rw [List.map_cons, List.map_cons, hkeys])
      · refine .inr ⟨by rw [List.map_cons, List.map_cons, hkeys, List.cons_append], ?_⟩
        exact List.forall_mem_cons.mpr ⟨Bool.not_eq_true _ ▸ hmatches, hapart⟩

/-- What a mapping holds after an entry was put into it was there, or is the entry. -/
theorem forall_putEntry {V : Value → Prop} {es : List (Value × Value)} {key value : Value}
    (hes : ∀ e ∈ es, V e.1 ∧ V e.2) (hkey : V key) (hvalue : V value) :
    ∀ e ∈ putEntry es key value, V e.1 ∧ V e.2 := by
  induction es with
  | nil => simpa [putEntry] using ⟨hkey, hvalue⟩
  | cons e rest ih =>
    obtain ⟨hfirst, hrest⟩ := List.forall_mem_cons.mp hes
    rw [putEntry]
    split
    · exact List.forall_mem_cons.mpr ⟨⟨hfirst.1, hvalue⟩, hrest⟩
    · exact List.forall_mem_cons.mpr ⟨hfirst, ih hrest⟩

/-- **Mappings are made without equal keys.** -/
theorem isWellKeyed_ofEntries {es : List (Value × Value)}
    (hes : ∀ e ∈ es, e.1.isWellKeyed ∧ e.2.isWellKeyed) : (ofEntries es).isWellKeyed := by
  have hfold (acc : List (Value × Value)) (hacc : (Value.map acc).isWellKeyed) :
      (Value.map (es.foldl (fun acc e => putEntry acc e.1 e.2) acc)).isWellKeyed := by
    induction es generalizing acc with
    | nil => exact hacc
    | cons e rest ih =>
      obtain ⟨hfirst, hrest⟩ := List.forall_mem_cons.mp hes
      obtain ⟨hapart, hentries⟩ := isWellKeyed_map_iff.mp hacc
      have hkept := forall_putEntry (V := fun v => v.isWellKeyed) hentries hfirst.1 hfirst.2
      refine ih hrest _ (isWellKeyed_map_iff.mpr ⟨?_, hkept⟩)
      rcases keys_putEntry acc e.1 e.2 with hkeys | ⟨hkeys, hnew⟩
      · rwa [hkeys]
      · rw [hkeys]
        exact List.pairwise_append.mpr ⟨hapart, List.pairwise_singleton _ _, by simpa using hnew⟩
  exact hfold [] (isWellKeyed_map_iff.mpr ⟨List.Pairwise.nil, by simp⟩)

/-! ## Symmetry -/

/-- If every item finds a partner, no two items the same one, and there are no more possible partners than
items, then every partner is found. -/
theorem exists_partner {α β : Type} {R : α → β → Prop} {xs : List α} {ys : List β}
    (hlength : xs.length = ys.length) (hfound : ∀ x ∈ xs, ∃ y ∈ ys, R x y)
    (hapart : xs.Pairwise fun x x' => ∀ y, R x y → ¬ R x' y) : ∀ y ∈ ys, ∃ x ∈ xs, R x y := by
  have hplaces (i : Fin xs.length) : ∃ j : Fin ys.length, R xs[i] ys[j] := by
    obtain ⟨y, hy, hR⟩ := hfound xs[i] (List.getElem_mem _)
    obtain ⟨j, hj, rfl⟩ := List.getElem_of_mem hy
    exact ⟨⟨j, hj⟩, hR⟩
  choose place hplace using hplaces
  -- no two items have their partner at one place, so every place is taken
  have hne {i j : Fin xs.length} (hlt : i < j) : place i ≠ place j := by
    intro heq
    have hpair := List.pairwise_iff_getElem.mp hapart i j i.2 j.2 hlt
    exact hpair _ (hplace i) (heq ▸ hplace j)
  have hinjective : Function.Injective place := by
    intro i j heq
    rcases lt_trichotomy i j with hlt | rfl | hlt
    · exact absurd heq (hne hlt)
    · rfl
    · exact absurd heq.symm (hne hlt)
  have hsurjective := ((Fintype.bijective_iff_injective_and_card place).mpr
    ⟨hinjective, by simpa using hlength⟩).2
  intro y hy
  obtain ⟨j, hj, rfl⟩ := List.getElem_of_mem hy
  obtain ⟨i, hi⟩ := hsurjective ⟨j, hj⟩
  exact ⟨xs[i], List.getElem_mem _, by simpa [hi] using hplace i⟩

/-- Where equality is symmetric, so is standing in the place of an item. -/
theorem matchesItem_symm_of {v w : Value} (hv : ∀ w, eqv v w = true → eqv w v = true)
    (h : matchesItem v w = true) : matchesItem w v = true := by
  rw [matchesItem_iff] at h ⊢
  rw [sameMark_comm w v]
  exact h.imp_right (hv w)

theorem forall₂_symm_of {xs ys : List Value} (hxs : ∀ x ∈ xs, ∀ w, eqv x w = true → eqv w x = true)
    (h : List.Forall₂ (fun x y => matchesItem x y = true) xs ys) :
    List.Forall₂ (fun x y => matchesItem x y = true) ys xs := by
  induction h with
  | nil => exact .nil
  | cons hfirst _ ih =>
    obtain ⟨hx, hxs⟩ := List.forall_mem_cons.mp hxs
    exact .cons (matchesItem_symm_of hx hfirst) (ih hxs)

/-- **Equality is symmetric.** Induction on the first value. The entries of a mapping are found in the
other one, each a different one since their keys are not equal to each other. -/
theorem eqv_symm {v w : Value} (hv : v.isWellKeyed) (h : eqv v w = true) : eqv w v = true := by
  induction v using Value.induction generalizing w with
  | simple v hsimple =>
    obtain ⟨t, hvt, hwt⟩ := (eqv_iff_token hsimple).mp h
    have hw : w.isCollection = false := by cases w <;> first | rfl | cases hwt
    exact (eqv_iff_token hw).mpr ⟨t, hwt, hvt⟩
  | list xs ih =>
    obtain ⟨ys, rfl, hxy⟩ := eqv_list_iff.mp h
    have hxs := areAllWellKeyed_iff.mp hv
    exact eqv_list_iff.mpr ⟨xs, rfl, forall₂_symm_of (fun x hx _ => ih x hx (hxs x hx)) hxy⟩
  | tuple xs ih =>
    obtain ⟨ys, rfl, hxy⟩ := eqv_tuple_iff.mp h
    have hxs := areAllWellKeyed_iff.mp hv
    exact eqv_tuple_iff.mpr ⟨xs, rfl, forall₂_symm_of (fun x hx _ => ih x hx (hxs x hx)) hxy⟩
  | map es ih =>
    obtain ⟨fs, rfl, hlength, hfound⟩ := eqv_map_iff.mp h
    obtain ⟨hapart, hes⟩ := isWellKeyed_map_iff.mp hv
    have hkey : ∀ e ∈ es, ∀ u, matchesItem e.1 u = true → matchesItem u e.1 = true := by
      intro e he u
      exact matchesItem_symm_of fun _ => (ih e he).1 (hes e he).1
    -- two entries that stand for one have equal keys
    have hdiffer : es.Pairwise fun e e' => ∀ f, EntryMatches e f → ¬ EntryMatches e' f := by
      refine (List.pairwise_map.mp hapart).imp_of_mem ?_
      intro e e' _ he' hne f hmatch hmatch'
      have hsame : matchesItem e.1 e'.1 = true := matchesItem_trans hmatch.1 (hkey e' he' f.1 hmatch'.1)
      rw [hne] at hsame
      cases hsame
    refine eqv_map_iff.mpr ⟨es, rfl, hlength.symm, ?_⟩
    intro f hf
    obtain ⟨e, he, hmatch⟩ := exists_partner hlength hfound hdiffer f hf
    refine ⟨e, he, hkey e he f.1 hmatch.1, ?_⟩
    exact matchesItem_symm_of (fun _ => (ih e he).2 (hes e he).2) hmatch.2

/-- Equality is symmetric on values whose mappings have no equal keys. -/
theorem eqv_comm {v w : Value} (hv : v.isWellKeyed) (hw : w.isWellKeyed) : eqv v w = eqv w v :=
  Bool.eq_iff_iff.mpr ⟨eqv_symm hv, eqv_symm hw⟩

/-- With two equal keys it would not be. -/
example : eqv (.map [(.nil, .nil), (.nil, .nil)]) (.map [(.nil, .nil), (.bool true, .nil)]) = true ∧
    eqv (.map [(.nil, .nil), (.bool true, .nil)]) (.map [(.nil, .nil), (.nil, .nil)]) = false := by
  decide

end Value

end Stencil
