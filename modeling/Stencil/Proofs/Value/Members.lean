import Stencil.Filter.Basic
import Stencil.Filter.OnItems
import Stencil.Proofs.Fallible
import Stencil.Value.Convert
import Stencil.Value.LoopInfo

/-!
# What operations on values give

The operations on values make new numbers and texts, and otherwise give what they find inside the values
they are applied to. A property of values that numbers and texts have, and that passes from a collection
to its members and back (`ValueClosed`), therefore holds of what the operations give.

* Sorting and leaving duplicates out give items they were given (`mem_sortKeyed`, `mem_uniq`).
* A slice of a collection holds members of it (`ValueClosed.slice`).
* The arguments of a filter are those that were written, or defaults (`forall_bind`).
-/

namespace Stencil

/-- A property of values that the operations on values keep, host objects apart. -/
structure ValueClosed (V : Value → Prop) : Prop where
  nil : V .nil
  bool (b : Bool) : V (.bool b)
  int (n : Int) : V (.int n)
  float (x : Binary64) : V (.float x)
  str (s : String) : V (.str s)
  range (r : Span) : V (.range r)
  loop (id : Nat) : V (.loop id)
  list {xs : List Value} (hxs : ∀ x ∈ xs, V x) : V (.list xs)
  items {v : Value} (hv : V v) : ∀ x ∈ v.toItems, V x
  entries {es : List (Value × Value)} (hes : V (.map es)) : ∀ e ∈ es, V e.1 ∧ V e.2

theorem valueClosed_true : ValueClosed fun _ => True := by
  constructor <;> simp

/-! ## Sorting and duplicates -/

namespace Value

variable {ks sorted out : List Keyed} {k x : Keyed}

theorem mem_insertSorted (hinsert : insertSorted? sorted k = some out) (hx : x ∈ out) :
    x ∈ sorted ∨ x = k := by
  obtain ⟨i, -, rfl⟩ := Option.map_eq_some_iff.mp hinsert
  rcases List.mem_append.mp hx with hfront | hback
  · exact .inl (List.mem_of_mem_take hfront)
  · rcases List.mem_cons.mp hback with rfl | hback
    · exact .inr rfl
    · exact .inl (List.mem_of_mem_drop hback)

theorem mem_foldlM_insertSorted (hfold : ks.foldlM insertSorted? sorted = some out) (hx : x ∈ out) :
    x ∈ sorted ∨ x ∈ ks := by
  induction ks generalizing sorted with
  | nil =>
    cases hfold
    exact .inl hx
  | cons k rest ih =>
    rw [List.foldlM_cons] at hfold
    obtain ⟨next, hinsert, hfold⟩ := Option.bind_eq_some_iff.mp hfold
    rcases ih hfold with hnext | hrest
    · rcases mem_insertSorted hinsert hnext with hsorted | rfl
      · exact .inl hsorted
      · exact .inr List.mem_cons_self
    · exact .inr (List.mem_cons_of_mem _ hrest)

/-- What has been sorted was there before. -/
theorem mem_sort (hsort : sort? ks = some out) (hx : x ∈ out) : x ∈ ks := by
  unfold sort? at hsort
  split at hsort
  · cases hsort
    exact hx
  · cases hsort
    exact hx
  · next k l rest =>
    obtain ⟨descending, -, hsort⟩ := Option.bind_eq_some_iff.mp hsort
    obtain ⟨length, -, hsort⟩ := Option.bind_eq_some_iff.mp hsort
    -- the run at the front may be turned round, and the rest is put into it
    rcases mem_foldlM_insertSorted hsort hx with hrun | hrest
    · split at hrun
      · exact List.mem_of_mem_take (List.mem_reverse.mp hrun)
      · exact List.mem_of_mem_take hrun
    · exact List.mem_of_mem_drop hrest

end Value

namespace Filter

open Value (Keyed)

theorem mem_sortKeyed {ks : List Keyed} {vs : List Value} {v : Value}
    (hsort : sortKeyed ks = .ok vs) (hv : v ∈ vs) : ∃ k ∈ ks, k.item = v := by
  unfold sortKeyed at hsort
  split at hsort
  · next sorted hsorted =>
    cases hsort
    rcases List.mem_append.mp hv with hkeyed | hother
    · obtain ⟨k, hk, rfl⟩ := List.mem_map.mp hkeyed
      exact ⟨k, (List.mem_filter.mp (Value.mem_sort hsorted hk)).1, rfl⟩
    · obtain ⟨k, hk, rfl⟩ := List.mem_map.mp hother
      exact ⟨k, (List.mem_filter.mp hk).1, rfl⟩
  · cases hsort

theorem mem_uniqAfter {seen vs : List Value} {v : Value} (hv : v ∈ uniqAfter seen vs) :
    v ∈ seen ∨ v ∈ vs := by
  induction vs generalizing seen with
  | nil => exact .inl hv
  | cons w rest ih =>
    unfold uniqAfter at hv
    split at hv
    · exact (ih hv).imp_right (List.mem_cons_of_mem _)
    · rcases ih hv with hseen | hrest
      · rcases List.mem_append.mp hseen with hseen | hw
        · exact .inl hseen
        · exact .inr (List.mem_singleton.mp hw ▸ List.mem_cons_self)
      · exact .inr (List.mem_cons_of_mem _ hrest)

theorem mem_uniq {vs : List Value} {v : Value} (hv : v ∈ uniq vs) : v ∈ vs :=
  (mem_uniqAfter hv).resolve_left fun h => nomatch h

end Filter

/-! ## Members of collections -/

namespace Value

theorem mem_of_entry {es : List (Value × Value)} {key v : Value}
    (hentry : entry? es key = .ok (some v)) : ∃ e ∈ es, e.2 = v := by
  unfold entry? at hentry
  split at hentry
  · cases hentry
  · obtain ⟨e, hfind, rfl⟩ := Option.map_eq_some_iff.mp (Except.ok.inj hentry)
    exact ⟨e, List.mem_of_find?_eq_some hfind, rfl⟩

theorem mem_window {α : Type} {xs : List α} {start : Int} {stop : Option Int} {x : α}
    (hx : x ∈ window xs start stop) : x ∈ xs := by
  have hkept := List.mem_of_mem_drop hx
  split at hkept
  · exact List.mem_of_mem_take hkept
  · exact hkept

end Value

namespace ValueClosed

variable {V : Value → Prop} (hV : ValueClosed V)

include hV

theorem getD {xs : List Value} (hxs : ∀ x ∈ xs, V x) (i : Nat) : V (xs[i]?.getD .nil) := by
  cases hget : xs[i]? with
  | none => exact hV.nil
  | some x => exact hxs x (List.mem_of_getElem? hget)

theorem headD {xs : List Value} (hxs : ∀ x ∈ xs, V x) : V (xs.headD .nil) := by
  cases xs with
  | nil => exact hV.nil
  | cons x rest => exact hxs x List.mem_cons_self

theorem getLastD {xs : List Value} (hxs : ∀ x ∈ xs, V x) : V (xs.getLastD .nil) := by
  rw [List.getLastD_eq_getLast?]
  cases hlast : xs.getLast? with
  | none => exact hV.nil
  | some x => exact hxs x (List.mem_of_getLast? hlast)

theorem ofSpan (r : Span) : ∀ x ∈ Value.ofSpan r, V x := by
  intro x hx
  obtain ⟨i, -, rfl⟩ := List.mem_map.mp hx
  exact hV.int _

theorem filterItems {v : Value} (hv : V v) {xs : List Value} (hxs : Filter.items v = .ok xs) :
    ∀ x ∈ xs, V x := by
  unfold Filter.items at hxs
  split at hxs
  · split at hxs
    · cases hxs
    · cases hxs
      exact hV.ofSpan _
  · cases hxs
    exact hV.items hv

theorem filterMembers {v : Value} (hv : V v) {xs : List Value} (hxs : Filter.members v = .ok xs) :
    ∀ x ∈ xs, V x := by
  unfold Filter.members at hxs
  split at hxs
  · cases hxs
    intro x hx
    obtain ⟨c, -, rfl⟩ := List.mem_map.mp hx
    exact hV.str _
  · exact hV.filterItems hv hxs

theorem number (n : Numeric) : V n.toValue := by
  cases n with
  | int n => exact hV.int n
  | float x => exact hV.float x

/-- A slice of anything but a drop holds members of it, or pairs of them. -/
theorem slice {v : Value} (hv : V v) (hdrop : ∀ id d, v ≠ .drop id d) (start : Int)
    (stop : Option Int) : ∀ x ∈ v.slice start stop, V x := by
  intro x hx
  unfold Value.slice at hx
  split at hx
  · split at hx
    · cases hx
    · exact List.mem_singleton.mp hx ▸ hv
  · obtain ⟨e, he, rfl⟩ := List.mem_map.mp (Value.mem_window hx)
    obtain ⟨hkey, hvalue⟩ := hV.entries hv e he
    refine hV.list fun x hx => ?_
    simp only [List.mem_cons, List.not_mem_nil, or_false] at hx
    exact hx.elim (fun h => h ▸ hkey) fun h => h ▸ hvalue
  · exact hV.items hv x (Value.mem_window hx)
  · exact hV.items hv x (Value.mem_window hx)
  · obtain ⟨i, -, rfl⟩ := List.mem_map.mp hx
    exact hV.int _
  · exact absurd rfl (hdrop _ _)
  · cases hx

/-- The answers of loop metadata are numbers, texts and other loops. -/
theorem answer {info : LoopInfo} {name : String} {v : Value} (hanswer : info.answer? name = some v) :
    V v := by
  obtain ⟨entry, hfind, rfl⟩ := Option.map_eq_some_iff.mp hanswer
  have hmem := List.mem_of_find?_eq_some hfind
  have hshared (length index : Int) : ∀ e ∈ LoopInfo.shared length index, V e.2 := by
    simp [LoopInfo.shared, hV.bool, hV.int]
  cases info with
  | items loopName length index parent =>
    rcases List.mem_append.mp hmem with hmem | hmem
    · exact hshared _ _ _ hmem
    · simp only [List.mem_cons, List.not_mem_nil, or_false] at hmem
      rcases hmem with rfl | rfl
      · exact hV.str _
      · cases parent with
        | none => exact hV.nil
        | some id => exact hV.loop id
  | table length cols index row col =>
    rcases List.mem_append.mp hmem with hmem | hmem
    · exact hshared _ _ _ hmem
    · simp only [List.mem_cons, List.not_mem_nil, or_false] at hmem
      rcases hmem with rfl | rfl | rfl | rfl | rfl <;> simp [hV.bool, hV.int]

end ValueClosed

/-! ## Arguments of filters -/

namespace Parameters

variable {V : Value → Prop} {function : String} {args vs : List Value} {kwargs : Named Value}
  {parameters : List (String × Option Value)}

/-- A parameter with its default and with what is bound to it. -/
abbrev Slot := String × Option Value × Option Value

/-- The default of a parameter and what is bound to it satisfy `V`, where they are there. -/
def Slot.Holds (V : Value → Prop) (slot : Slot) : Prop :=
  (∀ v ∈ slot.2.1, V v) ∧ ∀ v ∈ slot.2.2, V v

theorem holds_bindPositional (hdefaults : ∀ p ∈ parameters, ∀ v ∈ p.2, V v)
    (hargs : ∀ v ∈ args, V v) : ∀ slot ∈ bindPositional parameters args, Slot.Holds V slot := by
  induction parameters generalizing args with
  | nil => exact fun _ hslot => nomatch hslot
  | cons p rest ih =>
    obtain ⟨hp, hrest⟩ := List.forall_mem_cons.mp hdefaults
    cases args with
    | nil =>
      exact List.forall_mem_cons.mpr ⟨⟨hp, fun _ hv => nomatch hv⟩, ih hrest hargs⟩
    | cons v args =>
      obtain ⟨hv, hargs⟩ := List.forall_mem_cons.mp hargs
      exact List.forall_mem_cons.mpr ⟨⟨hp, fun w hw => Option.some.inj hw ▸ hv⟩, ih hrest hargs⟩

theorem holds_bindKeyword {slots after : List Slot} {key : String} {v : Value}
    (hslots : ∀ slot ∈ slots, Slot.Holds V slot) (hv : V v)
    (hbind : bindKeyword function slots key v = .ok after) : ∀ slot ∈ after, Slot.Holds V slot := by
  unfold bindKeyword at hbind
  split at hbind
  · cases hbind
  · cases hbind
  · next found fallback hfind =>
    cases hbind
    intro slot hslot
    obtain ⟨before, hbefore, rfl⟩ := List.mem_map.mp hslot
    split
    · exact ⟨(hslots _ (List.mem_of_find?_eq_some hfind)).1, fun w hw => Option.some.inj hw ▸ hv⟩
    · exact hslots before hbefore

theorem forall_complete {slots : List Slot} (hslots : ∀ slot ∈ slots, Slot.Holds V slot)
    (hcomplete : complete function slots = .ok vs) : ∀ v ∈ vs, V v := by
  induction slots generalizing vs with
  | nil =>
    cases hcomplete
    exact fun _ hv => nomatch hv
  | cons slot rest ih =>
    obtain ⟨name, fallback, bound⟩ := slot
    obtain ⟨⟨hfallback, hbound⟩, hrest⟩ := List.forall_mem_cons.mp hslots
    unfold complete at hcomplete
    split at hcomplete
    · next v hor =>
      obtain ⟨others, hothers, rfl⟩ := map_eq_ok_iff.mp hcomplete
      refine List.forall_mem_cons.mpr ⟨?_, ih hrest hothers⟩
      rcases Option.or_eq_some_iff.mp hor with h | ⟨-, h⟩
      · exact hbound v h
      · exact hfallback v h
    · cases hcomplete

/-- Every argument of a filter was given, or it is a default. -/
theorem forall_bind (hdefaults : ∀ p ∈ parameters, ∀ v ∈ p.2, V v) (hargs : ∀ v ∈ args, V v)
    (hkwargs : ∀ entry ∈ kwargs, V entry.2)
    (hbind : bind function parameters args kwargs = .ok vs) : ∀ v ∈ vs, V v := by
  obtain ⟨slots, hkeywords, hrest⟩ := bind_eq_ok_iff.mp hbind
  have hslots : ∀ slot ∈ slots, Slot.Holds V slot :=
    foldlM_keeps hkeywords (holds_bindPositional hdefaults hargs) fun _ entry hentry _ hbefore hstep =>
      holds_bindKeyword hbefore (hkwargs entry hentry) hstep
  split at hrest
  · cases hrest
  · exact forall_complete hslots hrest

end Parameters

theorem ValueClosed.defaults {V : Value → Prop} (hV : ValueClosed V) (f : BuiltinFilter) :
    ∀ p ∈ f.parameters, ∀ v ∈ p.2, V v := by
  cases f <;> simp [BuiltinFilter.parameters, hV.nil, hV.bool, hV.int, hV.str]

end Stencil
