import Stencil.Proofs.Render.Continuation

/-!
# Windows of collections

A loop or a table goes through the items of its collection between two places. Lists, ranges, mappings and
drops come to that in ways of their own; what they give is a part of the list of all their items
(`slice_eq_part`), so that a table over a collection is the table over that list (`renderRows_items`).
A text is the exception: it is one item, wherever its slice starts and stops (`slice_text`).
-/

namespace Stencil

namespace Value

variable {c : Value} {start : Nat} {stop : Option Nat}

/-- The part of a list from one place on and before another one, if that is given. -/
def part (items : List Value) (start : Nat) (stop : Option Nat) : List Value :=
  (stop.elim items items.take).drop start

/-- A drop that loads its own slices takes them from the items that it has when it is iterated. -/
def LoadsItsItems (c : Value) : Prop :=
  ∀ id d xs, c = .drop id d → d.slices = some xs → d.items.getD [] = xs

theorem window_eq_part (items : List Value) (start : Nat) (stop : Option Nat) :
    window items start (stop.map Int.ofNat) = part items start stop := by
  cases stop <;> rfl

/-- Bounds that are not negative are places counted from the front. -/
theorem sliceBetween_eq_part (items : List Value) (start : Nat) (stop : Option Nat) :
    sliceBetween items start (stop.map Int.ofNat) = part items start stop := by
  have hclamp (n : Nat) : clampBound items.length (n : Int) = min n items.length := by
    simp [clampBound]
  have hdrop : items.drop (min start items.length) = items.drop start := List.drop_eq_drop_min.symm
  cases stop with
  | none =>
    rw [sliceBetween, part, Option.map_none, Option.getD_none, hclamp, hclamp, hdrop]
    refine List.take_of_length_le ?_
    rw [List.length_drop]
    omega
  | some n =>
    rw [sliceBetween, part, Option.map_some, Option.getD_some, Int.ofNat_eq_natCast, hclamp, hclamp,
      hdrop, Option.elim_some, List.drop_take]
    simp [List.take_eq_take_iff]
    omega

/-- **What is no text has the slices of one list.** -/
theorem exists_slice_eq_part (hloads : c.LoadsItsItems) (htext : ∀ s, c ≠ .str s) :
    ∃ items, ∀ (start : Nat) stop, c.slice start (Option.map Int.ofNat stop) = part items start stop := by
  have helements {v : Value} {items : List Value} (h : v.elements? = some items) :
      ∃ items, ∀ (start : Nat) stop, v.slice start (Option.map Int.ofNat stop) = part items start stop :=
    ⟨items, fun start stop => (slice_eq_window h start _).trans (window_eq_part items start stop)⟩
  cases c with
  | str s => exact absurd rfl (htext s)
  | list | tuple | map | range => exact helements rfl
  | drop id d =>
    refine ⟨d.items.getD [], fun start stop => ?_⟩
    rw [slice]
    cases hslices : d.slices with
    | none => exact window_eq_part _ start stop
    | some xs =>
      rw [hloads id d xs rfl hslices]
      dsimp only
      split
      · exact sliceBetween_eq_part xs start stop
      · exact window_eq_part xs start stop
  | _ => exact ⟨[], fun start stop => by cases stop <;> simp [slice, part]⟩

theorem slice_eq_part (hloads : c.LoadsItsItems) (htext : ∀ s, c ≠ .str s) (start : Nat)
    (stop : Option Nat) :
    c.slice start (stop.map Int.ofNat) = part (c.slice 0 none) start stop := by
  obtain ⟨items, hitems⟩ := exists_slice_eq_part hloads htext
  have hall : c.slice 0 none = items := hitems 0 none
  rw [hitems, hall]

/-- Every slice of a text is the text. -/
theorem slice_text (s : String) (start : Int) (stop : Option Int) :
    (Value.str s).slice start stop = if s = "" then [] else [.str s] := by
  by_cases h : s = "" <;> simp [slice, h]

/-- **A slice is a part of the list of all items**, unless it leaves out the one item that a text is. -/
theorem slice_eq_part_iff (hloads : c.LoadsItsItems) :
    c.slice start (stop.map Int.ofNat) = part (c.slice 0 none) start stop ↔
      ∀ s, c = .str s → s = "" ∨ start = 0 ∧ stop ≠ some 0 := by
  by_cases htext : ∃ s, c = .str s
  · obtain ⟨s, rfl⟩ := htext
    rw [slice_text, slice_text]
    by_cases hs : s = ""
    · cases stop <;> simp [hs, part]
    · have hone : [Value.str s] = part [Value.str s] start stop ↔ start = 0 ∧ stop ≠ some 0 := by
        rcases start with _ | start <;> rcases stop with _ | _ | n <;> simp [part]
      rw [if_neg hs, hone]
      simp [hs]
  · have hno : ∀ s, c ≠ .str s := fun s hs => htext ⟨s, hs⟩
    exact iff_of_true (slice_eq_part hloads hno start stop) fun s hs => absurd hs (hno s)

end Value

/-! ## Loops and tables -/

open Render

/-- The bounds of a table that are not negative: where it starts, and where it stops if it has a limit. -/
def TableHeader.HasPlaces (header : TableHeader) (σ : Settings) (s : RenderState) : Prop :=
  ∀ offset t, (bound (header.attributes.get? "offset")).runFrom σ s = (.ok offset, t) →
    0 ≤ offset.getD 0 ∧ ∀ limit u, (bound (header.attributes.get? "limit")).runFrom σ t = (.ok limit, u) →
      ∀ n, limit = some n → 0 ≤ offset.getD 0 + n

/-- Bounds that are not negative are places. -/
theorem exists_places {start : Int} {limit : Option Int} (hstart : 0 ≤ start)
    (hstop : ∀ n, limit = some n → 0 ≤ start + n) :
    ∃ (first : Nat) (stop : Option Nat),
      start = first ∧ limit.map (start + ·) = stop.map Int.ofNat := by
  refine ⟨start.toNat, limit.map fun n => (start + n).toNat, (Int.toNat_of_nonneg hstart).symm, ?_⟩
  cases limit with
  | none => rfl
  | some n => exact congrArg some (Int.toNat_of_nonneg (hstop n rfl)).symm

/-- **A table over a collection is the table over the list of its items.** -/
theorem TableHeader.renderRows_items (header : TableHeader) (body : Render Rendered) {c : Value}
    (hloads : c.LoadsItsItems) (htext : ∀ s, c ≠ .str s) {σ : Settings} {s : RenderState}
    (hplaces : header.HasPlaces σ s) :
    (header.renderRows body c).runFrom σ s =
      (header.renderRows body (.list (c.slice 0 none))).runFrom σ s := by
  unfold TableHeader.renderRows
  rw [runFrom_bind, runFrom_bind]
  cases hoffset : (bound (header.attributes.get? "offset")).runFrom σ s with
  | mk outcome t =>
    cases outcome with
    | error e => rfl
    | ok offset =>
      obtain ⟨hstart, hlimits⟩ := hplaces offset t hoffset
      dsimp only
      rw [runFrom_bind, runFrom_bind]
      cases hlimit : (bound (header.attributes.get? "limit")).runFrom σ t with
      | mk outcome u =>
        cases outcome with
        | error e => rfl
        | ok limit =>
          obtain ⟨start, stop, hfirst, hstop⟩ := exists_places hstart (hlimits limit u hlimit)
          have hslice : c.slice (offset.getD 0) (limit.map (offset.getD 0 + ·)) =
              (Value.list (c.slice 0 none)).slice (offset.getD 0) (limit.map (offset.getD 0 + ·)) := by
            rw [hfirst] at hstop ⊢
            rw [hstop, Value.slice_eq_part hloads htext]
            exact (Value.window_eq_part _ start stop).symm
          dsimp only
          rw [hslice]

/-- **Slices of a collection are parts of its items.** Let a drop that loads its own slices take them from
the items that it has when it is iterated. Then the slice of a collection between two places is the part
of the list of all its items between them, just if it does not leave out the one item that a text is. A
loop that is met goes through such a slice, in order or in the other direction, and a table over a
collection is the table over the list of its items. -/
theorem slices_are_parts (c : Value) (hloads : c.LoadsItsItems) :
    (∀ (start : Nat) (stop : Option Nat),
      c.slice start (stop.map Int.ofNat) = Value.part (c.slice 0 none) start stop ↔
        ∀ s, c = .str s → s = "" ∨ start = 0 ∧ stop ≠ some 0) ∧
      (∀ (header : LoopHeader) (σ : Settings) (s t : RenderState) (visited : List Value),
        header.itemsOf.runFrom σ s = (.ok visited, t) →
          ∃ v, t.visits = v :: s.visits ∧ v.header = header ∧
            visited = (if header.reversed then v.slice.reverse else v.slice) ∧
            (v.collection = c → (∀ s, c ≠ .str s) →
              ∀ (start : Nat) (stop : Option Nat), v.start = start →
                v.limit.map (v.start + ·) = stop.map Int.ofNat →
                v.slice = Value.part (c.slice 0 none) start stop)) ∧
      ∀ (header : TableHeader) (body : Render Rendered) (σ : Settings) (s : RenderState),
        (∀ s, c ≠ .str s) → header.HasPlaces σ s →
          (header.renderRows body c).runFrom σ s =
            (header.renderRows body (.list (c.slice 0 none))).runFrom σ s := by
  refine ⟨fun start stop => Value.slice_eq_part_iff hloads, ?_, ?_⟩
  · intro header σ s t visited hrun
    rcases itemsOf_cases header σ s with ⟨e, u, herror, -⟩ | ⟨v, u, hheader, hst, hsound, hvisited⟩
    · rw [herror] at hrun
      cases hrun
    · rw [hvisited] at hrun
      cases hrun
      refine ⟨v, congrArg (v :: ·) hst.1, hheader, rfl, ?_⟩
      rintro rfl htext start stop hstart hstop
      rw [hsound.slice, hstop, hstart]
      exact Value.slice_eq_part hloads htext start stop
  · intro header body σ s htext hplaces
    exact header.renderRows_items body hloads htext hplaces

/-- A drop that loads its own slices. -/
def pagedDrop : Value :=
  .drop 0
    { name := "Pages", members := [], keys := none, missing := none
      items := some numbers, slices := some numbers }

/-- Settings with the drop as data. -/
def pagedSettings : Settings := { environments := [[("pages", pagedDrop)]] }

/-- The head of a loop over two items of the drop, the last one first. -/
def pagedLoop : LoopHeader where
  itemName := "x"
  name := "x-pages"
  collection := .lookup (.value (.str "pages")) []
  reversed := true
  limit := some (.value (.int 2))
  offset := some (.value (.int 1))

/-- The head of a table with two items of the drop. -/
def pagedTable : TableHeader where
  itemName := "x"
  collection := .lookup (.value (.str "pages")) []
  attributes := [("limit", .value (.int 2)), ("offset", .value (.int 1))]

/-- The slices of the drop are parts of what it iterates, in loops and in tables. -/
theorem slices_are_parts_pagedDrop :
    pagedDrop.LoadsItsItems ∧ pagedDrop.slice 1 (some 3) = [.int 2, .int 3] ∧
      (∃ t v, pagedLoop.itemsOf.runFrom pagedSettings {} = (.ok [.int 3, .int 2], t) ∧
        t.visits = [v] ∧ v.slice = (numbers.take 3).drop 1) ∧
      pagedTable.HasPlaces pagedSettings {} ∧
      (pagedTable.renderRows (Body.render [failingOutput]) pagedDrop).runFrom pagedSettings {} =
        (pagedTable.renderRows (Body.render [failingOutput]) (.list numbers)).runFrom pagedSettings {} := by
  have hloads : pagedDrop.LoadsItsItems := by
    rintro id d xs hdrop hslices
    cases hdrop
    cases hslices
    rfl
  have hplaces : pagedTable.HasPlaces pagedSettings {} := by
    rintro offset t hoffset
    cases hoffset
    refine ⟨by decide, fun limit u hlimit n hn => ?_⟩
    cases hlimit
    cases hn
    decide
  obtain ⟨hslice, hloop, htable⟩ := slices_are_parts pagedDrop hloads
  refine ⟨hloads, (hslice 1 (some 3)).mpr nofun, ?_, hplaces,
    htable pagedTable _ pagedSettings {} nofun hplaces⟩
  have hrun : ∃ t, pagedLoop.itemsOf.runFrom pagedSettings {} = (.ok [.int 3, .int 2], t) := ⟨_, rfl⟩
  obtain ⟨t, ht⟩ := hrun
  obtain ⟨v, hvisits, -, -, hpart⟩ := hloop pagedLoop pagedSettings {} t _ ht
  refine ⟨t, v, ht, hvisits, ?_⟩
  cases ht
  cases hvisits
  exact hpart rfl nofun 1 (some 3) rfl rfl

/-- A text is one item of its own slice, also where that starts behind it. -/
theorem text_slice_past_end :
    (Value.str "abc").slice 1 none = [.str "abc"] ∧ ((Value.str "abc").slice 0 none).drop 1 = [] :=
  ⟨rfl, rfl⟩

end Stencil
