/-!
Things kept by name, in the order in which the names were first bound. What is put under a name is
found there, and what is found under all other names stays.
-/

namespace Stencil

/-- Things by name. -/
abbrev Named (α : Type) := List (String × α)

namespace Named

variable {α : Type}

/-- What a name is bound to. -/
def get? (entries : Named α) (name : String) : Option α :=
  (entries.find? (·.1 == name)).map (·.2)

/-- Whether a name is bound. -/
def has (entries : Named α) (name : String) : Bool := entries.any (·.1 == name)

/-- Binds a name; one that is bound keeps its place. -/
def put (entries : Named α) (name : String) (a : α) : Named α :=
  match entries with
  | [] => [(name, a)]
  | e :: rest => if e.1 == name then (name, a) :: rest else e :: put rest name a

/-- A name is bound exactly when something is found under it. -/
theorem has_eq_isSome_get? (entries : Named α) (name : String) :
    entries.has name = (entries.get? name).isSome := by
  induction entries with
  | nil => rfl
  | cons e rest ih =>
    by_cases he : e.1 == name
    · simp [has, get?, he]
    · simpa [has, get?, he] using ih

/-- What was put under a name is found there. -/
@[simp] theorem get?_put_self (entries : Named α) (name : String) (a : α) :
    (entries.put name a).get? name = some a := by
  induction entries with
  | nil => simp [put, get?]
  | cons e rest ih =>
    by_cases he : e.1 = name
    · simp [put, get?, he]
    · simpa [put, get?, he] using ih

/-- Putting something under a name leaves what is found under other names alone. -/
theorem get?_put_of_ne (entries : Named α) {name other : String} (h : other ≠ name) (a : α) :
    (entries.put name a).get? other = entries.get? other := by
  induction entries with
  | nil => simp [put, get?, Ne.symm h]
  | cons e rest ih =>
    by_cases ho : e.1 = other
    · simp [put, get?, ho, h]
    · by_cases he : e.1 = name
      · simp [put, get?, he, Ne.symm h]
      · simpa [put, get?, he, ho] using ih

/-- What is bound after a name was put was bound before, or it is what was put. -/
theorem mem_put {entries : Named α} {name : String} {a : α} {e : String × α}
    (he : e ∈ entries.put name a) : e ∈ entries ∨ e = (name, a) := by
  induction entries with
  | nil => exact .inr (List.mem_singleton.mp he)
  | cons first rest ih =>
    unfold put at he
    split at he
    · exact (List.mem_cons.mp he).symm.imp_left (List.mem_cons_of_mem _)
    · rcases List.mem_cons.mp he with rfl | hrest
      · exact .inl List.mem_cons_self
      · exact (ih hrest).imp_left (List.mem_cons_of_mem _)

/-- What everything that is bound satisfies is kept when something that satisfies it is put. -/
theorem forall_put {entries : Named α} {Q : α → Prop} (hentries : ∀ e ∈ entries, Q e.2) {name : String}
    {a : α} (ha : Q a) : ∀ e ∈ entries.put name a, Q e.2 := by
  intro e he
  rcases mem_put he with hold | rfl
  · exact hentries e hold
  · exact ha

/-- Binds all names of other entries. -/
def putAll (entries others : Named α) : Named α :=
  others.foldl (fun entries e => entries.put e.1 e.2) entries

/-- Everything that is bound in the end was bound before, or it is one of the other entries. -/
theorem mem_putAll {entries others : Named α} {e : String × α} (he : e ∈ entries.putAll others) :
    e ∈ entries ∨ e ∈ others := by
  induction others generalizing entries with
  | nil => exact .inl he
  | cons first rest ih =>
    rcases ih he with hput | hrest
    · refine (mem_put hput).imp_right fun hfirst => ?_
      rw [hfirst]
      exact List.mem_cons_self
    · exact .inr (List.mem_cons_of_mem _ hrest)

/-- Unbinds a name. -/
def erase (entries : Named α) (name : String) : Named α := entries.filter (·.1 != name)

/-- The bound names. -/
def names (entries : Named α) : List String := entries.map (·.1)

/-- The bound names in the order of their characters. -/
def sortedNames (entries : Named α) : List String := entries.names.mergeSort (· ≤ ·)

end Named

end Stencil
