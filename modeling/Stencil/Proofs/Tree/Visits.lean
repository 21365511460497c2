import Stencil.Proofs.Tree.Walk

/-!
# What a visitor collects

A visitor goes through the tree by recursion, a walk with a stack; both meet the same items in the same order
(`flattenAll_visit`). What a visitor collects is nested like the items (`rel_at?_visit`): at each place below the
root it holds what the callback says of the item there, in the context that was set last on the way to it
(`Governs`). `traversals_agree` says both.
-/

namespace Stencil

variable {α γ : Type}

/-! ## Contexts on the way to an item -/

namespace Visitor

/-- The context a visitor sets for what is below an item, if it sets one. -/
def sets? (visitor : Visitor α γ) (item : Item) (context : γ) : Option γ := (visitor item context).bind (·.2)

/-- The context for what is below an item. -/
def passed (visitor : Visitor α γ) (context : γ) (item : Item) : γ := (visitor.sets? item context).getD context

/-- The context that a visitor passes on behind a chain of items: the one that the last of them sets that sets
any, or the initial one. -/
inductive Governs (visitor : Visitor α γ) (initial : γ) : List Item → γ → Prop where
  | initial {above : List Item} (habove : ∀ item ∈ above, visitor.sets? item initial = none) :
    Governs visitor initial above initial
  | set {front back : List Item} {item : Item} {seen context : γ} (hseen : Governs visitor initial front seen)
    (hset : visitor.sets? item seen = some context)
    (hback : ∀ other ∈ back, visitor.sets? other context = none) :
    Governs visitor initial (front ++ item :: back) context

variable {visitor : Visitor α γ} {initial context : γ} {item : Item}

theorem Governs.of_sets?_eq_none {above : List Item} (hgoverns : Governs visitor initial above context)
    (hnone : visitor.sets? item context = none) : Governs visitor initial (above ++ [item]) context := by
  cases hgoverns with
  | initial habove =>
    exact .initial (List.forall_mem_append.mpr ⟨habove, List.forall_mem_singleton.mpr hnone⟩)
  | set hseen hset hback =>
    rw [List.append_assoc, List.cons_append]
    exact .set hseen hset (List.forall_mem_append.mpr ⟨hback, List.forall_mem_singleton.mpr hnone⟩)

theorem foldl_passed_of_sets?_eq_none {items : List Item}
    (hnone : ∀ item ∈ items, visitor.sets? item context = none) :
    items.foldl visitor.passed context = context := by
  induction items with
  | nil => rfl
  | cons item rest ih =>
    obtain ⟨hitem, hrest⟩ := List.forall_mem_cons.mp hnone
    rw [List.foldl_cons, passed, hitem, Option.getD_none, ih hrest]

/-- **Contexts are passed on from item to item**, and so exactly one governs. -/
theorem governs_iff {above : List Item} :
    Governs visitor initial above context ↔ context = above.foldl visitor.passed initial := by
  constructor
  · intro hgoverns
    induction hgoverns with
    | initial habove => exact (foldl_passed_of_sets?_eq_none habove).symm
    | set hseen hset hback ih =>
      rw [List.foldl_append, List.foldl_cons, ← ih, passed, hset, Option.getD_some,
        foldl_passed_of_sets?_eq_none hback]
  · rintro rfl
    induction above using List.reverseRecOn with
    | nil => exact .initial nofun
    | append_singleton above item ih =>
      rw [List.foldl_append, List.foldl_cons, List.foldl_nil, passed]
      cases hset : visitor.sets? item (above.foldl visitor.passed initial) with
      | none => exact ih.of_sets?_eq_none hset
      | some context => exact .set ih hset nofun

/-! ## One level of a visit -/

/-- Everything below an item weighs less than it does. -/
theorem weight_lt_of_mem_children {child : Item} (hchild : child ∈ item.children) :
    child.weight < item.weight :=
  Nat.lt_of_le_of_lt (List.le_sum_of_mem (List.mem_map_of_mem hchild)) (Item.sum_weight_children item)

theorem visitWithin_succ (fuel : Nat) :
    visitWithin visitor (fuel + 1) context item = item.children.map fun child =>
      .mk ((visitor child context).map (·.1)) (visitWithin visitor fuel (visitor.passed context child) child) := by
  rw [visitWithin]
  refine List.map_congr_left fun child _ => ?_
  cases h : visitor child context with
  | none => simp only [passed, sets?, h, Option.map_none, Option.bind_none, Option.getD_none]
  | some said => simp only [passed, sets?, h, Option.map_some, Option.bind_some]

/-- With a step for every part of the item it makes no difference how many there are. -/
theorem visitWithin_eq {fuel more : Nat} (hfuel : item.weight ≤ fuel) (hmore : item.weight ≤ more) :
    visitWithin visitor fuel context item = visitWithin visitor more context item := by
  induction fuel generalizing item context more with
  | zero => exact absurd hfuel (Nat.not_le.mpr (Nat.zero_lt_of_lt (Item.sum_weight_children item)))
  | succ fuel ih =>
    cases more with
    | zero => exact absurd hmore (Nat.not_le.mpr (Nat.zero_lt_of_lt (Item.sum_weight_children item)))
    | succ more =>
      rw [visitWithin_succ, visitWithin_succ]
      refine List.map_congr_left fun child hchild => ?_
      have hweight := weight_lt_of_mem_children hchild
      rw [ih (by omega) (by omega : child.weight ≤ more)]

/-- **A visit, level by level.** -/
theorem visit_eq (visitor : Visitor α γ) (context : γ) (item : Item) :
    visitor.visit context item = item.children.map fun child =>
      .mk ((visitor child context).map (·.1)) (visitor.visit (visitor.passed context child) child) := by
  obtain ⟨fuel, hfuel⟩ := Nat.exists_eq_add_one_of_ne_zero
    (Nat.ne_of_gt (Nat.zero_lt_of_lt (Item.sum_weight_children item)))
  rw [visit, hfuel, visitWithin_succ]
  refine List.map_congr_left fun child hchild => ?_
  have hweight := weight_lt_of_mem_children hchild
  rw [visit, visitWithin_eq (by omega) (Nat.le_refl child.weight)]

end Visitor

/-! ## The order of a visit -/

namespace Visited

mutual

/-- What was collected for an item and below it, the item first. -/
def flatten : Visited α → List α
  | .mk said below => said.toList ++ flattenAll below

/-- What was collected, in order. -/
def flattenAll : List (Visited α) → List α
  | [] => []
  | visited :: rest => flatten visited ++ flattenAll rest

end

theorem flattenAll_eq_flatMap (visited : List (Visited α)) : flattenAll visited = visited.flatMap flatten := by
  induction visited with
  | nil => rw [flattenAll, List.flatMap_nil]
  | cons first rest ih => rw [flattenAll, ih, List.flatMap_cons]

end Visited

namespace Visitor

/-- The visitor collects the items themselves. -/
def CollectsItems (visitor : Visitor Item γ) : Prop :=
  ∀ item context, (visitor item context).map (·.1) = some item

variable {visitor : Visitor Item γ}

/-- **Run of a walk.** With a step for every part on the stack, each item of the stack is followed by what a
visitor collects below it, whatever the context. -/
theorem walkWithin_eq_flatMap (hcollects : visitor.CollectsItems) {fuel : Nat} {stack : List Item}
    (hfuel : (stack.map Item.weight).sum ≤ fuel) (context : γ) :
    Item.walkWithin fuel stack =
      stack.flatMap fun item => item :: Visited.flattenAll (visitor.visit context item) := by
  induction fuel generalizing stack context with
  | zero =>
    cases stack with
    | nil => rw [Item.walkWithin, List.flatMap_nil]
    | cons item rest =>
      have hweight := Item.sum_weight_children item
      rw [List.map_cons, List.sum_cons] at hfuel
      omega
  | succ fuel ih =>
    cases stack with
    | nil => rw [Item.walkWithin, List.flatMap_nil]
    | cons item rest =>
      -- the children take the place of the item and weigh less
      have hweight := Item.sum_weight_children item
      have hnext : ((item.children ++ rest).map Item.weight).sum ≤ fuel := by
        rw [List.map_cons, List.sum_cons] at hfuel
        rw [List.map_append, List.sum_append]
        omega
      have hbelow : Visited.flattenAll (visitor.visit context item) =
          item.children.flatMap fun child => child :: Visited.flattenAll (visitor.visit context child) := by
        rw [visit_eq, Visited.flattenAll_eq_flatMap, List.flatMap_map]
        refine List.flatMap_congr fun child hchild => ?_
        have hchild : ([child].map Item.weight).sum ≤ fuel := by
          have hlight := weight_lt_of_mem_children hchild
          rw [List.map_cons, List.sum_cons] at hfuel
          rw [List.map_cons, List.map_nil, List.sum_cons, List.sum_nil]
          omega
        have hsame := (ih hchild (visitor.passed context child)).symm.trans (ih hchild context)
        rw [List.flatMap_singleton, List.flatMap_singleton] at hsame
        rw [Visited.flatten, hcollects, Option.toList_some, List.singleton_append, hsame]
      rw [Item.walkWithin, ih hnext context, List.flatMap_append, List.flatMap_cons, hbelow, List.cons_append]

/-- **A visitor that collects the items meets them in the order of a walk.** -/
theorem flattenAll_visit (hcollects : visitor.CollectsItems) (context : γ) (root : Item) :
    root.walk = root :: Visited.flattenAll (visitor.visit context root) := by
  rw [Item.walk, walkWithin_eq_flatMap hcollects (Item.sum_weight_singleton root) context,
    List.flatMap_singleton]

end Visitor

/-! ## Places below an item -/

/-- The item at a place below an item, given by the numbers of the children on the way to it, and the items that
are passed on the way. -/
def Item.below? : Item → List Nat → Option (List Item × Item)
  | _, [] => none
  | item, [i] => item.children[i]?.map ([], ·)
  | item, i :: j :: place => item.children[i]?.bind fun child =>
      (child.below? (j :: place)).map fun (above, found) => (child :: above, found)

/-- What was collected at a place. -/
def Visited.at? : List (Visited α) → List Nat → Option (Visited α)
  | _, [] => none
  | visited, [i] => visited[i]?
  | visited, i :: j :: place => visited[i]?.bind fun (.mk _ below) => at? below (j :: place)

namespace Visitor

/-- The result holds what the visitor says of the item in the context that governs it. -/
def Answers (visitor : Visitor α γ) (initial : γ) (found : List Item × Item) (result : Visited α) : Prop :=
  ∃ context below, Governs visitor initial found.1 context ∧
    result = .mk ((visitor found.2 context).map (·.1)) below

/-- Along a place, contexts are passed on from item to item. Induction on the place. -/
theorem rel_foldl_at?_visit (visitor : Visitor α γ) (context : γ) (item : Item) (place : List Nat) :
    Option.Rel (fun found result => ∃ below,
        result = .mk ((visitor found.2 (found.1.foldl visitor.passed context)).map (·.1)) below)
      (item.below? place) (Visited.at? (visitor.visit context item) place) := by
  induction place generalizing item context with
  | nil => exact .none
  | cons i place ih =>
    cases place with
    | nil =>
      rw [Item.below?, Visited.at?, visit_eq, List.getElem?_map]
      cases item.children[i]? with
      | none => exact .none
      | some child => exact .some ⟨_, rfl⟩
    | cons j place =>
      rw [Item.below?, Visited.at?, visit_eq, List.getElem?_map]
      cases item.children[i]? with
      | none => exact .none
      | some child =>
        have hchild := ih (visitor.passed context child) child
        simp only [Option.bind_some, Option.map_some]
        generalize child.below? (j :: place) = found at hchild ⊢
        generalize Visited.at? (visitor.visit (visitor.passed context child) child) (j :: place) = result
          at hchild ⊢
        cases hchild with
        | none => exact .none
        | some h => exact .some h

/-- **What a visitor collects at each place**, and at no others. -/
theorem rel_at?_visit (visitor : Visitor α γ) (initial : γ) (root : Item) (place : List Nat) :
    Option.Rel (visitor.Answers initial) (root.below? place)
      (Visited.at? (visitor.visit initial root) place) := by
  have hrel := visitor.rel_foldl_at?_visit initial root place
  generalize root.below? place = found at hrel ⊢
  generalize Visited.at? (visitor.visit initial root) place = result at hrel ⊢
  cases hrel with
  | none => exact .none
  | some h =>
    obtain ⟨below, hresult⟩ := h
    exact .some ⟨_, below, governs_iff.mpr rfl, hresult⟩

end Visitor

/-- **The two traversals agree.** For every tree, what is collected by callbacks that give each item back is, in
order, the walk over the tree without its root. For all callbacks, the results are nested like the items of the
tree: there is one at each place below the root, and at no other. It holds what the callback for the item there
says in the context that was set by the nearest item above it whose callback set one, or in the initial one. -/
theorem traversals_agree {γ : Type} (root : Item) (initial : γ) :
    (∀ callbacks : Callbacks Item γ, callbacks.visitor.CollectsItems →
      root.walk = root :: Visited.flattenAll (callbacks.visitor.visit initial root)) ∧
    ∀ {α : Type} (callbacks : Callbacks α γ) (place : List Nat),
      Option.Rel (callbacks.visitor.Answers initial) (root.below? place)
        (Visited.at? (callbacks.visitor.visit initial root) place) :=
  ⟨fun _ hcollects => Visitor.flattenAll_visit hcollects initial root,
    fun callbacks place => callbacks.visitor.rel_at?_visit initial root place⟩

/-- A loop in a loop. -/
def nestedLoops : Item :=
  let loop (name : String) (body : Body) : Node :=
    .loop ⟨"for", name, none⟩ { itemName := name, name, collection := .value (.str name) } body none
  .document [loop "x" [loop "y" [.text "."]]]

/-- Collects something for every item; below a loop the context holds its variable in front. -/
def loopVariables (said : Item → List String → α) : Callbacks α (List String) :=
  let callbacks : Callbacks α (List String) := { ofOthers := some fun item names => some (said item names, none) }
  callbacks.add ["For"] fun item names => some (said item names, match item with
    | .tag (.loop _ header _ _) => some (header.itemName :: names)
    | _ => none)

theorem loopVariables_visitor (said : Item → List String → α) (item : Item) (names : List String) :
    ((loopVariables said).visitor item names).map (·.1) = some (said item names) := by
  unfold Callbacks.visitor Callbacks.find?
  cases hfound : item.kinds.findSome? (loopVariables said).ofKinds.get? with
  | none => rfl
  | some callback =>
    obtain ⟨kind, -, hkind⟩ := List.exists_of_findSome?_eq_some hfound
    obtain ⟨entry, hentry, rfl⟩ := Option.map_eq_some_iff.mp hkind
    obtain rfl := List.mem_singleton.mp (List.mem_of_find?_eq_some hentry)
    rfl

/-- The whole tree in order, and the context of the text in the inner loop. -/
theorem traversals_agree_nestedLoops :
    (loopVariables fun item _ => item).visitor.CollectsItems ∧
      nestedLoops.walk = nestedLoops ::
        Visited.flattenAll ((loopVariables fun item _ => item).visitor.visit [] nestedLoops) ∧
      Option.Rel ((loopVariables fun _ names => names).visitor.Answers []) (nestedLoops.below? [0, 0, 0, 0, 0])
        (Visited.at? ((loopVariables fun _ names => names).visitor.visit [] nestedLoops) [0, 0, 0, 0, 0]) := by
  have hcollects := loopVariables_visitor fun item _ => item
  exact ⟨hcollects, (traversals_agree nestedLoops []).1 _ hcollects, (traversals_agree nestedLoops []).2 _ _⟩

example : Visited.at? ((loopVariables fun _ names => names).visitor.visit [] nestedLoops) [0, 0, 0, 0, 0] =
    some (.mk (some ["y", "x"]) []) := by rfl

end Stencil
