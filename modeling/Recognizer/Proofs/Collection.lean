import Mathlib.Algebra.Group.Defs
import Recognizer.Collection

/-!
Ordered sets put behind one another. The members of a list in the order of their first occurrences
are those of its parts put together in turn, so it does not matter in which order the parts are
joined: ordered sets are a monoid, and collecting members takes lists to it.
-/

namespace Recognizer.OrderedSet

variable {Item : Type} [DecidableEq Item]

theorem insert_of_mem {set : OrderedSet Item} {item : Item} (member : item ∈ set) :
    set.insert item = set := by
  apply eq_of_items
  rw [items_insert, if_pos (mem_items.mpr member)]

theorem append_insert (left right : OrderedSet Item) (item : Item) :
    left.append (right.insert item) = (left.append right).insert item := by
  by_cases member : item ∈ right
  · have joined : item ∈ left.append right := mem_append.mpr (Or.inr member)
    rw [insert_of_mem member, insert_of_mem joined]
  · have fresh : (right.insert item).items = right.items ++ [item] := by
      rw [items_insert]
      exact if_neg member
    rw [append, fresh, List.foldl_append]
    rfl

theorem append_foldl_insert (left right : OrderedSet Item) (items : List Item) :
    left.append (items.foldl insert right) = items.foldl insert (left.append right) := by
  induction items generalizing right with
  | nil => rfl
  | cons item rest ih => rw [List.foldl_cons, List.foldl_cons, ih, append_insert]

theorem append_assoc (first second third : OrderedSet Item) :
    (first.append second).append third = first.append (second.append third) :=
  (append_foldl_insert first second third.items).symm

theorem eraseDups_of_nodup {items : List Item} (distinct : items.Nodup) :
    items.eraseDups = items := by
  induction items with
  | nil => rfl
  | cons first rest ih =>
    obtain ⟨fresh, others⟩ := List.nodup_cons.mp distinct
    have apart : rest.filter (fun item => !item == first) = rest := by
      apply List.filter_eq_self.mpr
      intro item member
      have differs : item ≠ first := fun same => fresh (same ▸ member)
      simp [differs]
    rw [List.eraseDups_cons, apart, ih others]

theorem items_foldl_insert (set : OrderedSet Item) (items : List Item) :
    (items.foldl insert set).items = (set.items ++ items).eraseDups := by
  induction items generalizing set with
  | nil => rw [List.foldl_nil, List.append_nil, eraseDups_of_nodup set.distinct]
  | cons item rest ih =>
    rw [List.foldl_cons, ih]
    by_cases member : item ∈ set
    · have known : item ∈ set.items := member
      rw [insert_of_mem member, List.eraseDups_append, List.eraseDups_append]
      simp [List.cons_removeAll, known]
    · have fresh : item ∉ set.items := member
      rw [items_insert, if_neg fresh, List.append_assoc, List.singleton_append]

theorem ofList_eq_foldl (items : List Item) : ofList items = items.foldl insert empty := by
  unfold ofList
  split
  · next distinct =>
    apply eq_of_items
    rw [items_foldl_insert]
    exact (eraseDups_of_nodup (isDistinct_iff.mp distinct)).symm
  · rfl

theorem items_ofList_eraseDups (items : List Item) : (ofList items).items = items.eraseDups := by
  rw [ofList_eq_foldl, items_foldl_insert]
  rfl

instance : Add (OrderedSet Item) := ⟨append⟩

instance : Zero (OrderedSet Item) := ⟨empty⟩

instance : AddMonoid (OrderedSet Item) where
  add_assoc := append_assoc
  zero_add set := by
    apply eq_of_items
    change (set.items.foldl insert empty).items = set.items
    rw [items_foldl_insert]
    exact eraseDups_of_nodup set.distinct
  add_zero _ := rfl
  nsmul := nsmulRec

theorem ofList_append (front back : List Item) :
    ofList (front ++ back) = ofList front + ofList back := by
  have joined := append_foldl_insert (ofList front) empty back
  rw [← ofList_eq_foldl] at joined
  rw [ofList_eq_foldl, List.foldl_append, ← ofList_eq_foldl]
  exact joined.symm

end Recognizer.OrderedSet
