/-!
Finite sets and tables that remember the order in which their members arrived. Membership decides
what a set contains; the order only shows where members are listed. A table leads from keys to lists
of values; a key may hold an empty list, which is not the same as having no entry.
-/

namespace Recognizer

@[specialize] def isDistinct {Item : Type} [DecidableEq Item] : List Item → Bool
  | [] => true
  | first :: rest => !rest.elem first && isDistinct rest

theorem isDistinct_iff {Item : Type} [DecidableEq Item] {items : List Item} :
    isDistinct items = true ↔ items.Nodup := by
  induction items with
  | nil => simp [isDistinct]
  | cons first rest ih => simp [isDistinct, ih]

structure OrderedSet (Item : Type) where
  items : List Item
  distinct : items.Nodup

namespace OrderedSet

variable {Item : Type}

theorem eq_of_items {left right : OrderedSet Item} (same : left.items = right.items) :
    left = right := by
  cases left
  cases right
  cases same
  rfl

def empty : OrderedSet Item := ⟨[], List.nodup_nil⟩

instance : Membership Item (OrderedSet Item) := ⟨fun set item => item ∈ set.items⟩

instance [DecidableEq Item] : DecidableEq (OrderedSet Item) := fun left right =>
  if same : left.items = right.items then
    isTrue (eq_of_items same)
  else
    isFalse fun equal => same (congrArg items equal)

theorem mem_items {set : OrderedSet Item} {item : Item} : item ∈ set.items ↔ item ∈ set :=
  Iff.rfl

@[simp] theorem not_mem_empty {item : Item} : item ∉ (empty : OrderedSet Item) :=
  List.not_mem_nil

variable [DecidableEq Item]

instance (item : Item) (set : OrderedSet Item) : Decidable (item ∈ set) :=
  inferInstanceAs (Decidable (item ∈ set.items))

/-- A member that is already present keeps its place. -/
def insert (set : OrderedSet Item) (item : Item) : OrderedSet Item :=
  if fresh : item ∈ set.items then set else
    { items := set.items ++ [item]
      distinct := by
        rw [List.nodup_append]
        refine ⟨set.distinct, by simp, ?_⟩
        intro known member added single equal
        rw [List.mem_singleton] at single
        exact fresh (single ▸ equal ▸ member) }

/-- The members of a list, in the order of their first occurrences. -/
@[specialize] def ofList (items : List Item) : OrderedSet Item :=
  if distinct : isDistinct items = true then ⟨items, isDistinct_iff.mp distinct⟩
  else items.foldl insert empty

def append (left right : OrderedSet Item) : OrderedSet Item := right.items.foldl insert left

def sameMembers (left right : OrderedSet Item) : Bool :=
  left.items.all (· ∈ right.items) && right.items.all (· ∈ left.items)

theorem items_insert (set : OrderedSet Item) (item : Item) :
    (set.insert item).items = if item ∈ set.items then set.items else set.items ++ [item] := by
  unfold insert
  split <;> rfl

@[simp] theorem mem_insert {set : OrderedSet Item} {item other : Item} :
    other ∈ set.insert item ↔ other ∈ set ∨ other = item := by
  rw [← mem_items, items_insert, ← mem_items]
  split
  · constructor
    · exact Or.inl
    · rintro (known | rfl) <;> assumption
  · simp

theorem mem_foldl_insert (items : List Item) (set : OrderedSet Item) (item : Item) :
    item ∈ items.foldl insert set ↔ item ∈ set ∨ item ∈ items := by
  induction items generalizing set with
  | nil => simp
  | cons first rest ih => simp [ih, or_assoc]

@[simp] theorem mem_ofList {items : List Item} {item : Item} :
    item ∈ ofList items ↔ item ∈ items := by
  unfold ofList
  split
  · exact Iff.rfl
  · simp [mem_foldl_insert]

theorem items_ofList {items : List Item} (distinct : items.Nodup) :
    (ofList items).items = items := by
  simp [ofList, isDistinct_iff.mpr distinct]

@[simp] theorem mem_append {left right : OrderedSet Item} {item : Item} :
    item ∈ left.append right ↔ item ∈ left ∨ item ∈ right :=
  mem_foldl_insert right.items left item

theorem sameMembers_iff {left right : OrderedSet Item} :
    left.sameMembers right = true ↔ ∀ item, item ∈ left ↔ item ∈ right := by
  simp only [sameMembers, Bool.and_eq_true, List.all_eq_true, decide_eq_true_eq, mem_items]
  exact ⟨fun both item => ⟨both.1 item, both.2 item⟩,
    fun same => ⟨fun item => (same item).1, fun item => (same item).2⟩⟩

end OrderedSet

structure OrderedTable (Key Value : Type) where
  entries : List (Key × List Value)
  distinct : (entries.map Prod.fst).Nodup

namespace OrderedTable

variable {Key Value : Type}

theorem eq_of_entries {left right : OrderedTable Key Value}
    (same : left.entries = right.entries) : left = right := by
  cases left
  cases right
  cases same
  rfl

def empty : OrderedTable Key Value := ⟨[], List.nodup_nil⟩

def keys (table : OrderedTable Key Value) : List Key := table.entries.map Prod.fst

instance [DecidableEq Key] [DecidableEq Value] : DecidableEq (OrderedTable Key Value) :=
  fun left right =>
    if same : left.entries = right.entries then
      isTrue (eq_of_entries same)
    else
      isFalse fun equal => same (congrArg entries equal)

variable [DecidableEq Key]

def find? (table : OrderedTable Key Value) (key : Key) : Option (List Value) :=
  table.entries.lookup key

def valuesAt (table : OrderedTable Key Value) (key : Key) : List Value :=
  (table.find? key).getD []

/-- Values join the end of their key's list, and a new key joins the end of the table. -/
def extendEntries (key : Key) (added : List Value) :
    List (Key × List Value) → List (Key × List Value)
  | [] => [(key, added)]
  | (first, values) :: rest =>
    if first = key then (first, values ++ added) :: rest
    else (first, values) :: extendEntries key added rest

/-- A known key keeps its place and takes the new item. -/
def putEntry {Item : Type} (key : Key) (item : Item) : List (Key × Item) → List (Key × Item)
  | [] => [(key, item)]
  | entry :: rest =>
    if entry.1 = key then (key, item) :: rest else entry :: putEntry key item rest

theorem extendEntries_append {key : Key} {front : List (Key × List Value)}
    (fresh : key ∉ front.map Prod.fst) (added : List Value) (back : List (Key × List Value)) :
    extendEntries key added (front ++ back) = front ++ extendEntries key added back := by
  induction front with
  | nil => rfl
  | cons entry rest ih =>
    rw [List.map_cons, List.mem_cons, not_or] at fresh
    rw [List.cons_append, extendEntries, if_neg (Ne.symm fresh.1), ih fresh.2, List.cons_append]

theorem keys_extendEntries (key : Key) (added : List Value) (entries : List (Key × List Value)) :
    (extendEntries key added entries).map Prod.fst =
      if key ∈ entries.map Prod.fst then entries.map Prod.fst
      else entries.map Prod.fst ++ [key] := by
  induction entries with
  | nil => simp [extendEntries]
  | cons entry rest ih =>
    obtain ⟨first, values⟩ := entry
    unfold extendEntries
    by_cases same : first = key
    · simp [same]
    · have other : key ≠ first := Ne.symm same
      simp only [same, if_false, List.map_cons, ih, List.mem_cons, other, false_or]
      split <;> simp

def extend (table : OrderedTable Key Value) (key : Key) (added : List Value) :
    OrderedTable Key Value where
  entries := extendEntries key added table.entries
  distinct := by
    rw [keys_extendEntries]
    split
    · exact table.distinct
    · next fresh =>
      rw [List.nodup_append]
      refine ⟨table.distinct, by simp, ?_⟩
      intro known member new single equal
      rw [List.mem_singleton] at single
      exact fresh (single ▸ equal ▸ member)

def push (table : OrderedTable Key Value) (key : Key) (value : Value) : OrderedTable Key Value :=
  table.extend key [value]

/-- The table of a list of entries, where the lists of a repeated key follow one another. -/
@[specialize] def ofEntries (entries : List (Key × List Value)) : OrderedTable Key Value :=
  if distinct : isDistinct (entries.map Prod.fst) = true then
    ⟨entries, isDistinct_iff.mp distinct⟩
  else entries.foldl (fun table entry => table.extend entry.1 entry.2) empty

def sameEntries [DecidableEq Value] (left right : OrderedTable Key Value) : Bool :=
  left.entries.all (fun entry => right.find? entry.1 = some entry.2) &&
    right.entries.all (fun entry => left.find? entry.1 = some entry.2)

theorem lookup_extendEntries (key other : Key) (added : List Value)
    (entries : List (Key × List Value)) :
    (extendEntries key added entries).lookup other =
      if other = key then some ((entries.lookup key).getD [] ++ added)
      else entries.lookup other := by
  induction entries with
  | nil =>
    by_cases hit : other = key
    · simp [extendEntries, hit]
    · simp [extendEntries, List.lookup_cons, beq_false_of_ne hit, hit]
  | cons entry rest ih =>
    obtain ⟨first, values⟩ := entry
    unfold extendEntries
    by_cases same : first = key
    · subst same
      by_cases hit : other = first
      · simp [hit]
      · simp [hit, List.lookup_cons, beq_false_of_ne hit]
    · by_cases hit : other = first
      · subst hit
        simp [same]
      · have below : (key == first) = false := beq_false_of_ne (Ne.symm same)
        simp [same, List.lookup_cons, beq_false_of_ne hit, below, ih]

theorem entries_ofEntries {entries : List (Key × List Value)}
    (distinct : (entries.map Prod.fst).Nodup) : (ofEntries entries).entries = entries := by
  simp [ofEntries, isDistinct_iff.mpr distinct]

theorem find?_extend (table : OrderedTable Key Value) (key other : Key) (added : List Value) :
    (table.extend key added).find? other =
      if other = key then some (table.valuesAt key ++ added) else table.find? other :=
  lookup_extendEntries key other added table.entries

theorem lookup_of_mem {Item : Type} {entries : List (Key × Item)}
    (distinct : (entries.map Prod.fst).Nodup) {key : Key} {item : Item}
    (member : (key, item) ∈ entries) : entries.lookup key = some item := by
  induction entries with
  | nil => cases member
  | cons entry rest ih =>
    rw [List.map_cons, List.nodup_cons] at distinct
    rcases List.mem_cons.mp member with same | later
    · simp [← same]
    · have other : key ≠ entry.1 := by
        intro same
        exact distinct.1 (same ▸ List.mem_map_of_mem later)
      rw [List.lookup_cons, beq_false_of_ne other]
      exact ih distinct.2 later

theorem lookup_eq_some_iff {Item : Type} {entries : List (Key × Item)}
    (distinct : (entries.map Prod.fst).Nodup) {key : Key} {item : Item} :
    entries.lookup key = some item ↔ (key, item) ∈ entries := by
  constructor
  · intro found
    obtain ⟨front, back, split, _⟩ := List.lookup_eq_some_iff.mp found
    rw [split]
    exact List.mem_append_right front List.mem_cons_self
  · exact lookup_of_mem distinct

theorem find?_eq_some_iff {table : OrderedTable Key Value} {key : Key} {values : List Value} :
    table.find? key = some values ↔ (key, values) ∈ table.entries :=
  lookup_eq_some_iff table.distinct

theorem mem_valuesAt {table : OrderedTable Key Value} {key : Key} {value : Value} :
    value ∈ table.valuesAt key ↔ ∃ values, (key, values) ∈ table.entries ∧ value ∈ values := by
  unfold valuesAt
  constructor
  · intro member
    cases found : table.find? key with
    | none => simp [found] at member
    | some values =>
      rw [found] at member
      exact ⟨values, find?_eq_some_iff.mp found, member⟩
  · rintro ⟨values, entry, member⟩
    rw [find?_eq_some_iff.mpr entry]
    exact member

/-- What holds of every list that has an entry, and of the empty list, holds of every key's list. -/
theorem forall_valuesAt_iff {table : OrderedTable Key Value} {holds : List Value → Prop}
    (bare : holds []) :
    (∀ key, holds (table.valuesAt key)) ↔ ∀ entry ∈ table.entries, holds entry.2 := by
  unfold valuesAt
  constructor
  · intro all entry member
    have here := all entry.1
    rwa [find?_eq_some_iff.mpr member] at here
  · intro listed key
    cases found : table.find? key with
    | none => exact bare
    | some values => exact listed _ (find?_eq_some_iff.mp found)

theorem valuesAt_extend (table : OrderedTable Key Value) (key other : Key) (added : List Value) :
    (table.extend key added).valuesAt other =
      if other = key then table.valuesAt key ++ added else table.valuesAt other := by
  unfold valuesAt
  rw [find?_extend]
  by_cases same : other = key <;> simp [same, valuesAt]

end OrderedTable

end Recognizer
