import Mathlib.Data.List.Lex
import Recognizer.Proofs.Automaton.Validity

/-!
What the examination of an automaton reports. Every condition has a place, and the places are
numbered like the sections of a text: the start state, then the final states, then the sources with
their edges, the target of an edge before its symbol. The examination names a condition that fails,
and none fails at a place before it.
-/

namespace Recognizer.Automaton

/-- Where a condition stands: the numbers count final states, entries and the edges of an entry. -/
inductive Place where
  | start
  | final (number : Nat)
  | source (entry : Nat)
  | target (entry edge : Nat)
  | symbol (entry edge : Nat)

/-- Ranks are compared number by number, and a whole comes before its parts. -/
def Place.rank : Place → List Nat
  | start => [0]
  | final number => [1, number]
  | source entry => [2, entry]
  | target entry edge => [2, entry, edge, 0]
  | symbol entry edge => [2, entry, edge, 1]

inductive Fails (automaton : Automaton) : Place → Violation → Prop
  | start :
      automaton.start ∉ automaton.states →
        Fails automaton .start (.startStateMissing automaton.start)
  | final {number final : Nat} :
      automaton.finals.items[number]? = some final → final ∉ automaton.states →
        Fails automaton (.final number) (.finalStateMissing final)
  | source {entry source : Nat} {edges : List Transition} :
      automaton.transitions.entries[entry]? = some (source, edges) → source ∉ automaton.states →
        Fails automaton (.source entry) (.sourceMissing source)
  | target {entry edge source : Nat} {edges : List Transition} {transition : Transition} :
      automaton.transitions.entries[entry]? = some (source, edges) →
        edges[edge]? = some transition → transition.target ∉ automaton.states →
          Fails automaton (.target entry edge) (.targetMissing source transition.target)
  | symbol {entry edge source : Nat} {edges : List Transition} {transition : Transition}
      {symbol : Char} :
      automaton.transitions.entries[entry]? = some (source, edges) →
        edges[edge]? = some transition → transition.symbol = some symbol →
          symbol ∉ automaton.alphabet →
            Fails automaton (.symbol entry edge) (.symbolMissing source symbol)

abbrev Clause := Place × Condition

def edgeClauses (automaton : Automaton) (source entry : Nat) (edge : Transition × Nat) :
    List Clause :=
  [Place.target entry edge.2, Place.symbol entry edge.2].zip
    (automaton.transitionConditions source edge.1)

def entryClauses (automaton : Automaton) (entry : (Nat × List Transition) × Nat) : List Clause :=
  (.source entry.2, ⟨entry.1.1 ∈ automaton.states, .sourceMissing entry.1.1⟩) ::
    entry.1.2.zipIdx.flatMap (automaton.edgeClauses entry.1.1 entry.2)

def finalClauses (automaton : Automaton) (final : Nat × Nat) : List Clause :=
  [(.final final.2, ⟨final.1 ∈ automaton.states, .finalStateMissing final.1⟩)]

def startClauses (automaton : Automaton) : List Clause :=
  [(.start, ⟨automaton.start ∈ automaton.states, .startStateMissing automaton.start⟩)]

def clauses (automaton : Automaton) : List Clause :=
  [automaton.startClauses, automaton.finals.items.zipIdx.flatMap automaton.finalClauses,
    automaton.transitions.entries.zipIdx.flatMap automaton.entryClauses].flatten

variable {automaton : Automaton}

section Members

variable {clause : Clause}

theorem mem_edgeClauses {source entry : Nat} {edge : Transition × Nat} :
    clause ∈ automaton.edgeClauses source entry edge ↔
      clause = (.target entry edge.2,
        ⟨edge.1.target ∈ automaton.states, .targetMissing source edge.1.target⟩) ∨
      ∃ symbol, edge.1.symbol = some symbol ∧ clause = (.symbol entry edge.2,
        ⟨symbol ∈ automaton.alphabet, .symbolMissing source symbol⟩) := by
  unfold edgeClauses transitionConditions
  cases edge.1.symbol <;> simp

theorem mem_entryClauses {entry : (Nat × List Transition) × Nat} :
    clause ∈ automaton.entryClauses entry ↔
      clause = (.source entry.2, ⟨entry.1.1 ∈ automaton.states, .sourceMissing entry.1.1⟩) ∨
      ∃ edge ∈ entry.1.2.zipIdx, clause ∈ automaton.edgeClauses entry.1.1 entry.2 edge := by
  rw [entryClauses, List.mem_cons, List.mem_flatMap]

theorem mem_clauses :
    clause ∈ automaton.clauses ↔
      clause = (.start,
        ⟨automaton.start ∈ automaton.states, .startStateMissing automaton.start⟩) ∨
      (∃ final ∈ automaton.finals.items.zipIdx, clause = (.final final.2,
        ⟨final.1 ∈ automaton.states, .finalStateMissing final.1⟩)) ∨
      ∃ entry ∈ automaton.transitions.entries.zipIdx, clause ∈ automaton.entryClauses entry := by
  simp only [clauses, startClauses, finalClauses, List.flatten_cons, List.flatten_nil,
    List.append_nil, List.mem_append, List.mem_flatMap, List.mem_singleton]

theorem mem_clauses_of_entry {number : Nat} {entry : Nat × List Transition}
    (listed : automaton.transitions.entries[number]? = some entry)
    (inside : clause ∈ automaton.entryClauses (entry, number)) : clause ∈ automaton.clauses := by
  have stands := List.mk_mem_zipIdx_iff_getElem?.mpr listed
  exact mem_clauses.mpr (Or.inr (Or.inr ⟨_, stands, inside⟩))

theorem mem_clauses_of_edge {entry edge source : Nat} {edges : List Transition}
    {transition : Transition}
    (listed : automaton.transitions.entries[entry]? = some (source, edges))
    (among : edges[edge]? = some transition)
    (inside : clause ∈ automaton.edgeClauses source entry (transition, edge)) :
    clause ∈ automaton.clauses := by
  have follows := List.mk_mem_zipIdx_iff_getElem?.mpr among
  exact mem_clauses_of_entry listed (mem_entryClauses.mpr (Or.inr ⟨_, follows, inside⟩))

/-- A condition fails where a clause with its place does not hold. -/
theorem fails_iff {place : Place} {violation : Violation} :
    automaton.Fails place violation ↔
      ∃ condition, (place, condition) ∈ automaton.clauses ∧ condition.holds = false ∧
        condition.otherwise = violation := by
  constructor
  · intro fails
    cases fails with
    | start missing =>
      exact ⟨_, mem_clauses.mpr (Or.inl rfl), decide_eq_false missing, rfl⟩
    | final listed missing =>
      have stands := List.mk_mem_zipIdx_iff_getElem?.mpr listed
      exact ⟨_, mem_clauses.mpr (Or.inr (Or.inl ⟨_, stands, rfl⟩)), decide_eq_false missing, rfl⟩
    | source listed missing =>
      exact ⟨_, mem_clauses_of_entry listed List.mem_cons_self, decide_eq_false missing, rfl⟩
    | target listed among missing =>
      have member := mem_clauses_of_edge listed among (mem_edgeClauses.mpr (Or.inl rfl))
      exact ⟨_, member, decide_eq_false missing, rfl⟩
    | symbol listed among reads missing =>
      have member := mem_clauses_of_edge listed among (mem_edgeClauses.mpr (Or.inr ⟨_, reads, rfl⟩))
      exact ⟨_, member, decide_eq_false missing, rfl⟩
  · rintro ⟨condition, member, broken, rfl⟩
    rcases mem_clauses.mp member with same | ⟨final, stands, same⟩ | ⟨entry, stands, inside⟩
    · cases same
      exact Fails.start (of_decide_eq_false broken)
    · cases same
      exact Fails.final (List.mk_mem_zipIdx_iff_getElem?.mp stands) (of_decide_eq_false broken)
    · have listed := List.mk_mem_zipIdx_iff_getElem?.mp stands
      rcases mem_entryClauses.mp inside with same | ⟨edge, follows, below⟩
      · cases same
        exact Fails.source listed (of_decide_eq_false broken)
      · have among := List.mk_mem_zipIdx_iff_getElem?.mp follows
        rcases mem_edgeClauses.mp below with same | ⟨symbol, reads, same⟩
        · cases same
          exact Fails.target listed among (of_decide_eq_false broken)
        · cases same
          exact Fails.symbol listed among reads (of_decide_eq_false broken)

end Members

section Conditions

theorem flatMap_zipIdx {Part Whole : Type} {wholes : List Whole} {parts : Whole × Nat → List Part}
    {plain : Whole → List Part} (same : ∀ whole, parts whole = plain whole.1) :
    wholes.zipIdx.flatMap parts = wholes.flatMap plain := by
  have listed : wholes.flatMap plain = (wholes.zipIdx.map Prod.fst).flatMap plain := by
    rw [List.zipIdx_map_fst]
  rw [listed, List.flatMap_map]
  exact congrArg (List.flatMap · wholes.zipIdx) (funext same)

theorem map_snd_edgeClauses (source entry : Nat) (edge : Transition × Nat) :
    (automaton.edgeClauses source entry edge).map Prod.snd =
      automaton.transitionConditions source edge.1 := by
  unfold edgeClauses transitionConditions
  cases edge.1.symbol <;> rfl

theorem map_snd_entryClauses (entry : (Nat × List Transition) × Nat) :
    (automaton.entryClauses entry).map Prod.snd = automaton.entryConditions entry.1 := by
  rw [entryClauses, List.map_cons, List.map_flatMap, entryConditions,
    flatMap_zipIdx (map_snd_edgeClauses entry.1.1 entry.2)]

theorem map_snd_clauses (automaton : Automaton) :
    automaton.clauses.map Prod.snd = automaton.conditions := by
  have finals : (automaton.finals.items.zipIdx.flatMap automaton.finalClauses).map Prod.snd =
      automaton.finals.items.map fun final =>
        ⟨final ∈ automaton.states, .finalStateMissing final⟩ := by
    rw [List.map_flatMap, List.map_eq_flatMap]
    exact flatMap_zipIdx fun _ => rfl
  have entries : (automaton.transitions.entries.zipIdx.flatMap automaton.entryClauses).map
      Prod.snd = automaton.transitions.entries.flatMap automaton.entryConditions := by
    rw [List.map_flatMap, flatMap_zipIdx map_snd_entryClauses]
  simp only [clauses, List.flatten_cons, List.flatten_nil, List.append_nil, List.map_append,
    finals, entries]
  rfl

end Conditions

section Order

structure Numbered (front : List Nat) (clauses : List Clause) : Prop where
  within : ∀ clause ∈ clauses, ∃ rest, clause.1.rank = front ++ rest
  ascends : clauses.Pairwise fun first second => first.1.rank < second.1.rank

variable {Part : Type} {parts : List Part} {inside : Part × Nat → List Clause} {front : List Nat}

theorem numbered_singleton (clause : Clause) : Numbered clause.1.rank [clause] where
  within := by
    intro other member
    rw [List.mem_singleton.mp member]
    exact ⟨[], (List.append_nil _).symm⟩
  ascends := List.pairwise_singleton _ _

theorem pairwise_zipIdx (parts : List Part) :
    parts.zipIdx.Pairwise fun first second => first.2 < second.2 := by
  have numbers : (parts.zipIdx.map Prod.snd).Pairwise (· < ·) := by
    rw [List.zipIdx_map_snd]
    exact List.pairwise_lt_range'
  exact List.pairwise_map.mp numbers

/-- A clause of a part stands below the whole. -/
theorem rank_of_part {clause : Clause}
    (numbered : ∀ part ∈ parts.zipIdx, Numbered (front ++ [part.2]) (inside part))
    (member : clause ∈ parts.zipIdx.flatMap inside) :
    ∃ number rest, clause.1.rank = front ++ number :: rest := by
  obtain ⟨part, among, listed⟩ := List.mem_flatMap.mp member
  obtain ⟨rest, rank⟩ := (numbered part among).within clause listed
  exact ⟨part.2, rest, by rw [rank, List.append_assoc, List.singleton_append]⟩

/-- Sections that are numbered one after another make a section. -/
theorem numbered_parts
    (numbered : ∀ part ∈ parts.zipIdx, Numbered (front ++ [part.2]) (inside part)) :
    Numbered front (parts.zipIdx.flatMap inside) where
  within := by
    intro clause member
    obtain ⟨number, rest, rank⟩ := rank_of_part numbered member
    exact ⟨number :: rest, rank⟩
  ascends := by
    refine List.pairwise_flatMap.mpr ⟨fun part among => (numbered part among).ascends, ?_⟩
    apply (pairwise_zipIdx parts).imp_of_mem
    intro first second among follows before one inFirst two inSecond
    -- the numbers of the parts decide, whatever follows them
    obtain ⟨left, oneRank⟩ := (numbered first among).within one inFirst
    obtain ⟨right, twoRank⟩ := (numbered second follows).within two inSecond
    rw [oneRank, twoRank, List.append_assoc, List.append_assoc]
    exact List.append_left_lt (List.cons_lt_cons_iff.mpr (Or.inl before))

/-- A heading comes before the sections below it. -/
theorem numbered_headed {heading : Clause} (heads : heading.1.rank = front)
    (numbered : ∀ part ∈ parts.zipIdx, Numbered (front ++ [part.2]) (inside part)) :
    Numbered front (heading :: parts.zipIdx.flatMap inside) where
  within := by
    intro clause member
    rcases List.mem_cons.mp member with same | below
    · exact ⟨[], by rw [same, heads, List.append_nil]⟩
    · exact (numbered_parts numbered).within clause below
  ascends := by
    refine List.pairwise_cons.mpr ⟨?_, (numbered_parts numbered).ascends⟩
    intro clause member
    obtain ⟨number, rest, rank⟩ := rank_of_part numbered member
    have below : front ++ [] < front ++ number :: rest :=
      List.append_left_lt (List.nil_lt_cons number rest)
    rw [List.append_nil] at below
    rw [heads, rank]
    exact below

theorem numbered_edgeClauses (source entry : Nat) (edge : Transition × Nat) :
    Numbered [2, entry, edge.2] (automaton.edgeClauses source entry edge) where
  within := by
    intro clause member
    rcases mem_edgeClauses.mp member with same | ⟨symbol, _, same⟩
    · exact ⟨[0], same ▸ rfl⟩
    · exact ⟨[1], same ▸ rfl⟩
  ascends := by
    obtain ⟨⟨symbol, target⟩, number⟩ := edge
    cases symbol with
    | none => exact List.pairwise_singleton _ _
    | some symbol =>
      have before : [2, entry, number] ++ [0] < [2, entry, number] ++ [1] :=
        List.append_left_lt (List.cons_lt_cons_iff.mpr (Or.inl Nat.zero_lt_one))
      exact List.pairwise_pair.mpr before

theorem numbered_entryClauses (entry : (Nat × List Transition) × Nat) :
    Numbered [2, entry.2] (automaton.entryClauses entry) :=
  numbered_headed rfl fun edge _ => numbered_edgeClauses entry.1.1 entry.2 edge

theorem numbered_clauses (automaton : Automaton) : Numbered [] automaton.clauses := by
  have finals : Numbered [1] (automaton.finals.items.zipIdx.flatMap automaton.finalClauses) :=
    numbered_parts fun final _ => numbered_singleton (.final final.2, _)
  have entries : Numbered [2]
      (automaton.transitions.entries.zipIdx.flatMap automaton.entryClauses) :=
    numbered_parts fun entry _ => numbered_entryClauses entry
  -- the whole is a section of three parts, numbered from 0
  change Numbered [] ([_, _, _].zipIdx.flatMap Prod.fst)
  apply numbered_parts
  intro part member
  simp only [List.zipIdx_cons, List.zipIdx_nil, List.mem_cons, List.not_mem_nil, or_false] at member
  rcases member with rfl | rfl | rfl
  · exact numbered_singleton (.start, _)
  · exact finals
  · exact entries

/-- In a list that ascends the first hit is the one of the least rank. -/
theorem find?_eq_some_iff_least {clauses : List Clause} (numbered : Numbered front clauses)
    {fails : Clause → Bool} {clause : Clause} :
    clauses.find? fails = some clause ↔
      clause ∈ clauses ∧ fails clause = true ∧
        ∀ other ∈ clauses, fails other = true → clause.1.rank ≤ other.1.rank := by
  have ascends := numbered.ascends
  constructor
  · intro found
    obtain ⟨hit, ahead, back, split, missed⟩ := List.find?_eq_some_iff_append.mp found
    subst split
    refine ⟨List.mem_append_right ahead List.mem_cons_self, hit, ?_⟩
    intro other member again
    have behind := (List.pairwise_append.mp ascends).2.1
    -- none of the clauses ahead was hit, and the rank only grows behind
    rcases List.mem_append.mp member with earlier | later
    · have passed := missed other earlier
      simp [again] at passed
    · rcases List.mem_cons.mp later with same | later
      · exact same ▸ le_rfl
      · exact ((List.pairwise_cons.mp behind).1 other later).le
  · rintro ⟨member, hit, least⟩
    obtain ⟨ahead, back, split⟩ := List.append_of_mem member
    subst split
    refine List.find?_eq_some_iff_append.mpr ⟨hit, ahead, back, rfl, ?_⟩
    intro other earlier
    -- a hit ahead would have a lesser rank than the least
    have before := (List.pairwise_append.mp ascends).2.2 other earlier clause List.mem_cons_self
    have stands := List.mem_append_left (clause :: back) earlier
    have passed : fails other ≠ true := fun again => (least other stands again).not_gt before
    simpa using passed

end Order

theorem violation?_eq_find? (automaton : Automaton) :
    automaton.violation? =
      (automaton.clauses.find? fun clause => !clause.2.holds).map fun clause =>
        clause.2.otherwise := by
  rw [violation?, ← map_snd_clauses, List.find?_map, Option.map_map]
  rfl

theorem validate_error_iff {violation : Violation} :
    automaton.validate = .error violation ↔ automaton.violation? = some violation := by
  unfold validate
  cases automaton.violation? <;> simp

/-- The examination finds nothing exactly when the parts fit together. It reports a violation
exactly when its condition fails and every condition that fails stands at no earlier place. -/
theorem validate_exact (automaton : Automaton) :
    (automaton.validate = .ok () ↔ automaton.Valid) ∧
      ∀ violation, automaton.validate = .error violation ↔
        ∃ place, automaton.Fails place violation ∧
          ∀ other hidden, automaton.Fails other hidden → place.rank ≤ other.rank := by
  refine ⟨validate_ok_iff, fun violation => ?_⟩
  rw [validate_error_iff, violation?_eq_find?, Option.map_eq_some_iff]
  simp only [find?_eq_some_iff_least (numbered_clauses automaton), Bool.not_eq_true', fails_iff]
  constructor
  · rintro ⟨⟨place, condition⟩, ⟨member, broken, least⟩, reports⟩
    refine ⟨place, ⟨condition, member, broken, reports⟩, ?_⟩
    rintro other hidden ⟨behind, among, again, _⟩
    exact least (other, behind) among again
  · rintro ⟨place, ⟨condition, member, broken, reports⟩, least⟩
    refine ⟨(place, condition), ⟨member, broken, ?_⟩, reports⟩
    rintro ⟨other, behind⟩ among again
    exact least other _ ⟨behind, among, again, rfl⟩

/-- Of a symbol, a source and a target that are missing at once, the target comes first. -/
example :
    let scattered : Automaton :=
      { states := OrderedSet.ofList [0, 1]
        alphabet := OrderedSet.ofList ['a']
        transitions := OrderedTable.ofEntries [(1, [.reading 'a' 0, .reading 'z' 5]), (9, [])]
        start := 0
        finals := OrderedSet.ofList [0, 1] }
    scattered.validate = .error (.targetMissing 1 5) := rfl

end Recognizer.Automaton
