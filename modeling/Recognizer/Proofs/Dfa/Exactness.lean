import Recognizer.Proofs.Automaton.Validity
import Recognizer.Proofs.Dfa.Provenance

/-!
The sets that states stand for, once exploration has ended. States and sets correspond one to one,
and the correspondence is all there is to know of an edge, a final state or a walk: each of them
says of the states what closing, moving and accepting say of the sets. Every state is entered by a
word; and where every state of the source leads to a final state, every state goes on to one too,
since it stands for a set with members. A walk then stops only at a word that no accepted word
begins with.
-/

namespace Recognizer.Dfa

variable {source : Automaton}

/-- States stand for sets of another automaton's states, and lose nothing of them. -/
structure Provenance (source : Automaton) (dfa : Dfa) : Prop where
  alphabet : dfa.automaton.alphabet = source.alphabet
  states : dfa.automaton.states.items = List.range dfa.subsets.length
  known : ∀ state, (∃ subset, dfa.subset? state = some subset) ↔ state ∈ dfa.automaton.states
  filled : ∀ subset ∈ dfa.subsets, subset ≠ []
  ascending : ∀ subset ∈ dfa.subsets, subset.Pairwise (· < ·)
  distinct : dfa.subsets.Nodup
  start : dfa.automaton.start = 0 ∧ dfa.subset? 0 = some (source.silentClosure [source.start])
  next : ∀ state subset, dfa.subset? state = some subset → ∀ symbol ∈ source.alphabet, ∀ target,
    dfa.automaton.next? state symbol = some target ↔
      source.silentClosure (source.move subset symbol) ≠ [] ∧
        dfa.subset? target = some (source.silentClosure (source.move subset symbol))
  stuck : ∀ state subset, dfa.subset? state = some subset → ∀ symbol,
    source.silentClosure (source.move subset symbol) = [] → dfa.automaton.next? state symbol = none
  finals : ∀ state subset, dfa.subset? state = some subset →
    (state ∈ dfa.automaton.finals ↔ ∃ member ∈ subset, member ∈ source.finals)
  walked : ∀ word state, dfa.automaton.walk dfa.automaton.start word = some state →
    ∃ subset, dfa.subset? state = some subset ∧
      ∀ member, member ∈ subset ↔ source.Path source.start word member

theorem reached_of_subset? {state : Nat} {subset : List Nat}
    (stands : (determinize source).subset? state = some subset) : Reached source subset :=
  (stage_explored source).reached subset (List.mem_of_getElem? stands)

theorem subset?_injective {state other : Nat} {subset : List Nat}
    (stands : (determinize source).subset? state = some subset)
    (again : (determinize source).subset? other = some subset) : state = other := by
  have distinct : (determinize source).subsets.Nodup := (stage_explored source).distinct
  exact (List.getElem?_inj (subset?_lt stands) distinct).mp (stands.trans again.symm)

theorem pairwise_of_reached {subset : List Nat} (reached : Reached source subset) :
    subset.Pairwise (· < ·) := by
  obtain ⟨_, word, _, same⟩ := reached
  exact same ▸ pairwise_active source word

theorem next?_eq_some_iff {state : Nat} {subset : List Nat} {symbol : Char} (target : Nat)
    (stands : (determinize source).subset? state = some subset) (known : symbol ∈ source.alphabet) :
    (determinize source).automaton.next? state symbol = some target ↔
      source.advance subset symbol ≠ [] ∧
        (determinize source).subset? target = some (source.advance subset symbol) := by
  by_cases stuck : source.advance subset symbol = []
  · simp [next?_determinize stands, stuck]
  · obtain ⟨reached, step, standing⟩ := subset?_next stands known stuck
    constructor
    · intro found
      cases step.symm.trans found
      exact ⟨stuck, standing⟩
    · rintro ⟨_, other⟩
      -- only one state stands for the set
      rw [step, subset?_injective standing other]

theorem mem_finals_iff {state : Nat} {subset : List Nat}
    (stands : (determinize source).subset? state = some subset) :
    state ∈ (determinize source).automaton.finals ↔ ∃ member ∈ subset, member ∈ source.finals := by
  have accepting := isFinal_determinize stands
  rw [Bool.eq_iff_iff, List.any_eq_true] at accepting
  simpa [Automaton.isFinal] using accepting

theorem subset?_of_walk {word : List Char} {state : Nat}
    (walked : (determinize source).automaton.walk (determinize source).automaton.start word =
      some state) :
    (determinize source).subset? state = some (source.active word) := by
  have spelled := (valid_determinize source).symbols_of_walk walked
  rcases walk_determinize (subset?_start source) (contained_of_alphabet spelled) with
    ⟨target, reached, stands⟩ | ⟨lost, _⟩
  · cases walked.symm.trans reached
    exact stands
  · cases walked.symm.trans lost

/-- Determinization keeps the exact account of the sets that it numbers, whatever the automaton. -/
theorem provenance_determinize (source : Automaton) : Provenance source (determinize source) where
  alphabet := rfl
  states := rfl
  known := fun _ => mem_states_determinize.symm
  filled := fun subset member => ((stage_explored source).reached subset member).1
  ascending := fun subset member =>
    pairwise_of_reached ((stage_explored source).reached subset member)
  distinct := (stage_explored source).distinct
  start := ⟨rfl, subset?_start source⟩
  next := fun _ _ stands _ known target => next?_eq_some_iff target stands known
  stuck := by
    intro state subset stands symbol stuck
    rw [next?_determinize stands, if_neg]
    exact fun moving => moving.2 stuck
  finals := fun _ _ => mem_finals_iff
  walked := fun word _ walked => ⟨source.active word, subset?_of_walk walked, fun _ =>
    Automaton.mem_active⟩

variable {source : Automaton}

theorem walk_of_subset? {state : Nat} {subset : List Nat}
    (stands : (determinize source).subset? state = some subset) :
    ∃ word, (determinize source).automaton.walk (determinize source).automaton.start word =
      some state := by
  obtain ⟨filled, word, spelled, same⟩ := reached_of_subset? stands
  rcases walk_determinize (subset?_start source) (contained_of_alphabet spelled) with
    ⟨target, walked, standing⟩ | ⟨_, empty⟩
  · subst same
    exact ⟨word, subset?_injective stands standing ▸ walked⟩
  · exact absurd (same.symm.trans empty) filled

theorem walk_to_final (valid : source.Valid) (completed : source.Completed) {state : Nat}
    {subset : List Nat} (stands : (determinize source).subset? state = some subset) :
    ∃ word, ∃ final ∈ (determinize source).automaton.finals,
      (determinize source).automaton.walk state word = some final := by
  obtain ⟨filled, before, _, same⟩ := reached_of_subset? stands
  subst same
  obtain ⟨member, active⟩ := List.exists_mem_of_ne_nil _ filled
  have entered := Automaton.mem_active.mp active
  have inside := valid.target_of_path entered valid.start
  obtain ⟨word, final, accepting, path⟩ := completed member inside
  -- the final state that one member leads to is still active where the walk ends
  have held : final ∈ word.foldl source.advance (source.active before) := by
    have later := Automaton.mem_active.mpr (entered.append path)
    rwa [Automaton.active, List.foldl_append] at later
  rcases walk_determinize stands (contained_of_valid valid word) with
    ⟨target, walked, standing⟩ | ⟨_, empty⟩
  · exact ⟨word, target, (mem_finals_iff standing).mpr ⟨final, held, accepting⟩, walked⟩
  · rw [empty] at held
    cases held

theorem walk_iff_extends (valid : source.Valid) (completed : source.Completed)
    (word : List Char) :
    (∃ state, (determinize source).automaton.walk (determinize source).automaton.start word =
        some state) ↔
      ∃ extension, (determinize source).check (word ++ extension) = true := by
  constructor
  · rintro ⟨state, walked⟩
    obtain ⟨extension, final, accepting, rest⟩ :=
      walk_to_final valid completed (subset?_of_walk walked)
    refine ⟨extension, Automaton.check_iff.mpr ⟨final, accepting, ?_⟩⟩
    rw [Automaton.walk_append, walked]
    exact rest
  · rintro ⟨extension, accepted⟩
    obtain ⟨final, _, walked⟩ := Automaton.check_iff.mp accepted
    rw [Automaton.walk_append] at walked
    obtain ⟨state, front, _⟩ := Option.bind_eq_some_iff.mp walked
    exact ⟨state, front⟩

end Recognizer.Dfa
