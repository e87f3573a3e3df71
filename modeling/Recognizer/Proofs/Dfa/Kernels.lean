import Mathlib.Algebra.Order.BigOperators.Group.Finset
import Mathlib.Data.Finset.Powerset
import Mathlib.Data.Finset.Sort
import Recognizer.Proofs.Dfa.Provenance
import Recognizer.Proofs.Nfa.Landings

/-!
Sets told apart by a few of their states. A set other than the start's is the closure of its kernel,
the states that one symbol led to; silent edges only add to it. So the landings of the symbols bound
the number of sets. Where silent edges never enter a landing, the kernel still shows in the closure:
no edge leads back to the start, and all edges into another state read one symbol.
-/

namespace Recognizer.Dfa

variable {source : Automaton}

theorem hasEdge_iff_listed {first last : Nat} {symbol : Option Char} :
    source.HasEdge first symbol last ↔
      Nfa.Listed source.transitions.entries first symbol last :=
  OrderedTable.mem_valuesAt

theorem mem_landings_iff_hasEdge {symbol : Char} {target : Nat} :
    target ∈ landings symbol source.transitions.entries ↔
      ∃ before, source.HasEdge before (some symbol) target :=
  mem_landings.trans (exists_congr fun _ => hasEdge_iff_listed.symm)

/-- An edge reads a symbol of the alphabet, and its target stands for the advance of the set that
its source stands for. -/
theorem subset?_of_edge {state target : Nat} {symbol : Option Char}
    (edge : (determinize source).automaton.HasEdge state symbol target) :
    ∃ letter ∈ source.alphabet, ∃ subset, symbol = some letter ∧
      source.advance subset letter ≠ [] ∧
      (determinize source).subset? target = some (source.advance subset letter) := by
  obtain ⟨transitions, entry, listed⟩ := OrderedTable.mem_valuesAt.mp edge
  obtain ⟨subset, stands, same⟩ := entry_determinize entry
  change transitions = _ at same
  rw [same] at listed
  obtain ⟨letter, known, moves, made⟩ := mem_edgesFrom.mp listed
  obtain ⟨reached, step, standing⟩ := subset?_next stands known moves
  rw [next?_determinize stands, if_pos ⟨known, moves⟩] at step
  cases step
  cases made
  exact ⟨letter, known, subset, rfl, moves, standing⟩

theorem exists_landing {subset : List Nat} {symbol : Char}
    (moves : source.advance subset symbol ≠ []) :
    ∃ state ∈ source.advance subset symbol, ∃ before,
      source.HasEdge before (some symbol) state := by
  obtain ⟨target, member⟩ := List.exists_mem_of_ne_nil _ moves
  obtain ⟨before, inside, middle, edge, _⟩ := Automaton.mem_advance.mp member
  exact ⟨middle, Automaton.mem_advance.mpr ⟨before, inside, middle, edge, Automaton.Path.here _⟩,
    before, edge⟩

/-- A silent path that moves enters its last state silently. -/
theorem entered_of_silent_path {first last : Nat} {word : List Char}
    (path : source.Path first word last) (silent : word = []) :
    last = first ∨ ∃ before, source.HasEdge before none last := by
  induction path with
  | here => exact Or.inl rfl
  | silent edge _ ih =>
    rcases ih silent with same | entered
    · subst same
      exact Or.inr ⟨_, edge⟩
    · exact Or.inr entered
  | reading => cases silent

section Shape

variable (landed : source.Landed)

include landed

/-- Closing a set adds no state that a symbol leads to. -/
theorem mem_of_landing {states : List Nat} {before state : Nat} {symbol : Char}
    (landing : source.HasEdge before (some symbol) state)
    (member : state ∈ source.silentClosure states) : state ∈ states := by
  obtain ⟨first, given, path⟩ := Automaton.mem_silentClosure.mp member
  rcases entered_of_silent_path path rfl with same | ⟨other, entered⟩
  · exact same ▸ given
  · cases landed.alone before symbol state landing other none entered

theorem landing_not_mem_start {before state : Nat} {symbol : Char}
    (landing : source.HasEdge before (some symbol) state) :
    state ∉ source.silentClosure [source.start] := by
  intro member
  cases List.mem_singleton.mp (mem_of_landing landed landing member)
  exact landed.start before (some symbol) landing

theorem symbol_of_landing {subset : List Nat} {before state : Nat} {symbol letter : Char}
    (landing : source.HasEdge before (some symbol) state)
    (member : state ∈ source.advance subset letter) : letter = symbol := by
  obtain ⟨other, _, edge⟩ := Automaton.mem_move.mp (mem_of_landing landed landing member)
  exact Option.some.inj (landed.alone before symbol state landing other (some letter) edge)

/-- No edge leads back to the start. -/
theorem target_ne_start {state target : Nat} {symbol : Option Char}
    (edge : (determinize source).automaton.HasEdge state symbol target) :
    target ≠ (determinize source).automaton.start := by
  intro back
  obtain ⟨letter, _, subset, _, moves, stands⟩ := subset?_of_edge edge
  obtain ⟨landing, member, before, reads⟩ := exists_landing moves
  rw [back, subset?_start] at stands
  rw [← Option.some.inj stands] at member
  exact landing_not_mem_start landed reads member

/-- All edges into a state read one symbol. -/
theorem symbol_unique {state other target : Nat} {symbol letter : Option Char}
    (edge : (determinize source).automaton.HasEdge state symbol target)
    (again : (determinize source).automaton.HasEdge other letter target) : letter = symbol := by
  obtain ⟨first, _, subset, reads, moves, stands⟩ := subset?_of_edge edge
  obtain ⟨second, _, others, spells, _, standing⟩ := subset?_of_edge again
  obtain ⟨landing, member, before, entered⟩ := exists_landing moves
  rw [Option.some.inj (stands.symm.trans standing)] at member
  rw [reads, spells, symbol_of_landing landed entered member]

/-- Symbols that are read lead to different states, none of them the start. -/
theorem length_lt_states {letters : List Char} (distinct : letters.Nodup)
    (read : ∀ letter ∈ letters, ∃ state target,
      (determinize source).automaton.HasEdge state (some letter) target) :
    letters.length < (determinize source).automaton.states.items.length := by
  choose! origin target edge using read
  have valid := valid_determinize source
  have fresh : ((determinize source).automaton.start :: letters.map target).Nodup := by
    rw [List.nodup_cons, List.nodup_map_iff_inj_on distinct, List.mem_map]
    constructor
    · rintro ⟨letter, member, back⟩
      exact target_ne_start landed (edge letter member) back
    · intro letter member other among same
      have again := edge other among
      rw [← same] at again
      exact (Option.some.inj (symbol_unique landed (edge letter member) again)).symm
  have listed : (determinize source).automaton.start :: letters.map target ⊆
      (determinize source).automaton.states.items := by
    intro state member
    rcases List.mem_cons.mp member with same | reached
    · exact same ▸ valid.start
    · obtain ⟨letter, among, same⟩ := List.mem_map.mp reached
      exact same ▸ valid.target_of_edge (edge letter among)
  have counted := fresh.length_le_of_subset listed
  rwa [List.length_cons, List.length_map] at counted

end Shape

section Size

def closures (source : Automaton) (symbol : Char) : Finset (List Nat) :=
  ((landings symbol source.transitions.entries).toFinset.powerset.erase ∅).image fun kernel =>
    source.silentClosure (kernel.sort (· ≤ ·))

theorem card_closures_le (source : Automaton) (symbol : Char) :
    (closures source symbol).card ≤
      2 ^ (landings symbol source.transitions.entries).length - 1 := by
  refine Finset.card_image_le.trans ?_
  rw [Finset.card_erase_of_mem (Finset.empty_mem_powerset _), Finset.card_powerset]
  have listed := List.toFinset_card_le (landings symbol source.transitions.entries)
  exact Nat.sub_le_sub_right (Nat.pow_le_pow_right Nat.two_pos listed) 1

theorem advance_mem_closures {subset : List Nat} {symbol : Char}
    (moves : source.advance subset symbol ≠ []) :
    source.advance subset symbol ∈ closures source symbol := by
  have ascending : (source.move subset symbol).Pairwise (· < ·) := Ascending.pairwise_ofList _
  have sorted : (source.move subset symbol).toFinset.sort (· ≤ ·) = source.move subset symbol :=
    (List.toFinset_sort (· ≤ ·) ascending.nodup).mpr (ascending.imp Nat.le_of_lt)
  have filled : (source.move subset symbol).toFinset ≠ ∅ := by
    obtain ⟨state, member⟩ := List.exists_mem_of_ne_nil _ moves
    obtain ⟨landing, moved, _⟩ := Automaton.mem_silentClosure.mp member
    exact Finset.ne_empty_of_mem (List.mem_toFinset.mpr moved)
  have among : (source.move subset symbol).toFinset ⊆
      (landings symbol source.transitions.entries).toFinset := by
    intro target member
    obtain ⟨before, _, edge⟩ := Automaton.mem_move.mp (List.mem_toFinset.mp member)
    exact List.mem_toFinset.mpr (mem_landings_iff_hasEdge.mpr ⟨before, edge⟩)
  refine Finset.mem_image.mpr ⟨(source.move subset symbol).toFinset, ?_, ?_⟩
  · exact Finset.mem_erase.mpr ⟨filled, Finset.mem_powerset.mpr among⟩
  · rw [sorted]
    rfl

theorem landings_ne_nil {subset : List Nat} {symbol : Char}
    (moves : source.advance subset symbol ≠ []) :
    landings symbol source.transitions.entries ≠ [] := by
  obtain ⟨landing, _, entered⟩ := exists_landing moves
  exact List.ne_nil_of_mem (mem_landings_iff_hasEdge.mpr entered)

/-- A known set is the start's, or the closure of landings. -/
theorem mem_closures_of_reached {subset : List Nat} (reached : Reached source subset) :
    subset = source.silentClosure [source.start] ∨
      ∃ symbol, landings symbol source.transitions.entries ≠ [] ∧
        subset ∈ closures source symbol := by
  obtain ⟨filled, word, _, same⟩ := reached
  subst same
  induction word using List.reverseRecOn with
  | nil => exact Or.inl rfl
  | append_singleton word symbol _ =>
    rw [active_append] at filled ⊢
    exact Or.inr ⟨symbol, landings_ne_nil filled, advance_mem_closures filled⟩

/-- Beside the start there are no more states than nonempty sets of landings of one symbol. -/
theorem length_states_le (source : Automaton) (letters : Finset Char)
    (covers : ∀ symbol, landings symbol source.transitions.entries ≠ [] → symbol ∈ letters) :
    (determinize source).automaton.states.items.length ≤
      1 + ∑ symbol ∈ letters, (2 ^ (landings symbol source.transitions.entries).length - 1) := by
  have distinct : (determinize source).subsets.Nodup := (stage_explored source).distinct
  have among : (determinize source).subsets.toFinset ⊆
      insert (source.silentClosure [source.start]) (letters.biUnion (closures source)) := by
    intro subset member
    rw [Finset.mem_insert, Finset.mem_biUnion]
    have reached := (stage_explored source).reached subset (List.mem_toFinset.mp member)
    refine (mem_closures_of_reached reached).imp_right ?_
    rintro ⟨symbol, filled, closure⟩
    exact ⟨symbol, covers symbol filled, closure⟩
  calc (determinize source).automaton.states.items.length
      = (determinize source).subsets.toFinset.card := by
        rw [List.toFinset_card_of_nodup distinct]
        exact List.length_range
    _ ≤ (insert (source.silentClosure [source.start])
          (letters.biUnion (closures source))).card := Finset.card_le_card among
    _ ≤ (letters.biUnion (closures source)).card + 1 := Finset.card_insert_le _ _
    _ ≤ (∑ symbol ∈ letters, (closures source symbol).card) + 1 :=
        Nat.add_le_add_right Finset.card_biUnion_le 1
    _ ≤ (∑ symbol ∈ letters,
          (2 ^ (landings symbol source.transitions.entries).length - 1)) + 1 :=
        Nat.add_le_add_right (Finset.sum_le_sum fun symbol _ => card_closures_le source symbol) 1
    _ = _ := Nat.add_comm _ 1

end Size

end Recognizer.Dfa
