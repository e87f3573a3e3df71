import Recognizer.Pattern.Syntax
import Recognizer.Proofs.Automaton.Validity
import Recognizer.Proofs.Nfa.Stack

/-!
The words between the ends of a fragment. A path through a fragment made of others stays inside one
of them until its accept state, because no other state of it has edges that lead out; so the path
falls into paths of the parts, and the words match the tree that the operator makes.
-/

namespace Recognizer.Nfa

open Pattern
open Automaton (Path)

namespace Fragment

def Recognizes (fragment : Fragment) (tree : Tree) : Prop :=
  ∀ word, fragment.toAutomaton.Path fragment.start word fragment.accept ↔ tree.Matches word

variable {low middle high source target : Nat} {symbol : Option Char} {word : List Char}
  {fragment left right inner : Fragment} {leftTree rightTree tree : Tree}

theorem source_of_links (owned : Owns low high fragment)
    (edge : fragment.Links source symbol target) :
    low ≤ source ∧ source < high ∧ source ≠ fragment.accept := by
  obtain ⟨transitions, entry, _⟩ := edge
  exact owned.leaves source (List.mem_map_of_mem entry)

theorem accept_still (owned : Owns low high fragment) (symbol : Option Char) (after : Nat) :
    ¬ fragment.toAutomaton.HasEdge fragment.accept symbol after := by
  intro edge
  have bounds := source_of_links owned ((hasEdge_toAutomaton owned).mp edge)
  exact bounds.2.2 rfl

/-- A fragment that lists the edges of a part has the part's paths. -/
theorem path_of_part {whole part : Fragment} {first last : Nat} (covers : Owns first last whole)
    (owned : Owns low high part)
    (lists : ∀ before letter after, part.Links before letter after →
      whole.Links before letter after)
    (path : part.toAutomaton.Path source word target) :
    whole.toAutomaton.Path source word target := by
  apply path.mono
  intro before letter after edge
  exact (hasEdge_toAutomaton covers).mpr
    (lists before letter after ((hasEdge_toAutomaton owned).mp edge))

/-- A path that starts in a part and ends outside of it leaves by the part's accept state. -/
theorem escape_part {whole part : Fragment} {first last : Nat} (covers : Owns first last whole)
    (owned : Owns low high part)
    (lists : ∀ before letter after, low ≤ before ∧ before < high → before ≠ part.accept →
      whole.Links before letter after → part.Links before letter after)
    (path : whole.toAutomaton.Path source word target) (starts : low ≤ source ∧ source < high)
    (leaves : ¬ (low ≤ target ∧ target < high)) :
    ∃ front back, word = front ++ back ∧ part.toAutomaton.Path source front part.accept ∧
      whole.toAutomaton.Path part.accept back target := by
  refine Path.escape (fun state => low ≤ state ∧ state < high) ?_ path starts leaves
  intro before letter after inside other edge
  have kept := lists before letter after inside other ((hasEdge_toAutomaton covers).mp edge)
  have bounds := owned.enters before letter after kept
  exact ⟨(hasEdge_toAutomaton owned).mpr kept, bounds.1, bounds.2.1⟩

theorem recognizes_literal (next : Nat) (letter : Char) :
    Recognizes (literal next letter) (.literal letter) := by
  have owned := owns_literal next letter
  intro word
  constructor
  · intro path
    cases path with
    | silent edge _ =>
      obtain ⟨_, silent, _⟩ := links_literal.mp ((hasEdge_toAutomaton owned).mp edge)
      cases silent
    | reading edge rest =>
      obtain ⟨_, same, reached⟩ := links_literal.mp ((hasEdge_toAutomaton owned).mp edge)
      cases same
      subst reached
      rw [rest.stuck (accept_still owned)]
      exact Tree.Matches.literal letter
  · intro found
    cases found
    have edge : (literal next letter).toAutomaton.HasEdge next (some letter) (next + 1) :=
      (hasEdge_toAutomaton owned).mpr (links_literal.mpr ⟨rfl, rfl, rfl⟩)
    exact Path.reading edge (Path.here _)

/-- A part whose accept state leads silently to the whole's, and nowhere else, is a branch: from its
start state on, the whole reads what the part reads. -/
theorem path_branch {whole part : Fragment} {first last : Nat} (covers : Owns first last whole)
    (owned : Owns low high part)
    (lists : ∀ before letter after, part.Links before letter after →
      whole.Links before letter after)
    (inside : ∀ before letter after, low ≤ before ∧ before < high → before ≠ part.accept →
      whole.Links before letter after → part.Links before letter after)
    (exits : ∀ letter after, whole.Links part.accept letter after ↔
      letter = none ∧ after = whole.accept)
    (outside : ¬ (low ≤ whole.accept ∧ whole.accept < high)) :
    whole.toAutomaton.Path part.start word whole.accept ↔
      part.toAutomaton.Path part.start word part.accept := by
  constructor
  · intro path
    obtain ⟨front, back, split, through, behind⟩ :=
      escape_part covers owned inside path owned.start outside
    -- behind the part one silent edge is left, and nothing leaves the whole's accept state
    have empty : back = [] := by
      generalize ends : whole.accept = final at behind
      cases behind with
      | here => exact rfl
      | silent edge rest =>
        obtain ⟨_, reached⟩ := (exits _ _).mp ((hasEdge_toAutomaton covers).mp edge)
        subst reached
        exact rest.stuck (accept_still covers)
      | reading edge _ =>
        obtain ⟨silent, _⟩ := (exits _ _).mp ((hasEdge_toAutomaton covers).mp edge)
        cases silent
    rw [split, empty, List.append_nil]
    exact through
  · intro path
    have exit : whole.toAutomaton.HasEdge part.accept none whole.accept :=
      (hasEdge_toAutomaton covers).mpr ((exits _ _).mpr ⟨rfl, rfl⟩)
    have through := path_of_part covers owned lists path
    rw [← List.append_nil word]
    exact through.append (Path.silent exit (Path.here _))

section Union

variable (first : Owns low middle left) (second : Owns middle high right)

include first second

/-- From the new start state a silent edge leads to one of the two parts. -/
theorem links_union_start :
    (union high left right).Links high symbol target ↔
      symbol = none ∧ (target = left.start ∨ target = right.start) := by
  have := first.accept
  have := second.accept
  rw [links_union]
  constructor
  · rintro (⟨silent, _, made⟩ | ⟨_, made, _⟩ | old | old)
    · exact ⟨silent, made⟩
    · omega
    · have := source_of_links first old
      omega
    · have := source_of_links second old
      omega
  · rintro ⟨silent, made⟩
    exact Or.inl ⟨silent, rfl, made⟩

/-- Behind either part only a silent edge to the new accept state is left. -/
theorem links_union_exit (exits : source = left.accept ∨ source = right.accept) :
    (union high left right).Links source symbol target ↔ symbol = none ∧ target = high + 1 := by
  have := first.accept
  have := second.accept
  rw [links_union]
  constructor
  · rintro (⟨_, made, _⟩ | ⟨silent, _, made⟩ | old | old)
    · omega
    · exact ⟨silent, made⟩
    · have := source_of_links first old
      omega
    · have := source_of_links second old
      omega
  · rintro ⟨silent, made⟩
    exact Or.inr (Or.inl ⟨silent, exits, made⟩)

theorem path_union_left :
    (union high left right).toAutomaton.Path left.start word (high + 1) ↔
      left.toAutomaton.Path left.start word left.accept := by
  have := first.accept
  have := second.accept
  refine path_branch (owns_union first second) first ?_ ?_
    (fun _ _ => links_union_exit first second (Or.inl rfl)) ?_
  · intro before letter after edge
    exact links_union.mpr (Or.inr (Or.inr (Or.inl edge)))
  · intro before letter after inside other edge
    rcases links_union.mp edge with ⟨_, made, _⟩ | ⟨_, made, _⟩ | old | old
    · omega
    · omega
    · exact old
    · have := source_of_links second old
      omega
  · change ¬ (low ≤ high + 1 ∧ high + 1 < middle)
    omega

theorem path_union_right :
    (union high left right).toAutomaton.Path right.start word (high + 1) ↔
      right.toAutomaton.Path right.start word right.accept := by
  have := first.accept
  have := second.accept
  refine path_branch (owns_union first second) second ?_ ?_
    (fun _ _ => links_union_exit first second (Or.inr rfl)) ?_
  · intro before letter after edge
    exact links_union.mpr (Or.inr (Or.inr (Or.inr edge)))
  · intro before letter after inside other edge
    rcases links_union.mp edge with ⟨_, made, _⟩ | ⟨_, made, _⟩ | old | old
    · omega
    · omega
    · have := source_of_links first old
      omega
    · exact old
  · change ¬ (middle ≤ high + 1 ∧ high + 1 < high)
    omega

theorem recognizes_union (leftWords : Recognizes left leftTree)
    (rightWords : Recognizes right rightTree) :
    Recognizes (union high left right) (.union leftTree rightTree) := by
  have edges : ∀ {letter after}, (union high left right).toAutomaton.HasEdge high letter after ↔
      letter = none ∧ (after = left.start ∨ after = right.start) :=
    (hasEdge_toAutomaton (owns_union first second)).trans (links_union_start first second)
  intro word
  change (union high left right).toAutomaton.Path high word (high + 1) ↔ _
  constructor
  · intro path
    cases path with
    | reading edge _ => cases (edges.mp edge).1
    | silent edge rest =>
      rcases (edges.mp edge).2 with entered | entered
      · subst entered
        have through := (path_union_left first second).mp rest
        exact Tree.Matches.left ((leftWords word).mp through)
      · subst entered
        have through := (path_union_right first second).mp rest
        exact Tree.Matches.right ((rightWords word).mp through)
  · intro found
    cases found with
    | left found =>
      have through := (path_union_left first second).mpr ((leftWords word).mpr found)
      exact Path.silent (edges.mpr ⟨rfl, Or.inl rfl⟩) through
    | right found =>
      have through := (path_union_right first second).mpr ((rightWords word).mpr found)
      exact Path.silent (edges.mpr ⟨rfl, Or.inr rfl⟩) through

end Union

section Concat

variable (first : Owns low middle left) (second : Owns middle high right)

include first second

/-- The left accept state leads silently to the right part. -/
theorem links_concat_exit :
    (concat left right).Links left.accept symbol target ↔ symbol = none ∧ target = right.start := by
  have := first.accept
  rw [links_concat]
  constructor
  · rintro (old | ⟨silent, _, made⟩ | old)
    · exact absurd rfl (source_of_links first old).2.2
    · exact ⟨silent, made⟩
    · have := source_of_links second old
      omega
  · rintro ⟨silent, made⟩
    exact Or.inr (Or.inl ⟨silent, rfl, made⟩)

/-- No edge leads from the right part back. -/
theorem path_concat_right :
    (concat left right).toAutomaton.Path right.start word right.accept ↔
      right.toAutomaton.Path right.start word right.accept := by
  have := first.accept
  have covers := owns_concat first second
  constructor
  · intro path
    refine Path.confined (fun state => middle ≤ state ∧ state < high) ?_ path second.start
    intro before letter after inside edge
    rcases links_concat.mp ((hasEdge_toAutomaton covers).mp edge) with old | ⟨_, made, _⟩ | old
    · have := source_of_links first old
      omega
    · omega
    · have bounds := second.enters before letter after old
      exact ⟨(hasEdge_toAutomaton second).mpr old, bounds.1, bounds.2.1⟩
  · intro path
    apply path_of_part covers second _ path
    intro before letter after edge
    exact links_concat.mpr (Or.inr (Or.inr edge))

theorem recognizes_concat (leftWords : Recognizes left leftTree)
    (rightWords : Recognizes right rightTree) :
    Recognizes (concat left right) (.concat leftTree rightTree) := by
  have := first.accept
  have := second.accept
  have covers := owns_concat first second
  have edges : ∀ {letter after}, (concat left right).toAutomaton.HasEdge left.accept letter after ↔
      letter = none ∧ after = right.start :=
    (hasEdge_toAutomaton covers).trans (links_concat_exit first second)
  intro word
  change (concat left right).toAutomaton.Path left.start word right.accept ↔ _
  constructor
  · intro path
    have inside : ∀ before letter after, low ≤ before ∧ before < middle → before ≠ left.accept →
        (concat left right).Links before letter after → left.Links before letter after := by
      intro before letter after bounds other edge
      rcases links_concat.mp edge with old | ⟨_, made, _⟩ | old
      · exact old
      · exact absurd made other
      · have := source_of_links second old
        omega
    obtain ⟨front, back, split, through, behind⟩ :=
      escape_part covers first inside path first.start (by omega)
    rw [split]
    -- the path goes on from the left accept state, which has one edge
    generalize ends : right.accept = final at behind
    cases behind with
    | here => omega
    | reading edge _ => cases (edges.mp edge).1
    | silent edge rest =>
      obtain ⟨_, entered⟩ := edges.mp edge
      subst entered ends
      have rest := (path_concat_right first second).mp rest
      exact Tree.Matches.concat ((leftWords front).mp through) ((rightWords back).mp rest)
  · intro found
    cases found with
    | concat front back =>
      have through := path_of_part covers first
        (fun _ _ _ edge => links_concat.mpr (Or.inl edge)) ((leftWords _).mpr front)
      have rest := (path_concat_right first second).mpr ((rightWords _).mpr back)
      exact through.append (Path.silent (edges.mpr ⟨rfl, rfl⟩) rest)

end Concat

section Star

variable (owned : Owns low high inner)

include owned

/-- The new start state and the inner accept state have the same edges. -/
theorem links_star_exit (exits : source = high ∨ source = inner.accept) :
    (star high inner).Links source symbol target ↔
      symbol = none ∧ (target = inner.start ∨ target = high + 1) := by
  rw [links_star]
  constructor
  · rintro (⟨silent, _, made⟩ | old)
    · exact ⟨silent, made⟩
    · have := source_of_links owned old
      omega
  · rintro ⟨silent, made⟩
    exact Or.inl ⟨silent, exits, made⟩

theorem path_star_of_matches {starred : Tree} (found : starred.Matches word)
    (same : starred = .star tree) (words : Recognizes inner tree)
    (exits : source = high ∨ source = inner.accept) :
    (star high inner).toAutomaton.Path source word (high + 1) := by
  have covers := owns_star owned
  have edges : ∀ {before target}, before = high ∨ before = inner.accept →
      (target = inner.start ∨ target = high + 1) →
        (star high inner).toAutomaton.HasEdge before none target := by
    intro before target exits made
    exact (hasEdge_toAutomaton covers).mpr ((links_star_exit owned exits).mpr ⟨rfl, made⟩)
  induction found generalizing source with
  | literal => cases same
  | left => cases same
  | right => cases same
  | concat => cases same
  | starEmpty => exact Path.silent (edges exits (Or.inr rfl)) (Path.here _)
  | starMore front back _ ih =>
    cases same
    have through := path_of_part covers owned (fun _ _ _ edge => links_star.mpr (Or.inr edge))
      ((words _).mpr front)
    have rest := ih rfl (Or.inr rfl)
    exact Path.silent (edges exits (Or.inl rfl)) (through.append rest)

/-- From one of the two outer states a path reads words of the inner tree one after another; from
inside it first reads the end of such a word. -/
theorem matches_of_path_star (words : Recognizes inner tree)
    (path : (star high inner).toAutomaton.Path source word target) (ends : target = high + 1) :
    ((source = high ∨ source = inner.accept) → (Tree.star tree).Matches word) ∧
      (low ≤ source ∧ source < high → ∃ front back, word = front ++ back ∧
        inner.toAutomaton.Path source front inner.accept ∧ (Tree.star tree).Matches back) := by
  have := owned.accept
  have covers := owns_star owned
  -- induction on the path: each of the two statements needs the other for the rest of the path
  induction path with
  | here => constructor <;> omega
  | @silent source middle target word edge path ih =>
    obtain ⟨outer, through⟩ := ih ends
    have edge := (hasEdge_toAutomaton covers).mp edge
    by_cases exits : source = high ∨ source = inner.accept
    · have found : (Tree.star tree).Matches word := by
        rcases ((links_star_exit owned exits).mp edge).2 with entered | reached
        · subst entered
          obtain ⟨front, back, split, first, rest⟩ := through owned.start
          rw [split]
          exact Tree.Matches.starMore ((words front).mp first) rest
        · subst reached ends
          rw [path.stuck (accept_still covers)]
          exact Tree.Matches.starEmpty tree
      -- of the two outer states only the inner accept state lies inside
      refine ⟨fun _ => found, fun inside => ⟨[], word, rfl, ?_, found⟩⟩
      have last : source = inner.accept := by omega
      rw [last]
      exact Path.here _
    · refine ⟨fun outside => absurd outside exits, fun inside => ?_⟩
      rcases links_star.mp edge with ⟨_, outside, _⟩ | old
      · exact absurd outside exits
      · have bounds := owned.enters _ _ _ old
        obtain ⟨front, back, split, first, rest⟩ := through ⟨bounds.1, bounds.2.1⟩
        exact ⟨front, back, split, Path.silent ((hasEdge_toAutomaton owned).mpr old) first, rest⟩
  | @reading source middle target letter word edge path ih =>
    obtain ⟨_, through⟩ := ih ends
    have edge := (hasEdge_toAutomaton covers).mp edge
    rcases links_star.mp edge with ⟨silent, _⟩ | old
    · cases silent
    · have leaves := source_of_links owned old
      have bounds := owned.enters _ _ _ old
      obtain ⟨front, back, split, first, rest⟩ := through ⟨bounds.1, bounds.2.1⟩
      refine ⟨by omega, fun _ => ⟨letter :: front, back, congrArg (letter :: ·) split, ?_, rest⟩⟩
      exact Path.reading ((hasEdge_toAutomaton owned).mpr old) first

theorem recognizes_star (words : Recognizes inner tree) :
    Recognizes (star high inner) (.star tree) := by
  intro word
  change (star high inner).toAutomaton.Path high word (high + 1) ↔ _
  constructor
  · intro path
    exact (matches_of_path_star owned words path rfl).1 (Or.inl rfl)
  · intro found
    exact path_star_of_matches owned found rfl words (Or.inl rfl)

end Star

end Fragment

end Recognizer.Nfa
