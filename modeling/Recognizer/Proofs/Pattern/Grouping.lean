import Recognizer.Proofs.Pattern.Arrangement
import Recognizer.Proofs.Pattern.Reading

/-!
Groups of a pattern. Tokens are followed by the number of open groups; on the text that they spell
this is the usual balance of parentheses, which no front of the text may overdraw. Arranging never
asks whether operators have their operands: it succeeds exactly when the groups nest, and then it
only reorders the tokens that carry no group. Otherwise it reports the parenthesis that has no
partner. Which one that is depends on the open groups alone, so they are followed apart from the
operators that share the stack with them; and the order in which tokens leave is followed with their
positions, which the listing drops.
-/

namespace Recognizer.Pattern

def Nests : Nat → List Token → Prop
  | depth, [] => depth = 0
  | depth, token :: rest =>
    match token with
    | .opening => Nests (depth + 1) rest
    | .closing => 0 < depth ∧ Nests (depth - 1) rest
    | .literal _ | .star | .concat | .union => Nests depth rest

def BalancedOver (depth : Nat) (pattern : List Char) : Prop :=
  (∀ front, front <+: pattern → front.count ')' ≤ depth + front.count '(') ∧
    pattern.count ')' = depth + pattern.count '('

theorem balancedOver_cons (depth : Nat) (character : Char) (rest : List Char) :
    BalancedOver depth (character :: rest) ↔
      (∀ front, front <+: rest →
        (character :: front).count ')' ≤ depth + (character :: front).count '(') ∧
      (character :: rest).count ')' = depth + (character :: rest).count '(' := by
  refine and_congr_left fun _ => ⟨fun within front before => ?_, fun within front before => ?_⟩
  · exact within _ (List.cons_prefix_cons.mpr ⟨rfl, before⟩)
  · rcases List.prefix_cons_iff.mp before with rfl | ⟨tail, rfl, later⟩
    · exact Nat.zero_le _
    · exact within tail later

theorem balancedOver_opening (depth : Nat) (rest : List Char) :
    BalancedOver depth ('(' :: rest) ↔ BalancedOver (depth + 1) rest := by
  have closes (front : List Char) : ('(' :: front).count ')' = front.count ')' := by simp
  have opens (front : List Char) : ('(' :: front).count '(' = front.count '(' + 1 := by simp
  rw [balancedOver_cons, BalancedOver]
  simp only [closes, opens, Nat.add_assoc, Nat.add_comm 1]

theorem balancedOver_closing (depth : Nat) (rest : List Char) :
    BalancedOver depth (')' :: rest) ↔ 0 < depth ∧ BalancedOver (depth - 1) rest := by
  have closes (front : List Char) : (')' :: front).count ')' = front.count ')' + 1 := by simp
  have opens (front : List Char) : (')' :: front).count '(' = front.count '(' := by simp
  rw [balancedOver_cons, BalancedOver]
  simp only [closes, opens]
  constructor
  · rintro ⟨within, total⟩
    -- the empty front shows that a group is open
    have opened : 0 < depth := within [] List.nil_prefix
    refine ⟨opened, fun front before => ?_, by omega⟩
    have bound := within front before
    omega
  · rintro ⟨opened, within, total⟩
    refine ⟨fun front before => ?_, by omega⟩
    have bound := within front before
    omega

theorem balancedOver_other {character : Char} (opens : character ≠ '(') (closes : character ≠ ')')
    (depth : Nat) (rest : List Char) :
    BalancedOver depth (character :: rest) ↔ BalancedOver depth rest := by
  rw [balancedOver_cons]
  simp [BalancedOver, opens, closes]

theorem nests_iff_balancedOver {depth : Nat} {tokens : List Token}
    (spelled : ∀ token ∈ tokens, Token.ofChar? token.toChar = some token) :
    Nests depth tokens ↔ BalancedOver depth (Token.text tokens) := by
  induction tokens generalizing depth with
  | nil => simp [Nests, BalancedOver, Token.text, eq_comm]
  | cons token rest ih =>
    obtain ⟨head, tail⟩ := List.forall_mem_cons.mp spelled
    rw [Token.text, List.map_cons]
    cases token with
    | opening => exact (ih tail).trans (balancedOver_opening depth _).symm
    | closing => exact (and_congr_right fun _ => ih tail).trans (balancedOver_closing depth _).symm
    | star | concat | union =>
      exact (ih tail).trans (balancedOver_other (by decide) (by decide) depth _).symm
    | literal symbol =>
      obtain ⟨opens, closes⟩ := Token.ne_parenthesis_of_ofChar? head
      exact (ih tail).trans (balancedOver_other opens closes depth _).symm

def opened (waiting : List Placed) : List Nat :=
  (waiting.filter fun top => top.token = .opening).map Placed.position

theorem opened_append (front back : List Placed) :
    opened (front ++ back) = opened front ++ opened back := by
  simp [opened]

theorem opened_eq_nil_iff {waiting : List Placed} :
    opened waiting = [] ↔ ∀ top ∈ waiting, top.token ≠ .opening := by
  simp [opened]

theorem opened_cons_opening {top : Placed} (opening : top.token = .opening)
    (waiting : List Placed) : opened (top :: waiting) = top.position :: opened waiting := by
  simp [opened, opening]

theorem opened_cons_other {top : Placed} (apart : top.token ≠ .opening) (waiting : List Placed) :
    opened (top :: waiting) = opened waiting := by
  simp [opened, apart]

/-- The parenthesis without a partner that is reported: the first closing one that finds no group
open, otherwise the latest opening one whose group stays open. -/
def unpartnered? (positions : List Nat) : List Placed → Option Nat
  | [] => positions.head?
  | next :: rest =>
    match next.token with
    | .opening => unpartnered? (next.position :: positions) rest
    | .closing =>
      if positions = [] then some next.position else unpartnered? positions.tail rest
    | .literal _ | .star | .concat | .union => unpartnered? positions rest

theorem unpartnered?_bare {next : Placed} (bare : next.token.isBare = true) (positions : List Nat)
    (rest : List Placed) : unpartnered? positions (next :: rest) = unpartnered? positions rest := by
  rw [unpartnered?]
  cases kind : next.token with
  | literal | star | concat | union => rfl
  | opening | closing =>
    rw [kind] at bare
    cases bare

theorem unpartnered?_cons_congr {front back : List Placed}
    (same : ∀ positions, unpartnered? positions front = unpartnered? positions back)
    (next : Placed) (positions : List Nat) :
    unpartnered? positions (next :: front) = unpartnered? positions (next :: back) := by
  rw [unpartnered?, unpartnered?]
  cases next.token with
  | opening => exact same _
  | closing => simp only [same]
  | literal | star | concat | union => exact same positions

theorem unpartnered?_eq_none_iff {positions : List Nat} {placed : List Placed} :
    unpartnered? positions placed = none ↔ Nests positions.length (placed.map Placed.token) := by
  induction placed generalizing positions with
  | nil => cases positions <;> simp [unpartnered?, Nests]
  | cons next rest ih =>
    rw [unpartnered?, List.map_cons]
    cases next.token with
    | opening => exact ih
    | closing =>
      cases positions with
      | nil => simp [Nests]
      | cons top below => exact ih.trans (and_iff_right (Nat.succ_pos _)).symm
    | literal | star | concat | union => exact ih

def ungrouped (placed : List Placed) : List Placed := placed.filter (·.token.isBare)

def bare (placed : List Placed) : List Token := (placed.map Placed.token).filter Token.isBare

theorem ungrouped_append (front back : List Placed) :
    ungrouped (front ++ back) = ungrouped front ++ ungrouped back := by
  simp [ungrouped]

theorem map_ungrouped (placed : List Placed) :
    (ungrouped placed).map Placed.token = bare placed := by
  rw [ungrouped, bare, List.filter_map]
  rfl

theorem bare_append (front back : List Placed) :
    bare (front ++ back) = bare front ++ bare back := by
  simp [bare]

/-- The order in which tokens leave, if every group closes. -/
def departures (waiting : List Placed) : List Placed → List Placed
  | [] => waiting
  | next :: rest =>
    match next.token with
    | .literal _ => next :: departures waiting rest
    | .opening => departures (next :: waiting) rest
    | .closing =>
      waiting.takeWhile (·.token ≠ .opening) ++
        departures (waiting.dropWhile (·.token ≠ .opening)).tail rest
    | .star | .concat | .union =>
      waiting.takeWhile (yields next.token) ++
        departures (next :: waiting.dropWhile (yields next.token)) rest

theorem departures_closing {front below : List Placed} {opening next : Placed}
    (opens : opening.token = .opening) (inside : ∀ top ∈ front, top.token ≠ .opening)
    (closing : next.token = .closing) (rest : List Placed) :
    departures (front ++ opening :: below) (next :: rest) = front ++ departures below rest := by
  have others : ∀ top ∈ front, (!decide (top.token = .opening)) = true := by
    intro top member
    simp [inside top member]
  rw [departures, closing]
  simp [List.takeWhile_append_of_pos others, List.dropWhile_append_of_pos others, opens]

theorem departures_operator {next : Placed} (operator : next.token.isOperator = true)
    (waiting rest : List Placed) :
    departures waiting (next :: rest) =
      waiting.takeWhile (yields next.token) ++
        departures (next :: waiting.dropWhile (yields next.token)) rest := by
  rw [departures]
  cases kind : next.token with
  | star | concat | union => rfl
  | literal symbol | opening | closing =>
    rw [kind] at operator
    cases operator

/-- The latest opening parenthesis on a stack, unless no group is open. -/
theorem open_or_closed (waiting : List Placed) :
    (∀ top ∈ waiting, top.token ≠ .opening) ∨
      ∃ front opening below, waiting = front ++ opening :: below ∧ opening.token = .opening ∧
        ∀ top ∈ front, top.token ≠ .opening := by
  cases found : waiting.find? (·.token = .opening) with
  | none =>
    refine Or.inl fun top member same => ?_
    exact List.find?_eq_none.mp found top member (by simpa using same)
  | some opening =>
    obtain ⟨opens, front, below, split, inside⟩ := List.find?_eq_some_iff_append.mp found
    refine Or.inr ⟨front, opening, below, split, by simpa using opens, fun top member => ?_⟩
    simpa using inside top member

theorem opened_front {front below : List Placed} {opening : Placed}
    (inside : ∀ top ∈ front, top.token ≠ .opening) (opens : opening.token = .opening) :
    opened (front ++ opening :: below) = opening.position :: opened below := by
  rw [opened_append, opened_eq_nil_iff.mpr inside, opened_cons_opening opens, List.nil_append]

theorem closeGroup_closed {waiting : List Placed} (closed : ∀ top ∈ waiting, top.token ≠ .opening) :
    closeGroup waiting = none := by
  induction waiting with
  | nil => rfl
  | cons top below ih =>
    obtain ⟨apart, rest⟩ := List.forall_mem_cons.mp closed
    simp [closeGroup, apart, ih rest]

theorem release_open {front : List Placed} {opening : Placed}
    (inside : ∀ top ∈ front, top.token ≠ .opening) (opens : opening.token = .opening)
    (below : List Placed) :
    release (front ++ opening :: below) =
      (.error (.unbalancedParenthesis opening.position), below) := by
  induction front with
  | nil => simp [release, opens]
  | cons top front ih =>
    obtain ⟨apart, rest⟩ := List.forall_mem_cons.mp inside
    simp [release, apart, ih rest, Except.map]

def Unclosed (waiting : List Placed) : Prop := ∀ top ∈ waiting, top.token ≠ .closing

theorem unclosed_front {front back : List Placed} (unclosed : Unclosed (front ++ back)) :
    Unclosed front :=
  fun top member => unclosed top (List.mem_append_left back member)

theorem ungrouped_front {front : List Placed} (unclosed : Unclosed front)
    (inside : ∀ top ∈ front, top.token ≠ .opening) : ungrouped front = front := by
  apply List.filter_eq_self.mpr
  intro top listed
  have opens := inside top listed
  have closes := unclosed top listed
  cases kind : top.token with
  | literal | star | concat | union => rfl
  | opening => exact absurd kind opens
  | closing => exact absurd kind closes

/-- Taking in one token: what leaves, and what waits afterwards. -/
structure Moves (waiting : List Placed) (next : Placed) (released after : List Placed) :
    Prop where
  unclosed : Unclosed after
  kept : (released ++ ungrouped after).Perm (ungrouped (waiting ++ [next]))
  groups : ∀ rest, unpartnered? (opened waiting) (next :: rest) = unpartnered? (opened after) rest
  leaves : ∀ rest, departures waiting (next :: rest) = released ++ departures after rest
  run : ∀ rest, arrange waiting (next :: rest) =
    prepend (released.map Placed.token) (arrange after rest)

structure Stops (waiting : List Placed) (next : Placed) : Prop where
  strays : ∀ rest, unpartnered? (opened waiting) (next :: rest) = some next.position
  run : ∀ rest,
    (arrange waiting (next :: rest)).1 = .error (.unbalancedParenthesis next.position)

theorem moves_literal {waiting : List Placed} {next : Placed} {symbol : Char}
    (unclosed : Unclosed waiting) (literal : next.token = .literal symbol) :
    Moves waiting next [next] waiting where
  unclosed := unclosed
  kept := by
    have alone : ungrouped [next] = [next] := by simp [ungrouped, literal, Token.isBare]
    rw [ungrouped_append, alone]
    exact List.perm_append_comm
  groups := unpartnered?_bare (by rw [literal]; rfl) _
  leaves := by
    intro rest
    rw [departures, literal]
    rfl
  run := by
    rw [List.map_singleton, literal]
    exact arrange_literal literal waiting

theorem moves_opening {waiting : List Placed} {next : Placed} (unclosed : Unclosed waiting)
    (opening : next.token = .opening) : Moves waiting next [] (next :: waiting) where
  unclosed := by
    intro top member
    rcases List.mem_cons.mp member with rfl | below
    · simp [opening]
    · exact unclosed top below
  kept := by simp [ungrouped, opening, Token.isBare]
  groups := by
    intro rest
    rw [unpartnered?, opening, opened_cons_opening opening]
  leaves := by
    intro rest
    rw [departures, opening]
    rfl
  run := by
    intro rest
    rw [arrange_opening opening, List.map_nil, prepend_nil]

theorem moves_closing {front below : List Placed} {opening next : Placed}
    (unclosed : Unclosed (front ++ opening :: below)) (opens : opening.token = .opening)
    (inside : ∀ top ∈ front, top.token ≠ .opening) (closing : next.token = .closing) :
    Moves (front ++ opening :: below) next front below where
  unclosed := by
    intro top member
    exact unclosed top (List.mem_append_right front (List.mem_cons_of_mem opening member))
  kept := by
    have group : ungrouped (opening :: below) = ungrouped below := by
      simp [ungrouped, opens, Token.isBare]
    have nothing : ungrouped [next] = [] := by simp [ungrouped, closing, Token.isBare]
    have listed := ungrouped_front (unclosed_front unclosed) inside
    rw [ungrouped_append, ungrouped_append, group, nothing, listed, List.append_nil]
  groups := by
    intro rest
    rw [unpartnered?, closing, opened_front inside opens]
    exact if_neg (List.cons_ne_nil _ _)
  leaves := departures_closing opens inside closing
  run := arrange_closing closing (closeGroup_front inside opens below)

theorem isBare_of_isOperator {token : Token} (operator : token.isOperator = true) :
    token.isBare = true := by
  cases token with
  | literal | opening | closing => cases operator
  | star | concat | union => rfl

theorem moves_released {front back : List Placed} {next : Placed}
    (unclosed : Unclosed (front ++ back)) (inside : ∀ top ∈ front, top.token ≠ .opening)
    (operator : next.token.isOperator = true)
    (leaves : ∀ rest, departures (front ++ back) (next :: rest) =
      front ++ departures (next :: back) rest)
    (run : ∀ rest, arrange (front ++ back) (next :: rest) =
      prepend (front.map Placed.token) (arrange (next :: back) rest)) :
    Moves (front ++ back) next front (next :: back) where
  unclosed := by
    intro top member
    rcases List.mem_cons.mp member with rfl | below
    · exact (ungrouped_of_isOperator operator).2
    · exact unclosed top (List.mem_append_right front below)
  kept := by
    have listed := ungrouped_front (unclosed_front unclosed) inside
    rw [← List.singleton_append, ungrouped_append, ungrouped_append, ungrouped_append, listed,
      List.append_assoc]
    exact List.Perm.append_left _ List.perm_append_comm
  groups := by
    intro rest
    have same : opened (front ++ back) = opened (next :: back) := by
      rw [opened_append, opened_eq_nil_iff.mpr inside, List.nil_append,
        opened_cons_other (ungrouped_of_isOperator operator).1]
    rw [same]
    exact unpartnered?_bare (isBare_of_isOperator operator) _ rest
  leaves := leaves
  run := run

theorem moves_operator {waiting : List Placed} {next : Placed} (unclosed : Unclosed waiting)
    (operator : next.token.isOperator = true) :
    ∃ released after, Moves waiting next released after := by
  have run := arrange_operator operator waiting
  have leaves := departures_operator operator waiting
  have split := List.takeWhile_append_dropWhile (p := yields next.token) (l := waiting)
  have inside : ∀ top ∈ waiting.takeWhile (yields next.token), top.token ≠ .opening := by
    intro top member same
    have yielding := List.all_eq_true.mp List.all_takeWhile top member
    simp [yields, same, Token.isOperator] at yielding
  generalize waiting.takeWhile (yields next.token) = front at run leaves split inside
  generalize waiting.dropWhile (yields next.token) = back at run leaves split
  subst split
  exact ⟨_, _, moves_released unclosed inside operator leaves run⟩

theorem moves_or_stops {waiting : List Placed} (unclosed : Unclosed waiting) (next : Placed) :
    (∃ released after, Moves waiting next released after) ∨ Stops waiting next := by
  cases kind : next.token with
  | literal symbol => exact Or.inl ⟨_, _, moves_literal unclosed kind⟩
  | opening => exact Or.inl ⟨_, _, moves_opening unclosed kind⟩
  | closing =>
    rcases open_or_closed waiting with closed | ⟨front, opening, below, same, opens, inside⟩
    · refine Or.inr ⟨fun rest => ?_, fun rest => ?_⟩
      · rw [unpartnered?, kind, opened_eq_nil_iff.mpr closed]
        exact if_pos rfl
      · simp [arrange, kind, closeGroup_closed closed]
    · subst same
      exact Or.inl ⟨_, _, moves_closing unclosed opens inside kind⟩
  | star | concat | union =>
    exact Or.inl (moves_operator unclosed (by rw [kind]; rfl))

/-- Arranging reorders the tokens that carry no group when every parenthesis has a partner, and
reports one that has none otherwise. -/
theorem arrange_settles {waiting : List Placed} (unclosed : Unclosed waiting)
    (placed : List Placed) :
    (unpartnered? (opened waiting) placed = none ∧
        (arrange waiting placed).1 = .ok ((departures waiting placed).map Placed.token) ∧
        (departures waiting placed).Perm (ungrouped (waiting ++ placed))) ∨
      ∃ position, unpartnered? (opened waiting) placed = some position ∧
        (arrange waiting placed).1 = .error (.unbalancedParenthesis position) := by
  induction placed generalizing waiting with
  | nil =>
    rcases open_or_closed waiting with closed | ⟨front, opening, below, same, opens, inside⟩
    · refine Or.inl ⟨?_, ?_, ?_⟩
      · rw [unpartnered?, opened_eq_nil_iff.mpr closed]
        rfl
      · rw [arrange, release_front closed, departures]
      · rw [List.append_nil, ungrouped_front unclosed closed, departures]
    · refine Or.inr ⟨opening.position, ?_, ?_⟩
      · rw [unpartnered?, same, opened_front inside opens]
        rfl
      · rw [arrange, same, release_open inside opens]
  | cons next rest ih =>
    rcases moves_or_stops unclosed next with ⟨released, after, moves⟩ | stops
    · -- what has left and what still waits are the tokens read so far
      rw [moves.groups, moves.run, moves.leaves]
      rcases ih moves.unclosed with ⟨closed, done, same⟩ | ⟨position, found, failed⟩
      · refine Or.inl ⟨closed, ?_, ?_⟩
        · simp [prepend, done, Except.map]
        · calc (released ++ departures after rest).Perm
                (released ++ (ungrouped after ++ ungrouped rest)) := by
                rw [← ungrouped_append]
                exact same.append_left released
            _ = released ++ ungrouped after ++ ungrouped rest := (List.append_assoc ..).symm
            List.Perm _ (ungrouped (waiting ++ [next]) ++ ungrouped rest) :=
                moves.kept.append_right _
            _ = ungrouped (waiting ++ next :: rest) := by
                rw [← ungrouped_append, List.append_assoc, List.singleton_append]
      · refine Or.inr ⟨position, found, ?_⟩
        simp [prepend, failed, Except.map]
    · exact Or.inr ⟨next.position, stops.strays rest, stops.run rest⟩

end Recognizer.Pattern
