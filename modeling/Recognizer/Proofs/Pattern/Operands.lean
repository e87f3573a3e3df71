import Recognizer.Proofs.Pattern.Derivation
import Recognizer.Proofs.Pattern.Grouping

/-!
Places where a pattern lacks an operand. Between neighbours an inserted concatenation makes up for
the operand that it joins, so the weight of a pattern's tokens falls short of one by the number of
missing operands. A pattern that lacks none, and whose groups nest, is one of the grammar: when it
is read from the left, every open group holds what may stand before a factor.
-/

namespace Recognizer.Pattern

namespace Token

theorem weight_eq (token : Token) :
    token.weight =
      (if token.endsOperand then 1 else 0) - (if token.startsOperand then 0 else 1) := by
  cases token <;> rfl

/-- How many operands the tokens lack, when an operand has just ended before them or not. -/
def lacking : Bool → List Token → Nat
  | ended, [] => if ended then 0 else 1
  | ended, token :: rest =>
    (if ended || token.startsOperand then 0 else 1) + lacking token.endsOperand rest

end Token

theorem weigh_insertConcats_neighbours (left right : Placed) (rest : List Placed) :
    Token.weigh ((insertConcats (left :: right :: rest)).map Placed.token) =
      left.token.weight +
        (if left.token.endsOperand && right.token.startsOperand then -1 else 0) +
        Token.weigh ((insertConcats (right :: rest)).map Placed.token) := by
  rw [insertConcats]
  split
  · simp only [List.map_cons, Token.weigh, Token.weight, Int.add_assoc]
  · simp only [List.map_cons, Token.weigh, Int.add_zero]

theorem weigh_insertConcats_cons (left : Placed) (rest : List Placed) :
    Token.weigh ((insertConcats (left :: rest)).map Placed.token) =
      left.token.weight + (if left.token.endsOperand then 0 else 1) -
        Token.lacking left.token.endsOperand (rest.map Placed.token) := by
  induction rest generalizing left with
  | nil =>
    simp only [insertConcats, List.map_cons, List.map_nil, Token.weigh, Token.lacking]
    split <;> omega
  | cons right rest ih =>
    -- a token that lacks an operand before it weighs one less than one that does not
    rw [weigh_insertConcats_neighbours, ih right, Token.weight_eq right.token, List.map_cons,
      Token.lacking]
    cases left.token.endsOperand <;> cases right.token.startsOperand <;>
      cases right.token.endsOperand <;>
      simp only [Bool.and_true, Bool.and_false, Bool.or_true, Bool.or_false, Bool.false_eq_true,
        ↓reduceIte] <;> omega

/-- The weight of a pattern's tokens, with the inserted ones, falls short of one by the operands
that are missing. -/
theorem weigh_insertConcats (placed : List Placed) :
    Token.weigh ((insertConcats placed).map Placed.token) =
      1 - Token.lacking false (placed.map Placed.token) := by
  cases placed with
  | nil => rfl
  | cons first rest =>
    rw [weigh_insertConcats_cons, Token.weight_eq, List.map_cons, Token.lacking]
    cases first.token.startsOperand <;> cases first.token.endsOperand <;>
      simp only [Bool.false_or, Bool.false_eq_true, ↓reduceIte] <;> omega

inductive Alternatives : List Token → Prop
  | none : Alternatives []
  | some {tokens : List Token} {tree : Tree} :
      Derives .union tokens tree → Alternatives (tokens ++ [.union])

inductive Slot : List Token → Prop
  | first {before : List Token} : Alternatives before → Slot before
  | beside {before tokens : List Token} {tree : Tree} :
      Alternatives before → Derives .concat tokens tree → Slot (before ++ tokens)
  | dotted {before tokens : List Token} {tree : Tree} :
      Alternatives before → Derives .concat tokens tree → Slot (before ++ (tokens ++ [.concat]))

inductive Ended : List Token → Prop
  | factor {front tokens : List Token} {tree : Tree} :
      Slot front → Derives .factor tokens tree → Ended (front ++ tokens)

/-- The factor is the last one of its sequence. -/
theorem sequence_of_ended {text : List Token} (ended : Ended text) :
    ∃ before tokens tree, text = before ++ tokens ∧ Alternatives before ∧
      Derives .concat tokens tree := by
  obtain ⟨slot, factor⟩ := ended
  cases slot with
  | first alternatives => exact ⟨_, _, _, rfl, alternatives, .factor factor⟩
  | beside alternatives sequence =>
    exact ⟨_, _, _, List.append_assoc .., alternatives, .beside sequence factor⟩
  | dotted alternatives sequence =>
    refine ⟨_, _, _, ?_, alternatives, .dotted sequence factor⟩
    simp

theorem phrase_of_ended {text : List Token} (ended : Ended text) :
    ∃ tree, Derives .union text tree := by
  obtain ⟨before, tokens, tree, same, alternatives, sequence⟩ := sequence_of_ended ended
  subst same
  cases alternatives with
  | none => exact ⟨tree, .concat sequence⟩
  | some phrase =>
    have whole := Derives.union phrase sequence
    exact ⟨_, by simpa using whole⟩

/-- A group so far: an operand has just ended, or one may follow. -/
def Stands (ended : Bool) (text : List Token) : Prop :=
  if ended then Ended text else Slot text

theorem slot_of_stands {ended : Bool} {text : List Token} (stands : Stands ended text) :
    Slot text := by
  cases ended with
  | false => exact stands
  | true =>
    obtain ⟨before, tokens, tree, same, alternatives, sequence⟩ := sequence_of_ended stands
    subst same
    exact .beside alternatives sequence

theorem stands_literal {ended : Bool} {text : List Token} {symbol : Char}
    (stands : Stands ended text) (letter : symbol.isAlphanum = true) :
    Stands true (text ++ [.literal symbol]) :=
  Ended.factor (slot_of_stands stands) (.atom (.literal letter))

theorem stands_star {text : List Token} (stands : Stands true text) :
    Stands true (text ++ [.star]) := by
  obtain ⟨slot, factor⟩ := stands
  rw [List.append_assoc]
  exact Ended.factor slot (.star factor)

theorem stands_group {outer text : List Token} (slot : Slot outer) (stands : Stands true text) :
    Stands true (outer ++ (.opening :: text ++ [.closing])) := by
  obtain ⟨tree, phrase⟩ := phrase_of_ended stands
  exact Ended.factor slot (.atom (.group phrase))

theorem stands_concat {text : List Token} (stands : Stands true text) :
    Stands false (text ++ [.concat]) := by
  obtain ⟨before, tokens, tree, same, alternatives, sequence⟩ := sequence_of_ended stands
  subst same
  rw [List.append_assoc]
  exact Slot.dotted alternatives sequence

theorem stands_union {text : List Token} (stands : Stands true text) :
    Stands false (text ++ [.union]) := by
  obtain ⟨tree, phrase⟩ := phrase_of_ended stands
  exact Slot.first (.some phrase)

def enclose : List (List Token) → List Token → List Token
  | [], text => text
  | outer :: frames, text => enclose frames (outer ++ .opening :: text)

theorem derives_enclosed {frames : List (List Token)} {ended : Bool} {text rest : List Token}
    (slots : ∀ frame ∈ frames, Slot frame) (stands : Stands ended text)
    (letters : ∀ symbol, .literal symbol ∈ rest → symbol.isAlphanum = true)
    (nests : Nests frames.length rest) (full : Token.lacking ended rest = 0) :
    ∃ tree, Derives .union (enclose frames (text ++ rest)) tree := by
  induction rest generalizing frames ended text with
  | nil =>
    cases List.length_eq_zero_iff.mp nests
    rw [List.append_nil]
    cases ended with
    | false => cases full
    | true => exact phrase_of_ended stands
  | cons token rest ih =>
    have later (symbol : Char) (member : .literal symbol ∈ rest) : symbol.isAlphanum = true :=
      letters symbol (List.mem_cons_of_mem token member)
    obtain ⟨here, behind⟩ := Nat.add_eq_zero_iff.mp full
    -- only a token that starts an operand may come where none has ended
    have placed : token.startsOperand = false → ended = true := by
      intro apart
      cases ended with
      | true => rfl
      | false => simp [apart] at here
    have snoc : text ++ token :: rest = text ++ [token] ++ rest := by simp
    cases token with
    | literal symbol =>
      rw [snoc]
      have letter := letters symbol List.mem_cons_self
      exact ih slots (stands_literal stands letter) later nests behind
    | opening =>
      -- what stands before the parenthesis waits as a frame for the group to end
      have inner : Stands false [] := Slot.first .none
      exact ih (List.forall_mem_cons.mpr ⟨slot_of_stands stands, slots⟩) inner later nests behind
    | closing =>
      cases placed rfl
      obtain ⟨opened, nests⟩ := nests
      cases frames with
      | nil => cases opened
      | cons outer frames =>
        obtain ⟨slot, slots⟩ := List.forall_mem_cons.mp slots
        have closed := ih slots (stands_group slot stands) later nests behind
        simpa [enclose] using closed
    | star =>
      cases placed rfl
      rw [snoc]
      exact ih slots (stands_star stands) later nests behind
    | concat =>
      cases placed rfl
      rw [snoc]
      exact ih slots (stands_concat stands) later nests behind
    | union =>
      cases placed rfl
      rw [snoc]
      exact ih slots (stands_union stands) later nests behind

/-- Tokens whose groups nest and that lack no operand belong to the grammar. -/
theorem derives_of_lacking {tokens : List Token}
    (letters : ∀ symbol, .literal symbol ∈ tokens → symbol.isAlphanum = true)
    (nests : Nests 0 tokens) (full : Token.lacking false tokens = 0) :
    ∃ tree, Derives .union tokens tree := by
  have start : Stands false [] := Slot.first .none
  exact derives_enclosed (List.forall_mem_nil Slot) start letters nests full

/-- A token is written, or it is a concatenation between operands side by side. -/
theorem mem_insertConcats {placed : Placed} {given : List Placed}
    (member : placed ∈ insertConcats given) :
    placed ∈ given ∨ ∃ place left right, given[place]? = some left ∧
      given[place + 1]? = some right ∧ left.token.endsOperand = true ∧
        right.token.startsOperand = true ∧ placed = ⟨.concat, right.position⟩ := by
  fun_induction insertConcats given with
  | case1 => cases member
  | case2 last => exact Or.inl member
  | case3 left right rest meets ih =>
    rcases List.mem_cons.mp member with same | later
    · exact Or.inl (same ▸ List.mem_cons_self)
    · rcases List.mem_cons.mp later with inserted | later
      · obtain ⟨ends, starts⟩ := Bool.and_eq_true_iff.mp meets
        exact Or.inr ⟨0, left, right, rfl, rfl, ends, starts, inserted⟩
      · rcases ih later with written | ⟨place, between⟩
        · exact Or.inl (List.mem_cons_of_mem left written)
        · exact Or.inr ⟨place + 1, between⟩
  | case4 left right rest apart ih =>
    rcases List.mem_cons.mp member with same | later
    · exact Or.inl (same ▸ List.mem_cons_self)
    · rcases ih later with written | ⟨place, between⟩
      · exact Or.inl (List.mem_cons_of_mem left written)
      · exact Or.inr ⟨place + 1, between⟩

/-- An inserted concatenation opens and closes nothing. -/
theorem unpartnered?_insertConcats (positions : List Nat) (placed : List Placed) :
    unpartnered? positions (insertConcats placed) = unpartnered? positions placed := by
  induction placed generalizing positions with
  | nil => rfl
  | cons left rest ih =>
    cases rest with
    | nil => rfl
    | cons right rest =>
      rw [insertConcats]
      split
      · rw [unpartnered?_cons_congr fun positions => unpartnered?_bare rfl positions _]
        exact unpartnered?_cons_congr ih left positions
      · exact unpartnered?_cons_congr ih left positions

/-- Nothing but groups, none beside another. -/
theorem bare_insertConcats_eq_nil_iff {placed : List Placed} :
    bare (insertConcats placed) = [] ↔ ∃ opens closes, placed.map Placed.token =
      List.replicate opens .opening ++ List.replicate closes .closing := by
  induction placed with
  | nil => exact ⟨fun _ => ⟨0, 0, rfl⟩, fun _ => rfl⟩
  | cons left rest ih =>
    have split : bare (insertConcats (left :: rest)) =
        bare [left] ++ bare (joint (some left) rest.head?) ++ bare (insertConcats rest) := by
      rw [← List.singleton_append, insertConcats_append, bare_append, bare_append]
      rfl
    rw [split, List.append_eq_nil_iff, List.append_eq_nil_iff, ih, List.map_cons]
    constructor
    · rintro ⟨⟨single, between⟩, opens, closes, same⟩
      cases kind : left.token with
      | opening => exact ⟨opens + 1, closes, by rw [same]; rfl⟩
      | closing =>
        cases opens with
        | zero => exact ⟨0, closes + 1, by rw [same]; rfl⟩
        | succ opens =>
          -- a group behind a group would take a concatenation between them
          have head : (rest.map Placed.token).head? = some .opening := by rw [same]; rfl
          have ends : left.token.endsOperand = true := by rw [kind]; rfl
          have last : ([left].map Placed.token).getLast? = some left.token := rfl
          obtain ⟨next, operator, inserted⟩ := joint_operands last ends head rfl
          rw [List.getLast?_singleton] at inserted
          simp [inserted, bare, operator, Token.isBare] at between
      | literal | star | concat | union => simp [bare, kind, Token.isBare] at single
    · rintro ⟨opens, closes, same⟩
      cases opens with
      | succ opens =>
        obtain ⟨opening, tail⟩ := List.cons.inj same
        refine ⟨⟨by simp [bare, opening, Token.isBare], ?_⟩, opens, closes, tail⟩
        cases rest with
        | nil => rfl
        | cons right rest => simp [joint, opening, Token.endsOperand, bare]
      | zero =>
        cases closes with
        | zero => cases same
        | succ closes =>
          obtain ⟨closing, tail⟩ := List.cons.inj same
          refine ⟨⟨by simp [bare, closing, Token.isBare], ?_⟩, 0, closes, tail⟩
          have apart : ∀ next ∈ rest.head?, next.token.startsOperand = false := by
            intro next head
            have member := List.mem_map_of_mem (f := Placed.token) (List.mem_of_mem_head? head)
            rw [tail] at member
            rw [List.eq_of_mem_replicate member]
            rfl
          rw [joint_apart apart]
          rfl

theorem nests_closings_iff (depth closes : Nat) :
    Nests depth (List.replicate closes .closing) ↔ depth = closes := by
  induction closes generalizing depth with
  | zero => exact Iff.rfl
  | succ closes ih =>
    rw [List.replicate_succ, Nests, ih]
    omega

theorem nests_replicate_iff (depth opens closes : Nat) :
    Nests depth (List.replicate opens .opening ++ List.replicate closes .closing) ↔
      depth + opens = closes := by
  induction opens generalizing depth with
  | zero => exact nests_closings_iff depth closes
  | succ opens ih =>
    rw [List.replicate_succ, List.cons_append, Nests, ih]
    omega

end Recognizer.Pattern
