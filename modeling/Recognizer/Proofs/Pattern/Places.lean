import Recognizer.Proofs.Pattern.Shape

/-!
Where the tokens of a listing come from. A token of a pattern keeps the position of its character,
and an inserted concatenation that of the operand on its right. In front of a token the listing
lacks the parentheses that are written there and the tokens that wait until later; instead it has
the inserted concatenations and the tokens that leave early, though they are written behind it.
-/

namespace Recognizer.Pattern

/-- Two operands stand side by side, and a concatenation goes in front of the second one. -/
def Joined (pattern : List Char) (position : Nat) : Prop :=
  ∃ place left right, position = place + 1 ∧
    pattern[place]? = some left ∧ (left.isAlphanum = true ∨ left ∈ [')', '*']) ∧
    pattern[position]? = some right ∧ (right.isAlphanum = true ∨ right = '(')

/-- The operator is written at the position, or is a concatenation that is inserted in front of the
character there. -/
def StandsAt (pattern : List Char) (operator : Char) (position : Nat) : Prop :=
  position < pattern.length ∧
    (pattern[position]? = some operator ∨ operator = '.' ∧ Joined pattern position)

def joints : List Token → Nat
  | left :: right :: rest =>
    (if left.endsOperand && right.startsOperand then 1 else 0) + joints (right :: rest)
  | _ => 0

theorem placedFrom_append (position : Nat) (front back : List Token) :
    placedFrom position (front ++ back) =
      placedFrom position front ++ placedFrom (position + front.length) back := by
  induction front generalizing position with
  | nil => rfl
  | cons token rest ih =>
    rw [List.cons_append, placedFrom, placedFrom, ih, List.cons_append, List.length_cons,
      Nat.add_assoc, Nat.add_comm 1]

theorem getElem?_placedFrom (position : Nat) (tokens : List Token) (place : Nat) :
    (placedFrom position tokens)[place]? = tokens[place]?.map (⟨·, position + place⟩) := by
  induction tokens generalizing position place with
  | nil => rfl
  | cons token rest ih =>
    cases place with
    | zero => rfl
    | succ place =>
      rw [placedFrom, List.getElem?_cons_succ, List.getElem?_cons_succ, ih, Nat.add_right_comm,
        Nat.add_assoc]

theorem length_placedFrom (position : Nat) (tokens : List Token) :
    (placedFrom position tokens).length = tokens.length := by
  rw [← List.length_map Placed.token, map_placedFrom]

/-- An inserted concatenation has the position of a token, so it is in the same bounds. -/
theorem position_insertConcats {position : Nat} {tokens : List Token} {placed : Placed}
    (member : placed ∈ insertConcats (placedFrom position tokens)) :
    position ≤ placed.position ∧ placed.position < position + tokens.length := by
  rcases mem_insertConcats member with written | ⟨place, left, right, _, stands, _, _, inserted⟩
  · exact position_placedFrom written
  · have bounds := position_placedFrom (List.mem_of_getElem? stands)
    rw [inserted]
    exact bounds

theorem position_joint {left right : Option Placed} {placed : Placed}
    (member : placed ∈ joint left right) : ∃ next ∈ right, placed.position = next.position := by
  cases left with
  | none => cases member
  | some before =>
    cases right with
    | none => cases member
    | some next =>
      rw [joint] at member
      split at member
      case isTrue =>
        cases List.mem_singleton.mp member
        exact ⟨next, rfl, rfl⟩
      case isFalse => cases member

/-- In front of a place stand the first tokens with what is inserted between them. -/
theorem filter_before (tokens : List Token) {place : Nat} (within : place ≤ tokens.length) :
    (insertConcats (placedFrom 0 tokens)).filter (·.position < place) =
      insertConcats (placedFrom 0 (tokens.take place)) := by
  have width : (tokens.take place).length = place := List.length_take_of_le within
  have split := placedFrom_append 0 (tokens.take place) (tokens.drop place)
  rw [List.take_append_drop, width, Nat.zero_add] at split
  have early : ∀ placed ∈ insertConcats (placedFrom 0 (tokens.take place)),
      placed.position < place := by
    intro placed member
    have bounds := position_insertConcats member
    omega
  have late : ∀ placed ∈ insertConcats (placedFrom place (tokens.drop place)),
      ¬placed.position < place := by
    intro placed member
    exact Nat.not_lt.mpr (position_insertConcats member).1
  have between : ∀ placed ∈ joint (placedFrom 0 (tokens.take place)).getLast?
      (placedFrom place (tokens.drop place)).head?, ¬placed.position < place := by
    intro placed member
    obtain ⟨next, head, same⟩ := position_joint member
    rw [same]
    exact Nat.not_lt.mpr (position_placedFrom (List.mem_of_mem_head? head)).1
  rw [split, insertConcats_append, List.filter_append, List.filter_append,
    List.filter_eq_self.mpr (by simpa using early),
    List.filter_eq_nil_iff.mpr (by simpa using between),
    List.filter_eq_nil_iff.mpr (by simpa using late), List.append_nil, List.append_nil]

theorem length_ungrouped_insertConcats (placed : List Placed) :
    (ungrouped (insertConcats placed)).length + (placed.map Placed.token).countP (!·.isBare) =
      placed.length + joints (placed.map Placed.token) := by
  fun_induction insertConcats placed with
  | case1 => rfl
  | case2 last => cases bare : last.token.isBare <;> simp [ungrouped, joints, bare]
  | case3 left right rest meets ih =>
    have inserted : (⟨.concat, right.position⟩ : Placed).token.isBare = true := rfl
    simp only [ungrouped, List.map_cons, joints, List.filter_cons, inserted, meets, if_true,
      List.countP_cons, List.length_cons] at ih ⊢
    cases left.token.isBare <;> simp only [Bool.not_true, Bool.not_false, Bool.false_eq_true,
      if_true, if_false, List.length_cons] <;> omega
  | case4 left right rest apart ih =>
    simp only [ungrouped, List.map_cons, joints, List.filter_cons, apart, Bool.false_eq_true,
      if_false, List.countP_cons, List.length_cons] at ih ⊢
    cases left.token.isBare <;> simp only [Bool.not_true, Bool.not_false, Bool.false_eq_true,
      if_true, if_false, List.length_cons] <;> omega

section Read

variable {pattern : List Char} {tokens : List Token}

theorem getElem?_of_placed (read : Token.read pattern = .ok tokens) {placed : Placed}
    {place : Nat} (stands : (placedFrom 0 tokens)[place]? = some placed) :
    placed.position = place ∧ placed.token ∈ tokens ∧
      pattern[place]? = some placed.token.toChar := by
  have spelled := Token.text_of_read read
  subst spelled
  rw [getElem?_placedFrom, Nat.zero_add] at stands
  obtain ⟨token, there, same⟩ := Option.map_eq_some_iff.mp stands
  subst same
  refine ⟨rfl, List.mem_of_getElem? there, ?_⟩
  rw [Token.text, List.getElem?_map, there]
  rfl

theorem standsAt_of_mem (read : Token.read pattern = .ok tokens) {placed : Placed}
    (member : placed ∈ insertConcats (placedFrom 0 tokens)) :
    StandsAt pattern placed.token.toChar placed.position := by
  have within := (position_insertConcats member).2
  rw [Nat.zero_add, Token.length_of_read read] at within
  refine ⟨within, ?_⟩
  rcases mem_insertConcats member with written | ⟨place, left, right, first, second, between⟩
  · obtain ⟨place, stands⟩ := List.mem_iff_getElem?.mp written
    obtain ⟨same, _, there⟩ := getElem?_of_placed read stands
    exact Or.inl (same ▸ there)
  · obtain ⟨ends, starts, inserted⟩ := between
    subst inserted
    obtain ⟨_, leftMember, before⟩ := getElem?_of_placed read first
    obtain ⟨same, rightMember, behind⟩ := getElem?_of_placed read second
    rw [← endsOperand_toChar (Token.ofChar?_of_read read leftMember)] at ends
    rw [← startsOperand_toChar (Token.ofChar?_of_read read rightMember)] at starts
    refine Or.inr ⟨rfl, place, _, _, same, before, ?_, same ▸ behind, ?_⟩
    · simpa using ends
    · simpa using starts

/-- A token's places in the pattern and in the listing, and what makes the difference. -/
theorem place_balance {ahead behind : List Placed} {next : Placed}
    (same : (ahead ++ next :: behind).Perm (ungrouped (insertConcats (placedFrom 0 tokens)))) :
    ahead.length + (tokens.take next.position).countP (!·.isBare) +
        behind.countP (·.position < next.position) =
      next.position + joints (tokens.take next.position) +
        ahead.countP (next.position ≤ ·.position) := by
  have member := (List.mem_filter.mp (same.subset (List.mem_append_right _ List.mem_cons_self))).1
  have within : next.position ≤ tokens.length := by
    have bounds := position_insertConcats member
    omega
  have before : (ahead ++ next :: behind).countP (·.position < next.position) =
      (ungrouped (insertConcats (placedFrom 0 (tokens.take next.position)))).length := by
    rw [same.countP_eq, ← filter_before tokens within, List.countP_eq_length_filter, ungrouped,
      ungrouped, List.filter_filter, List.filter_filter]
    simp only [Bool.and_comm]
  have written := length_ungrouped_insertConcats (placedFrom 0 (tokens.take next.position))
  rw [map_placedFrom, length_placedFrom, List.length_take_of_le within, ← before] at written
  have counted : (ahead ++ next :: behind).countP (·.position < next.position) =
      ahead.countP (·.position < next.position) +
        behind.countP (·.position < next.position) := by
    simp [List.countP_append]
  have parted : ahead.length = ahead.countP (·.position < next.position) +
      ahead.countP (next.position ≤ ·.position) := by
    simpa using ahead.length_eq_countP_add_countP (·.position < next.position)
  omega

end Read

end Recognizer.Pattern
