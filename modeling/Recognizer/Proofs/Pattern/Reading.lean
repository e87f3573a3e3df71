import Recognizer.Pattern.Syntax

/-!
Trees read back from postorder. A stack of trees takes in one token after another, an operator in
exchange for its operands, and what has been taken in is the listing of the stack. A literal adds an
operand and a binary operator takes one away, so the listing of a tree weighs one; the weight also
tells two spellings of one text apart.
-/

namespace Recognizer.Pattern

namespace Tree

/-- What a token does to a stack of trees, unless operands are missing. -/
def shift? : Token → List Tree → Option (List Tree)
  | .literal symbol, stack => some (literal symbol :: stack)
  | .union, right :: left :: stack => some (union left right :: stack)
  | .concat, right :: left :: stack => some (concat left right :: stack)
  | .star, inner :: stack => some (star inner :: stack)
  | _, _ => none

def takeIn? : List Token → List Tree → Option (List Tree)
  | [], stack => some stack
  | token :: rest, stack => (shift? token stack).bind (takeIn? rest)

def listing : List Tree → List Token
  | [] => []
  | tree :: stack => listing stack ++ tree.postorder

theorem takeIn?_append (front back : List Token) (stack : List Tree) :
    takeIn? (front ++ back) stack = (takeIn? front stack).bind (takeIn? back) := by
  induction front generalizing stack with
  | nil => rfl
  | cons token rest ih =>
    simp only [List.cons_append, takeIn?]
    cases shift? token stack with
    | none => rfl
    | some after => exact ih after

theorem takeIn?_postorder (tree : Tree) (stack : List Tree) :
    takeIn? tree.postorder stack = some (tree :: stack) := by
  induction tree generalizing stack with
  | literal symbol => rfl
  | union left right leftIH rightIH | concat left right leftIH rightIH =>
    rw [postorder, takeIn?_append, takeIn?_append, leftIH, Option.bind_some, rightIH]
    rfl
  | star inner ih =>
    rw [postorder, takeIn?_append, ih]
    rfl

theorem postorder_injective {tree other : Tree} (same : tree.postorder = other.postorder) :
    tree = other := by
  have read := takeIn?_postorder tree []
  rw [same, takeIn?_postorder other []] at read
  cases read
  rfl

theorem listing_shift? {token : Token} {stack after : List Tree}
    (shifted : shift? token stack = some after) : listing after = listing stack ++ [token] := by
  cases token with
  | literal symbol =>
    cases shifted
    rfl
  | opening | closing => cases shifted
  | star =>
    rcases stack with _ | ⟨inner, stack⟩
    · cases shifted
    · cases shifted
      exact (List.append_assoc ..).symm
  | union | concat =>
    rcases stack with _ | ⟨right, _ | ⟨left, stack⟩⟩
    · cases shifted
    · cases shifted
    · cases shifted
      simp [listing, postorder]

theorem listing_takeIn? {tokens : List Token} {stack after : List Tree}
    (taken : takeIn? tokens stack = some after) : listing after = listing stack ++ tokens := by
  induction tokens generalizing stack with
  | nil =>
    cases taken
    simp
  | cons token rest ih =>
    obtain ⟨middle, shifted, later⟩ := Option.bind_eq_some_iff.mp taken
    rw [ih later, listing_shift? shifted, List.append_assoc, List.singleton_append]

/-- The tokens that a stack takes in and leaves one tree of are the postorder of that tree. -/
theorem takeIn?_eq_single_iff {tokens : List Token} {tree : Tree} :
    takeIn? tokens [] = some [tree] ↔ tokens = tree.postorder := by
  constructor
  · intro taken
    exact (listing_takeIn? taken).symm
  · intro same
    rw [same]
    exact takeIn?_postorder tree []

end Tree

namespace Token

/-- How many operands a token adds to a stack. -/
def weight : Token → Int
  | literal _ => 1
  | concat | union => -1
  | star | opening | closing => 0

def weigh : List Token → Int
  | [] => 0
  | token :: rest => token.weight + weigh rest

theorem weigh_append (front back : List Token) :
    weigh (front ++ back) = weigh front + weigh back := by
  induction front with
  | nil => simp [weigh]
  | cons token rest ih =>
    simp only [List.cons_append, weigh, ih]
    omega

theorem weigh_perm {tokens others : List Token} (same : tokens.Perm others) :
    weigh tokens = weigh others := by
  induction same with
  | nil => rfl
  | cons token _ ih => rw [weigh, weigh, ih]
  | swap first second rest =>
    simp only [weigh]
    omega
  | trans _ _ first second => exact first.trans second

theorem weigh_postorder (tree : Tree) : weigh tree.postorder = 1 := by
  induction tree with
  | literal symbol => rfl
  | union left right leftIH rightIH | concat left right leftIH rightIH =>
    simp [Tree.postorder, weigh_append, leftIH, rightIH, weigh, weight]
  | star inner ih => simp [Tree.postorder, weigh_append, ih, weigh, weight]

def isBare : Token → Bool
  | opening | closing => false
  | literal _ | star | concat | union => true

theorem weigh_filter_isBare (tokens : List Token) :
    weigh (tokens.filter isBare) = weigh tokens := by
  induction tokens with
  | nil => rfl
  | cons token rest ih =>
    cases token with
    | opening | closing =>
      rw [List.filter_cons_of_neg Bool.false_ne_true, ih, weigh]
      exact (Int.zero_add _).symm
    | literal symbol | star | concat | union => rw [List.filter_cons_of_pos rfl, weigh, weigh, ih]

theorem isBare_of_mem_postorder {tree : Tree} {token : Token} (member : token ∈ tree.postorder) :
    token.isBare = true := by
  induction tree with
  | literal symbol =>
    cases List.mem_singleton.mp member
    rfl
  | union left right leftIH rightIH | concat left right leftIH rightIH =>
    simp only [Tree.postorder, List.mem_append, List.mem_singleton] at member
    rcases member with (before | before) | last
    · exact leftIH before
    · exact rightIH before
    · subst last
      rfl
  | star inner ih =>
    simp only [Tree.postorder, List.mem_append, List.mem_singleton] at member
    rcases member with before | last
    · exact ih before
    · subst last
      rfl

/-- A literal that is written as an operator weighs more than the operator. -/
theorem weight_le_of_toChar {token other : Token} (spelled : ofChar? token.toChar = some token)
    (bare : token.isBare = true) (otherBare : other.isBare = true)
    (same : other.toChar = token.toChar) :
    token = other ∨ token.weight < other.weight := by
  cases other with
  | literal symbol =>
    cases token with
    | literal letter => exact Or.inl (congrArg literal same.symm)
    | star | concat | union => exact Or.inr (by simp [weight])
    | opening | closing => cases bare
  | opening | closing => cases otherBare
  | star | concat | union =>
    rw [← same] at spelled
    exact Or.inl (Option.some.inj spelled).symm

theorem read_text_iff {tokens : List Token} :
    read (text tokens) = .ok tokens ↔ ∀ token ∈ tokens, ofChar? token.toChar = some token := by
  rw [read_ok_iff, text, List.map_map, List.map_inj_left]
  exact Iff.rfl

theorem ofChar?_of_read {characters : List Char} {tokens : List Token}
    (done : read characters = .ok tokens) {token : Token} (member : token ∈ tokens) :
    ofChar? token.toChar = some token := by
  have same := text_of_read done
  subst same
  exact read_text_iff.mp done token member

theorem readFrom_append (position : Nat) (front back : List Char) :
    readFrom position (front ++ back) = (readFrom position front).bind fun tokens =>
      (readFrom (position + front.length) back).map (tokens ++ ·) := by
  induction front generalizing position with
  | nil =>
    change readFrom position back = (readFrom position back).map fun tokens => tokens
    cases readFrom position back <;> rfl
  | cons character rest ih =>
    rw [List.cons_append, readFrom, readFrom, List.length_cons, Nat.add_comm rest.length,
      ← Nat.add_assoc]
    cases ofChar? character with
    | none => rfl
    | some token =>
      change (readFrom (position + 1) (rest ++ back)).map (token :: ·) = _
      rw [ih]
      cases readFrom (position + 1) rest with
      | error malformed => rfl
      | ok tokens => cases readFrom (position + 1 + rest.length) back <;> rfl

/-- Where a text stands shows only if it is refused. -/
theorem readFrom_of_read {text : List Char} {tokens : List Token} (done : read text = .ok tokens)
    (position : Nat) : readFrom position text = .ok tokens :=
  readFrom_ok_iff.mpr (read_ok_iff.mp done)

theorem length_of_read {text : List Char} {tokens : List Token} (done : read text = .ok tokens) :
    tokens.length = text.length := by
  rw [← text_of_read done, Token.text, List.length_map]

theorem read_append {front back : List Char} {tokens others : List Token}
    (first : read front = .ok tokens) (second : read back = .ok others) :
    read (front ++ back) = .ok (tokens ++ others) := by
  rw [read, readFrom_append, readFrom_of_read first, Except.bind, readFrom_of_read second]
  rfl

theorem ne_parenthesis_of_ofChar? {character symbol : Char}
    (known : ofChar? character = some (literal symbol)) : character ≠ '(' ∧ character ≠ ')' := by
  constructor
  · rintro rfl
    cases known
  · rintro rfl
    cases known

theorem eq_or_weigh_lt_of_text {tokens others : List Token}
    (spelled : ∀ token ∈ tokens, ofChar? token.toChar = some token)
    (bare : ∀ token ∈ tokens, token.isBare = true)
    (othersBare : ∀ token ∈ others, token.isBare = true)
    (same : text others = text tokens) : tokens = others ∨ weigh tokens < weigh others := by
  induction tokens generalizing others with
  | nil =>
    cases others with
    | nil => exact Or.inl rfl
    | cons other rest => cases same
  | cons token rest ih =>
    cases others with
    | nil => cases same
    | cons other others =>
      obtain ⟨head, tail⟩ := List.cons.inj same
      rw [List.forall_mem_cons] at spelled bare othersBare
      have later := ih spelled.2 bare.2 othersBare.2 tail
      -- one lighter token is enough, since no token of the spelled text is heavier than its other
      rcases weight_le_of_toChar spelled.1 bare.1 othersBare.1 head with equal | lighter
      · subst equal
        rcases later with equal | lighter
        · exact Or.inl (congrArg (token :: ·) equal)
        · exact Or.inr (Int.add_lt_add_left lighter token.weight)
      · apply Or.inr
        simp only [weigh]
        rcases later with equal | below
        · subst equal
          exact Int.add_lt_add_right lighter _
        · exact Int.add_lt_add lighter below

end Token

/-- A text is the postorder of one tree at most, whatever the literals of the other are. -/
theorem postorder_unique {text : List Char} {tree other : Tree}
    (read : Token.read text = .ok tree.postorder) (same : Token.text other.postorder = text) :
    other = tree := by
  have spells := Token.text_of_read read
  rcases Token.eq_or_weigh_lt_of_text (fun _ => Token.ofChar?_of_read read)
    (fun _ => Token.isBare_of_mem_postorder) (fun _ => Token.isBare_of_mem_postorder)
    (same.trans spells.symm) with equal | lighter
  · exact (Tree.postorder_injective equal).symm
  · rw [Token.weigh_postorder, Token.weigh_postorder] at lighter
    exact absurd lighter (Int.lt_irrefl 1)

end Recognizer.Pattern
