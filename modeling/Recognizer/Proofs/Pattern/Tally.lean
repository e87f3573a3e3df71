import Recognizer.Proofs.Pattern.Shape

/-!
The literals of a pattern, and how often each token stands in a text. A text and its tokens are
counted alike, letters and digits together and every operator by itself, so what a builder adds up
over tokens can be read off the text. Each literal of a tree stands in some word that the tree
matches, since every tree matches some word.
-/

namespace Recognizer.Pattern

def letters (pattern : List Char) : List Char := pattern.filter Char.isAlphanum

namespace Tree

theorem exists_matches (tree : Tree) : ∃ word, tree.Matches word := by
  induction tree with
  | literal symbol => exact ⟨[symbol], Matches.literal symbol⟩
  | union left right leftIH _ => exact leftIH.imp fun _ => Matches.left
  | concat left right leftIH rightIH =>
    obtain ⟨front, first⟩ := leftIH
    obtain ⟨back, second⟩ := rightIH
    exact ⟨front ++ back, Matches.concat first second⟩
  | star inner _ => exact ⟨[], Matches.starEmpty inner⟩

theorem matches_of_mem_postorder {tree : Tree} {symbol : Char}
    (member : .literal symbol ∈ tree.postorder) : ∃ word, tree.Matches word ∧ symbol ∈ word := by
  induction tree with
  | literal letter =>
    cases List.mem_singleton.mp member
    exact ⟨[symbol], Matches.literal symbol, List.mem_singleton_self symbol⟩
  | union left right leftIH rightIH =>
    simp only [postorder, List.mem_append, List.mem_singleton, reduceCtorEq, or_false] at member
    rcases member with before | behind
    · obtain ⟨word, matched, inside⟩ := leftIH before
      exact ⟨word, Matches.left matched, inside⟩
    · obtain ⟨word, matched, inside⟩ := rightIH behind
      exact ⟨word, Matches.right matched, inside⟩
  | concat left right leftIH rightIH =>
    simp only [postorder, List.mem_append, List.mem_singleton, reduceCtorEq, or_false] at member
    rcases member with before | behind
    · obtain ⟨front, first, inside⟩ := leftIH before
      obtain ⟨back, second⟩ := exists_matches right
      exact ⟨front ++ back, Matches.concat first second, List.mem_append_left back inside⟩
    · obtain ⟨front, first⟩ := exists_matches left
      obtain ⟨back, second, inside⟩ := rightIH behind
      exact ⟨front ++ back, Matches.concat first second, List.mem_append_right front inside⟩
  | star inner ih =>
    simp only [postorder, List.mem_append, List.mem_singleton, reduceCtorEq, or_false] at member
    obtain ⟨word, matched, inside⟩ := ih member
    -- one round of the star is enough
    exact ⟨word ++ [], Matches.starMore matched (Matches.starEmpty inner),
      List.mem_append_left [] inside⟩

end Tree

namespace Token

def isLiteral : Token → Bool
  | literal _ => true
  | star | concat | union | opening | closing => false

def literals (tokens : List Token) : List Char := text (tokens.filter isLiteral)

theorem literals_append (front back : List Token) :
    literals (front ++ back) = literals front ++ literals back := by
  rw [literals, text, List.filter_append, List.map_append]
  rfl

theorem count_literals (tokens : List Token) (symbol : Char) :
    (literals tokens).count symbol = tokens.count (.literal symbol) := by
  rw [literals, text, List.count, List.countP_map, List.countP_filter, List.count]
  apply List.countP_congr
  intro token _
  cases token with
  | literal letter => simp [toChar, isLiteral]
  | star | concat | union | opening | closing => simp [isLiteral]

theorem mem_literals {tokens : List Token} {symbol : Char} :
    symbol ∈ literals tokens ↔ .literal symbol ∈ tokens := by
  rw [← List.count_pos_iff, count_literals, List.count_pos_iff]

theorem weigh_eq_counts (tokens : List Token) :
    weigh tokens = tokens.countP isLiteral - tokens.count .union - tokens.count .concat := by
  induction tokens with
  | nil => rfl
  | cons token rest ih =>
    rw [weigh, ih]
    cases token with
    | literal | concat | union =>
      simp [weight, isLiteral, List.countP_cons]
      omega
    | star | opening | closing => simp [weight, isLiteral]

end Token

section Read

variable {text : List Char} {tokens : List Token}

theorem count_of_read (read : Token.read text = .ok tokens) {character : Char} {token : Token}
    (spells : Token.ofChar? character = some token) :
    text.count character = tokens.count token := by
  have spelled := Token.text_of_read read
  subst spelled
  rw [Token.text, List.count, List.countP_map, List.count]
  apply List.countP_congr
  intro other member
  have known := Token.ofChar?_of_read read member
  simp only [Function.comp_apply, beq_iff_eq]
  constructor
  · intro same
    rw [same, spells] at known
    exact (Option.some.inj known).symm
  · intro same
    rw [same]
    exact Token.toChar_of_ofChar? spells

theorem filter_of_read (read : Token.read text = .ok tokens) {keeps : Char → Bool}
    {selects : Token → Bool} (same : ∀ token ∈ tokens, keeps token.toChar = selects token) :
    text.filter keeps = Token.text (tokens.filter selects) := by
  have spelled := Token.text_of_read read
  subst spelled
  rw [Token.text, Token.text, List.filter_map]
  congr 1
  exact List.filter_congr same

theorem letters_eq_literals (read : Token.read text = .ok tokens) :
    letters text = Token.literals tokens := by
  apply filter_of_read read
  intro token member
  cases token with
  | literal letter => exact letters_of_read read letter member
  | star | concat | union | opening | closing => rfl

theorem length_letters_of_read (read : Token.read text = .ok tokens) :
    (letters text).length = tokens.countP Token.isLiteral := by
  rw [letters_eq_literals read, Token.literals, Token.text, List.length_map,
    List.countP_eq_length_filter]

end Read

end Recognizer.Pattern
