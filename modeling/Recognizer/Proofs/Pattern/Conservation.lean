import Recognizer.Proofs.Pattern.Explicit
import Recognizer.Proofs.Pattern.Tally

/-!
What a listing keeps of its pattern. It holds the pattern's characters, with all concatenations
written out and without the parentheses, each as often as the pattern. Operators change their places
because they wait; literals never wait, so they stay in order.
-/

namespace Recognizer.Pattern

def encounters (pattern : List Char) : Nat :=
  (pattern.zip pattern.tail).countP fun pair => meets pair.1 pair.2

section Interpose

variable {Item : Type} {separator : Item} {meets : Item → Item → Bool}

/-- One separator for every two neighbours that meet. -/
theorem perm_interpose (items : List Item) :
    (interpose separator meets everywhere items).Perm
      (List.replicate ((items.zip items.tail).countP fun pair => meets pair.1 pair.2) separator ++
        items) := by
  induction items with
  | nil => exact List.Perm.refl []
  | cons left rest ih =>
    cases rest with
    | nil => exact List.Perm.refl [left]
    | cons right rest =>
      rw [interpose_everywhere, List.tail_cons, List.zip_cons_cons, List.countP_cons]
      rw [List.tail_cons] at ih
      generalize ((right :: rest).zip rest).countP (fun pair => meets pair.1 pair.2) = count at ih ⊢
      have later : (left :: interpose separator meets everywhere (right :: rest)).Perm
          (List.replicate count separator ++ left :: right :: rest) :=
        (ih.cons left).trans List.perm_middle.symm
      by_cases both : meets left right = true
      · simp only [both, if_true, List.replicate_succ, List.cons_append]
        exact (List.Perm.swap separator left _).trans (later.cons separator)
      · simp only [both, Bool.false_eq_true, if_false, List.nil_append, Nat.add_zero]
        exact later

theorem filter_interpose {keeps : Item → Bool} (dropped : keeps separator = false)
    (chosen : Nat → Bool) (items : List Item) :
    (interpose separator meets chosen items).filter keeps = items.filter keeps := by
  fun_induction interpose separator meets chosen items with
  | case1 => rfl
  | case2 chosen last => rfl
  | case3 chosen left right rest behind both ih =>
    simp only [List.filter_cons, dropped, Bool.false_eq_true, if_false] at ih ⊢
    rw [ih]
  | case4 chosen left right rest behind apart ih =>
    simp only [List.filter_cons] at ih ⊢
    rw [ih]

end Interpose

theorem filter_waiting {waiting : List Placed}
    (operators : ∀ top ∈ waiting, top.token.isLiteral = false) :
    waiting.filter (·.token.isLiteral) = [] := by
  apply List.filter_eq_nil_iff.mpr
  intro top member
  rw [operators top member]
  exact Bool.false_ne_true

/-- Literals leave as they come. -/
theorem filter_departures {waiting : List Placed}
    (operators : ∀ top ∈ waiting, top.token.isLiteral = false) (placed : List Placed) :
    (departures waiting placed).filter (·.token.isLiteral) =
      placed.filter (·.token.isLiteral) := by
  induction placed generalizing waiting with
  | nil => exact filter_waiting operators
  | cons next rest ih =>
    have among {part : List Placed} (inside : part.Sublist waiting) :
        ∀ top ∈ part, top.token.isLiteral = false :=
      fun top member => operators top (inside.subset member)
    have joined {part : List Placed} (waits : next.token.isLiteral = false)
        (inside : part.Sublist waiting) : ∀ top ∈ next :: part, top.token.isLiteral = false :=
      List.forall_mem_cons.mpr ⟨waits, among inside⟩
    rw [departures, List.filter_cons]
    cases kind : next.token with
    | literal symbol => rw [List.filter_cons, kind, ih operators]
    | opening =>
      have waits : next.token.isLiteral = false := by rw [kind]; rfl
      exact ih (joined waits (List.Sublist.refl _))
    | closing =>
      rw [List.filter_append, filter_waiting (among (List.takeWhile_sublist _)),
        ih (among ((List.tail_sublist _).trans (List.dropWhile_sublist _))), List.nil_append]
      rfl
    | star | concat | union =>
      have waits : next.token.isLiteral = false := by rw [kind]; rfl
      rw [List.filter_append, filter_waiting (among (List.takeWhile_sublist _)),
        ih (joined waits (List.dropWhile_sublist _)), List.nil_append]
      rfl

section Listed

variable {pattern : List Char} {listing : List Token}

theorem literals_of_postorder (listed : postorder pattern = .ok listing) :
    Token.literals listing = letters pattern := by
  obtain ⟨tokens, read⟩ := read_of_postorder listed
  obtain ⟨same, _⟩ := ordered_of_postorder read listed
  have literals (placed : List Placed) : Token.literals (placed.map Placed.token) =
      Token.text ((placed.filter (·.token.isLiteral)).map Placed.token) := by
    rw [Token.literals, List.filter_map]
    rfl
  calc Token.literals listing
      = Token.literals ((insertConcats (placedFrom 0 tokens)).map Placed.token) := by
        rw [same, literals, literals, ordered, filter_departures (List.forall_mem_nil _)]
    _ = Token.literals tokens := by
        rw [map_insertConcats, map_placedFrom, Token.literals, filter_interpose rfl, Token.literals]
    _ = letters pattern := (letters_eq_literals read).symm

theorem count_letters_of_parses {tree : Tree} (parses : Parses pattern tree) (symbol : Char) :
    (letters pattern).count symbol = tree.postorder.count (.literal symbol) := by
  rw [← literals_of_postorder (postorder_of_parses parses), Token.count_literals]

/-- A listing is the pattern with all concatenations written out and without its parentheses, in
another order. -/
theorem perm_of_postorder (listed : postorder pattern = .ok listing) :
    (Token.text listing).Perm ((explicit everywhere pattern).filter (· ∉ ['(', ')'])) := by
  obtain ⟨tokens, read⟩ := read_of_postorder listed
  obtain ⟨same, perm⟩ := ordered_of_postorder read listed
  have full := read_explicit read everywhere
  have kept : (explicit everywhere pattern).filter (· ∉ ['(', ')']) =
      Token.text ((interpose .concat Token.meets everywhere tokens).filter Token.isBare) := by
    apply filter_of_read full
    intro token member
    cases token with
    | literal symbol =>
      have known := Token.ofChar?_of_read full member
      simpa [Token.toChar, Token.isBare] using Token.ne_parenthesis_of_ofChar? known
    | star | concat | union | opening | closing => rfl
  have bares : (ungrouped (insertConcats (placedFrom 0 tokens))).map Placed.token =
      (interpose .concat Token.meets everywhere tokens).filter Token.isBare := by
    rw [map_ungrouped, bare, map_insertConcats, map_placedFrom]
  rw [kept, same, ← bares]
  exact (perm.map Placed.token).map Token.toChar

/-- Of a pattern, well formed or not, that has a listing, the listing repeats every literal in its
place and every operator as often as it is written; only the concatenations become more, by one
for every two neighbours that meet as operands do. -/
theorem postorder_conserves (listed : postorder pattern = .ok listing) :
    '(' ∉ Token.text listing ∧ ')' ∉ Token.text listing ∧
      letters (Token.text listing) = letters pattern ∧
      (Token.text listing).count '|' = pattern.count '|' ∧
      (Token.text listing).count '*' = pattern.count '*' ∧
      (Token.text listing).count '.' = pattern.count '.' + encounters pattern := by
  have perm := perm_of_postorder listed
  have counts (operator : Char) (bare : operator ∉ ['(', ')']) :
      (Token.text listing).count operator =
        (List.replicate (encounters pattern) '.').count operator + pattern.count operator := by
    rw [perm.count_eq, List.count_filter (by simpa using bare), ← List.count_append]
    exact (perm_interpose pattern).count_eq operator
  have bare (character : Char) (inside : character ∈ Token.text listing) :
      character ∉ ['(', ')'] := by
    have kept := (List.mem_filter.mp (perm.subset inside)).2
    exact of_decide_eq_true kept
  refine ⟨fun opening => ?_, fun closing => ?_, ?_, ?_, ?_, ?_⟩
  · exact bare '(' opening (by decide)
  · exact bare ')' closing (by decide)
  · rw [letters_eq_literals (read_text_of_postorder listed), literals_of_postorder listed]
  · simpa [List.count_replicate] using counts '|' (by decide)
  · simpa [List.count_replicate] using counts '*' (by decide)
  · rw [counts '.' (by decide), List.count_replicate_self, Nat.add_comm]

/-- A union that lacks its right operand inside a group, and a literal beside the group. -/
theorem postorder_conserves_malformed :
    postorder ['(', 'a', '|', ')', 'b'] = .ok [.literal 'a', .union, .literal 'b', .concat] ∧
      '(' ∉ ['a', '|', 'b', '.'] ∧ ')' ∉ ['a', '|', 'b', '.'] ∧
      letters ['a', '|', 'b', '.'] = letters ['(', 'a', '|', ')', 'b'] ∧
      ['a', '|', 'b', '.'].count '|' = ['(', 'a', '|', ')', 'b'].count '|' ∧
      ['a', '|', 'b', '.'].count '*' = ['(', 'a', '|', ')', 'b'].count '*' ∧
      ['a', '|', 'b', '.'].count '.' =
        ['(', 'a', '|', ')', 'b'].count '.' + encounters ['(', 'a', '|', ')', 'b'] := by
  have listed : postorder ['(', 'a', '|', ')', 'b'] =
      .ok [.literal 'a', .union, .literal 'b', .concat] := rfl
  exact ⟨listed, postorder_conserves listed⟩

end Listed

end Recognizer.Pattern
