import Mathlib.Logic.ExistsUnique
import Recognizer.Proofs.Pattern.Operands

/-!
What can be said of a pattern before it is arranged: whether its characters are known, its
parentheses balance, it holds anything but groups, and the grammar generates it. Each is tied to the
tokens that are read, and decides how far the postorder of the pattern gets. Arranging a pattern is
parsing it: the listing that comes out is that of a tree only if the grammar reads the pattern as
this tree, because a listing that weighs one shows that no operand is lacking. A pattern has
therefore one tree at most, and the listing of any pattern can be written down and read again.
-/

namespace Recognizer.Pattern

def Supported (pattern : List Char) : Prop :=
  ∀ character ∈ pattern,
    character.isAlphanum = true ∨ character ∈ ['*', '.', '|', '(', ')']

def Balanced (pattern : List Char) : Prop :=
  (∀ front, front <+: pattern → front.count ')' ≤ front.count '(') ∧
    pattern.count ')' = pattern.count '('

/-- Groups inside one another and nothing else, perhaps not even a group. -/
def Hollow (pattern : List Char) : Prop :=
  ∃ depth, pattern = List.replicate depth '(' ++ List.replicate depth ')'

def Generated (pattern : List Char) : Prop :=
  ∃ tokens tree, Token.text tokens = pattern ∧ Derives .union tokens tree

/-- The first character of a pattern that is no token, and where it stands. -/
def ForeignAt (pattern : List Char) (symbol : Char) (position : Nat) : Prop :=
  Supported (pattern.take position) ∧ pattern[position]? = some symbol ∧ ¬Supported [symbol]

theorem ofChar?_isSome_iff {character : Char} :
    (Token.ofChar? character).isSome = true ↔
      character.isAlphanum = true ∨ character ∈ ['*', '.', '|', '(', ')'] := by
  unfold Token.ofChar?
  split
  all_goals simp_all

theorem supported_of_hollow {pattern : List Char} (hollow : Hollow pattern) :
    Supported pattern := by
  obtain ⟨depth, same⟩ := hollow
  subst same
  intro character member
  right
  rcases List.mem_append.mp member with opening | closing
  · rw [List.eq_of_mem_replicate opening]
    decide
  · rw [List.eq_of_mem_replicate closing]
    decide

theorem isAlphanum_of_ofChar? {character symbol : Char}
    (found : Token.ofChar? character = some (.literal symbol)) : symbol.isAlphanum = true := by
  unfold Token.ofChar? at found
  split at found
  case h_6 =>
    split at found
    case isTrue letter =>
      cases found
      exact letter
    case isFalse => cases found
  all_goals cases found

theorem endsOperand_toChar {token : Token} (known : Token.ofChar? token.toChar = some token) :
    (token.toChar.isAlphanum || token.toChar ∈ [')', '*']) = token.endsOperand := by
  cases token with
  | literal symbol => simp [Token.toChar, Token.endsOperand, isAlphanum_of_ofChar? known]
  | star | concat | union | opening | closing => decide

theorem startsOperand_toChar {token : Token} (known : Token.ofChar? token.toChar = some token) :
    (token.toChar.isAlphanum || token.toChar = '(') = token.startsOperand := by
  cases token with
  | literal symbol => simp [Token.toChar, Token.startsOperand, isAlphanum_of_ofChar? known]
  | star | concat | union | opening | closing => decide

theorem supported_singleton_iff {character : Char} :
    Supported [character] ↔ (Token.ofChar? character).isSome = true := by
  rw [ofChar?_isSome_iff, Supported, List.forall_mem_singleton]

theorem not_supported_of_foreignAt {pattern : List Char} {symbol : Char} {position : Nat}
    (foreign : ForeignAt pattern symbol position) : ¬Supported pattern := by
  intro supported
  obtain ⟨_, stands, unknown⟩ := foreign
  exact unknown (List.forall_mem_singleton.mpr (supported symbol (List.mem_of_getElem? stands)))

theorem foreignAt_unique {pattern : List Char} {symbol other : Char} {position place : Nat}
    (foreign : ForeignAt pattern symbol position) (again : ForeignAt pattern other place) :
    other = symbol ∧ place = position := by
  -- of two such characters neither stands in the supported front of the other
  have bound {first second : Char} {before behind : Nat} (one : ForeignAt pattern first before)
      (two : ForeignAt pattern second behind) : behind ≤ before := by
    refine Nat.le_of_not_lt fun below => one.2.2 (List.forall_mem_singleton.mpr ?_)
    apply two.1 first
    apply List.mem_of_getElem? (i := before)
    rw [List.getElem?_take_of_lt below, one.2.1]
  have same : place = position := Nat.le_antisymm (bound foreign again) (bound again foreign)
  subst same
  exact ⟨Option.some.inj (again.2.1.symm.trans foreign.2.1), rfl⟩

theorem readFrom_settles (position : Nat) (pattern : List Char) :
    (Supported pattern ∧ ∃ tokens, Token.readFrom position pattern = .ok tokens) ∨
      ∃ symbol place, ForeignAt pattern symbol place ∧
        Token.readFrom position pattern =
          .error (.unsupportedCharacter symbol (position + place)) := by
  induction pattern generalizing position with
  | nil => exact Or.inl ⟨List.forall_mem_nil _, [], rfl⟩
  | cons character rest ih =>
    rw [Supported, List.forall_mem_cons, ← ofChar?_isSome_iff, Token.readFrom]
    cases found : Token.ofChar? character with
    | none =>
      refine Or.inr ⟨character, 0, ⟨List.forall_mem_nil _, rfl, ?_⟩, rfl⟩
      rw [supported_singleton_iff, found]
      exact Bool.false_ne_true
    | some token =>
      rcases ih (position + 1) with ⟨supported, tokens, read⟩ | ⟨symbol, place, foreign, failed⟩
      · exact Or.inl ⟨⟨rfl, supported⟩, token :: tokens, by rw [read]; rfl⟩
      · obtain ⟨before, stands, unknown⟩ := foreign
        refine Or.inr ⟨symbol, place + 1, ⟨?_, stands, unknown⟩, ?_⟩
        · have known := ofChar?_isSome_iff.mp (Option.isSome_of_mem found)
          exact List.forall_mem_cons.mpr ⟨known, before⟩
        · rw [failed, Nat.add_right_comm, Nat.add_assoc]
          rfl

theorem read_settles (pattern : List Char) :
    (Supported pattern ∧ ∃ tokens, Token.read pattern = .ok tokens) ∨
      ∃ symbol place, ForeignAt pattern symbol place ∧
        Token.read pattern = .error (.unsupportedCharacter symbol place) := by
  have settled := readFrom_settles 0 pattern
  simp only [Nat.zero_add] at settled
  exact settled

section Read

variable {pattern : List Char} {tokens : List Token}

theorem letters_of_read (read : Token.read pattern = .ok tokens) (symbol : Char)
    (member : .literal symbol ∈ tokens) : symbol.isAlphanum = true :=
  isAlphanum_of_ofChar? (Token.ofChar?_of_read read member)

theorem balanced_iff_nests (read : Token.read pattern = .ok tokens) :
    Balanced pattern ↔ Nests 0 tokens := by
  rw [nests_iff_balancedOver fun token member => Token.ofChar?_of_read read member,
    Token.text_of_read read]
  simp [Balanced, BalancedOver]

theorem generated_iff_derives (read : Token.read pattern = .ok tokens) :
    Generated pattern ↔ ∃ tree, Derives .union tokens tree := by
  constructor
  · rintro ⟨others, tree, same, derived⟩
    subst same
    cases (Token.read_text_of_derives derived).symm.trans read
    exact ⟨tree, derived⟩
  · rintro ⟨tree, derived⟩
    exact ⟨tokens, tree, Token.text_of_read read, derived⟩

theorem hollow_iff_replicate (read : Token.read pattern = .ok tokens) :
    Hollow pattern ↔ ∃ depth,
      tokens = List.replicate depth .opening ++ List.replicate depth .closing := by
  have spells (depth : Nat) :
      Token.text (List.replicate depth .opening ++ List.replicate depth .closing) =
        List.replicate depth '(' ++ List.replicate depth ')' := by
    simp [Token.text, Token.toChar]
  constructor
  · rintro ⟨depth, same⟩
    have known : ∀ token ∈ List.replicate depth Token.opening ++ List.replicate depth .closing,
        Token.ofChar? token.toChar = some token := by
      intro token member
      rcases List.mem_append.mp member with opening | closing
      · rw [List.eq_of_mem_replicate opening]
        rfl
      · rw [List.eq_of_mem_replicate closing]
        rfl
    have again := Token.read_text_iff.mpr known
    rw [spells, ← same, read] at again
    exact ⟨depth, Except.ok.inj again⟩
  · rintro ⟨depth, same⟩
    exact ⟨depth, by rw [← Token.text_of_read read, same, spells]⟩

theorem nests_of_hollow (read : Token.read pattern = .ok tokens) (hollow : Hollow pattern) :
    Nests 0 tokens := by
  obtain ⟨depth, same⟩ := (hollow_iff_replicate read).mp hollow
  rw [same]
  exact (nests_replicate_iff 0 depth depth).mpr (Nat.zero_add depth)

/-- Of a pattern whose groups nest, nothing is listed exactly when it is hollow. -/
theorem hollow_iff_bare (read : Token.read pattern = .ok tokens) (nests : Nests 0 tokens) :
    Hollow pattern ↔ bare (insertConcats (placedFrom 0 tokens)) = [] := by
  rw [hollow_iff_replicate read, bare_insertConcats_eq_nil_iff, map_placedFrom]
  constructor
  · rintro ⟨depth, same⟩
    exact ⟨depth, depth, same⟩
  · rintro ⟨opens, closes, same⟩
    rw [same, nests_replicate_iff, Nat.zero_add] at nests
    exact ⟨opens, nests ▸ same⟩

theorem weigh_bare (tokens : List Token) :
    Token.weigh (bare (insertConcats (placedFrom 0 tokens))) = 1 - Token.lacking false tokens := by
  rw [bare, Token.weigh_filter_isBare, weigh_insertConcats, map_placedFrom]

structure Tells (pattern : List Char) (tokens listing : List Token) : Prop where
  bare : ∀ token ∈ listing, token.isBare = true
  weight : Token.weigh listing = 1 - Token.lacking false tokens
  hollow : Hollow pattern ↔ listing = []

theorem tells_of_perm {listing : List Token} (read : Token.read pattern = .ok tokens)
    (nests : Nests 0 tokens) (same : listing.Perm (bare (insertConcats (placedFrom 0 tokens)))) :
    Tells pattern tokens listing where
  bare := by
    intro token member
    exact (List.mem_filter.mp (same.subset member)).2
  weight := (Token.weigh_perm same).trans (weigh_bare tokens)
  hollow := by
    rw [hollow_iff_bare read nests]
    exact ⟨fun nothing => (nothing ▸ same).eq_nil, fun nothing => (nothing ▸ same.symm).eq_nil⟩

def ordered (tokens : List Token) : List Placed :=
  departures [] (insertConcats (placedFrom 0 tokens))

theorem postorder_ordered (read : Token.read pattern = .ok tokens) :
    (unpartnered? [] (placedFrom 0 tokens) = none ∧
        postorder pattern = .ok ((ordered tokens).map Placed.token) ∧
        (ordered tokens).Perm (ungrouped (insertConcats (placedFrom 0 tokens)))) ∨
      ∃ position, unpartnered? [] (placedFrom 0 tokens) = some position ∧
        postorder pattern = .error (.unbalancedParenthesis position) := by
  have settled := arrange_settles (List.forall_mem_nil _) (insertConcats (placedFrom 0 tokens))
  rw [unpartnered?_insertConcats, ← postorder_of_read read] at settled
  exact settled

theorem ordered_of_postorder (read : Token.read pattern = .ok tokens) {listing : List Token}
    (listed : postorder pattern = .ok listing) :
    listing = (ordered tokens).map Placed.token ∧
      (ordered tokens).Perm (ungrouped (insertConcats (placedFrom 0 tokens))) := by
  rcases postorder_ordered read with ⟨_, done, same⟩ | ⟨position, _, failed⟩
  · exact ⟨Except.ok.inj (listed.symm.trans done), same⟩
  · cases failed.symm.trans listed

theorem postorder_settles (read : Token.read pattern = .ok tokens) :
    (Nests 0 tokens ∧ ∃ listing, postorder pattern = .ok listing ∧ Tells pattern tokens listing) ∨
      (¬Nests 0 tokens ∧ ∃ position,
        postorder pattern = .error (.unbalancedParenthesis position)) := by
  have partners : unpartnered? [] (placedFrom 0 tokens) = none ↔
      Nests 0 ((placedFrom 0 tokens).map Placed.token) := unpartnered?_eq_none_iff
  rw [map_placedFrom] at partners
  rcases postorder_ordered read with ⟨closed, listed, same⟩ | ⟨position, found, failed⟩
  · have nests := partners.mp closed
    refine Or.inl ⟨nests, _, listed, tells_of_perm read nests ?_⟩
    rw [← map_ungrouped]
    exact same.map Placed.token
  · refine Or.inr ⟨fun nests => ?_, position, failed⟩
    cases found.symm.trans (partners.mpr nests)

end Read

/-- The grammar reads the tokens that the pattern spells as the tree. -/
def Parses (pattern : List Char) (tree : Tree) : Prop :=
  ∃ tokens, Token.text tokens = pattern ∧ Derives .union tokens tree

variable {pattern : List Char} {tree other : Tree}

theorem generated_iff_parses : Generated pattern ↔ ∃ tree, Parses pattern tree := exists_comm

theorem postorder_of_parses (parses : Parses pattern tree) :
    postorder pattern = .ok tree.postorder := by
  obtain ⟨tokens, spelled, derived⟩ := parses
  subst spelled
  exact postorder_text_of_derives derived

theorem parses_unique (parses : Parses pattern tree) (again : Parses pattern other) :
    other = tree := by
  have same := (postorder_of_parses again).symm.trans (postorder_of_parses parses)
  exact Tree.postorder_injective (Except.ok.inj same)

theorem read_of_postorder {listing : List Token} (listed : postorder pattern = .ok listing) :
    ∃ tokens, Token.read pattern = .ok tokens := by
  cases read : Token.read pattern with
  | ok tokens => exact ⟨tokens, rfl⟩
  | error malformed => simp [postorder, Converter.convert, read] at listed

theorem ofChar?_of_mem_postorder {listing : List Token} (listed : postorder pattern = .ok listing)
    {token : Token} (member : token ∈ listing) : Token.ofChar? token.toChar = some token := by
  obtain ⟨tokens, read⟩ := read_of_postorder listed
  obtain ⟨done, same⟩ := ordered_of_postorder read listed
  subst done
  -- a listing holds tokens of the pattern and concatenations
  obtain ⟨placed, leaves, spelled⟩ := List.mem_map.mp member
  obtain ⟨inside, _⟩ := List.mem_filter.mp (same.subset leaves)
  subst spelled
  rcases mem_insertConcats inside with written | ⟨_, _, _, _, _, _, _, inserted⟩
  · have given := List.mem_map_of_mem (f := Placed.token) written
    rw [map_placedFrom] at given
    exact Token.ofChar?_of_read read given
  · rw [inserted]
    rfl

/-- A listing loses nothing in its written form. -/
theorem read_text_of_postorder {listing : List Token} (listed : postorder pattern = .ok listing) :
    Token.read (Token.text listing) = .ok listing :=
  Token.read_text_iff.mpr fun _ => ofChar?_of_mem_postorder listed

theorem parses_of_postorder (listed : postorder pattern = .ok tree.postorder) :
    Parses pattern tree := by
  obtain ⟨tokens, read⟩ := read_of_postorder listed
  rcases postorder_settles read with ⟨nests, listing, done, tells⟩ | ⟨_, position, failed⟩
  · have same : listing = tree.postorder := Except.ok.inj (done.symm.trans listed)
    have full : Token.lacking false tokens = 0 := by
      have weight := tells.weight
      rw [same, Token.weigh_postorder] at weight
      omega
    obtain ⟨found, derived⟩ := derives_of_lacking (letters_of_read read) nests full
    have parses : Parses pattern found := ⟨tokens, Token.text_of_read read, derived⟩
    -- the tree that the grammar finds has the same listing, so it is the given one
    have equal := Except.ok.inj ((postorder_of_parses parses).symm.trans listed)
    exact Tree.postorder_injective equal ▸ parses
  · cases failed.symm.trans listed

/-- A pattern is listed as a tree exactly when it parses as this tree, with concatenation and union
grouped to the left and a star on the factor before it; a pattern of the grammar has one tree. -/
theorem postorder_iff_parses (pattern : List Char) :
    (∀ tree : Tree, postorder pattern = .ok tree.postorder ↔ Parses pattern tree) ∧
      (Generated pattern → ∃! tree, Parses pattern tree) := by
  constructor
  · intro tree
    exact ⟨parses_of_postorder, postorder_of_parses⟩
  · intro generated
    obtain ⟨tree, parses⟩ := generated_iff_parses.mp generated
    exact ⟨tree, parses, fun other again => parses_unique parses again⟩

/-- Alternatives, a group under two stars, and both ways to write a concatenation. -/
def nested : List Char := ['a', '|', '(', 'b', '.', 'c', ')', '*', '*', 'd', '|', 'e']

def nestedTree : Tree :=
  .union
    (.union (.literal 'a')
      (.concat (.star (.star (.concat (.literal 'b') (.literal 'c')))) (.literal 'd')))
    (.literal 'e')

theorem postorder_iff_parses_nested :
    Generated nested ∧ Parses nested nestedTree ∧ ∃! tree, Parses nested tree := by
  have parses := ((postorder_iff_parses nested).1 nestedTree).mp rfl
  have generated := generated_iff_parses.mpr ⟨nestedTree, parses⟩
  exact ⟨generated, parses, (postorder_iff_parses nested).2 generated⟩

end Recognizer.Pattern
