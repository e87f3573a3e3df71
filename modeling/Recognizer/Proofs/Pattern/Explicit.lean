import Recognizer.Proofs.Pattern.Shape

/-!
Concatenations that are written out. A dot may stand between any two neighbours that meet as
operands do. Where it is left out a concatenation is inserted, and beside a dot nothing is inserted,
so a pattern has the same tokens in the end whichever of its dots are written. The tokens stand at
other positions then, but positions only show in the report of a parenthesis.
-/

namespace Recognizer.Pattern

/-- A separator between neighbours that meet, wherever one is chosen; places are counted by the left
neighbour. -/
def interpose {Item : Type} (separator : Item) (meets : Item → Item → Bool)
    (chosen : Nat → Bool) : List Item → List Item
  | [] => []
  | [last] => [last]
  | left :: right :: rest =>
    let behind := interpose separator meets (fun place => chosen (place + 1)) (right :: rest)
    if chosen 0 && meets left right then left :: separator :: behind else left :: behind

def everywhere : Nat → Bool := fun _ => true

section Interpose

variable {Item Other : Type} {separator : Item} {meets : Item → Item → Bool}

theorem interpose_cons (separator : Item) (meets : Item → Item → Bool) (chosen : Nat → Bool)
    (first : Item) (rest : List Item) :
    ∃ behind, interpose separator meets chosen (first :: rest) = first :: behind := by
  cases rest with
  | nil => exact ⟨[], rfl⟩
  | cons second rest =>
    rw [interpose]
    split
    · exact ⟨_, rfl⟩
    · exact ⟨_, rfl⟩

theorem sublist_interpose (chosen : Nat → Bool) (items : List Item) :
    items.Sublist (interpose separator meets chosen items) := by
  fun_induction interpose separator meets chosen items with
  | case1 => exact List.Sublist.refl []
  | case2 chosen last => exact List.Sublist.refl [last]
  | case3 chosen left right rest behind both ih => exact (ih.cons separator).cons_cons left
  | case4 chosen left right rest behind apart ih => exact ih.cons_cons left

theorem mem_of_mem_interpose {chosen : Nat → Bool} {items : List Item} {item : Item}
    (member : item ∈ interpose separator meets chosen items) :
    item = separator ∨ item ∈ items := by
  fun_induction interpose separator meets chosen items with
  | case1 => cases member
  | case2 chosen last => exact Or.inr member
  | case3 chosen left right rest behind both ih =>
    rcases List.mem_cons.mp member with first | later
    · exact Or.inr (List.mem_cons.mpr (Or.inl first))
    · rcases List.mem_cons.mp later with same | later
      · exact Or.inl same
      · exact (ih later).imp_right (List.mem_cons_of_mem left)
  | case4 chosen left right rest behind apart ih =>
    rcases List.mem_cons.mp member with first | later
    · exact Or.inr (List.mem_cons.mpr (Or.inl first))
    · exact (ih later).imp_right (List.mem_cons_of_mem left)

theorem map_interpose {joins : Other → Other → Bool} {image : Item → Other}
    (chosen : Nat → Bool) {items : List Item}
    (same : ∀ left ∈ items, ∀ right ∈ items, joins (image left) (image right) = meets left right) :
    (interpose separator meets chosen items).map image =
      interpose (image separator) joins chosen (items.map image) := by
  induction items generalizing chosen with
  | nil => rfl
  | cons left rest ih =>
    have later := ih (fun place => chosen (place + 1)) fun first member second other =>
      same first (List.mem_cons_of_mem left member) second (List.mem_cons_of_mem left other)
    cases rest with
    | nil => rfl
    | cons right rest =>
      have here := same left List.mem_cons_self right
        (List.mem_cons_of_mem left List.mem_cons_self)
      rw [List.map_cons] at later
      rw [List.map_cons, List.map_cons, interpose, interpose, here, ← later]
      split <;> rfl

theorem interpose_everywhere (left right : Item) (rest : List Item) :
    interpose separator meets everywhere (left :: right :: rest) =
      left :: ((if meets left right then [separator] else []) ++
        interpose separator meets everywhere (right :: rest)) := by
  rw [interpose]
  cases meets left right <;> rfl

/-- Where a separator stands already none is added, and the others are. -/
theorem interpose_interpose (before : ∀ item, meets separator item = false)
    (behind : ∀ item, meets item separator = false) (chosen : Nat → Bool) (items : List Item) :
    interpose separator meets everywhere (interpose separator meets chosen items) =
      interpose separator meets everywhere items := by
  induction items generalizing chosen with
  | nil => rfl
  | cons left rest ih =>
    cases rest with
    | nil => rfl
    | cons right rest =>
      have later := ih fun place => chosen (place + 1)
      obtain ⟨tail, same⟩ :=
        interpose_cons separator meets (fun place => chosen (place + 1)) right rest
      rw [interpose, same, interpose_everywhere left right]
      rw [same] at later
      by_cases written : (chosen 0 && meets left right) = true
      · have both := (Bool.and_eq_true_iff.mp written).2
        rw [if_pos written, interpose_everywhere, interpose_everywhere, later]
        simp [before, behind, both]
      · rw [if_neg written, interpose_everywhere, later]

end Interpose

def meets (left right : Char) : Bool :=
  (left.isAlphanum || left ∈ [')', '*']) && (right.isAlphanum || right = '(')

/-- The pattern with a dot at the chosen ones of the places where its characters meet. -/
def explicit (chosen : Nat → Bool) (pattern : List Char) : List Char :=
  interpose '.' meets chosen pattern

def Token.meets (left right : Token) : Bool := left.endsOperand && right.startsOperand

theorem meets_toChar {left right : Token} (first : Token.ofChar? left.toChar = some left)
    (second : Token.ofChar? right.toChar = some right) :
    meets left.toChar right.toChar = left.meets right := by
  rw [meets, endsOperand_toChar first, startsOperand_toChar second, Token.meets]

theorem map_insertConcats (placed : List Placed) :
    (insertConcats placed).map Placed.token =
      interpose .concat Token.meets everywhere (placed.map Placed.token) := by
  fun_induction insertConcats placed with
  | case1 => rfl
  | case2 last => rfl
  | case3 left right rest joined ih =>
    have joins : left.token.meets right.token = true := joined
    rw [List.map_cons, List.map_cons, List.map_cons, List.map_cons, interpose_everywhere, joins,
      ih]
    rfl
  | case4 left right rest apart ih =>
    have parts : left.token.meets right.token = false := Bool.eq_false_iff.mpr apart
    rw [List.map_cons, List.map_cons, List.map_cons, interpose_everywhere, parts, ih]
    rfl

section Read

variable {pattern : List Char} {tokens : List Token}

theorem read_explicit (read : Token.read pattern = .ok tokens) (chosen : Nat → Bool) :
    Token.read (explicit chosen pattern) = .ok (interpose .concat Token.meets chosen tokens) := by
  have known : ∀ token ∈ tokens, Token.ofChar? token.toChar = some token :=
    fun token member => Token.ofChar?_of_read read member
  have spelled := Token.text_of_read read
  subst spelled
  have written : explicit chosen (Token.text tokens) =
      Token.text (interpose .concat Token.meets chosen tokens) := by
    symm
    apply map_interpose
    intro left first right second
    exact meets_toChar (known left first) (known right second)
  rw [written, Token.read_text_iff]
  intro token member
  rcases mem_of_mem_interpose member with dot | given
  · rw [dot]
    rfl
  · exact known token given

/-- A dot does not make a character known. -/
theorem read_of_explicit {chosen : Nat → Bool}
    (read : Token.read (explicit chosen pattern) = .ok tokens) :
    ∃ tokens, Token.read pattern = .ok tokens := by
  rcases read_settles (explicit chosen pattern) with ⟨supported, _⟩ | ⟨_, _, _, failed⟩
  · rcases read_settles pattern with ⟨_, done⟩ | ⟨symbol, position, foreign, _⟩
    · exact done
    · refine absurd ?_ (not_supported_of_foreignAt foreign)
      intro character member
      exact supported character ((sublist_interpose chosen pattern).subset member)
  · cases read.symm.trans failed

end Read

def unplaced (placed : Placed) : Placed := ⟨placed.token, 0⟩

theorem map_token_unplaced (placed : List Placed) :
    (placed.map unplaced).map Placed.token = placed.map Placed.token := by
  rw [List.map_map]
  rfl

theorem map_unplaced_congr {placed others : List Placed}
    (same : placed.map Placed.token = others.map Placed.token) :
    placed.map unplaced = others.map unplaced := by
  have view (given : List Placed) :
      given.map unplaced = (given.map Placed.token).map (⟨·, 0⟩) := by
    rw [List.map_map]
    rfl
  rw [view, view, same]

/-- Tokens leave in the same order wherever they stand. -/
theorem departures_unplaced (waiting placed : List Placed) :
    departures (waiting.map unplaced) (placed.map unplaced) =
      (departures waiting placed).map unplaced := by
  induction placed generalizing waiting with
  | nil => rfl
  | cons next rest ih =>
    have token (placed : Placed) : (unplaced placed).token = placed.token := rfl
    have yielding (token : Token) : yields token ∘ unplaced = yields token := rfl
    have inside : (fun top : Placed => decide (top.token ≠ .opening)) ∘ unplaced =
        fun top => decide (top.token ≠ .opening) := rfl
    rw [List.map_cons, departures, departures, token]
    cases next.token with
    | literal symbol => rw [ih, List.map_cons]
    | opening => exact ih (next :: waiting)
    | closing =>
      simp only [List.takeWhile_map, List.dropWhile_map, inside, ← List.map_tail, ih,
        List.map_append]
    | star | concat | union =>
      simp only [List.takeWhile_map, List.dropWhile_map, yielding, ← List.map_cons, ih,
        List.map_append]

theorem arrange_ok_iff {placed : List Placed} {listing : List Token} :
    (arrange [] placed).1 = .ok listing ↔
      Nests 0 (placed.map Placed.token) ∧ listing = (departures [] placed).map Placed.token := by
  have nests : unpartnered? [] placed = none ↔ Nests 0 (placed.map Placed.token) :=
    unpartnered?_eq_none_iff
  rw [← nests]
  rcases arrange_settles (List.forall_mem_nil _) placed with ⟨closed, done, _⟩ |
    ⟨position, found, failed⟩
  · have closed : unpartnered? [] placed = none := closed
    simp [closed, done, eq_comm]
  · have found : unpartnered? [] placed = some position := found
    simp [found, failed]

/-- Whether there is a listing, and which one, depends on the tokens alone. -/
theorem arrange_ok_congr {placed others : List Placed} {listing : List Token}
    (same : placed.map Placed.token = others.map Placed.token) :
    (arrange [] placed).1 = .ok listing ↔ (arrange [] others).1 = .ok listing := by
  have unplacedSame : (departures [] placed).map unplaced =
      (departures [] others).map unplaced := by
    rw [← departures_unplaced, ← departures_unplaced, map_unplaced_congr same]
  have leaves : (departures [] placed).map Placed.token =
      (departures [] others).map Placed.token := by
    rw [← map_token_unplaced, unplacedSame, map_token_unplaced]
  rw [arrange_ok_iff, arrange_ok_iff, same, leaves]

theorem interpose_tokens (chosen : Nat → Bool) (tokens : List Token) :
    interpose .concat Token.meets everywhere (interpose .concat Token.meets chosen tokens) =
      interpose .concat Token.meets everywhere tokens := by
  apply interpose_interpose
  · intro token
    rfl
  · intro token
    exact Bool.and_false _

theorem explicit_explicit (chosen : Nat → Bool) (pattern : List Char) :
    explicit everywhere (explicit chosen pattern) = explicit everywhere pattern := by
  apply interpose_interpose
  · intro character
    rfl
  · intro character
    exact Bool.and_false _

/-- Which concatenations of a pattern are written out makes no difference to its listing, not even
to there being one; and when all of them are written out, there is none left to write. -/
theorem postorder_explicit (pattern : List Char) :
    (∀ chosen listing,
      postorder (explicit chosen pattern) = .ok listing ↔ postorder pattern = .ok listing) ∧
    explicit everywhere (explicit everywhere pattern) = explicit everywhere pattern := by
  refine ⟨fun chosen listing => ?_, explicit_explicit everywhere pattern⟩
  cases read : Token.read pattern with
  | ok tokens =>
    rw [postorder_of_read read, postorder_of_read (read_explicit read chosen)]
    apply arrange_ok_congr
    rw [map_insertConcats, map_insertConcats, map_placedFrom, map_placedFrom, interpose_tokens]
  | error malformed =>
    apply iff_of_false
    · intro listed
      obtain ⟨others, reads⟩ := read_of_postorder listed
      obtain ⟨tokens, reads⟩ := read_of_explicit reads
      cases read.symm.trans reads
    · intro listed
      obtain ⟨tokens, reads⟩ := read_of_postorder listed
      cases read.symm.trans reads

example : explicit everywhere ['a', '(', 'b', '|', 'c', ')', '*', 'd'] =
    ['a', '.', '(', 'b', '|', 'c', ')', '*', '.', 'd'] := by
  decide

end Recognizer.Pattern
