import Recognizer.Proofs.Pattern.Arrangement
import Recognizer.Proofs.Pattern.Reading

/-!
From the tokens of a derivation to the postorder of its tree. The inserted concatenations stand
between the phrases that a derivation puts beside each other and nowhere else, because every phrase
begins and ends as an operand does.
-/

namespace Recognizer.Pattern

def joint : Option Placed → Option Placed → List Placed
  | some left, some right =>
    if left.token.endsOperand && right.token.startsOperand then [⟨.concat, right.position⟩] else []
  | _, _ => []

theorem insertConcats_append (front back : List Placed) :
    insertConcats (front ++ back) =
      insertConcats front ++ joint front.getLast? back.head? ++ insertConcats back := by
  induction front with
  | nil => simp [insertConcats, joint]
  | cons left rest ih =>
    cases rest with
    | nil =>
      cases back with
      | nil => simp [insertConcats, joint]
      | cons right back =>
        simp only [List.cons_append, List.nil_append, insertConcats, List.getLast?_singleton,
          List.head?_cons, joint]
        split <;> simp
    | cons right rest =>
      simp only [List.cons_append, insertConcats, List.getLast?_cons_cons] at ih ⊢
      split <;> simp [ih]

theorem joint_apart {left right : Option Placed}
    (apart : ∀ next ∈ right, next.token.startsOperand = false) : joint left right = [] := by
  cases left with
  | none => rfl
  | some before =>
    cases right with
    | none => rfl
    | some next => simp [joint, apart next rfl]

theorem insertConcats_cons {next : Placed} (follows : next.token.endsOperand = false)
    (back : List Placed) : insertConcats (next :: back) = next :: insertConcats back := by
  cases back with
  | nil => rfl
  | cons right back => simp [insertConcats, follows]

theorem insertConcats_middle {next : Placed} (apart : next.token.startsOperand = false)
    (front back : List Placed) :
    insertConcats (front ++ next :: back) =
      insertConcats front ++ insertConcats (next :: back) := by
  rw [insertConcats_append, List.head?_cons, joint_apart (by simpa using apart), List.append_nil]

/-- Nothing is inserted around a binary operator. -/
theorem insertConcats_binary {next : Placed} (apart : next.token.startsOperand = false)
    (follows : next.token.endsOperand = false) (front back : List Placed) :
    insertConcats (front ++ next :: back) = insertConcats front ++ next :: insertConcats back := by
  rw [insertConcats_middle apart, insertConcats_cons follows]

/-- Two operands beside each other take a concatenation between them. -/
theorem joint_operands {front back : List Placed} {last first : Token}
    (left : (front.map Placed.token).getLast? = some last) (ends : last.endsOperand = true)
    (right : (back.map Placed.token).head? = some first) (starts : first.startsOperand = true) :
    ∃ next, next.token = .concat ∧ joint front.getLast? back.head? = [next] := by
  rw [List.getLast?_map] at left
  rw [List.head?_map] at right
  obtain ⟨before, found, same⟩ := Option.map_eq_some_iff.mp left
  obtain ⟨after, head, equal⟩ := Option.map_eq_some_iff.mp right
  subst same equal
  refine ⟨⟨.concat, after.position⟩, rfl, ?_⟩
  simp [joint, found, head, ends, starts]

theorem first_of_derives {level : Level} {tokens : List Token} {tree : Tree}
    (derived : Derives level tokens tree) :
    ∃ first, tokens.head? = some first ∧ first.startsOperand = true := by
  induction derived with
  | literal | group => exact ⟨_, rfl, rfl⟩
  | atom _ ih | factor _ ih | concat _ ih => exact ih
  | star _ ih | beside _ _ ih _ | dotted _ _ ih _ | union _ _ ih _ =>
    obtain ⟨first, head, starts⟩ := ih
    exact ⟨first, by rw [List.head?_append, head]; rfl, starts⟩

theorem last_of_derives {level : Level} {tokens : List Token} {tree : Tree}
    (derived : Derives level tokens tree) :
    ∃ last, tokens.getLast? = some last ∧ last.endsOperand = true := by
  induction derived with
  | literal => exact ⟨_, rfl, rfl⟩
  | group => exact ⟨.closing, List.getLast?_concat .., rfl⟩
  | star => exact ⟨.star, List.getLast?_concat .., rfl⟩
  | atom _ ih | factor _ ih | concat _ ih => exact ih
  | beside _ _ _ ih =>
    obtain ⟨last, found, ends⟩ := ih
    exact ⟨last, by rw [List.getLast?_append, found]; rfl, ends⟩
  | dotted _ _ _ ih | union _ _ _ ih =>
    obtain ⟨last, found, ends⟩ := ih
    exact ⟨last, by rw [List.getLast?_append, List.getLast?_cons, found]; rfl, ends⟩

namespace Level

def bound : Level → Nat
  | union => 1
  | concat => 2
  | factor => 3
  | atom => 4

end Level

theorem arranges_of_derives {level : Level} {tokens : List Token} {tree : Tree}
    (derived : Derives level tokens tree) {placed : List Placed}
    (spelled : placed.map Placed.token = tokens) :
    Arranges level.bound (insertConcats placed) tree.postorder := by
  induction derived generalizing placed with
  | literal letter =>
    obtain ⟨next, same, literal⟩ := List.map_eq_singleton_iff.mp spelled
    subst same
    exact arranges_literal literal 4
  | group inner ih =>
    obtain ⟨opening, rest, same, opens, others⟩ := List.map_eq_cons_iff.mp spelled
    obtain ⟨inside, last, cut, phrase, ends⟩ := List.map_eq_append_iff.mp others
    obtain ⟨closing, only, closes⟩ := List.map_eq_singleton_iff.mp ends
    subst only cut same
    rw [insertConcats_cons (by rw [opens]; rfl), insertConcats_middle (by rw [closes]; rfl)]
    exact arranges_group opens closes (ih phrase) 4
  | atom _ ih | factor _ ih | concat _ ih => exact arranges_mono (by decide) (ih spelled)
  | star _ ih =>
    obtain ⟨front, last, same, phrase, ends⟩ := List.map_eq_append_iff.mp spelled
    obtain ⟨next, only, star⟩ := List.map_eq_singleton_iff.mp ends
    subst only same
    -- a star is an operator with nothing for its right operand
    have starred := arranges_operator star rfl rfl (ih phrase) (arranges_nil 4)
    rw [List.append_nil] at starred
    rw [insertConcats_middle (by rw [star]; rfl)]
    exact starred
  | beside left right first second =>
    obtain ⟨front, back, same, before, after⟩ := List.map_eq_append_iff.mp spelled
    obtain ⟨last, found, ends⟩ := last_of_derives left
    obtain ⟨start, head, starts⟩ := first_of_derives right
    rw [← before] at found
    rw [← after] at head
    -- the phrases meet as two operands do, so the operator is inserted here
    obtain ⟨next, operator, inserted⟩ := joint_operands found ends head starts
    subst same
    rw [insertConcats_append, inserted, List.append_assoc, List.singleton_append]
    exact arranges_operator operator rfl rfl (first before) (second after)
  | dotted _ _ first second | union _ _ first second =>
    obtain ⟨front, rest, same, before, others⟩ := List.map_eq_append_iff.mp spelled
    obtain ⟨next, back, cut, operator, after⟩ := List.map_eq_cons_iff.mp others
    subst cut same
    rw [insertConcats_binary (by rw [operator]; rfl) (by rw [operator]; rfl)]
    exact arranges_operator operator rfl rfl (first before) (second after)

namespace Token

theorem ofChar?_alphanumeric {symbol : Char} (letter : symbol.isAlphanum = true) :
    ofChar? symbol = some (.literal symbol) := by
  unfold ofChar?
  split
  case h_6 => exact if_pos letter
  all_goals cases letter

theorem ofChar?_of_mem_derives {level : Level} {tokens : List Token} {tree : Tree}
    (derived : Derives level tokens tree) {token : Token} (member : token ∈ tokens) :
    ofChar? token.toChar = some token := by
  induction derived with
  | literal letter =>
    cases List.mem_singleton.mp member
    exact ofChar?_alphanumeric letter
  | atom _ ih | factor _ ih | concat _ ih => exact ih member
  | group _ ih =>
    simp only [List.cons_append, List.mem_cons, List.mem_append, List.not_mem_nil] at member
    rcases member with rfl | inside | rfl | none
    · rfl
    · exact ih inside
    · rfl
    · cases none
  | star _ ih =>
    rcases List.mem_append.mp member with inside | last
    · exact ih inside
    · cases List.mem_singleton.mp last
      rfl
  | beside _ _ first second =>
    rcases List.mem_append.mp member with before | after
    · exact first before
    · exact second after
  | dotted _ _ first second | union _ _ first second =>
    rcases List.mem_append.mp member with before | rest
    · exact first before
    · rcases List.mem_cons.mp rest with rfl | after
      · rfl
      · exact second after

theorem read_text_of_derives {level : Level} {tokens : List Token} {tree : Tree}
    (derived : Derives level tokens tree) : read (text tokens) = .ok tokens :=
  read_text_iff.mpr fun _ member => ofChar?_of_mem_derives derived member

end Token

theorem map_placedFrom (position : Nat) (tokens : List Token) :
    (placedFrom position tokens).map Placed.token = tokens := by
  induction tokens generalizing position with
  | nil => rfl
  | cons token rest ih => rw [placedFrom, List.map_cons, ih]

theorem postorder_of_read {pattern : List Char} {tokens : List Token}
    (read : Token.read pattern = .ok tokens) :
    postorder pattern = (arrange [] (insertConcats (placedFrom 0 tokens))).1 := by
  rw [postorder, Converter.convert, read]
  rfl

theorem postorder_text_of_derives {tokens : List Token} {tree : Tree}
    (derived : Derives .union tokens tree) :
    postorder (Token.text tokens) = .ok tree.postorder := by
  rw [postorder_of_read (Token.read_text_of_derives derived),
    arrange_eq_listing (arranges_of_derives derived (map_placedFrom 0 tokens))]

end Recognizer.Pattern
