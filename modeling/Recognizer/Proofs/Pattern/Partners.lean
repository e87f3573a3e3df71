import Mathlib.Order.Bounds.Basic
import Recognizer.Proofs.Pattern.Shape

/-!
Parentheses and their partners. A closing parenthesis is the partner of an opening one before it
when what stands between them is balanced. While a text is read, the parentheses that are still open
cut it into balanced stretches. So the latest of them is the partner of a closing parenthesis that
comes next, and a closing parenthesis that comes when none is open has no partner anywhere. These
are the groups that arranging follows, hence the position that it reports is the first closing
parenthesis without a partner, or else the last opening one.
-/

namespace Recognizer.Pattern

def Partners (text : List Char) (opening closing : Nat) : Prop :=
  ∃ front inside back, text = front ++ '(' :: (inside ++ ')' :: back) ∧ Balanced inside ∧
    opening = front.length ∧ closing = opening + inside.length + 1

def Stray (text : List Char) (closing : Nat) : Prop :=
  text[closing]? = some ')' ∧ ∀ opening, ¬Partners text opening closing

def LeftOpen (text : List Char) (opening : Nat) : Prop :=
  text[opening]? = some '(' ∧ ∀ closing, ¬Partners text opening closing

theorem balanced_iff_balancedOver {text : List Char} : Balanced text ↔ BalancedOver 0 text := by
  simp [Balanced, BalancedOver]

theorem balancedOver_append {depth more : Nat} {front back : List Char}
    (first : BalancedOver depth front) (second : BalancedOver more back) :
    BalancedOver (depth + more) (front ++ back) := by
  induction front generalizing depth with
  | nil =>
    cases first.2
    rwa [Nat.zero_add]
  | cons character rest ih =>
    rw [List.cons_append]
    by_cases opens : character = '('
    · subst opens
      have inner := ih ((balancedOver_opening depth rest).mp first)
      rw [Nat.add_right_comm] at inner
      exact (balancedOver_opening _ _).mpr inner
    · by_cases closes : character = ')'
      · subst closes
        obtain ⟨deep, inner⟩ := (balancedOver_closing depth rest).mp first
        have same : depth + more - 1 = depth - 1 + more := by omega
        exact (balancedOver_closing _ _).mpr ⟨by omega, same ▸ ih inner⟩
      · have inner := ih ((balancedOver_other opens closes depth rest).mp first)
        exact (balancedOver_other opens closes _ _).mpr inner

theorem balanced_nil : Balanced [] := balanced_iff_balancedOver.mpr ⟨by simp, rfl⟩

theorem balanced_append {front back : List Char} (first : Balanced front) (second : Balanced back) :
    Balanced (front ++ back) :=
  balanced_iff_balancedOver.mpr (balancedOver_append (balanced_iff_balancedOver.mp first)
    (balanced_iff_balancedOver.mp second))

theorem balanced_singleton {character : Char} (opens : character ≠ '(') (closes : character ≠ ')') :
    Balanced [character] :=
  balanced_iff_balancedOver.mpr ((balancedOver_other opens closes 0 []).mpr
    (balanced_iff_balancedOver.mp balanced_nil))

theorem balanced_enclosed {inside : List Char} (balanced : Balanced inside) :
    Balanced ('(' :: (inside ++ [')'])) := by
  have closes : BalancedOver 1 [')'] := (balancedOver_closing 1 []).mpr
    ⟨Nat.one_pos, balanced_iff_balancedOver.mp balanced_nil⟩
  have opens := balancedOver_append (balanced_iff_balancedOver.mp balanced) closes
  exact balanced_iff_balancedOver.mpr ((balancedOver_opening 0 _).mpr opens)

/-- The parentheses at the positions are open, the latest first, and what stands before, between and
behind them is balanced. -/
inductive Opens : List Char → List Nat → Prop
  | none {text : List Char} : Balanced text → Opens text []
  | some {front inside : List Char} {positions : List Nat} : Opens front positions →
      Balanced inside → Opens (front ++ '(' :: inside) (front.length :: positions)

theorem opens_append {text back : List Char} {positions : List Nat} (opens : Opens text positions)
    (balanced : Balanced back) : Opens (text ++ back) positions := by
  cases opens with
  | none whole => exact .none (balanced_append whole balanced)
  | some outer inside =>
    rw [List.append_assoc, List.cons_append]
    exact .some outer (balanced_append inside balanced)

theorem lt_length_of_opens {text : List Char} {positions : List Nat}
    (opens : Opens text positions) : ∀ position ∈ positions, position < text.length := by
  induction opens with
  | none => exact List.forall_mem_nil _
  | some _ _ ih =>
    refine List.forall_mem_cons.mpr ⟨by simp, fun position member => ?_⟩
    rw [List.length_append]
    exact Nat.lt_add_right _ (ih position member)

def Guarded (text : List Char) : Prop :=
  ∀ length, (text.take length).count ')' ≤ (text.take length).count '('

theorem guarded_of_balanced {text : List Char} (balanced : Balanced text) : Guarded text :=
  fun length => balanced.1 _ (List.take_prefix length text)

theorem guarded_append {front back : List Char} (first : Guarded front) (second : Guarded back) :
    Guarded (front ++ back) := by
  intro length
  rw [List.take_append, List.count_append, List.count_append]
  exact Nat.add_le_add (first length) (second _)

theorem guarded_opening {text : List Char} (guarded : Guarded text) : Guarded ('(' :: text) := by
  intro length
  cases length with
  | zero => exact Nat.le_refl 0
  | succ length =>
    have inner := guarded length
    simp only [List.take_succ_cons, List.count_cons]
    exact Nat.add_le_add inner (Nat.zero_le _)

/-- Behind an open parenthesis no more groups close than open. -/
theorem guarded_of_opens {text : List Char} {positions : List Nat} (opens : Opens text positions)
    {position : Nat} (member : position ∈ positions) :
    ∃ front back, text = front ++ '(' :: back ∧ position = front.length ∧ Guarded back := by
  induction opens with
  | none => cases member
  | @some outer inside _ _ balanced ih =>
    have behind := guarded_of_balanced balanced
    rcases List.mem_cons.mp member with latest | earlier
    · exact ⟨outer, inside, rfl, latest, behind⟩
    · obtain ⟨front, back, same, place, guarded⟩ := ih earlier
      subst same
      refine ⟨front, back ++ '(' :: inside, by simp, place, ?_⟩
      exact guarded_append guarded (guarded_opening behind)

theorem not_partners_of_opens {text : List Char} {positions : List Nat}
    (opens : Opens text positions) {opening : Nat} (member : opening ∈ positions)
    (closing : Nat) : ¬Partners text opening closing := by
  rintro ⟨before, inside, after, split, balanced, place, _⟩
  obtain ⟨front, back, same, stands, guarded⟩ := guarded_of_opens opens member
  obtain ⟨_, behind⟩ := List.append_inj (same.symm.trans split) (stands.symm.trans place)
  obtain ⟨_, behind⟩ := List.cons.inj behind
  -- the partner would close one group more than open behind the parenthesis
  have bound := guarded (inside.length + 1)
  have total := balanced.2
  rw [behind, List.take_length_add_append, List.take_succ_cons, List.take_zero,
    List.count_append, List.count_append] at bound
  simp at bound
  omega

theorem not_partners_of_balanced {front : List Char} (balanced : Balanced front)
    (rest : List Char) (opening : Nat) : ¬Partners (front ++ ')' :: rest) opening front.length := by
  rintro ⟨before, inside, after, split, within, place, last⟩
  have cut : front = before ++ '(' :: inside := by
    have again : front ++ ')' :: rest = (before ++ '(' :: inside) ++ ')' :: after := by
      simpa using split
    refine (List.append_inj again ?_).1
    rw [last, place, List.length_append, List.length_cons, Nat.add_assoc]
  have bound := balanced.1 before ⟨_, cut.symm⟩
  have total := balanced.2
  have inner := within.2
  rw [cut] at total
  simp [List.count_append] at total
  omega

theorem partners_append {text : List Char} {opening closing : Nat}
    (partners : Partners text opening closing) (rest : List Char) :
    Partners (text ++ rest) opening closing := by
  obtain ⟨front, inside, back, same, balanced, place, last⟩ := partners
  exact ⟨front, inside, back ++ rest, by simp [same], balanced, place, last⟩

/-- A text up to some place: the parentheses at the positions wait for a partner, and every other
one has found its own. -/
structure Scanned (text : List Char) (positions : List Nat) : Prop where
  opens : Opens text positions
  opening : ∀ place, text[place]? = some '(' →
    place ∈ positions ∨ ∃ closing, Partners text place closing
  closing : ∀ place, text[place]? = some ')' → ∃ opening, Partners text opening place

theorem scanned_nil : Scanned [] [] where
  opens := .none balanced_nil
  opening := by simp
  closing := by simp

theorem getElem?_snoc {text : List Char} {last character : Char} {place : Nat}
    (stands : (text ++ [last])[place]? = some character) :
    text[place]? = some character ∨ (place = text.length ∧ last = character) := by
  rw [List.getElem?_append] at stands
  split at stands
  · exact Or.inl stands
  · obtain ⟨within, same⟩ := List.getElem?_eq_some_iff.mp stands
    rw [List.length_singleton] at within
    rw [List.getElem_singleton] at same
    exact Or.inr ⟨by omega, same⟩

theorem scanned_other {text : List Char} {positions : List Nat} (scanned : Scanned text positions)
    {character : Char} (opens : character ≠ '(') (closes : character ≠ ')') :
    Scanned (text ++ [character]) positions where
  opens := opens_append scanned.opens (balanced_singleton opens closes)
  opening := by
    intro place stands
    rcases getElem?_snoc stands with before | ⟨_, same⟩
    · exact (scanned.opening place before).imp_right fun ⟨closing, partners⟩ =>
        ⟨closing, partners_append partners _⟩
    · exact absurd same opens
  closing := by
    intro place stands
    rcases getElem?_snoc stands with before | ⟨_, same⟩
    · exact (scanned.closing place before).imp fun opening partners => partners_append partners _
    · exact absurd same closes

theorem scanned_opening {text : List Char} {positions : List Nat}
    (scanned : Scanned text positions) :
    Scanned (text ++ ['(']) (text.length :: positions) where
  opens := .some scanned.opens balanced_nil
  opening := by
    intro place stands
    rcases getElem?_snoc stands with before | ⟨last, _⟩
    · rcases scanned.opening place before with waits | ⟨closing, partners⟩
      · exact Or.inl (List.mem_cons_of_mem _ waits)
      · exact Or.inr ⟨closing, partners_append partners _⟩
    · exact Or.inl (List.mem_cons.mpr (Or.inl last))
  closing := by
    intro place stands
    rcases getElem?_snoc stands with before | ⟨_, same⟩
    · exact (scanned.closing place before).imp fun opening partners => partners_append partners _
    · cases same

/-- A closing parenthesis is the partner of the latest one that is open. -/
theorem scanned_closing {text : List Char} {latest : Nat} {positions : List Nat}
    (scanned : Scanned text (latest :: positions)) : Scanned (text ++ [')']) positions := by
  cases opens : scanned.opens with
  | @some front inside _ outer balanced =>
    have found : Partners (front ++ '(' :: inside ++ [')']) front.length
        (front ++ '(' :: inside).length := by
      refine ⟨front, inside, [], by simp, balanced, rfl, ?_⟩
      rw [List.length_append, List.length_cons, Nat.add_assoc]
    constructor
    case opens =>
      rw [List.append_assoc, List.cons_append]
      exact opens_append outer (balanced_enclosed balanced)
    case opening =>
      intro place stands
      rcases getElem?_snoc stands with before | ⟨_, same⟩
      · rcases scanned.opening place before with waits | ⟨closing, partners⟩
        · rcases List.mem_cons.mp waits with last | earlier
          · subst last
            exact Or.inr ⟨_, found⟩
          · exact Or.inl earlier
        · exact Or.inr ⟨closing, partners_append partners _⟩
      · cases same
    case closing =>
      intro place stands
      rcases getElem?_snoc stands with before | ⟨last, _⟩
      · exact (scanned.closing place before).imp fun opening partners =>
          partners_append partners _
      · subst last
        exact ⟨_, found⟩

/-- No closing parenthesis lacks a partner, and of the opening ones those that wait. -/
theorem not_stray_of_scanned {text : List Char} {positions : List Nat}
    (scanned : Scanned text positions) (closing : Nat) : ¬Stray text closing := by
  rintro ⟨stands, alone⟩
  obtain ⟨opening, partners⟩ := scanned.closing closing stands
  exact alone opening partners

theorem leftOpen_iff_of_scanned {text : List Char} {positions : List Nat}
    (scanned : Scanned text positions) {opening : Nat} :
    LeftOpen text opening ↔ opening ∈ positions := by
  constructor
  · rintro ⟨stands, alone⟩
    rcases scanned.opening opening stands with waits | ⟨closing, partners⟩
    · exact waits
    · exact absurd partners (alone closing)
  · intro waits
    obtain ⟨front, back, same, place, _⟩ := guarded_of_opens scanned.opens waits
    refine ⟨?_, not_partners_of_opens scanned.opens waits⟩
    rw [same, place]
    simp

theorem isGreatest_leftOpen {text : List Char} {latest : Nat} {positions : List Nat}
    (scanned : Scanned text (latest :: positions)) :
    IsGreatest {opening | LeftOpen text opening} latest := by
  refine ⟨(leftOpen_iff_of_scanned scanned).mpr List.mem_cons_self, fun opening waits => ?_⟩
  rcases List.mem_cons.mp ((leftOpen_iff_of_scanned scanned).mp waits) with last | earlier
  · exact Nat.le_of_eq last
  · cases scanned.opens with
    | some outer _ => exact Nat.le_of_lt (lt_length_of_opens outer opening earlier)

/-- A closing parenthesis that comes when none is open is the first stray one, whatever follows. -/
theorem isLeast_stray {text : List Char} (scanned : Scanned text []) (rest : List Char) :
    IsLeast {closing | Stray (text ++ ')' :: rest) closing} text.length := by
  constructor
  · refine ⟨by simp, ?_⟩
    cases scanned.opens with
    | none balanced => exact not_partners_of_balanced balanced rest
  · rintro closing ⟨stands, alone⟩
    refine Nat.le_of_not_lt fun before => ?_
    rw [List.getElem?_append_left before] at stands
    obtain ⟨opening, partners⟩ := scanned.closing closing stands
    exact alone opening (partners_append partners _)

/-- What arranging reports of the groups, said of the text. -/
theorem unpartnered?_settles {text : List Char} {positions : List Nat}
    (scanned : Scanned text positions) {tokens : List Token}
    (spelled : ∀ token ∈ tokens, Token.ofChar? token.toChar = some token) :
    (unpartnered? positions (placedFrom text.length tokens) = none ∧
        (∀ closing, ¬Stray (text ++ Token.text tokens) closing) ∧
        ∀ opening, ¬LeftOpen (text ++ Token.text tokens) opening) ∨
      ∃ position, unpartnered? positions (placedFrom text.length tokens) = some position ∧
        (IsLeast {closing | Stray (text ++ Token.text tokens) closing} position ∨
          (∀ closing, ¬Stray (text ++ Token.text tokens) closing) ∧
            IsGreatest {opening | LeftOpen (text ++ Token.text tokens) opening} position) := by
  induction tokens generalizing text positions with
  | nil =>
    rw [Token.text, List.map_nil, List.append_nil]
    cases positions with
    | nil =>
      refine Or.inl ⟨rfl, not_stray_of_scanned scanned, fun opening waits => ?_⟩
      cases (leftOpen_iff_of_scanned scanned).mp waits
    | cons latest positions =>
      exact Or.inr ⟨latest, rfl, Or.inr
        ⟨not_stray_of_scanned scanned, isGreatest_leftOpen scanned⟩⟩
  | cons token rest ih =>
    obtain ⟨head, tail⟩ := List.forall_mem_cons.mp spelled
    have next {positions : List Nat} (scanned : Scanned (text ++ [token.toChar]) positions) :=
      ih scanned tail
    rw [List.length_append, List.length_singleton, List.append_assoc, List.singleton_append] at next
    rw [Token.text, List.map_cons, placedFrom]
    cases token with
    | opening => exact next (scanned_opening scanned)
    | closing =>
      cases positions with
      | nil => exact Or.inr ⟨text.length, rfl, Or.inl (isLeast_stray scanned _)⟩
      | cons latest positions => exact next (scanned_closing scanned)
    | star | concat | union => exact next (scanned_other scanned (by decide) (by decide))
    | literal symbol =>
      obtain ⟨opens, closes⟩ := Token.ne_parenthesis_of_ofChar? head
      exact next (scanned_other scanned opens closes)

inductive Parted (pattern : List Char) : Except Malformed (List Token) → Prop
  | foreign {symbol : Char} {position : Nat} : ForeignAt pattern symbol position →
      Parted pattern (.error (.unsupportedCharacter symbol position))
  | stray {position : Nat} : Supported pattern →
      IsLeast {closing | Stray pattern closing} position →
        Parted pattern (.error (.unbalancedParenthesis position))
  | leftOpen {position : Nat} : Supported pattern → (∀ closing, ¬Stray pattern closing) →
      IsGreatest {opening | LeftOpen pattern opening} position →
        Parted pattern (.error (.unbalancedParenthesis position))
  | paired (listing : List Token) : Supported pattern → (∀ closing, ¬Stray pattern closing) →
      (∀ opening, ¬LeftOpen pattern opening) → Parted pattern (.ok listing)

theorem parted_postorder (pattern : List Char) : Parted pattern (postorder pattern) := by
  rcases read_settles pattern with ⟨supported, tokens, read⟩ | ⟨symbol, position, foreign, failed⟩
  · have settled := unpartnered?_settles scanned_nil fun _ => Token.ofChar?_of_read read
    rw [Token.text_of_read read] at settled
    rcases settled with ⟨closed, strays, waits⟩ | ⟨position, found, alone⟩
    · rcases postorder_ordered read with ⟨_, listed, _⟩ | ⟨position, again, _⟩
      · rw [listed]
        exact .paired _ supported strays waits
      · cases closed.symm.trans again
    · rcases postorder_ordered read with ⟨closed, _⟩ | ⟨place, again, failed⟩
      · cases closed.symm.trans found
      · cases found.symm.trans again
        rw [failed]
        rcases alone with first | ⟨strays, last⟩
        · exact .stray supported first
        · exact .leftOpen supported strays last
  · rw [postorder, Converter.convert, failed]
    exact .foreign foreign

/-- A pattern has no listing when it holds a character that is no token, and then the first one is
reported; otherwise when a closing parenthesis has no partner before it, and the first one is
reported; otherwise when an opening one has none behind it, and the last one is reported. Positions
are those of the pattern, whatever concatenations are inserted. -/
theorem postorder_outcome (pattern : List Char) :
    (∀ symbol position,
      postorder pattern = .error (.unsupportedCharacter symbol position) ↔
        ForeignAt pattern symbol position) ∧
    (∀ position, postorder pattern = .error (.unbalancedParenthesis position) ↔
      Supported pattern ∧
        (IsLeast {closing | Stray pattern closing} position ∨
          (∀ closing, ¬Stray pattern closing) ∧
            IsGreatest {opening | LeftOpen pattern opening} position)) ∧
    ((∃ listing, postorder pattern = .ok listing) ↔
      Supported pattern ∧ (∀ closing, ¬Stray pattern closing) ∧
        ∀ opening, ¬LeftOpen pattern opening) := by
  have parted := parted_postorder pattern
  generalize postorder pattern = outcome at parted
  cases parted with
  | foreign foreign =>
    have unsupported := not_supported_of_foreignAt foreign
    refine ⟨fun symbol position => ⟨fun same => ?_, fun again => ?_⟩, by simp [unsupported],
      by simp [unsupported]⟩
    · cases same
      exact foreign
    · obtain ⟨sameSymbol, samePlace⟩ := foreignAt_unique foreign again
      rw [sameSymbol, samePlace]
  | stray supported first =>
    refine ⟨fun symbol position => ?_, fun position => ⟨fun same => ?_, ?_⟩, ?_⟩
    · simpa using fun foreign => not_supported_of_foreignAt foreign supported
    · cases same
      exact ⟨supported, Or.inl first⟩
    · rintro ⟨_, again | ⟨strays, _⟩⟩
      · rw [first.unique again]
      · exact absurd first.1 (strays _)
    · simpa using fun _ strays => absurd first.1 (strays _)
  | leftOpen supported strays last =>
    refine ⟨fun symbol position => ?_, fun position => ⟨fun same => ?_, ?_⟩, ?_⟩
    · simpa using fun foreign => not_supported_of_foreignAt foreign supported
    · cases same
      exact ⟨supported, Or.inr ⟨strays, last⟩⟩
    · rintro ⟨_, first | ⟨_, again⟩⟩
      · exact absurd first.1 (strays _)
      · rw [last.unique again]
    · simpa using fun _ _ => ⟨_, last.1⟩
  | paired listing supported strays waits =>
    refine ⟨fun symbol position => ?_, fun position => ?_, ?_⟩
    · simpa using fun foreign => not_supported_of_foreignAt foreign supported
    · refine iff_of_false (by simp) ?_
      rintro ⟨_, first | ⟨_, last⟩⟩
      · exact absurd first.1 (strays _)
      · exact absurd last.1 (waits _)
    · exact iff_of_true ⟨listing, rfl⟩ ⟨supported, strays, waits⟩

/-- The parenthesis that closes nothing is reported, not the one that stays open behind it. -/
example : postorder ['(', 'a', ')', ')', '(', 'b'] = .error (.unbalancedParenthesis 3) := rfl

end Recognizer.Pattern
