import Mathlib.Order.Bounds.Basic
import Recognizer.Proofs.Nfa.Stack
import Recognizer.Proofs.Pattern.Reading

/-!
Operands that a builder is short of. A builder's stack is as high as the tokens weigh that it has
taken in, so whether a token finds its operands can be told from the tokens before it. The run stops
at the first token that does not, or at a parenthesis; otherwise it ends with as many fragments as
the tokens weigh.
-/

namespace Recognizer.Nfa

open Pattern

def Starves (operands : Int) : Token → Prop
  | .literal _ => False
  | .star => operands = 0
  | .concat | .union => operands ≤ 1
  | .opening | .closing => True

/-- The first tokens leave too few operands for the one at the place, when so many were there. -/
def StarvesAt (operands : Int) (tokens : List Token) (place : Nat) : Prop :=
  ∃ token, tokens[place]? = some token ∧ Starves (operands + Token.weigh (tokens.take place)) token

def complaint (position : Nat) (token : Token) : Malformed :=
  if token.isBare then .missingOperand token.toChar position
  else .unbalancedParenthesis position

theorem starvesAt_zero_iff {operands : Int} {token : Token} {rest : List Token} :
    StarvesAt operands (token :: rest) 0 ↔ Starves operands token := by
  simp [StarvesAt, Token.weigh]

theorem starvesAt_succ_iff {operands : Int} {token : Token} {rest : List Token} {place : Nat} :
    StarvesAt operands (token :: rest) (place + 1) ↔
      StarvesAt (operands + token.weight) rest place := by
  simp [StarvesAt, Token.weigh, Int.add_assoc]

theorem isLeast_starvesAt_succ {operands : Int} {token : Token} {rest : List Token} {place : Nat}
    (fed : ¬Starves operands token)
    (first : IsLeast {place | StarvesAt (operands + token.weight) rest place} place) :
    IsLeast {place | StarvesAt operands (token :: rest) place} (place + 1) := by
  refine ⟨starvesAt_succ_iff.mpr first.1, fun other starved => ?_⟩
  cases other with
  | zero => exact absurd (starvesAt_zero_iff.mp starved) fed
  | succ other => exact Nat.succ_le_succ (first.2 (starvesAt_succ_iff.mp starved))

namespace Builder

theorem step_settles (builder : Builder) (position : Nat) (token : Token) :
    (¬Starves builder.stack.length token ∧ ∃ after, Applies builder token after) ∨
      (Starves builder.stack.length token ∧
        builder.step position token = .error (complaint position token)) := by
  obtain ⟨next, stack⟩ := builder
  cases token with
  | opening | closing => exact Or.inr ⟨trivial, rfl⟩
  | literal symbol => exact Or.inl ⟨not_false, _, Applies.literal next stack symbol⟩
  | star =>
    rcases stack with _ | ⟨inner, stack⟩
    · exact Or.inr ⟨rfl, rfl⟩
    · refine Or.inl ⟨?_, _, Applies.star next inner stack⟩
      simp only [Starves, List.length_cons]
      omega
  | concat =>
    rcases stack with _ | ⟨right, _ | ⟨left, stack⟩⟩
    · exact Or.inr ⟨Int.zero_le_ofNat 1, rfl⟩
    · exact Or.inr ⟨Int.le_refl 1, rfl⟩
    · refine Or.inl ⟨?_, _, Applies.concat next left right stack⟩
      simp only [Starves, List.length_cons]
      omega
  | union =>
    rcases stack with _ | ⟨right, _ | ⟨left, stack⟩⟩
    · exact Or.inr ⟨Int.zero_le_ofNat 1, rfl⟩
    · exact Or.inr ⟨Int.le_refl 1, rfl⟩
    · refine Or.inl ⟨?_, _, Applies.union next left right stack⟩
      simp only [Starves, List.length_cons]
      omega

theorem height_applies {before after : Builder} {token : Token}
    (applied : Applies before token after) :
    (after.stack.length : Int) = before.stack.length + Token.weigh [token] := by
  cases applied with
  | literal | union | concat | star =>
    simp only [Token.weigh, Token.weight, List.length_cons]
    omega

theorem height_builds {before after : Builder} {tokens : List Token}
    (built : Builds before tokens after) :
    (after.stack.length : Int) = before.stack.length + Token.weigh tokens :=
  adds_builds (fun builder => (builder.stack.length : Int)) Token.weigh rfl
    (fun token rest => Token.weigh_append [token] rest) height_applies built

theorem runFrom_settles (builder : Builder) (position : Nat) (tokens : List Token) :
    ((∃ after, Builds builder tokens after) ∧
        ∀ place, ¬StarvesAt builder.stack.length tokens place) ∨
      ∃ place token, IsLeast {place | StarvesAt builder.stack.length tokens place} place ∧
        tokens[place]? = some token ∧
        builder.runFrom position tokens = .error (complaint (position + place) token) := by
  induction tokens generalizing builder position with
  | nil =>
    refine Or.inl ⟨⟨builder, Builds.nothing builder⟩, fun place starved => ?_⟩
    obtain ⟨token, stands, _⟩ := starved
    cases stands
  | cons token rest ih =>
    rcases step_settles builder position token with ⟨fed, middle, applied⟩ | ⟨starved, failed⟩
    · have height : (middle.stack.length : Int) = builder.stack.length + token.weight := by
        rw [height_applies applied, Token.weigh, Token.weigh, Int.add_zero]
      have later := ih middle (position + 1)
      rw [height] at later
      rcases later with ⟨⟨after, built⟩, sated⟩ | ⟨place, other, first, stands, failed⟩
      · refine Or.inl ⟨⟨after, Builds.token applied built⟩, fun place starved => ?_⟩
        cases place with
        | zero => exact fed (starvesAt_zero_iff.mp starved)
        | succ place => exact sated place (starvesAt_succ_iff.mp starved)
      · refine Or.inr ⟨place + 1, other, isLeast_starvesAt_succ fed first, stands, ?_⟩
        rw [runFrom, step_ok_iff.mpr applied, ← Nat.add_assoc, Nat.add_right_comm]
        exact failed
    · refine Or.inr ⟨0, token, ⟨starvesAt_zero_iff.mpr starved, ?_⟩, rfl, ?_⟩
      · exact fun place _ => Nat.zero_le place
      · rw [runFrom, failed]
        rfl

theorem stack_ne_nil_of_builds {before after : Builder} {tokens : List Token}
    (built : Builds before tokens after) (some : before.stack ≠ [] ∨ tokens ≠ []) :
    after.stack ≠ [] := by
  induction built with
  | nothing builder =>
    rcases some with stacked | absurd
    · exact stacked
    · exact (absurd rfl).elim
  | token applied _ ih =>
    apply ih
    left
    cases applied <;> exact List.cons_ne_nil _ _

end Builder

inductive Settles (tokens : List Token) : Except Malformed Automaton → Prop
  | starved {place : Nat} {token : Token} : IsLeast {place | StarvesAt 0 tokens place} place →
      tokens[place]? = some token → Settles tokens (.error (complaint place token))
  | nothing : tokens = [] → Settles tokens (.error .emptyExpression)
  | dangling {count : Nat} : (∀ place, ¬StarvesAt 0 tokens place) → Token.weigh tokens = count →
      1 < count → Settles tokens (.error (.danglingOperands count))
  | built (automaton : Automaton) : (∀ place, ¬StarvesAt 0 tokens place) →
      Token.weigh tokens = 1 → Settles tokens (.ok automaton)

theorem settles_ofTokens (tokens : List Token) : Settles tokens (ofTokens tokens) := by
  rcases Builder.runFrom_settles Builder.fresh 0 tokens with
    ⟨⟨⟨next, stack⟩, built⟩, sated⟩ | ⟨place, token, first, stands, failed⟩
  · have height : (stack.length : Int) = Token.weigh tokens :=
      (Builder.height_builds built).trans (Int.zero_add _)
    rw [ofTokens, Builder.runFrom_ok_iff.mpr built]
    rcases stack with _ | ⟨fragment, _ | ⟨below, stack⟩⟩
    · refine .nothing (Classical.byContradiction fun some => ?_)
      exact Builder.stack_ne_nil_of_builds built (Or.inr some) rfl
    · exact .built _ sated height.symm
    · exact .dangling sated height.symm (Nat.succ_lt_succ (Nat.succ_pos _))
  · rw [ofTokens, failed, Nat.zero_add]
    exact .starved first stands

theorem ofTokens_missingOperand_iff {tokens : List Token} {operator : Char} {position : Nat} :
    ofTokens tokens = .error (.missingOperand operator position) ↔
      IsLeast {place | StarvesAt 0 tokens place} position ∧
        ∃ token, tokens[position]? = some token ∧ token.isBare = true ∧
          token.toChar = operator := by
  have settles := settles_ofTokens tokens
  generalize ofTokens tokens = outcome at settles
  cases settles with
  | @starved place token first stands =>
    constructor
    · intro same
      rw [complaint] at same
      split at same
      case isTrue bare =>
        cases same
        exact ⟨first, token, stands, bare, rfl⟩
      case isFalse => cases same
    · rintro ⟨again, other, there, bare, spelled⟩
      cases first.unique again
      cases stands.symm.trans there
      rw [complaint, if_pos bare, spelled]
  | nothing empty =>
    refine iff_of_false (by simp) ?_
    rintro ⟨_, token, stands, _⟩
    rw [empty] at stands
    cases stands
  | dangling sated | built _ sated => exact iff_of_false (by simp) fun ⟨first, _⟩ => sated _ first.1

/-- Tokens without groups that weigh no more than one miss an operand or make an automaton, unless
there are none. -/
theorem ofTokens_settles {tokens : List Token} (bare : ∀ token ∈ tokens, token.isBare = true)
    (light : Token.weigh tokens ≤ 1) :
    (tokens = [] ∧ ofTokens tokens = .error .emptyExpression) ∨
      (tokens ≠ [] ∧ ∃ operator position,
        ofTokens tokens = .error (.missingOperand operator position)) ∨
      (tokens ≠ [] ∧ Token.weigh tokens = 1 ∧ ∃ nfa, ofTokens tokens = .ok nfa) := by
  have settles := settles_ofTokens tokens
  generalize ofTokens tokens = outcome at settles
  cases settles with
  | starved first stands =>
    have member := List.mem_of_getElem? stands
    rw [complaint, if_pos (bare _ member)]
    exact Or.inr (Or.inl ⟨List.ne_nil_of_mem member, _, _, rfl⟩)
  | nothing empty => exact Or.inl ⟨empty, rfl⟩
  | dangling _ weight many => omega
  | built nfa _ weight =>
    refine Or.inr (Or.inr ⟨?_, weight, nfa, rfl⟩)
    rintro rfl
    cases weight

end Recognizer.Nfa
