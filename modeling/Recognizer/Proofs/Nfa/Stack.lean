import Mathlib.Algebra.Group.Int.Defs
import Mathlib.Algebra.Group.Nat.Defs
import Recognizer.Proofs.Nfa.Fragments

/-!
Runs of a builder. A token that finds its operands changes the stack in one of four ways, and a run
is a chain of such changes; positions only show in errors. Every change keeps the stack tiled by the
intervals of its fragments, so the automaton of a successful run lacks nothing.
-/

namespace Recognizer.Nfa

open Pattern

namespace Builder

/-- What a token does to a builder that has its operands on the stack. -/
inductive Applies : Builder → Token → Builder → Prop
  | literal (next : Nat) (stack : List Fragment) (symbol : Char) :
      Applies ⟨next, stack⟩ (.literal symbol) ⟨next + 2, Fragment.literal next symbol :: stack⟩
  | union (next : Nat) (left right : Fragment) (stack : List Fragment) :
      Applies ⟨next, right :: left :: stack⟩ .union
        ⟨next + 2, Fragment.union next left right :: stack⟩
  | concat (next : Nat) (left right : Fragment) (stack : List Fragment) :
      Applies ⟨next, right :: left :: stack⟩ .concat ⟨next, Fragment.concat left right :: stack⟩
  | star (next : Nat) (inner : Fragment) (stack : List Fragment) :
      Applies ⟨next, inner :: stack⟩ .star ⟨next + 2, Fragment.star next inner :: stack⟩

theorem step_ok_iff {before after : Builder} {position : Nat} {token : Token} :
    before.step position token = .ok after ↔ Applies before token after := by
  constructor
  · intro done
    obtain ⟨next, stack⟩ := before
    cases token with
    | literal symbol =>
      cases done
      exact Applies.literal next stack symbol
    | opening => cases done
    | closing => cases done
    | star =>
      rcases stack with _ | ⟨inner, stack⟩
      · cases done
      · cases done
        exact Applies.star next inner stack
    | concat =>
      rcases stack with _ | ⟨right, _ | ⟨left, stack⟩⟩
      · cases done
      · cases done
      · cases done
        exact Applies.concat next left right stack
    | union =>
      rcases stack with _ | ⟨right, _ | ⟨left, stack⟩⟩
      · cases done
      · cases done
      · cases done
        exact Applies.union next left right stack
  · intro applied
    cases applied <;> rfl

inductive Builds : Builder → List Token → Builder → Prop
  | nothing (builder : Builder) : Builds builder [] builder
  | token {before middle after : Builder} {token : Token} {rest : List Token} :
      Applies before token middle → Builds middle rest after → Builds before (token :: rest) after

theorem runFrom_ok_iff {before after : Builder} {position : Nat} {tokens : List Token} :
    before.runFrom position tokens = .ok after ↔ Builds before tokens after := by
  induction tokens generalizing before position with
  | nil =>
    constructor
    · intro done
      cases done
      exact Builds.nothing _
    · intro built
      cases built
      rfl
  | cons token rest ih =>
    unfold runFrom
    constructor
    · intro done
      cases stepped : before.step position token with
      | error malformed => simp [stepped] at done
      | ok middle =>
        rw [stepped] at done
        exact Builds.token (step_ok_iff.mp stepped) (ih.mp done)
    · intro built
      cases built with
      | token applied later =>
        rw [step_ok_iff.mpr applied]
        exact ih.mpr later

theorem builds_append {before middle after : Builder} {front back : List Token}
    (first : Builds before front middle) (second : Builds middle back after) :
    Builds before (front ++ back) after := by
  induction first with
  | nothing => exact second
  | token applied _ ih => exact Builds.token applied (ih second)

/-- What each token adds to a measure of the builder, a run adds up. -/
theorem adds_builds {Amount : Type} [AddMonoid Amount] (measure : Builder → Amount)
    (gain : List Token → Amount) (nothing : gain [] = 0)
    (more : ∀ token rest, gain (token :: rest) = gain [token] + gain rest)
    (each : ∀ {before after token}, Applies before token after →
      measure after = measure before + gain [token])
    {before after : Builder} {tokens : List Token} (built : Builds before tokens after) :
    measure after = measure before + gain tokens := by
  induction built with
  | nothing => rw [nothing, add_zero]
  | @token before middle after token rest applied _ ih =>
    rw [ih, each applied, more token rest, add_assoc]

/-- The intervals of the fragments follow one another from the bottom to the top and end at the
next state. -/
inductive Tiles : Nat → List Fragment → Prop
  | empty : Tiles 0 []
  | above {low high : Nat} {fragment : Fragment} {stack : List Fragment} :
      Tiles low stack → fragment.Owns low high → Tiles high (fragment :: stack)

theorem tiles_applies {before after : Builder} {token : Token}
    (applied : Applies before token after) (tiles : Tiles before.next before.stack) :
    Tiles after.next after.stack := by
  cases applied with
  | literal next stack symbol => exact Tiles.above tiles (Fragment.owns_literal next symbol)
  | union next left right stack =>
    cases tiles with
    | above tiles second =>
      cases tiles with
      | above tiles first => exact Tiles.above tiles (Fragment.owns_union first second)
  | concat next left right stack =>
    cases tiles with
    | above tiles second =>
      cases tiles with
      | above tiles first => exact Tiles.above tiles (Fragment.owns_concat first second)
  | star next inner stack =>
    cases tiles with
    | above tiles owned => exact Tiles.above tiles (Fragment.owns_star owned)

theorem tiles_builds {before after : Builder} {tokens : List Token}
    (built : Builds before tokens after) (tiles : Tiles before.next before.stack) :
    Tiles after.next after.stack := by
  induction built with
  | nothing => exact tiles
  | token applied _ ih => exact ih (tiles_applies applied tiles)

structure Kept (holds : Fragment → Prop) : Prop where
  literal : ∀ next symbol, holds (Fragment.literal next symbol)
  union : ∀ {low middle high : Nat} {left right : Fragment}, left.Owns low middle →
    right.Owns middle high → holds left → holds right → holds (Fragment.union high left right)
  concat : ∀ {low middle high : Nat} {left right : Fragment}, left.Owns low middle →
    right.Owns middle high → holds left → holds right → holds (Fragment.concat left right)
  star : ∀ {low high : Nat} {inner : Fragment}, inner.Owns low high →
    holds inner → holds (Fragment.star high inner)

theorem holds_applies {holds : Fragment → Prop} (kept : Kept holds) {before after : Builder}
    {token : Token} (applied : Applies before token after)
    (tiles : Tiles before.next before.stack) (known : ∀ fragment ∈ before.stack, holds fragment) :
    ∀ fragment ∈ after.stack, holds fragment := by
  cases applied with
  | literal next stack symbol => exact List.forall_mem_cons.mpr ⟨kept.literal next symbol, known⟩
  | union next left right stack =>
    cases tiles with | above tiles second =>
    cases tiles with | above tiles first =>
    obtain ⟨rightHolds, known⟩ := List.forall_mem_cons.mp known
    obtain ⟨leftHolds, known⟩ := List.forall_mem_cons.mp known
    exact List.forall_mem_cons.mpr ⟨kept.union first second leftHolds rightHolds, known⟩
  | concat next left right stack =>
    cases tiles with | above tiles second =>
    cases tiles with | above tiles first =>
    obtain ⟨rightHolds, known⟩ := List.forall_mem_cons.mp known
    obtain ⟨leftHolds, known⟩ := List.forall_mem_cons.mp known
    exact List.forall_mem_cons.mpr ⟨kept.concat first second leftHolds rightHolds, known⟩
  | star next inner stack =>
    cases tiles with | above tiles owned =>
    obtain ⟨innerHolds, known⟩ := List.forall_mem_cons.mp known
    exact List.forall_mem_cons.mpr ⟨kept.star owned innerHolds, known⟩

theorem holds_builds {holds : Fragment → Prop} (kept : Kept holds) {before after : Builder}
    {tokens : List Token} (built : Builds before tokens after)
    (tiles : Tiles before.next before.stack) (known : ∀ fragment ∈ before.stack, holds fragment) :
    ∀ fragment ∈ after.stack, holds fragment := by
  induction built with
  | nothing => exact known
  | token applied _ ih =>
    exact ih (tiles_applies applied tiles) (holds_applies kept applied tiles known)

end Builder

theorem ofTokens_ok_iff {tokens : List Token} {automaton : Automaton} :
    ofTokens tokens = .ok automaton ↔ ∃ next fragment,
      Builder.Builds Builder.fresh tokens ⟨next, [fragment]⟩ ∧
        fragment.toAutomaton = automaton := by
  unfold ofTokens
  constructor
  · intro done
    cases run : Builder.fresh.runFrom 0 tokens with
    | error malformed => simp [run] at done
    | ok builder =>
      rw [run] at done
      obtain ⟨next, stack⟩ := builder
      rcases stack with _ | ⟨fragment, _ | ⟨below, stack⟩⟩
      · cases done
      · cases done
        exact ⟨next, fragment, Builder.runFrom_ok_iff.mp run, rfl⟩
      · cases done
  · rintro ⟨next, fragment, built, same⟩
    rw [Builder.runFrom_ok_iff.mpr built]
    exact congrArg Except.ok same

theorem ofPostorder_ok_iff {text : List Char} {automaton : Automaton} :
    ofPostorder text = .ok automaton ↔
      ∃ tokens, Token.read text = .ok tokens ∧ ofTokens tokens = .ok automaton := by
  unfold ofPostorder
  cases Token.read text <;> simp

/-- The one fragment that a successful run leaves owns every state. -/
theorem owns_of_builds {tokens : List Token} {next : Nat} {fragment : Fragment}
    (built : Builder.Builds Builder.fresh tokens ⟨next, [fragment]⟩) : fragment.Owns 0 next := by
  cases Builder.tiles_builds built Builder.Tiles.empty with
  | above below owned =>
    cases below
    exact owned

theorem valid_ofTokens {tokens : List Token} {automaton : Automaton}
    (built : ofTokens tokens = .ok automaton) : automaton.Valid := by
  obtain ⟨next, fragment, run, same⟩ := ofTokens_ok_iff.mp built
  subst same
  exact Fragment.valid_toAutomaton (owns_of_builds run)

end Recognizer.Nfa
