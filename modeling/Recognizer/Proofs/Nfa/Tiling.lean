import Recognizer.Proofs.Nfa.Recognition

/-!
The stack of a builder between two tokens. The fragments divide the states made so far into
intervals, and none has an edge that leads out of its own. So a fragment that takes over another
never shares a source with it, and listing new edges beside the old ones is the same as adding each
to its own source and merging the tables key by key.
-/

namespace Recognizer.OrderedTable

variable {Key Value : Type} [DecidableEq Key]

theorem extendEntries_of_fresh {key : Key} {entries : List (Key × List Value)}
    (fresh : key ∉ entries.map Prod.fst) (added : List Value) :
    extendEntries key added entries = entries ++ [(key, added)] := by
  have joined := extendEntries_append fresh added []
  rwa [List.append_nil] at joined

def mergeEntries (left right : List (Key × List Value)) : List (Key × List Value) :=
  right.foldl (fun entries entry => extendEntries entry.1 entry.2 entries) left

theorem mergeEntries_of_disjoint {left right : List (Key × List Value)}
    (distinct : (right.map Prod.fst).Nodup)
    (apart : (left.map Prod.fst).Disjoint (right.map Prod.fst)) :
    mergeEntries left right = left ++ right := by
  induction right generalizing left with
  | nil => exact (List.append_nil left).symm
  | cons entry rest ih =>
    rw [List.map_cons, List.nodup_cons] at distinct
    rw [List.map_cons, List.disjoint_cons_right] at apart
    have later : ((left ++ [entry]).map Prod.fst).Disjoint (rest.map Prod.fst) := by
      rw [List.map_append, List.disjoint_append_left]
      exact ⟨apart.2, by simpa using distinct.1⟩
    rw [mergeEntries, List.foldl_cons, extendEntries_of_fresh apart.1]
    change mergeEntries (left ++ [entry]) rest = _
    rw [ih distinct.2 later, List.append_assoc, List.singleton_append]

end Recognizer.OrderedTable

namespace Recognizer.Nfa

open Pattern

namespace Fragment

/-- The fragment has its ends and its edges among its own states, and no edge leaves its accept
state. -/
structure Encloses (fragment : Fragment) : Prop where
  start : fragment.start ∈ fragment.states
  accept : fragment.accept ∈ fragment.states
  ends : fragment.start ≠ fragment.accept
  inside : ∀ source symbol target, fragment.Links source symbol target →
    source ∈ fragment.states ∧ target ∈ fragment.states
  symbols : ∀ source symbol target, fragment.Links source (some symbol) target →
    symbol ∈ fragment.alphabet
  exit : ∀ symbol target, ¬fragment.Links fragment.accept symbol target

variable {low middle high : Nat} {fragment left right inner : Fragment}

theorem encloses_of_owns (owned : Owns low high fragment) : fragment.Encloses where
  start := (owned.members _).mpr owned.start
  accept := (owned.members _).mpr owned.accept
  ends := owned.ends
  inside := by
    intro source symbol target edge
    have leaves := source_of_links owned edge
    have enters := owned.enters source symbol target edge
    rw [owned.members, owned.members]
    exact ⟨⟨leaves.1, leaves.2.1⟩, enters.1, enters.2.1⟩
  symbols := owned.symbols
  exit := by
    intro symbol target edge
    exact (source_of_links owned edge).2.2 rfl

def addSilent (fragment : Fragment) (source target : Nat) : Fragment :=
  { fragment with
    edges := OrderedTable.extendEntries source [Transition.silent target] fragment.edges }

def forking (next : Nat) (left right : Fragment) : Fragment :=
  ((((around next []).addSilent next left.start).addSilent next right.start).addSilent
    left.accept (next + 1)).addSilent right.accept (next + 1)

def looping (next : Nat) (inner : Fragment) : Fragment :=
  ((((around next []).addSilent next inner.start).addSilent next (next + 1)).addSilent
    inner.accept inner.start).addSilent inner.accept (next + 1)

def leading (left right : Fragment) : Fragment :=
  { left.addSilent left.accept right.start with accept := right.accept }

theorem forking_eq (first : Owns low middle left) (second : Owns middle high right) :
    forking high left right = around high
      [(high, [Transition.silent left.start, Transition.silent right.start]),
        (left.accept, [Transition.silent (high + 1)]),
        (right.accept, [Transition.silent (high + 1)])] := by
  have := first.accept
  have := second.accept
  have newLeft : high ≠ left.accept := by omega
  have newRight : high ≠ right.accept := by omega
  have apart : left.accept ≠ right.accept := by omega
  simp [forking, addSilent, around, OrderedTable.extendEntries, newLeft, newRight, apart]

theorem looping_eq (owned : Owns low high inner) :
    looping high inner = around high
      [(high, [Transition.silent inner.start, Transition.silent (high + 1)]),
        (inner.accept, [Transition.silent inner.start, Transition.silent (high + 1)])] := by
  have := owned.accept
  have new : high ≠ inner.accept := by omega
  simp [looping, addSilent, around, OrderedTable.extendEntries, new]

theorem edges_leading (owned : Owns low middle left) (right : Fragment) :
    (leading left right).edges = left.edges ++ [(left.accept, [Transition.silent right.start])] :=
  OrderedTable.extendEntries_of_fresh (not_source owned (Or.inr (Or.inr rfl))) _

theorem union_eq_absorb (first : Owns low middle left) (second : Owns middle high right) :
    union high left right = ((forking high left right).absorb left).absorb right := by
  rw [forking_eq first second, union]

theorem concat_eq_absorb (owned : Owns low middle left) (right : Fragment) :
    concat left right = (leading left right).absorb right := by
  rw [absorb, edges_leading owned, List.append_assoc]
  rfl

theorem star_eq_absorb (owned : Owns low high inner) :
    star high inner = (looping high inner).absorb inner := by
  rw [looping_eq owned, star]

/-- Taking over the part puts together two tables without a common source, so it is merging them. -/
structure Merges (whole part : Fragment) : Prop where
  apart : (whole.edges.map Prod.fst).Disjoint (part.edges.map Prod.fst)
  merged : (whole.absorb part).edges = OrderedTable.mergeEntries whole.edges part.edges

theorem merges_of_disjoint {whole part : Fragment} (owned : Owns low high part)
    (apart : (whole.edges.map Prod.fst).Disjoint (part.edges.map Prod.fst)) :
    Merges whole part where
  apart := apart
  merged := (OrderedTable.mergeEntries_of_disjoint owned.sources apart).symm

def MergesAll : Fragment → List Fragment → Prop
  | _, [] => True
  | whole, part :: rest => Merges whole part ∧ MergesAll (whole.absorb part) rest

theorem mergesAll_union (first : Owns low middle left) (second : Owns middle high right) :
    MergesAll (forking high left right) [left, right] := by
  have := first.accept
  have := second.accept
  have news : (forking high left right).edges.map Prod.fst =
      [high, left.accept, right.accept] := by
    rw [forking_eq first second]
    rfl
  refine ⟨merges_of_disjoint first ?_, merges_of_disjoint second ?_, trivial⟩
  · rw [news, List.disjoint_cons_left, List.disjoint_cons_left, List.disjoint_cons_left]
    exact ⟨not_source first (by omega), not_source first (by omega), not_source first (by omega),
      List.disjoint_nil_left _⟩
  · rw [absorb, List.map_append, news, List.disjoint_append_left, List.disjoint_cons_left,
      List.disjoint_cons_left, List.disjoint_cons_left]
    exact ⟨⟨not_source second (by omega), not_source second (by omega),
      not_source second (by omega), List.disjoint_nil_left _⟩, sources_disjoint first second⟩

theorem mergesAll_concat (first : Owns low middle left) (second : Owns middle high right) :
    MergesAll (leading left right) [right] := by
  have := first.accept
  have news : (leading left right).edges.map Prod.fst =
      left.edges.map Prod.fst ++ [left.accept] := by
    rw [edges_leading first, List.map_append]
    rfl
  refine ⟨merges_of_disjoint second ?_, trivial⟩
  rw [news, List.disjoint_append_left, List.singleton_disjoint]
  exact ⟨sources_disjoint first second, not_source second (by omega)⟩

theorem mergesAll_star (owned : Owns low high inner) : MergesAll (looping high inner) [inner] := by
  have news : (looping high inner).edges.map Prod.fst = [high, inner.accept] := by
    rw [looping_eq owned]
    rfl
  refine ⟨merges_of_disjoint owned ?_, trivial⟩
  rw [news, List.disjoint_cons_left, List.singleton_disjoint]
  exact ⟨not_source owned (by omega), not_source owned (by omega)⟩

end Fragment

namespace Builder

/-- What the fragment of a token starts as, and the operands that it takes over in turn. -/
def parts? (builder : Builder) (token : Token) : Option (Fragment × List Fragment) :=
  match token, builder.stack with
  | .literal symbol, _ => some (Fragment.literal builder.next symbol, [])
  | .union, right :: left :: _ => some (Fragment.forking builder.next left right, [left, right])
  | .concat, right :: left :: _ => some (Fragment.leading left right, [right])
  | .star, inner :: _ => some (Fragment.looping builder.next inner, [inner])
  | _, _ => none

structure Tiled (builder : Builder) : Prop where
  tiles : Tiles builder.next builder.stack
  apart : builder.stack.Pairwise fun above below => above.states.Disjoint below.states
  covers : ∀ state, (∃ fragment ∈ builder.stack, state ∈ fragment.states) ↔ state < builder.next
  encloses : ∀ fragment ∈ builder.stack, fragment.Encloses

theorem covers_of_tiles {next : Nat} {stack : List Fragment} (tiles : Tiles next stack)
    (state : Nat) : (∃ fragment ∈ stack, state ∈ fragment.states) ↔ state < next := by
  induction tiles with
  | empty => simp
  | above _ owned ih =>
    have := owned.start
    simp only [List.mem_cons, exists_eq_or_imp, ih, owned.members]
    omega

theorem apart_of_tiles {next : Nat} {stack : List Fragment} (tiles : Tiles next stack) :
    stack.Pairwise fun above below => above.states.Disjoint below.states := by
  induction tiles with
  | empty => exact List.Pairwise.nil
  | above below owned ih =>
    refine List.pairwise_cons.mpr ⟨?_, ih⟩
    intro fragment member state inside again
    -- what lies below is below the interval of the top fragment
    have lower := (covers_of_tiles below state).mp ⟨fragment, member, again⟩
    have := (owned.members state).mp inside
    omega

theorem owned_of_tiles {next : Nat} {stack : List Fragment} (tiles : Tiles next stack)
    {fragment : Fragment} (member : fragment ∈ stack) : ∃ low high, fragment.Owns low high := by
  induction tiles with
  | empty => cases member
  | above _ owned ih =>
    rcases List.mem_cons.mp member with same | below
    · exact same ▸ ⟨_, _, owned⟩
    · exact ih below

theorem tiled_of_tiles {builder : Builder} (tiles : Tiles builder.next builder.stack) :
    Tiled builder where
  tiles := tiles
  apart := apart_of_tiles tiles
  covers := covers_of_tiles tiles
  encloses := by
    intro fragment member
    obtain ⟨low, high, owned⟩ := owned_of_tiles tiles member
    exact Fragment.encloses_of_owns owned

theorem mergesAll_of_applies {builder after : Builder} {token : Token}
    (applied : Applies builder token after) (tiles : Tiles builder.next builder.stack) :
    ∃ base operands, builder.parts? token = some (base, operands) ∧
      after.stack.head? = some (operands.foldl Fragment.absorb base) ∧
        base.MergesAll operands := by
  cases applied with
  | literal next stack symbol => exact ⟨_, [], rfl, rfl, trivial⟩
  | union next left right stack =>
    cases tiles with | above tiles second =>
    cases tiles with | above tiles first =>
    exact ⟨_, [left, right], rfl, congrArg some (Fragment.union_eq_absorb first second),
      Fragment.mergesAll_union first second⟩
  | concat next left right stack =>
    cases tiles with | above tiles second =>
    cases tiles with | above tiles first =>
    exact ⟨_, [right], rfl, congrArg some (Fragment.concat_eq_absorb first right),
      Fragment.mergesAll_concat first second⟩
  | star next inner stack =>
    cases tiles with | above tiles owned =>
    exact ⟨_, [inner], rfl, congrArg some (Fragment.star_eq_absorb owned),
      Fragment.mergesAll_star owned⟩

/-- After any tokens that a builder takes in, the fragments divide the states made so far into
intervals, from the bottom of its stack to the top, and each keeps to its own. Whatever token comes
next, the fragments that it puts together have no source in common. -/
theorem tiled_of_run {tokens : List Token} {builder : Builder}
    (ran : fresh.runFrom 0 tokens = .ok builder) :
    Tiled builder ∧ ∀ position token after, builder.step position token = .ok after →
      ∃ base operands, builder.parts? token = some (base, operands) ∧
        after.stack.head? = some (operands.foldl Fragment.absorb base) ∧
          base.MergesAll operands := by
  have tiles : Tiles builder.next builder.stack :=
    tiles_builds (runFrom_ok_iff.mp ran) Tiles.empty
  refine ⟨tiled_of_tiles tiles, fun position token after stepped => ?_⟩
  exact mergesAll_of_applies (step_ok_iff.mp stepped) tiles

/-- A union and a star wait for the concatenation that puts them together. -/
def unfinished : List Token := [.literal 'a', .literal 'b', .union, .literal 'c', .star]

theorem tiled_of_run_unfinished :
    ∃ builder after, fresh.runFrom 0 unfinished = .ok builder ∧ Tiled builder ∧
      builder.step 5 .concat = .ok after ∧
        ∃ base operands, builder.parts? .concat = some (base, operands) ∧
          after.stack.head? = some (operands.foldl Fragment.absorb base) ∧
            base.MergesAll operands := by
  obtain ⟨builder, ran⟩ : ∃ builder, fresh.runFrom 0 unfinished = .ok builder := ⟨_, rfl⟩
  obtain ⟨after, stepped⟩ : ∃ after, builder.step 5 .concat = .ok after := by
    cases ran
    exact ⟨_, rfl⟩
  obtain ⟨tiled, merges⟩ := tiled_of_run ran
  exact ⟨builder, after, ran, tiled, stepped, merges 5 .concat after stepped⟩

end Builder

end Recognizer.Nfa
