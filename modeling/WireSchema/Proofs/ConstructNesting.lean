/-
Module: WireSchema.Proofs.ConstructNesting
Purpose: `Nests allowed` says that a list of tokens is a sequence of leaves and constructs that do
  not interleave, and that each construct, given by its two ends and what stands between them, is
  one of those that are allowed.  Every kind of nesting is this one under a condition of its own, so
  that what all of them share is shown once: which spans are measured (`Nests.measuresTo`), what
  becomes of the nesting when tokens are rewritten one by one (`Nests.map`), and where the construct
  of an opening token ends (`Nests.constructAt`).
Main exports: Token.IsLeaf, Nests, Nests.map, WellNested, ConstructAt, Nests.constructAt
-/
import WireSchema.Proofs.Measuring

namespace WireSchema

/-- Whether a token neither opens nor closes a construct. -/
def Token.IsLeaf (token : Token) : Prop :=
  token.signal.opens? = none ∧ token.signal.closes? = none

instance (token : Token) : Decidable token.IsLeaf :=
  inferInstanceAs (Decidable (_ ∧ _))

theorem Token.isLeaf_of_signal {token other : Token} (same : token.signal = other.signal) :
    token.IsLeaf ↔ other.IsLeaf := by
  rw [Token.IsLeaf, Token.IsLeaf, same]

/-- A leaf is none of the ends of a construct. -/
theorem Token.IsLeaf.mem_construct {token opening closing : Token} {inner rest : List Token}
    {component : Component} (isLeaf : token.IsLeaf)
    (opens : opening.signal.opens? = some component)
    (closes : closing.signal.closes? = some component)
    (member : token ∈ enclose opening inner closing ++ rest) : token ∈ inner ∨ token ∈ rest := by
  simp only [enclose, List.cons_append, List.append_assoc, List.nil_append, List.mem_cons,
    List.mem_append] at member
  rcases member with rfl | isInside | rfl | isLater
  · rw [isLeaf.1] at opens
    cases opens
  · exact .inl isInside
  · rw [isLeaf.2] at closes
    cases closes
  · exact .inr isLater

/-- A sequence of leaves and nested constructs, all of them allowed. -/
inductive Nests (allowed : Token → List Token → Token → Prop) : List Token → Prop where
  | nil : Nests allowed []
  | leaf {token : Token} {rest : List Token} (isLeaf : token.IsLeaf)
      (later : Nests allowed rest) : Nests allowed (token :: rest)
  | construct {component : Component} {opening closing : Token} {inner rest : List Token}
      (opens : opening.signal.opens? = some component)
      (closes : closing.signal.closes? = some component) (fits : allowed opening inner closing)
      (inside : Nests allowed inner) (later : Nests allowed rest) :
      Nests allowed (enclose opening inner closing ++ rest)

/-- Constructs that nest without interleaving, whatever they are. -/
def WellNested : List Token → Prop :=
  Nests fun _ _ _ => True

/-- A construct of a component stands in a list, its ends at two places. -/
structure ConstructAt (tokens : List Token) (component : Component) (first last : Nat)
    (opening : Token) (inner : List Token) (closing : Token) : Prop where
  parts : ∃ before after, tokens = before ++ (enclose opening inner closing ++ after) ∧
    before.length = first
  reach : last = first + inner.length + 1
  opens : opening.signal.opens? = some component
  closes : closing.signal.closes? = some component

namespace ConstructAt

variable {tokens inner more : List Token} {component : Component} {first last : Nat}
  {opening closing : Token}

/-- What stands in front of a list moves its constructs. -/
theorem behind (isAt : ConstructAt tokens component first last opening inner closing)
    (front : List Token) :
    ConstructAt (front ++ tokens) component (front.length + first) (front.length + last) opening
      inner closing := by
  obtain ⟨⟨before, after, rfl, rfl⟩, rfl, opens, closes⟩ := isAt
  refine ⟨⟨front ++ before, after, ?_, ?_⟩, ?_, opens, closes⟩
  · rw [List.append_assoc]
  · rw [List.length_append]
  · omega

/-- What stands behind a list does not. -/
theorem inFront (isAt : ConstructAt tokens component first last opening inner closing)
    (back : List Token) :
    ConstructAt (tokens ++ back) component first last opening inner closing := by
  obtain ⟨⟨before, after, rfl, length⟩, reach, opens, closes⟩ := isAt
  refine ⟨⟨before, after ++ back, ?_, length⟩, reach, opens, closes⟩
  simp only [List.append_assoc]

theorem getElem?_first (isAt : ConstructAt tokens component first last opening inner closing) :
    tokens[first]? = some opening := by
  obtain ⟨⟨before, after, rfl, rfl⟩, _⟩ := isAt
  rw [List.getElem?_append_right (Nat.le_refl _), Nat.sub_self]
  rfl

theorem getElem?_last (isAt : ConstructAt tokens component first last opening inner closing) :
    tokens[last]? = some closing := by
  obtain ⟨⟨before, after, rfl, rfl⟩, rfl, _, _⟩ := isAt
  have regroup : before ++ (enclose opening inner closing ++ after) =
      (before ++ opening :: inner) ++ closing :: after := by
    simp [enclose]
  have length : before.length + inner.length + 1 = (before ++ opening :: inner).length := by
    rw [List.length_append, List.length_cons]
    omega
  rw [regroup, length, List.getElem?_append_right (Nat.le_refl _), Nat.sub_self]
  rfl

theorem last_lt (isAt : ConstructAt tokens component first last opening inner closing) :
    last < tokens.length :=
  (List.getElem?_eq_some_iff.mp isAt.getElem?_last).1

/-- What stands between the ends. -/
theorem getElem?_inside (isAt : ConstructAt tokens component first last opening inner closing)
    {index : Nat} (inside : index < inner.length) :
    tokens[first + 1 + index]? = inner[index]? := by
  obtain ⟨⟨before, after, rfl, rfl⟩, _⟩ := isAt
  have regroup : before ++ (enclose opening inner closing ++ after) =
      (before ++ [opening]) ++ (inner ++ closing :: after) := by
    simp [enclose]
  have length : (before ++ [opening]).length = before.length + 1 := List.length_append
  rw [regroup, ← length, List.getElem?_append_right (Nat.le_add_right _ _), Nat.add_sub_cancel_left,
    List.getElem?_append_left inside]

end ConstructAt

namespace Nests

variable {allowed weaker : Token → List Token → Token → Prop} {tokens others : List Token}

/-- A single construct. -/
theorem enclosed {component : Component} {opening closing : Token} {inner : List Token}
    (opens : opening.signal.opens? = some component)
    (closes : closing.signal.closes? = some component) (fits : allowed opening inner closing)
    (inside : Nests allowed inner) : Nests allowed (enclose opening inner closing) := by
  have alone := Nests.construct opens closes fits inside .nil
  rwa [List.append_nil] at alone

theorem append (one : Nests allowed tokens) (other : Nests allowed others) :
    Nests allowed (tokens ++ others) := by
  induction one with
  | nil => exact other
  | leaf isLeaf _ ih => exact .leaf isLeaf ih
  | construct opens closes fits inside _ _ ih =>
      rw [List.append_assoc]
      exact .construct opens closes fits inside ih

/-- Leaves alone. -/
theorem leaves (isLeaf : ∀ token ∈ tokens, token.IsLeaf) : Nests allowed tokens := by
  induction tokens with
  | nil => exact .nil
  | cons token rest ih =>
      obtain ⟨here, later⟩ := List.forall_mem_cons.mp isLeaf
      exact .leaf here (ih later)

/-- What allows more constructs allows more lists. -/
theorem mono (nests : Nests allowed tokens)
    (more : ∀ opening inner closing, allowed opening inner closing →
      weaker opening inner closing) : Nests weaker tokens := by
  induction nests with
  | nil => exact .nil
  | leaf isLeaf _ ih => exact .leaf isLeaf ih
  | construct opens closes fits _ _ ihInside ihLater =>
      exact .construct opens closes (more _ _ _ fits) ihInside ihLater

/-- A change of tokens that keeps their signals keeps them nested. -/
theorem map {change : Token → Token} (nests : Nests allowed tokens)
    (sameSignal : ∀ token, (change token).signal = token.signal)
    (fits : ∀ opening inner closing, allowed opening inner closing →
      weaker (change opening) (inner.map change) (change closing)) :
    Nests weaker (tokens.map change) := by
  induction nests with
  | nil => exact .nil
  | @leaf token rest isLeaf _ ih =>
      rw [← Token.isLeaf_of_signal (sameSignal token)] at isLeaf
      exact .leaf isLeaf ih
  | @construct component opening closing inner rest opens closes allowedHere _ _ ihInside
      ihLater =>
      rw [← sameSignal] at opens closes
      rw [List.map_append, enclose, List.map_cons, List.map_append, List.map_singleton]
      exact .construct opens closes (fits _ _ _ allowedHere) ihInside ihLater

theorem wellNested (nests : Nests allowed tokens) : WellNested tokens :=
  nests.mono fun _ _ _ _ => trivial

/-- Nested constructs can be measured. -/
theorem measuresTo (nests : Nests allowed tokens) : ∃ measured, MeasuresTo tokens measured := by
  induction nests with
  | nil => exact ⟨[], .nil⟩
  | leaf isLeaf _ ih =>
      obtain ⟨measured, measures⟩ := ih
      exact ⟨_, .leaf isLeaf.1 isLeaf.2 measures⟩
  | construct opens closes _ _ _ ihInside ihLater =>
      obtain ⟨inner, inside⟩ := ihInside
      obtain ⟨rest, later⟩ := ihLater
      exact ⟨_, .construct opens closes inside later⟩

/-- The construct that an opening token opens. -/
theorem constructAt (nests : Nests allowed tokens) :
    ∀ {component : Component} {first : Nat} {opening : Token}, tokens[first]? = some opening →
      opening.signal.opens? = some component →
        ∃ inner closing last, ConstructAt tokens component first last opening inner closing ∧
          allowed opening inner closing ∧ Nests allowed inner := by
  induction nests with
  | nil =>
      intro component first opening isOpening _
      cases isOpening
  | @leaf token rest isLeaf later ih =>
      intro component first opening isOpening opens
      cases first with
      | zero =>
          cases isOpening
          rw [isLeaf.1] at opens
          cases opens
      | succ first =>
          obtain ⟨inner, closing, last, isAt, found⟩ := ih isOpening opens
          have moved := isAt.behind [token]
          rw [List.length_singleton, Nat.add_comm 1 first] at moved
          exact ⟨inner, closing, _, moved, found⟩
  | @construct opened front back within rest opensFront closes fits inside later ihInside ihLater =>
      intro component first opening isOpening opens
      rcases Nat.lt_or_ge first (enclose front within back).length with isWhole | isBehind
      · rw [List.getElem?_append_left isWhole] at isOpening
        cases first with
        | zero =>
            cases isOpening
            rw [opens] at opensFront
            cases opensFront
            exact ⟨within, back, _, ⟨⟨[], rest, rfl, rfl⟩, rfl, opens, closes⟩, fits, inside⟩
        | succ first =>
            rw [enclose, List.getElem?_cons_succ] at isOpening
            rcases Nat.lt_or_ge first within.length with isInside | isLast
            · rw [List.getElem?_append_left isInside] at isOpening
              obtain ⟨inner, closing, last, isAt, found⟩ := ihInside isOpening opens
              have moved := ((isAt.inFront [back]).behind [front]).inFront rest
              rw [List.length_singleton, Nat.add_comm 1 first] at moved
              exact ⟨inner, closing, _, moved, found⟩
            · -- the closing end opens nothing
              rw [List.getElem?_append_right isLast] at isOpening
              obtain rfl : opening = back :=
                List.mem_singleton.mp (List.mem_of_getElem? isOpening)
              rw [opens?_eq_none_of_closes? closes] at opens
              cases opens
      · rw [List.getElem?_append_right isBehind] at isOpening
        obtain ⟨inner, closing, last, isAt, found⟩ := ihLater isOpening opens
        have moved := isAt.behind (enclose front within back)
        rw [Nat.add_sub_cancel' isBehind] at moved
        exact ⟨inner, closing, _, moved, found⟩

/-- What closes a construct has the name of a token that opens one of the same component, if the
ends of every construct have one name. -/
theorem exists_opening (nests : Nests allowed tokens)
    (named : ∀ opening inner closing, allowed opening inner closing →
      closing.name = opening.name) :
    ∀ {component : Component}, ∀ closing ∈ tokens, closing.signal.closes? = some component →
      ∃ opening ∈ tokens, opening.signal.opens? = some component ∧
        opening.name = closing.name := by
  induction nests with
  | nil => exact fun _ member => absurd member List.not_mem_nil
  | leaf isLeaf _ ih =>
      intro component closing member closes
      rcases List.mem_cons.mp member with rfl | isLater
      · rw [isLeaf.2] at closes
        cases closes
      · obtain ⟨opening, isOpening, found⟩ := ih closing isLater closes
        exact ⟨opening, List.mem_cons_of_mem _ isOpening, found⟩
  | @construct opened front back within rest opensFront closesBack fits _ _ ihInside ihLater =>
      intro component closing member closes
      simp only [enclose, List.cons_append, List.append_assoc, List.mem_cons, List.mem_append,
        List.nil_append] at member ⊢
      rcases member with rfl | isInside | rfl | isLater
      · rw [opens?_eq_none_of_closes? closes] at opensFront
        cases opensFront
      · obtain ⟨opening, isOpening, found⟩ := ihInside closing isInside closes
        exact ⟨opening, .inr (.inl isOpening), found⟩
      · rw [closesBack] at closes
        cases closes
        exact ⟨front, .inl rfl, opensFront, (named _ _ _ fits).symm⟩
      · obtain ⟨opening, isOpening, found⟩ := ihLater closing isLater closes
        exact ⟨opening, .inr (.inr (.inr isOpening)), found⟩

/-- Nothing closes a component under a name where nothing opens it under that name, if the ends of
every construct have one name. -/
theorem isNamed_eq_false (nests : Nests allowed tokens)
    (named : ∀ opening inner closing, allowed opening inner closing →
      closing.name = opening.name)
    {component : Component} {name : String}
    (noneOpen : ∀ token ∈ tokens, token.signal = component.opening → token.name ≠ name) :
    ∀ token ∈ tokens, Token.isNamed component.closing name token = false := by
  intro closing member
  apply Bool.eq_false_iff.mpr
  intro isNamed
  obtain ⟨isClosing, sameName⟩ := Token.isNamed_iff.mp isNamed
  have closes := (Signal.closes?_eq_some_iff _ component).mpr isClosing.symm
  obtain ⟨opening, isOpening, opens, sameEnds⟩ := nests.exists_opening named closing member closes
  rw [Signal.opens?_eq_some_iff] at opens
  exact noneOpen opening isOpening opens.symm (sameEnds.trans sameName)

end Nests

end WireSchema
