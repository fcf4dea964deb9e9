/-
Module: WireSchema.Proofs.OpenPlaces
Purpose: Which closing token belongs to which opening one, said of the list alone.  The depth of a
  component in front of an index is how many of its constructs have been opened and not closed
  there.  An opening token is still open at an index if the depth has not come back to what it was
  in front of the token, and a closing token is paired with the latest token of its component that
  is still open (`Paired`).  No token is in two pairs, and an opening token is in none exactly if it
  is still open at the end of the list (`unpaired_iff`).
Main exports: depth, StillOpen, Paired, Overclosed, unpaired_iff
-/
import WireSchema.Proofs.SpanPairs

namespace WireSchema

/-- How many more tokens open a component than close it in front of an index. -/
def depth (component : Component) (tokens : List Token) (index : Nat) : Int :=
  openingCount component (tokens.take index) - closingCount component (tokens.take index)

/-- No front of the tokens closes a component more often than it opens it, and all of them together
close it as often. -/
structure Balanced (component : Component) (tokens : List Token) : Prop where
  front : ∀ index, closingCount component (tokens.take index) ≤
    openingCount component (tokens.take index)
  whole : closingCount component tokens = openingCount component tokens

/-- The token at a place opens a component and is still open at an index: nowhere up to there is the
depth what it was in front of the token. -/
structure StillOpen (tokens : List Token) (component : Component) (place index : Nat) : Prop where
  opens : OpensAt tokens component place
  inFront : place < index
  above : ∀ between, place < between → between ≤ index →
    depth component tokens place < depth component tokens between

/-- The token at the last place closes a component, and the latest one of the component that is
still open there stands at the first place. -/
structure Paired (tokens : List Token) (component : Component) (first last : Nat) : Prop where
  closes : ClosesAt tokens component last
  isOpen : StillOpen tokens component first last
  latest : ∀ other, StillOpen tokens component other last → other ≤ first

/-- The token at a place opens a component and is in no pair. -/
def Unpaired (tokens : List Token) (place : Nat) : Prop :=
  ∃ component, OpensAt tokens component place ∧ ∀ last, ¬ Paired tokens component place last

/-- Up to the token at a place, that one included, some component is closed more often than it is
opened. -/
def Overclosed (tokens : List Token) (place : Nat) : Prop :=
  ∃ component, openingCount component (tokens.take (place + 1)) <
    closingCount component (tokens.take (place + 1))

section Depth

variable {tokens : List Token} {component : Component}

/-! ### Depths -/

theorem depth_zero (component : Component) (tokens : List Token) :
    depth component tokens 0 = 0 := by
  simp [depth, openingCount, closingCount]

theorem depth_length (component : Component) (tokens : List Token) :
    depth component tokens tokens.length =
      openingCount component tokens - closingCount component tokens := by
  rw [depth, List.take_length]

theorem depth_nonneg_iff (component : Component) (tokens : List Token) (index : Nat) :
    0 ≤ depth component tokens index ↔
      closingCount component (tokens.take index) ≤ openingCount component (tokens.take index) := by
  rw [depth]
  omega

theorem overclosed_iff {place : Nat} :
    Overclosed tokens place ↔ ∃ component, depth component tokens (place + 1) < 0 := by
  apply exists_congr
  intro component
  rw [depth]
  omega

theorem balanced_iff : Balanced component tokens ↔
    (∀ index, 0 ≤ depth component tokens index) ∧ depth component tokens tokens.length = 0 := by
  constructor
  · rintro ⟨front, whole⟩
    refine ⟨fun index => (depth_nonneg_iff component tokens index).mpr (front index), ?_⟩
    rw [depth_length, whole, Int.sub_self]
  · rintro ⟨front, whole⟩
    refine ⟨fun index => (depth_nonneg_iff component tokens index).mp (front index), ?_⟩
    rw [depth_length] at whole
    omega

/-- What one token does to the depth of a component. -/
theorem depth_succ (component : Component) (tokens : List Token) (index : Nat) :
    (OpensAt tokens component index ∧
        depth component tokens (index + 1) = depth component tokens index + 1) ∨
      (ClosesAt tokens component index ∧
        depth component tokens (index + 1) = depth component tokens index - 1) ∨
      (¬ OpensAt tokens component index ∧ ¬ ClosesAt tokens component index ∧
        depth component tokens (index + 1) = depth component tokens index) := by
  cases isToken : tokens[index]? with
  | none =>
      have atEnd : tokens.length ≤ index := List.getElem?_eq_none_iff.mp isToken
      refine .inr (.inr ⟨?_, ?_, ?_⟩)
      · simp [OpensAt, isToken]
      · simp [ClosesAt, isToken]
      · rw [depth, depth, List.take_of_length_le atEnd, List.take_of_length_le (by omega)]
  | some token =>
      have taken : tokens.take (index + 1) = tokens.take index ++ [token] := by
        rw [List.take_add_one, isToken]
        rfl
      have counts : depth component tokens (index + 1) = depth component tokens index +
          (openingCount component [token] - closingCount component [token]) := by
        rw [depth, depth, taken, openingCount_append, closingCount_append]
        omega
      rw [opensAt_iff isToken, closesAt_iff isToken, counts]
      by_cases opens : token.signal.opens? = some component
      · refine .inl ⟨opens, ?_⟩
        rw [closingCount_cons_opening component opens, openingCount_cons, if_pos opens]
        rfl
      · by_cases closes : token.signal.closes? = some component
        · refine .inr (.inl ⟨closes, ?_⟩)
          rw [closingCount_cons, openingCount_cons, if_pos closes, if_neg opens]
          rfl
        · refine .inr (.inr ⟨opens, closes, ?_⟩)
          rw [closingCount_cons, openingCount_cons, if_neg closes, if_neg opens]
          exact Int.add_zero _

theorem OpensAt.depth_succ {index : Nat} (opens : OpensAt tokens component index) :
    depth component tokens (index + 1) = depth component tokens index + 1 := by
  rcases WireSchema.depth_succ component tokens index with ⟨_, one⟩ | ⟨closes, _⟩ | ⟨not, _⟩
  · exact one
  · exact absurd closes opens.not_closesAt
  · exact absurd opens not

theorem ClosesAt.depth_succ {index : Nat} (closes : ClosesAt tokens component index) :
    depth component tokens (index + 1) = depth component tokens index - 1 := by
  rcases WireSchema.depth_succ component tokens index with ⟨opens, _⟩ | ⟨_, one⟩ | ⟨_, not, _⟩
  · exact absurd closes opens.not_closesAt
  · exact one
  · exact absurd closes not

/-! ### Places that are still open -/

/-- Where the depth has grown, some token is still open that opened on the way. -/
theorem exists_stillOpen {start index : Nat} (inFront : start ≤ index)
    (grown : depth component tokens start < depth component tokens index) :
    ∃ place, start ≤ place ∧ StillOpen tokens component place index := by
  by_cases above : ∀ between, start < between → between ≤ index →
      depth component tokens start < depth component tokens between
  · have before : start < index := by
      rcases Nat.lt_or_eq_of_le inFront with before | rfl
      · exact before
      · exact absurd grown (Int.lt_irrefl _)
    have next := above (start + 1) (Nat.lt_succ_self start) before
    refine ⟨start, Nat.le_refl start, ?_, before, above⟩
    rcases depth_succ component tokens start with ⟨opens, _⟩ | ⟨_, less⟩ | ⟨_, _, same⟩
    · exact opens
    · omega
    · omega
  · -- the depth comes back somewhere, and has grown from there
    obtain ⟨between, notAbove⟩ := Classical.not_forall.mp above
    simp only [Classical.not_imp, Int.not_lt] at notAbove
    obtain ⟨behind, upTo, back⟩ := notAbove
    have nearer : index - between < index - start := by
      have notIndex : between ≠ index := by
        rintro rfl
        omega
      omega
    obtain ⟨place, later, isOpen⟩ := exists_stillOpen upTo (Int.lt_of_le_of_lt back grown)
    exact ⟨place, by omega, isOpen⟩
termination_by index - start

theorem StillOpen.depth_lt {place index : Nat} (isOpen : StillOpen tokens component place index) :
    depth component tokens place < depth component tokens index :=
  isOpen.above index isOpen.inFront (Nat.le_refl index)

/-- Open places before an index were open before. -/
theorem StillOpen.earlier {place index earlier : Nat}
    (isOpen : StillOpen tokens component place index) (behind : place < earlier)
    (inFront : earlier ≤ index) : StillOpen tokens component place earlier :=
  ⟨isOpen.opens, behind, fun between after upTo =>
    isOpen.above between after (Nat.le_trans upTo inFront)⟩

/-- What is open behind a token, if the depth behind it is not less than in front of it. -/
theorem StillOpen.next {place index : Nat} (isOpen : StillOpen tokens component place index)
    (above : depth component tokens place < depth component tokens (index + 1)) :
    StillOpen tokens component place (index + 1) := by
  refine ⟨isOpen.opens, Nat.lt_succ_of_lt isOpen.inFront, fun between after upTo => ?_⟩
  rcases Nat.lt_or_eq_of_le upTo with before | rfl
  · exact isOpen.above between after (Nat.le_of_lt_succ before)
  · exact above

/-- An opening token is open itself behind it, besides what was open in front of it. -/
theorem stillOpen_succ_of_opens {place index : Nat} (opens : OpensAt tokens component index) :
    StillOpen tokens component place (index + 1) ↔
      place = index ∨ StillOpen tokens component place index := by
  have deeper := opens.depth_succ
  constructor
  · intro isOpen
    rcases Nat.lt_or_eq_of_le (Nat.le_of_lt_succ isOpen.inFront) with before | same
    · exact .inr (isOpen.earlier before (Nat.le_succ index))
    · exact .inl same
  · rintro (rfl | isOpen)
    · refine ⟨opens, Nat.lt_succ_self place, fun between after upTo => ?_⟩
      obtain rfl : between = place + 1 := by omega
      omega
    · have lower := isOpen.depth_lt
      exact isOpen.next (by omega)

/-- A token of another component, or a leaf, changes nothing. -/
theorem stillOpen_succ_of_neither {place index : Nat} (opens : ¬ OpensAt tokens component index)
    (closes : ¬ ClosesAt tokens component index) :
    StillOpen tokens component place (index + 1) ↔ StillOpen tokens component place index := by
  have same : depth component tokens (index + 1) = depth component tokens index := by
    rcases depth_succ component tokens index with ⟨does, _⟩ | ⟨does, _⟩ | ⟨_, _, same⟩
    · exact absurd does opens
    · exact absurd does closes
    · exact same
  constructor
  · intro isOpen
    rcases Nat.lt_or_eq_of_le (Nat.le_of_lt_succ isOpen.inFront) with before | rfl
    · exact isOpen.earlier before (Nat.le_succ index)
    · exact absurd isOpen.opens opens
  · intro isOpen
    have lower := isOpen.depth_lt
    exact isOpen.next (by omega)

/-- A closing token closes the latest open one, and leaves those open that are not the latest. -/
theorem stillOpen_succ_of_closes {place index : Nat} (closes : ClosesAt tokens component index) :
    StillOpen tokens component place (index + 1) ↔
      StillOpen tokens component place index ∧
        ∃ later, place < later ∧ StillOpen tokens component later index := by
  have higher := closes.depth_succ
  constructor
  · intro isOpen
    have before : place < index := by
      rcases Nat.lt_or_eq_of_le (Nat.le_of_lt_succ isOpen.inFront) with before | rfl
      · exact before
      · exact absurd closes isOpen.opens.not_closesAt
    have lower := isOpen.depth_lt
    have next := isOpen.opens.depth_succ
    obtain ⟨later, behind, isLater⟩ := exists_stillOpen before
      (show depth component tokens (place + 1) < depth component tokens index by omega)
    exact ⟨isOpen.earlier before (Nat.le_succ index), later, behind, isLater⟩
  · rintro ⟨isOpen, later, behind, isLater⟩
    have lower := isOpen.above later behind (Nat.le_of_lt isLater.inFront)
    have lowerStill := isLater.depth_lt
    exact isOpen.next (by omega)

/-! ### Pairs -/

/-- Behind a pair the depth is what it was in front of it. -/
theorem Paired.depth_eq {first last : Nat} (paired : Paired tokens component first last) :
    depth component tokens (last + 1) = depth component tokens first := by
  have higher := paired.closes.depth_succ
  have lower := paired.isOpen.depth_lt
  have next := paired.isOpen.opens.depth_succ
  have notMore : ¬ depth component tokens (first + 1) < depth component tokens last := by
    intro more
    obtain ⟨later, behind, isLater⟩ := exists_stillOpen paired.isOpen.inFront more
    have notLater := paired.latest later isLater
    omega
  omega

/-- A token opens one pair at most. -/
theorem Paired.last_unique {first last other : Nat} (one : Paired tokens component first last)
    (two : Paired tokens component first other) : last = other := by
  have noneLonger {short long : Nat} (paired : Paired tokens component first short)
      (isOpen : StillOpen tokens component first long) : ¬ short < long := by
    intro shorter
    have above := isOpen.above (short + 1) (Nat.lt_succ_of_lt paired.isOpen.inFront) shorter
    rw [paired.depth_eq] at above
    exact absurd above (Int.lt_irrefl _)
  have notLonger := noneLonger one two.isOpen
  have notShorter := noneLonger two one.isOpen
  omega

/-- A token closes one pair at most. -/
theorem Paired.first_unique {first other last : Nat} (one : Paired tokens component first last)
    (two : Paired tokens component other last) : first = other :=
  Nat.le_antisymm (two.latest first one.isOpen) (one.latest other two.isOpen)

/-- A token that is closed somewhere is closed where the depth first comes back. -/
theorem exists_paired_of_opens {place index : Nat} (opens : OpensAt tokens component place)
    (behind : place < index) (closed : ¬ StillOpen tokens component place index) :
    ∃ last < index, Paired tokens component place last := by
  induction index with
  | zero => exact absurd behind (Nat.not_lt_zero place)
  | succ index ih =>
      rcases Nat.lt_or_eq_of_le (Nat.le_of_lt_succ behind) with before | rfl
      · by_cases isOpen : StillOpen tokens component place index
        · rcases depth_succ component tokens index with ⟨deeper, _⟩ | ⟨closes, _⟩ | ⟨no, not, _⟩
          · exact absurd ((stillOpen_succ_of_opens deeper).mpr (.inr isOpen)) closed
          · refine ⟨index, Nat.lt_succ_self index, closes, isOpen, fun other isOther => ?_⟩
            refine Nat.le_of_not_lt fun later => closed ?_
            exact (stillOpen_succ_of_closes closes).mpr ⟨isOpen, other, later, isOther⟩
          · exact absurd ((stillOpen_succ_of_neither no not).mpr isOpen) closed
        · obtain ⟨last, inFront, paired⟩ := ih before isOpen
          exact ⟨last, Nat.lt_succ_of_lt inFront, paired⟩
      · exact absurd ((stillOpen_succ_of_opens opens).mpr (.inl rfl)) closed

/-- The tokens in no pair are those that are still open at the end. -/
theorem unpaired_iff {place : Nat} : Unpaired tokens place ↔
    ∃ component, StillOpen tokens component place tokens.length := by
  apply exists_congr
  intro component
  constructor
  · rintro ⟨opens, noPair⟩
    apply Classical.byContradiction
    intro closed
    obtain ⟨last, _, paired⟩ := exists_paired_of_opens opens opens.lt_length closed
    exact noPair last paired
  · intro isOpen
    refine ⟨isOpen.opens, fun last paired => ?_⟩
    have above := isOpen.above (last + 1) (Nat.lt_succ_of_lt paired.isOpen.inFront)
      paired.closes.lt_length
    rw [paired.depth_eq] at above
    exact absurd above (Int.lt_irrefl _)

end Depth

end WireSchema
