/-
Module: WireSchema.Proofs.ExactSpans
Purpose: What the one pass over a list of tokens comes to, said of the list alone
  (`withSpans_exact`).  The open tokens that the pass keeps are those that are still open
  (`Pairing.Keeps`), so the pairs that it finds are the pairs of the list, and it stops where a
  closing token stands while none of its component is open.  The first such place is the first one
  at which some component is closed more often than it is opened (`Least.overclosed`).
Main exports: Unmatched, SpanFault, SpansWritten, Pairing.Keeps, withSpans_exact
-/
import WireSchema.Proofs.ConstructNesting
import WireSchema.Proofs.OpenPlaces

namespace WireSchema

/-- The token at a place closes a component of which nothing is open there. -/
def Unmatched (tokens : List Token) (place : Nat) : Prop :=
  ∃ component, ClosesAt tokens component place ∧
    ∀ first, ¬ StillOpen tokens component first place

/-- A place is the first one with a property. -/
def Least (property : Nat → Prop) (place : Nat) : Prop :=
  property place ∧ ∀ earlier < place, ¬ property earlier

/-- What is reported of a list whose spans cannot be measured: the first token up to which a
component is closed more often than it is opened, and the first one that is in no pair if there is
no such token. -/
inductive SpanFault (tokens : List Token) : SchemaError → Prop where
  | unmatchedEnd {token : Token} {index : Nat} (isToken : tokens[index]? = some token)
      (first : Least (Overclosed tokens) index) :
      SpanFault tokens (.unmatchedEnd token.signal token.name index)
  | unclosedBegin {token : Token} {index : Nat} (isToken : tokens[index]? = some token)
      (noneOverclosed : ∀ place, ¬ Overclosed tokens place)
      (first : Least (Unpaired tokens) index) :
      SpanFault tokens (.unclosedBegin token.signal token.name index)

/-- The second list is the first one with its spans: every opening and every closing token is in a
pair, both ends of a pair get the number of tokens from the one to the other, and nothing else is
changed. -/
structure SpansWritten (tokens measured : List Token) : Prop where
  length : measured.length = tokens.length
  opened : ∀ {component first}, OpensAt tokens component first →
    ∃ last, Paired tokens component first last
  closed : ∀ {component last}, ClosesAt tokens component last →
    ∃ first, Paired tokens component first last
  written : ∀ {component first last place}, Paired tokens component first last →
    place = first ∨ place = last →
      measured[place]? =
        tokens[place]?.map (Token.withSpan · (Int32.ofNat (last - first + 1)))
  counted : ∀ {component first last place token}, Paired tokens component first last →
    place = first ∨ place = last → tokens.length < spanLimit → measured[place]? = some token →
      token.span = last - first + 1
  kept : ∀ {place : Nat} {token : Token}, tokens[place]? = some token → token.IsLeaf →
    measured[place]? = some token

variable {tokens : List Token}

/-! ### The first closing token without a partner -/

/-- A component is closed too often where nothing of it is open. -/
theorem Unmatched.overclosed {place : Nat} (unmatched : Unmatched tokens place) :
    Overclosed tokens place := by
  obtain ⟨component, closes, noneOpen⟩ := unmatched
  have notHigher : ¬ depth component tokens 0 < depth component tokens place := by
    intro higher
    obtain ⟨first, _, isOpen⟩ := exists_stillOpen (Nat.zero_le place) higher
    exact noneOpen first isOpen
  rw [depth_zero] at notHigher
  have lower := closes.depth_succ
  exact overclosed_iff.mpr ⟨component, by omega⟩

/-- A component that is closed too often was closed before while nothing of it was open. -/
theorem Overclosed.exists_unmatched {place : Nat} (overclosed : Overclosed tokens place) :
    ∃ earlier ≤ place, Unmatched tokens earlier := by
  induction place using Nat.strongRecOn with
  | ind place ih =>
      obtain ⟨component, below⟩ := overclosed_iff.mp overclosed
      -- where the depth is negative, the token in front has overclosed the component
      have negative {index : Nat} (upTo : index ≤ place)
          (below : depth component tokens index < 0) :
          ∃ earlier ≤ place, Unmatched tokens earlier := by
        cases index with
        | zero =>
            rw [depth_zero] at below
            exact absurd below (Int.lt_irrefl 0)
        | succ index =>
            obtain ⟨earlier, inFront, unmatched⟩ :=
              ih index upTo (overclosed_iff.mpr ⟨component, below⟩)
            exact ⟨earlier, by omega, unmatched⟩
      rcases Int.lt_or_le (depth component tokens place) 0 with lower | notLower
      · exact negative (Nat.le_refl place) lower
      · have closes : ClosesAt tokens component place := by
          rcases depth_succ component tokens place with ⟨_, more⟩ | ⟨closes, _⟩ | ⟨_, _, same⟩
          · omega
          · exact closes
          · omega
        have less := closes.depth_succ
        by_cases isOpen : ∃ first, StillOpen tokens component first place
        · obtain ⟨first, isOpen⟩ := isOpen
          have lower := isOpen.depth_lt
          exact negative (Nat.le_of_lt isOpen.inFront) (by omega)
        · exact ⟨place, Nat.le_refl place, component, closes, not_exists.mp isOpen⟩

theorem no_unmatched_iff :
    (∀ place, ¬ Unmatched tokens place) ↔ ∀ place, ¬ Overclosed tokens place := by
  constructor
  · intro noneUnmatched place isOverclosed
    obtain ⟨earlier, _, unmatched⟩ := isOverclosed.exists_unmatched
    exact noneUnmatched earlier unmatched
  · intro noneOverclosed place unmatched
    exact noneOverclosed place unmatched.overclosed

/-- The first closing token without a partner is the first that closes a component too often. -/
theorem Least.overclosed {place : Nat} (first : Least (Unmatched tokens) place) :
    Least (Overclosed tokens) place := by
  refine ⟨first.1.overclosed, fun earlier inFront isOverclosed => ?_⟩
  obtain ⟨sooner, upTo, unmatched⟩ := isOverclosed.exists_unmatched
  exact first.2 sooner (Nat.lt_of_le_of_lt upTo inFront) unmatched

/-- If every component is balanced, each token is in a pair. -/
theorem balanced_all_iff : (∀ component, Balanced component tokens) ↔
    (∀ place, ¬ Overclosed tokens place) ∧ ∀ place, ¬ Unpaired tokens place := by
  constructor
  · intro balanced
    constructor
    · intro place isOverclosed
      obtain ⟨component, below⟩ := overclosed_iff.mp isOverclosed
      have front := (balanced_iff.mp (balanced component)).1 (place + 1)
      omega
    · intro place unpaired
      obtain ⟨component, isOpen⟩ := unpaired_iff.mp unpaired
      obtain ⟨front, whole⟩ := balanced_iff.mp (balanced component)
      have lower := isOpen.depth_lt
      have above := front place
      omega
  · rintro ⟨noneOverclosed, allPaired⟩ component
    have front (index : Nat) : 0 ≤ depth component tokens index := by
      cases index with
      | zero => exact Int.le_of_eq (depth_zero component tokens).symm
      | succ index =>
          apply Int.not_lt.mp
          exact fun below => noneOverclosed index (overclosed_iff.mpr ⟨component, below⟩)
    refine balanced_iff.mpr ⟨front, ?_⟩
    apply Int.le_antisymm _ (front _)
    apply Int.not_lt.mp
    intro higher
    rw [← depth_zero component tokens] at higher
    obtain ⟨place, _, isOpen⟩ := exists_stillOpen (Nat.zero_le _) higher
    exact allPaired place (unpaired_iff.mpr ⟨component, isOpen⟩)

/-! ### What the pass keeps -/

namespace Pairing

/-- In front of an index every closing token has a partner, and the open tokens that the pass keeps
are those of the list that are still open. -/
structure Keeps (tokens : List Token) (index : Nat) (pending : List (Nat × Token)) : Prop
    extends Stands tokens index pending where
  inside : index ≤ tokens.length
  matched : ∀ place < index, ¬ Unmatched tokens place
  opening : ∀ entry ∈ pending, ∃ component, entry.2.signal.opens? = some component
  isOpen : ∀ {component place}, StillOpen tokens component place index ↔
    ∃ token, (place, token) ∈ pending ∧ token.signal.opens? = some component

variable {index : Nat} {pending before after : List (Nat × Token)} {partner : Nat × Token}
  {token : Token} {component : Component}

theorem Keeps.start (tokens : List Token) : Keeps tokens 0 [] where
  placed _ member := absurd member List.not_mem_nil
  latestFirst := .nil
  inside := Nat.zero_le _
  matched place inFront := absurd inFront (Nat.not_lt_zero place)
  opening _ member := absurd member List.not_mem_nil
  isOpen := by
    intro component place
    constructor
    · exact fun isOpen => absurd isOpen.inFront (Nat.not_lt_zero place)
    · rintro ⟨_, member, _⟩
      cases member

/-- Every closing token is matched up to the next one if that one is. -/
theorem Keeps.matched_succ (keeps : Keeps tokens index pending)
    (isMatched : ¬ Unmatched tokens index) : ∀ place < index + 1, ¬ Unmatched tokens place := by
  intro place upTo
  rcases Nat.lt_or_eq_of_le (Nat.le_of_lt_succ upTo) with inFront | rfl
  · exact keeps.matched place inFront
  · exact isMatched

/-- An opening token is kept. -/
theorem Keeps.after_opening (keeps : Keeps tokens index pending)
    (isToken : tokens[index]? = some token) (opens : token.signal.opens? = some component) :
    Keeps tokens (index + 1) ((index, token) :: pending) where
  placed := by
    refine List.forall_mem_cons.mpr ⟨⟨Nat.lt_succ_self index, isToken⟩, fun entry member => ?_⟩
    exact keeps.next.placed entry member
  latestFirst := List.pairwise_cons.mpr
    ⟨fun entry member => (keeps.placed entry member).1, keeps.latestFirst⟩
  inside := (List.getElem?_eq_some_iff.mp isToken).1
  matched := by
    apply keeps.matched_succ
    rintro ⟨closed, closes, _⟩
    exact OpensAt.not_closesAt ⟨token, isToken, opens⟩ closes
  opening := List.forall_mem_cons.mpr ⟨⟨component, opens⟩, keeps.opening⟩
  isOpen := by
    have opensAt : OpensAt tokens component index := ⟨token, isToken, opens⟩
    intro other place
    by_cases same : other = component
    · subst same
      rw [stillOpen_succ_of_opens opensAt, keeps.isOpen]
      constructor
      · rintro (rfl | ⟨entry, member, opensEntry⟩)
        · exact ⟨token, List.mem_cons_self, opens⟩
        · exact ⟨entry, List.mem_cons_of_mem _ member, opensEntry⟩
      · rintro ⟨entry, member, opensEntry⟩
        rcases List.mem_cons.mp member with isFirst | isPending
        · exact .inl (congrArg Prod.fst isFirst)
        · exact .inr ⟨entry, isPending, opensEntry⟩
    · have notOpens : ¬ OpensAt tokens other index := fun does => same (does.unique opensAt)
      rw [stillOpen_succ_of_neither notOpens opensAt.not_closesAt, keeps.isOpen]
      constructor
      · rintro ⟨entry, member, opensEntry⟩
        exact ⟨entry, List.mem_cons_of_mem _ member, opensEntry⟩
      · rintro ⟨entry, member, opensEntry⟩
        rcases List.mem_cons.mp member with isFirst | isPending
        · cases isFirst
          exact absurd ⟨token, isToken, opensEntry⟩ notOpens
        · exact ⟨entry, isPending, opensEntry⟩

/-- A leaf changes nothing. -/
theorem Keeps.after_leaf (keeps : Keeps tokens index pending)
    (isToken : tokens[index]? = some token) (isLeaf : token.IsLeaf) :
    Keeps tokens (index + 1) pending where
  toStands := keeps.next
  inside := (List.getElem?_eq_some_iff.mp isToken).1
  matched := by
    apply keeps.matched_succ
    rintro ⟨closed, closes, _⟩
    exact isLeaf.not_closesAt isToken closes
  opening := keeps.opening
  isOpen := by
    intro other place
    rw [← keeps.isOpen]
    exact stillOpen_succ_of_neither (isLeaf.not_opensAt isToken) (isLeaf.not_closesAt isToken)

section Closing

variable (keeps : Keeps tokens index (before ++ partner :: after))
  (others : ∀ entry ∈ before, entry.2.signal.opens? ≠ some component)
  (opens : partner.2.signal.opens? = some component)
include keeps others opens

/-- What is still open of the component of a closing token: its partner, and tokens further in
front. -/
theorem Keeps.isOpen_closing {place : Nat} : StillOpen tokens component place index ↔
    place = partner.1 ∨
      ∃ token, (place, token) ∈ after ∧ token.signal.opens? = some component := by
  rw [keeps.isOpen]
  constructor
  · rintro ⟨token, member, opensToken⟩
    rcases List.mem_append.mp member with isBefore | isBehind
    · exact absurd opensToken (others _ isBefore)
    · rcases List.mem_cons.mp isBehind with isPartner | isAfter
      · exact .inl (congrArg Prod.fst isPartner)
      · exact .inr ⟨token, isAfter, opensToken⟩
  · rintro (rfl | ⟨token, isAfter, opensToken⟩)
    · exact ⟨partner.2, by simp, opens⟩
    · exact ⟨token, by simp [isAfter], opensToken⟩

omit others opens in
theorem Keeps.lt_partner {place : Nat} (isAfter : (place, token) ∈ after) : place < partner.1 := by
  obtain ⟨_, behindPartner, _⟩ := List.pairwise_append.mp keeps.latestFirst
  exact List.rel_of_pairwise_cons behindPartner isAfter

/-- A closing token and its partner are a pair of the list. -/
theorem Keeps.paired (closes : ClosesAt tokens component index) :
    Paired tokens component partner.1 index := by
  refine ⟨closes, (keeps.isOpen_closing others opens).mpr (.inl rfl), fun other isOther => ?_⟩
  rcases (keeps.isOpen_closing others opens).mp isOther with rfl | ⟨token, isAfter, _⟩
  · exact Nat.le_refl _
  · exact Nat.le_of_lt (keeps.lt_partner isAfter)

/-- The partner of a closing token is not kept. -/
theorem Keeps.after_closing (isToken : tokens[index]? = some token)
    (closes : token.signal.closes? = some component) :
    Keeps tokens (index + 1) (before ++ after) where
  toStands := by
    apply keeps.next.sublist
    exact (List.sublist_cons_self partner after).append_left before
  inside := (List.getElem?_eq_some_iff.mp isToken).1
  matched := by
    apply keeps.matched_succ
    rintro ⟨closed, closesClosed, noneOpen⟩
    rw [closesAt_iff isToken, closes] at closesClosed
    cases closesClosed
    exact noneOpen _ ((keeps.isOpen_closing others opens).mpr (.inl rfl))
  opening := by
    intro entry member
    apply keeps.opening
    rcases List.mem_append.mp member with isBefore | isAfter
    · exact List.mem_append_left _ isBefore
    · exact List.mem_append_right _ (List.mem_cons_of_mem _ isAfter)
  isOpen := by
    have closesAt : ClosesAt tokens component index := ⟨token, isToken, closes⟩
    intro other place
    by_cases same : other = component
    · subst same
      rw [stillOpen_succ_of_closes closesAt, keeps.isOpen_closing others opens]
      constructor
      · rintro ⟨rfl | ⟨entry, isAfter, opensEntry⟩, later, behind, isLater⟩
        · have upTo := (keeps.paired others opens closesAt).latest later isLater
          exact absurd behind (Nat.not_lt.mpr upTo)
        · exact ⟨entry, List.mem_append_right _ isAfter, opensEntry⟩
      · rintro ⟨entry, member, opensEntry⟩
        rcases List.mem_append.mp member with isBefore | isAfter
        · exact absurd opensEntry (others _ isBefore)
        · exact ⟨.inr ⟨entry, isAfter, opensEntry⟩, partner.1, keeps.lt_partner isAfter,
            (keeps.isOpen_closing others opens).mpr (.inl rfl)⟩
    · have notOpens : ¬ OpensAt tokens other index := fun does => does.not_closesAt closesAt
      have notCloses : ¬ ClosesAt tokens other index := fun does => same (does.unique closesAt)
      rw [stillOpen_succ_of_neither notOpens notCloses, keeps.isOpen]
      constructor
      · rintro ⟨entry, member, opensEntry⟩
        refine ⟨entry, ?_, opensEntry⟩
        rcases List.mem_append.mp member with isBefore | isBehind
        · exact List.mem_append_left _ isBefore
        · rcases List.mem_cons.mp isBehind with isPartner | isAfter
          · cases isPartner
            rw [opens] at opensEntry
            exact absurd (Option.some.inj opensEntry).symm same
          · exact List.mem_append_right _ isAfter
      · rintro ⟨entry, member, opensEntry⟩
        refine ⟨entry, ?_, opensEntry⟩
        rcases List.mem_append.mp member with isBefore | isAfter
        · exact List.mem_append_left _ isBefore
        · exact List.mem_append_right _ (List.mem_cons_of_mem _ isAfter)

end Closing

/-! ### What the pass finds -/

/-- What the pass finds from an index on: the pairs that close there, and no fault exactly if every
token of the whole list has its partner. -/
structure Finds (tokens : List Token) (index : Nat) (pairing : Pairing) : Prop where
  sound : ∀ pair ∈ pairing.pairs, ∃ component, Paired tokens component pair.1 pair.2
  complete : pairing.fault = none → ∀ {component first last}, index ≤ last →
    Paired tokens component first last → (first, last) ∈ pairing.pairs
  settled : pairing.fault = none →
    (∀ place, ¬ Unmatched tokens place) ∧ ∀ place, ¬ Unpaired tokens place
  faulty : ∀ problem, pairing.fault = some problem → SpanFault tokens problem

variable {pairing : Pairing}

/-- A token that closes nothing is in no pair that closes there. -/
theorem Finds.of_next (finds : Finds tokens (index + 1) pairing)
    (closesNothing : ∀ component, ¬ ClosesAt tokens component index) :
    Finds tokens index pairing where
  sound := finds.sound
  complete noFault component first last behind paired := by
    rcases Nat.eq_or_lt_of_le behind with rfl | after
    · exact absurd paired.closes (closesNothing component)
    · exact finds.complete noFault after paired
  settled := finds.settled
  faulty := finds.faulty

theorem Finds.cons {first : Nat} (finds : Finds tokens (index + 1) pairing)
    (paired : Paired tokens component first index) :
    Finds tokens index ⟨(first, index) :: pairing.pairs, pairing.fault⟩ where
  sound := List.forall_mem_cons.mpr ⟨⟨component, paired⟩, finds.sound⟩
  complete noFault other opening last behind pairedOther := by
    rcases Nat.eq_or_lt_of_le behind with rfl | after
    · cases paired.closes.unique pairedOther.closes
      rw [paired.first_unique pairedOther]
      exact List.mem_cons_self
    · exact List.mem_cons_of_mem _ (finds.complete noFault after pairedOther)
  settled := finds.settled
  faulty := finds.faulty

/-- A closing token without a partner stops the pass. -/
theorem Keeps.stops (keeps : Keeps tokens index pending) (isToken : tokens[index]? = some token)
    (closes : token.signal.closes? = some component)
    (noPartner : ∀ entry ∈ pending, entry.2.signal.opens? ≠ some component) :
    Finds tokens index ⟨[], some (.unmatchedEnd token.signal token.name index)⟩ where
  sound _ member := absurd member List.not_mem_nil
  complete noFault := nomatch noFault
  settled noFault := nomatch noFault
  faulty problem isProblem := by
    cases isProblem
    have unmatched : Unmatched tokens index := by
      refine ⟨component, ⟨token, isToken, closes⟩, fun first isOpen => ?_⟩
      obtain ⟨entry, member, opens⟩ := keeps.isOpen.mp isOpen
      exact noPartner _ member opens
    exact .unmatchedEnd isToken (Least.overclosed ⟨unmatched, keeps.matched⟩)

/-- At the end of the list the first token that is still open is reported. -/
theorem Keeps.ends (keeps : Keeps tokens index pending) (isEnd : tokens.length = index) :
    Finds tokens index ⟨[], unclosed pending⟩ := by
  subst isEnd
  have noneUnmatched (place : Nat) : ¬ Unmatched tokens place := by
    rintro ⟨component, closes, noneOpen⟩
    exact keeps.matched place closes.lt_length ⟨component, closes, noneOpen⟩
  refine ⟨fun _ member => absurd member List.not_mem_nil, ?_, ?_, ?_⟩
  · intro _ _ _ last behind paired
    exact absurd paired.closes.lt_length (Nat.not_lt.mpr behind)
  · intro noFault
    have noPending : pending = [] := by
      simpa [unclosed] using noFault
    subst noPending
    refine ⟨noneUnmatched, fun place unpaired => ?_⟩
    obtain ⟨_, isOpen⟩ := unpaired_iff.mp unpaired
    obtain ⟨_, member, _⟩ := keeps.isOpen.mp isOpen
    cases member
  · intro problem isProblem
    obtain ⟨⟨place, token⟩, isLast, rfl⟩ := Option.map_eq_some_iff.mp isProblem
    obtain ⟨later, rfl⟩ := List.getLast?_eq_some_iff.mp isLast
    have member : (place, token) ∈ later ++ [(place, token)] := List.mem_append_right _ (by simp)
    obtain ⟨component, opens⟩ := keeps.opening _ member
    have unpaired : Unpaired tokens place :=
      unpaired_iff.mpr ⟨component, keeps.isOpen.mpr ⟨token, member, opens⟩⟩
    refine .unclosedBegin (keeps.placed _ member).2 (no_unmatched_iff.mp noneUnmatched)
      ⟨unpaired, fun earlier inFront unpairedEarlier => ?_⟩
    obtain ⟨_, isOpen⟩ := unpaired_iff.mp unpairedEarlier
    obtain ⟨other, isOther, _⟩ := keeps.isOpen.mp isOpen
    rcases List.mem_append.mp isOther with isLater | isSame
    · obtain ⟨_, _, across⟩ := List.pairwise_append.mp keeps.latestFirst
      exact Nat.lt_asymm inFront (across _ isLater _ (List.mem_singleton.mpr rfl))
    · cases List.mem_singleton.mp isSame
      exact Nat.lt_irrefl _ inFront

/-- What a pass finds that keeps the open tokens. -/
theorem finds_of_scan {rest : List Token} (isRest : tokens.drop index = rest)
    (keeps : Keeps tokens index pending) : Finds tokens index (scan index pending rest) := by
  induction rest generalizing index pending with
  | nil =>
      apply keeps.ends
      exact Nat.le_antisymm (List.drop_eq_nil_iff.mp isRest) keeps.inside
  | cons token rest ih =>
      have isToken : tokens[index]? = some token := by
        rw [← List.head?_drop, isRest, List.head?_cons]
      have isLater : tokens.drop (index + 1) = rest := by
        rw [← List.tail_drop, isRest, List.tail_cons]
      cases opens : token.signal.opens? with
      | some component =>
          rw [scan_opening opens]
          apply (ih isLater (keeps.after_opening isToken opens)).of_next
          exact fun _ => OpensAt.not_closesAt ⟨token, isToken, opens⟩
      | none =>
          cases closes : token.signal.closes? with
          | none =>
              rw [scan_leaf opens closes]
              have isLeaf : token.IsLeaf := ⟨opens, closes⟩
              apply (ih isLater (keeps.after_leaf isToken isLeaf)).of_next
              exact fun _ => isLeaf.not_closesAt isToken
          | some component =>
              cases isPartner : pending.find?
                  (fun candidate => candidate.2.signal.opens? == some component) with
              | none =>
                  have stopped : scan index pending (token :: rest) =
                      ⟨[], some (.unmatchedEnd token.signal token.name index)⟩ := by
                    simp [scan, opens, closes, isPartner]
                  rw [stopped]
                  apply keeps.stops isToken closes
                  simpa using List.find?_eq_none.mp isPartner
              | some partner =>
                  rw [scan_partner opens closes isPartner]
                  obtain ⟨before, after, rfl, erased, opensPartner, others⟩ :=
                    split_of_find? isPartner
                  rw [erased]
                  apply Finds.cons (ih isLater
                    (keeps.after_closing others opensPartner isToken closes))
                  exact keeps.paired others opensPartner ⟨token, isToken, closes⟩

theorem finds_ofTokens (tokens : List Token) : Finds tokens 0 (ofTokens tokens) :=
  finds_of_scan List.drop_zero (Keeps.start tokens)

end Pairing

/-! ### What is written -/

namespace Pairing

/-- What the pass writes if it comes to the end of the list without a fault. -/
theorem spansWritten (noFault : (ofTokens tokens).fault = none) :
    SpansWritten tokens ((ofTokens tokens).pairs.foldl writePair tokens.toArray).toList := by
  have finds := finds_ofTokens tokens
  have sound : Sound tokens 0 [] (ofTokens tokens).pairs :=
    sound_of_scan List.drop_zero (Keeps.start tokens).toStands noFault
  have written {component : Component} {first last place : Nat}
      (paired : Paired tokens component first last) (isEnd : place = first ∨ place = last) :
      ((ofTokens tokens).pairs.foldl writePair tokens.toArray).toList[place]? =
        tokens[place]?.map (Token.withSpan · (Int32.ofNat (last - first + 1))) := by
    have member := finds.complete noFault (Nat.zero_le last) paired
    rw [Array.getElem?_toList, getElem?_foldl_writePair isEnd sound.distinct member,
      List.getElem?_toArray]
    rfl
  refine ⟨?_, ?_, ?_, written, ?_, ?_⟩
  · simpa using congrArg List.length (unspanned_withSpans (withSpans_eq_ok_iff.mpr ⟨noFault, rfl⟩))
  · intro component first opens
    obtain ⟨last, member⟩ := sound.opened opens (.inr (Nat.zero_le first))
    obtain ⟨same, paired⟩ := finds.sound _ member
    cases opens.unique paired.isOpen.opens
    exact ⟨last, paired⟩
  · intro component last closes
    obtain ⟨first, member⟩ := sound.closed closes (Nat.zero_le last)
    obtain ⟨same, paired⟩ := finds.sound _ member
    cases closes.unique paired.closes
    exact ⟨first, paired⟩
  · intro component first last place token paired isEnd countable isToken
    rw [written paired isEnd] at isToken
    obtain ⟨source, _, rfl⟩ := Option.map_eq_some_iff.mp isToken
    have inside := paired.closes.lt_length
    exact span_withSpan (Nat.succ_pos _) (by omega) source
  · intro place token isToken isLeaf
    rw [Array.getElem?_toList, getElem?_foldl_writePair_of_ne, List.getElem?_toArray, isToken]
    intro pair member
    obtain ⟨component, paired⟩ := finds.sound pair member
    constructor
    · rintro rfl
      exact isLeaf.not_opensAt isToken paired.isOpen.opens
    · rintro rfl
      exact isLeaf.not_closesAt isToken paired.closes

end Pairing

/-! ### Pairs of nested constructs -/

/-- Within nested constructs no front closes more than it opens, and the whole closes as much. -/
theorem Nests.balanced {allowed : Token → List Token → Token → Prop}
    (nests : Nests allowed tokens) (component : Component) : Balanced component tokens := by
  obtain ⟨measured, measures⟩ := nests.measuresTo
  refine ⟨fun index => ?_, ?_⟩
  · exact measures.closingCount_prefix_le component (List.take_append_drop index tokens).symm
  · exact (counts_of_withSpans (withSpans_of_measuresTo measures) component).symm

/-- How deep a component is behind some tokens and a part of those that follow. -/
theorem depth_append (component : Component) (before after : List Token) (index : Nat) :
    depth component (before ++ after) (before.length + index) =
      depth component before before.length + depth component after index := by
  rw [depth, depth, depth, List.take_length_add_append, List.take_length, openingCount_append,
    closingCount_append]
  omega

/-- The ends of a construct around nested ones are a pair of the list. -/
theorem ConstructAt.paired {component : Component} {first last : Nat} {opening closing : Token}
    {inner : List Token} (isAt : ConstructAt tokens component first last opening inner closing)
    (inside : WellNested inner) : Paired tokens component first last := by
  have closes : ClosesAt tokens component last := ⟨closing, isAt.getElem?_last, isAt.closes⟩
  have opens : OpensAt tokens component first := ⟨opening, isAt.getElem?_first, isAt.opens⟩
  obtain ⟨⟨before, after, rfl, rfl⟩, rfl, _, _⟩ := isAt
  obtain ⟨front, whole⟩ := balanced_iff.mp (inside.balanced component)
  -- the depth behind the opening token, and behind a part of what it holds
  have next := opens.depth_succ
  have within {index : Nat} (upTo : index ≤ inner.length) :
      depth component (before ++ (enclose opening inner closing ++ after))
          (before.length + 1 + index) =
        depth component (before ++ (enclose opening inner closing ++ after)) (before.length + 1) +
          depth component inner index := by
    have regroup : before ++ (enclose opening inner closing ++ after) =
        (before ++ [opening]) ++ (inner ++ ([closing] ++ after)) := by
      simp [enclose]
    have length : (before ++ [opening]).length = before.length + 1 := List.length_append
    have inFront : depth component (inner ++ ([closing] ++ after)) index =
        depth component inner index := by
      rw [depth, depth, List.take_append_of_le_length upTo]
    have split := depth_append component (before ++ [opening]) (inner ++ ([closing] ++ after))
    have start := split 0
    rw [depth_zero, Int.add_zero, Nat.add_zero] at start
    rw [regroup, ← length, split, inFront, start]
  refine ⟨closes, ⟨opens, by omega, fun between behind upTo => ?_⟩, fun other isOther => ?_⟩
  · obtain ⟨index, rfl⟩ := Nat.exists_eq_add_of_le (show before.length + 1 ≤ between by omega)
    have inFront := front index
    rw [within (by omega)]
    omega
  · apply Nat.le_of_not_lt
    intro later
    obtain ⟨index, rfl⟩ := Nat.exists_eq_add_of_le (show before.length + 1 ≤ other by omega)
    have shorter := isOther.inFront
    have lower := isOther.depth_lt
    have inFront := front index
    rw [show before.length + inner.length + 1 = before.length + 1 + inner.length by omega,
      within (Nat.le_refl _), within (by omega), whole] at lower
    omega

/-- Where constructs nest, the pairs of a list are the ends of its constructs. -/
theorem WellNested.paired_iff (nests : WellNested tokens) {component : Component}
    {first last : Nat} : Paired tokens component first last ↔
      ∃ opening inner closing, ConstructAt tokens component first last opening inner closing ∧
        WellNested inner := by
  constructor
  · intro paired
    obtain ⟨opening, isOpening, opens⟩ := paired.isOpen.opens
    obtain ⟨inner, closing, other, isAt, _, inside⟩ := nests.constructAt isOpening opens
    rw [paired.last_unique (isAt.paired inside)]
    exact ⟨opening, inner, closing, isAt, inside⟩
  · rintro ⟨opening, inner, closing, isAt, inside⟩
    exact isAt.paired inside

/-! ### Every list -/

/-- What measuring the spans of a list comes to.  It succeeds exactly if every component is
balanced, and then each closing token and the latest token of its component that is still open get
the number of tokens from the one to the other; otherwise the first token that breaks the balance is
reported.  If constructs nest, the pairs are their ends. -/
theorem withSpans_exact (tokens : List Token) :
    ((∃ measured, withSpans tokens = .ok measured) ↔
        ∀ component, Balanced component tokens) ∧
      (∀ measured, withSpans tokens = .ok measured → SpansWritten tokens measured) ∧
      (∀ problem, withSpans tokens = .error problem → SpanFault tokens problem) ∧
      (WellNested tokens → ∀ component first last, Paired tokens component first last ↔
        ∃ opening inner closing,
          ConstructAt tokens component first last opening inner closing ∧ WellNested inner) := by
  have finds := Pairing.finds_ofTokens tokens
  have faulty : ∀ problem, withSpans tokens = .error problem → SpanFault tokens problem := by
    intro problem isProblem
    apply finds.faulty
    cases isFault : (Pairing.ofTokens tokens).fault with
    | none =>
        rw [withSpans_eq_ok_iff.mpr ⟨isFault, rfl⟩] at isProblem
        cases isProblem
    | some other =>
        simp only [withSpans, measureSpans, isFault, Except.error.injEq] at isProblem
        rw [isProblem]
  refine ⟨⟨?_, ?_⟩, ?_, faulty, fun nests _ _ _ => nests.paired_iff⟩
  · rintro ⟨measured, isMeasured⟩
    have noFault := (withSpans_eq_ok_iff.mp isMeasured).1
    obtain ⟨noneUnmatched, allPaired⟩ := finds.settled noFault
    exact balanced_all_iff.mpr ⟨no_unmatched_iff.mp noneUnmatched, allPaired⟩
  · intro balanced
    obtain ⟨noneOverclosed, allPaired⟩ := balanced_all_iff.mp balanced
    cases isMeasured : withSpans tokens with
    | ok measured => exact ⟨measured, rfl⟩
    | error problem =>
        cases faulty problem isMeasured with
        | unmatchedEnd _ first => exact absurd first.1 (noneOverclosed _)
        | unclosedBegin _ _ first => exact absurd first.1 (allPaired _)
  · intro measured isMeasured
    obtain ⟨noFault, rfl⟩ := withSpans_eq_ok_iff.mp isMeasured
    exact Pairing.spansWritten noFault

/-- A field and a group that interleave are measured each by itself. -/
example :
    (withSpans
      [{ signal := .beginField, name := "price" }, { signal := .encoding, name := "cents" },
        { signal := .beginGroup, name := "legs" }, { signal := .endField, name := "price" },
        { signal := .endGroup, name := "legs" }]).toOption.map (·.map Token.span) =
      some [4, 1, 3, 4, 3] := by
  decide

end WireSchema
