/-
Module: WireSchema.Proofs.SpanPairs
Purpose: Measuring matches the tokens of each component by themselves, so that constructs of
  different components may interleave.  Whatever the list, if there is no fault then every opening
  and every closing token is in exactly one pair, the ends of a pair belong to one component, and
  within a component the pairs nest (`Pairing.Sound`).  A pair is written onto its two ends and
  nowhere else.  Measured lists are therefore nested kind by kind (`kindwiseNested_of_withSpans`).
Main exports: Pairing.Sound, KindwiseNested, PairWritten, kindwiseNested_of_withSpans
-/
import WireSchema.Proofs.MeasuredTree
import WireSchema.Proofs.NestedTokens

namespace WireSchema

/-! ### Tokens at their places -/

/-- A token that opens a component stands at a place of a list. -/
def OpensAt (tokens : List Token) (component : Component) (index : Nat) : Prop :=
  ∃ token, tokens[index]? = some token ∧ token.signal.opens? = some component

/-- A token that closes a component stands at a place of a list. -/
def ClosesAt (tokens : List Token) (component : Component) (index : Nat) : Prop :=
  ∃ token, tokens[index]? = some token ∧ token.signal.closes? = some component

section Place

variable {tokens : List Token} {component : Component} {index : Nat} {token : Token}

theorem opensAt_iff (isToken : tokens[index]? = some token) :
    OpensAt tokens component index ↔ token.signal.opens? = some component := by
  simp [OpensAt, isToken]

theorem closesAt_iff (isToken : tokens[index]? = some token) :
    ClosesAt tokens component index ↔ token.signal.closes? = some component := by
  simp [ClosesAt, isToken]

theorem OpensAt.unique {other : Component} (one : OpensAt tokens component index)
    (two : OpensAt tokens other index) : component = other := by
  obtain ⟨token, isToken, opens⟩ := one
  rw [opensAt_iff isToken, opens] at two
  exact Option.some.inj two

theorem ClosesAt.unique {other : Component} (one : ClosesAt tokens component index)
    (two : ClosesAt tokens other index) : component = other := by
  obtain ⟨token, isToken, closes⟩ := one
  rw [closesAt_iff isToken, closes] at two
  exact Option.some.inj two

theorem OpensAt.not_closesAt {closed : Component} (opens : OpensAt tokens component index) :
    ¬ ClosesAt tokens closed index := by
  intro closes
  obtain ⟨token, isToken, opens⟩ := opens
  rw [opens?_eq_none_of_closes? ((closesAt_iff isToken).mp closes)] at opens
  cases opens

theorem OpensAt.lt_length (opens : OpensAt tokens component index) : index < tokens.length := by
  obtain ⟨token, isToken, _⟩ := opens
  exact (List.getElem?_eq_some_iff.mp isToken).1

theorem ClosesAt.lt_length (closes : ClosesAt tokens component index) : index < tokens.length := by
  obtain ⟨token, isToken, _⟩ := closes
  exact (List.getElem?_eq_some_iff.mp isToken).1

theorem Token.IsLeaf.not_opensAt (isLeaf : token.IsLeaf) (isToken : tokens[index]? = some token) :
    ¬ OpensAt tokens component index := by
  simp [opensAt_iff isToken, isLeaf.1]

theorem Token.IsLeaf.not_closesAt (isLeaf : token.IsLeaf)
    (isToken : tokens[index]? = some token) : ¬ ClosesAt tokens component index := by
  simp [closesAt_iff isToken, isLeaf.2]

end Place

/-! ### What the scan finds -/

namespace Pairing

/-- Open tokens at the places that they are listed with, all of them in front of an index and the
latest in front. -/
structure Stands (tokens : List Token) (index : Nat) (pending : List (Nat × Token)) : Prop where
  placed : ∀ entry ∈ pending, entry.1 < index ∧ tokens[entry.1]? = some entry.2
  latestFirst : pending.Pairwise fun later earlier => earlier.1 < later.1

/-- A token that is open already, or one from an index on. -/
def Source (index : Nat) (pending : List (Nat × Token)) (place : Nat) : Prop :=
  (∃ entry ∈ pending, entry.1 = place) ∨ index ≤ place

/-- The pairs of some tokens from an index on, given the open tokens in front of it. -/
structure Sound (tokens : List Token) (index : Nat) (pending : List (Nat × Token))
    (pairs : List (Nat × Nat)) : Prop where
  joined : ∀ pair ∈ pairs, index ≤ pair.2 ∧ pair.1 < pair.2 ∧ Source index pending pair.1 ∧
    ∃ component, OpensAt tokens component pair.1 ∧ ClosesAt tokens component pair.2
  opened : ∀ {component place}, OpensAt tokens component place → Source index pending place →
    ∃ last, (place, last) ∈ pairs
  closed : ∀ {component place}, ClosesAt tokens component place → index ≤ place →
    ∃ first, (first, place) ∈ pairs
  distinct : pairs.Pairwise fun pair other =>
    pair.1 ≠ other.1 ∧ pair.1 ≠ other.2 ∧ pair.2 ≠ other.1 ∧ pair.2 ≠ other.2
  apart : ∀ {component outer inner}, outer ∈ pairs → inner ∈ pairs →
    OpensAt tokens component outer.1 → OpensAt tokens component inner.1 →
      outer.1 < inner.1 → inner.1 < outer.2 → inner.2 < outer.2

variable {tokens : List Token} {index : Nat} {pending : List (Nat × Token)}
  {pairs : List (Nat × Nat)}

theorem Source.next {place : Nat} (source : Source index pending place) :
    place = index ∨ Source (index + 1) pending place := by
  rcases source with isPending | behind
  · exact .inr (.inl isPending)
  · exact (Nat.eq_or_lt_of_le behind).imp Eq.symm .inr

theorem Source.of_next {place : Nat} (source : Source (index + 1) pending place) :
    Source index pending place :=
  source.imp_right Nat.le_of_succ_le

theorem Stands.next (stands : Stands tokens index pending) : Stands tokens (index + 1) pending :=
  ⟨fun entry member => ⟨Nat.lt_succ_of_lt (stands.placed entry member).1,
    (stands.placed entry member).2⟩, stands.latestFirst⟩

theorem Stands.sublist {fewer : List (Nat × Token)} (stands : Stands tokens index pending)
    (isFewer : fewer.Sublist pending) : Stands tokens index fewer :=
  ⟨fun entry member => stands.placed entry (isFewer.subset member),
    stands.latestFirst.sublist isFewer⟩

/-- No token is left. -/
theorem Sound.nil (noneLeft : tokens.length ≤ index) : Sound tokens index [] [] where
  joined _ member := absurd member List.not_mem_nil
  opened := by
    rintro component place ⟨token, isToken, _⟩ (⟨_, member, _⟩ | behind)
    · cases member
    · rw [List.getElem?_eq_none (Nat.le_trans noneLeft behind)] at isToken
      cases isToken
  closed := by
    rintro component place ⟨token, isToken, _⟩ behind
    rw [List.getElem?_eq_none (Nat.le_trans noneLeft behind)] at isToken
    cases isToken
  distinct := .nil
  apart member := absurd member List.not_mem_nil

/-- A leaf is in no pair. -/
theorem Sound.leaf (later : Sound tokens (index + 1) pending pairs)
    (opensNothing : ∀ component, ¬ OpensAt tokens component index)
    (closesNothing : ∀ component, ¬ ClosesAt tokens component index) :
    Sound tokens index pending pairs where
  joined pair member := by
    obtain ⟨after, forward, source, component⟩ := later.joined pair member
    exact ⟨Nat.le_of_succ_le after, forward, source.of_next, component⟩
  opened := by
    intro component place opens source
    rcases source.next with rfl | isLater
    · exact absurd opens (opensNothing component)
    · exact later.opened opens isLater
  closed := by
    intro component place closes behind
    rcases Nat.eq_or_lt_of_le behind with rfl | after
    · exact absurd closes (closesNothing component)
    · exact later.closed closes after
  distinct := later.distinct
  apart := later.apart

/-- An opening token is open until its pair is found. -/
theorem Sound.opening {token : Token}
    (later : Sound tokens (index + 1) ((index, token) :: pending) pairs)
    (closesNothing : ∀ component, ¬ ClosesAt tokens component index) :
    Sound tokens index pending pairs where
  joined pair member := by
    obtain ⟨after, forward, source, component⟩ := later.joined pair member
    refine ⟨Nat.le_of_succ_le after, forward, ?_, component⟩
    rcases source with ⟨entry, isEntry, same⟩ | behind
    · rcases List.mem_cons.mp isEntry with rfl | isPending
      · exact .inr (Nat.le_of_eq same)
      · exact .inl ⟨entry, isPending, same⟩
    · exact .inr (Nat.le_of_succ_le behind)
  opened := by
    intro component place opens source
    rcases source.next with rfl | ⟨entry, isPending, same⟩ | after
    · exact later.opened opens (.inl ⟨_, List.mem_cons_self, rfl⟩)
    · exact later.opened opens (.inl ⟨entry, List.mem_cons_of_mem _ isPending, same⟩)
    · exact later.opened opens (.inr after)
  closed := by
    intro component place closes behind
    rcases Nat.eq_or_lt_of_le behind with rfl | after
    · exact absurd closes (closesNothing component)
    · exact later.closed closes after
  distinct := later.distinct
  apart := later.apart

section Closing

variable {before after : List (Nat × Token)} {partner : Nat × Token} {component : Component}

/-- Where a token can be paired once the partner of a closing token is taken off. -/
theorem Source.without {place : Nat} (source : Source index (before ++ partner :: after) place) :
    place = partner.1 ∨ place = index ∨ Source (index + 1) (before ++ after) place := by
  rcases source.next with rfl | ⟨entry, isEntry, rfl⟩ | behind
  · exact .inr (.inl rfl)
  · rcases List.mem_append.mp isEntry with isBefore | isBehind
    · exact .inr (.inr (.inl ⟨entry, List.mem_append_left _ isBefore, rfl⟩))
    · rcases List.mem_cons.mp isBehind with rfl | isAfter
      · exact .inl rfl
      · exact .inr (.inr (.inl ⟨entry, List.mem_append_right _ isAfter, rfl⟩))
  · exact .inr (.inr (.inr behind))

/-- The partner and its closing token are not among the others. -/
theorem Stands.of_without (stands : Stands tokens index (before ++ partner :: after)) {place : Nat}
    (source : Source (index + 1) (before ++ after) place) :
    Source index (before ++ partner :: after) place ∧ place ≠ partner.1 ∧ place ≠ index := by
  have partnerInFront := (stands.placed partner (by simp)).1
  obtain ⟨_, behindPartner, acrossPartner⟩ := List.pairwise_append.mp stands.latestFirst
  rcases source with ⟨entry, isEntry, rfl⟩ | behind
  · rcases List.mem_append.mp isEntry with isBefore | isAfter
    · have isPending : entry ∈ before ++ partner :: after := List.mem_append_left _ isBefore
      have later := acrossPartner entry isBefore partner List.mem_cons_self
      have inFront := (stands.placed entry isPending).1
      exact ⟨.inl ⟨entry, isPending, rfl⟩, Nat.ne_of_gt later, Nat.ne_of_lt inFront⟩
    · have isPending : entry ∈ before ++ partner :: after :=
        List.mem_append_right _ (List.mem_cons_of_mem _ isAfter)
      have earlier := List.rel_of_pairwise_cons behindPartner isAfter
      have inFront := (stands.placed entry isPending).1
      exact ⟨.inl ⟨entry, isPending, rfl⟩, Nat.ne_of_lt earlier, Nat.ne_of_lt inFront⟩
  · exact ⟨.inr (Nat.le_of_succ_le behind), by omega, by omega⟩

/-- Between the latest open token of a component and the token that closes it, none of the component
is open any more. -/
theorem Stands.not_between (stands : Stands tokens index (before ++ partner :: after))
    (others : ∀ entry ∈ before, entry.2.signal.opens? ≠ some component) {place : Nat}
    (source : Source (index + 1) (before ++ after) place) (opens : OpensAt tokens component place)
    (inside : partner.1 < place) : index < place := by
  obtain ⟨_, behindPartner, _⟩ := List.pairwise_append.mp stands.latestFirst
  rcases source with ⟨entry, isEntry, rfl⟩ | behind
  · rcases List.mem_append.mp isEntry with isBefore | isAfter
    · have placed := (stands.placed entry (List.mem_append_left _ isBefore)).2
      exact absurd ((opensAt_iff placed).mp opens) (others entry isBefore)
    · have earlier := List.rel_of_pairwise_cons behindPartner isAfter
      exact absurd inside (Nat.lt_asymm earlier)
  · exact behind

/-- A closing token is paired with the latest open token of its component. -/
theorem Sound.closing (stands : Stands tokens index (before ++ partner :: after))
    (later : Sound tokens (index + 1) (before ++ after) pairs)
    (opens : partner.2.signal.opens? = some component) (closes : ClosesAt tokens component index)
    (others : ∀ entry ∈ before, entry.2.signal.opens? ≠ some component) :
    Sound tokens index (before ++ partner :: after) ((partner.1, index) :: pairs) := by
  obtain ⟨inFront, isPlaced⟩ := stands.placed partner (by simp)
  have opensAt : OpensAt tokens component partner.1 := ⟨partner.2, isPlaced, opens⟩
  refine ⟨?_, ?_, ?_, ?_, ?_⟩
  · intro pair member
    rcases List.mem_cons.mp member with rfl | isLater
    · exact ⟨Nat.le_refl _, inFront, .inl ⟨partner, by simp, rfl⟩, component, opensAt, closes⟩
    · obtain ⟨behind, forward, source, joined⟩ := later.joined pair isLater
      exact ⟨Nat.le_of_succ_le behind, forward, (stands.of_without source).1, joined⟩
  · intro opened place opensPlace source
    rcases source.without with rfl | rfl | isLeft
    · exact ⟨index, List.mem_cons_self⟩
    · exact absurd closes opensPlace.not_closesAt
    · exact (later.opened opensPlace isLeft).imp fun _ => List.mem_cons_of_mem _
  · intro closed place closesPlace behind
    rcases Nat.eq_or_lt_of_le behind with rfl | behindIndex
    · exact ⟨partner.1, List.mem_cons_self⟩
    · exact (later.closed closesPlace behindIndex).imp fun _ => List.mem_cons_of_mem _
  · refine List.pairwise_cons.mpr ⟨fun pair member => ?_, later.distinct⟩
    obtain ⟨behind, _, source, _⟩ := later.joined pair member
    obtain ⟨_, notPartner, notIndex⟩ := stands.of_without source
    exact ⟨notPartner.symm, by dsimp only; omega, notIndex.symm, by dsimp only; omega⟩
  · intro opened outer inner isOuter isInner opensOuter opensInner inside reaches
    rcases List.mem_cons.mp isOuter with rfl | outerLater
    · rcases List.mem_cons.mp isInner with rfl | innerLater
      · exact absurd inside (Nat.lt_irrefl _)
      · obtain ⟨_, _, source, _⟩ := later.joined inner innerLater
        cases opensOuter.unique opensAt
        exact absurd reaches (Nat.lt_asymm (stands.not_between others source opensInner inside))
    · rcases List.mem_cons.mp isInner with rfl | innerLater
      · exact (later.joined outer outerLater).1
      · exact later.apart outerLater innerLater opensOuter opensInner inside reaches

end Closing

/-- The partner of a closing token among the open tokens. -/
theorem split_of_find? {component : Component} {partner : Nat × Token}
    (isPartner : pending.find? (fun candidate => candidate.2.signal.opens? == some component) =
      some partner) :
    ∃ before after, pending = before ++ partner :: after ∧
      pending.eraseP (fun candidate => candidate.2.signal.opens? == some component) =
        before ++ after ∧
      partner.2.signal.opens? = some component ∧
      ∀ entry ∈ before, entry.2.signal.opens? ≠ some component := by
  obtain ⟨belongs, before, after, rfl, others⟩ := List.find?_eq_some_iff_append.mp isPartner
  have noOther : ∀ entry ∈ before, entry.2.signal.opens? ≠ some component := by
    simpa using others
  refine ⟨before, after, rfl, ?_, by simpa using belongs, noOther⟩
  rw [List.eraseP_append_right _ (by simpa using noOther)]
  exact congrArg (before ++ ·) (List.eraseP_cons_of_pos belongs)

theorem scan_partner {token : Token} {component : Component} {partner : Nat × Token}
    {rest : List Token} (opensNothing : token.signal.opens? = none)
    (closes : token.signal.closes? = some component)
    (isPartner : pending.find? (fun candidate => candidate.2.signal.opens? == some component) =
      some partner) :
    scan index pending (token :: rest) =
      let later := scan (index + 1)
        (pending.eraseP fun candidate => candidate.2.signal.opens? == some component) rest
      ⟨(partner.1, index) :: later.pairs, later.fault⟩ := by
  simp [scan, opensNothing, closes, isPartner]

/-- The scan of a list without a fault finds all of its pairs. -/
theorem sound_of_scan {rest : List Token} (isRest : tokens.drop index = rest)
    (stands : Stands tokens index pending) (noFault : (scan index pending rest).fault = none) :
    Sound tokens index pending (scan index pending rest).pairs := by
  induction rest generalizing index pending with
  | nil =>
      have noPending : pending = [] := by
        simpa [scan, unclosed] using noFault
      subst noPending
      exact .nil (List.drop_eq_nil_iff.mp isRest)
  | cons token rest ih =>
      obtain ⟨isToken, isLater⟩ : tokens[index]? = some token ∧ tokens.drop (index + 1) = rest := by
        constructor
        · rw [← List.head?_drop, isRest, List.head?_cons]
        · rw [← List.tail_drop, isRest, List.tail_cons]
      cases opens : token.signal.opens? with
      | some component =>
          have closesNothing (closed : Component) : ¬ ClosesAt tokens closed index :=
            OpensAt.not_closesAt ⟨token, isToken, opens⟩
          rw [scan_opening opens] at noFault ⊢
          refine .opening (ih isLater ⟨fun entry member => ?_, ?_⟩ noFault) closesNothing
          · rcases List.mem_cons.mp member with rfl | isPending
            · exact ⟨Nat.lt_succ_self _, isToken⟩
            · exact ⟨Nat.lt_succ_of_lt (stands.placed entry isPending).1,
                (stands.placed entry isPending).2⟩
          · exact List.pairwise_cons.mpr
              ⟨fun entry isPending => (stands.placed entry isPending).1, stands.latestFirst⟩
      | none =>
          cases closes : token.signal.closes? with
          | none =>
              have isLeaf : token.IsLeaf := ⟨opens, closes⟩
              rw [scan_leaf opens closes] at noFault ⊢
              exact (ih isLater stands.next noFault).leaf (fun _ => isLeaf.not_opensAt isToken)
                fun _ => isLeaf.not_closesAt isToken
          | some component =>
              cases isPartner : pending.find?
                  (fun candidate => candidate.2.signal.opens? == some component) with
              | none => simp [scan, opens, closes, isPartner] at noFault
              | some partner =>
                  rw [scan_partner opens closes isPartner] at noFault ⊢
                  obtain ⟨before, after, rfl, erased, opensPartner, others⟩ :=
                    split_of_find? isPartner
                  rw [erased] at noFault ⊢
                  have fewer : (before ++ after).Sublist (before ++ partner :: after) :=
                    (List.sublist_cons_self partner after).append_left before
                  exact .closing stands (ih isLater (stands.next.sublist fewer) noFault)
                    opensPartner ⟨token, isToken, closes⟩ others

/-! ### What is written -/

/-- The span that a pair writes. -/
def spanOf (pair : Nat × Nat) : Int32 :=
  Int32.ofNat (pair.2 - pair.1 + 1)

theorem getElem?_writePair (tokens : Array Token) (pair : Nat × Nat) (place : Nat) :
    (writePair tokens pair)[place]? =
      if place = pair.1 ∨ place = pair.2 then tokens[place]?.map (Token.withSpan · (spanOf pair))
      else tokens[place]? := by
  rw [writePair, Array.getElem?_modify, Array.getElem?_modify]
  by_cases first : pair.1 = place
  · by_cases last : pair.2 = place
    · rw [if_pos last, if_pos first, if_pos (.inl first.symm), Option.map_map]
      rfl
    · rw [if_neg last, if_pos first, if_pos (.inl first.symm)]
      rfl
  · by_cases last : pair.2 = place
    · rw [if_pos last, if_neg first, if_pos (.inr last.symm)]
      rfl
    · rw [if_neg last, if_neg first, if_neg (not_or.mpr ⟨Ne.symm first, Ne.symm last⟩)]

/-- No pair is written onto the tokens of other places. -/
theorem getElem?_foldl_writePair_of_ne {place : Nat} : ∀ (pairs : List (Nat × Nat)),
    (∀ pair ∈ pairs, place ≠ pair.1 ∧ place ≠ pair.2) → ∀ tokens : Array Token,
      (pairs.foldl writePair tokens)[place]? = tokens[place]?
  | [], _, _ => rfl
  | pair :: others, apart, tokens => by
      have notHere := apart pair List.mem_cons_self
      rw [List.foldl_cons,
        getElem?_foldl_writePair_of_ne others fun other member =>
          apart other (List.mem_cons_of_mem pair member),
        getElem?_writePair, if_neg (not_or.mpr notHere)]

/-- A pair is written onto both of its ends. -/
theorem getElem?_foldl_writePair {pair : Nat × Nat} {place : Nat}
    (touched : place = pair.1 ∨ place = pair.2) : ∀ {pairs : List (Nat × Nat)},
      pairs.Pairwise (fun pair other =>
        pair.1 ≠ other.1 ∧ pair.1 ≠ other.2 ∧ pair.2 ≠ other.1 ∧ pair.2 ≠ other.2) →
      pair ∈ pairs → ∀ tokens : Array Token,
        (pairs.foldl writePair tokens)[place]? =
          tokens[place]?.map (Token.withSpan · (spanOf pair))
  | first :: others, distinct, member, tokens => by
      obtain ⟨apart, distinctOthers⟩ := List.pairwise_cons.mp distinct
      rw [List.foldl_cons]
      rcases List.mem_cons.mp member with rfl | isOther
      · rw [getElem?_foldl_writePair_of_ne others, getElem?_writePair, if_pos touched]
        intro other isOther
        have different := apart other isOther
        omega
      · have different := apart pair isOther
        have notFirst : ¬ (place = first.1 ∨ place = first.2) := by omega
        rw [getElem?_foldl_writePair touched distinctOthers isOther, getElem?_writePair,
          if_neg notFirst]

end Pairing

/-- What measuring a list without a fault comes to: there are pairs that are sound, each of them is
written onto its two ends, and all other tokens are left alone. -/
theorem pairs_of_withSpans {tokens measured : List Token}
    (isMeasured : withSpans tokens = .ok measured) :
    ∃ pairs, Pairing.Sound tokens 0 [] pairs ∧
      (∀ pair ∈ pairs, ∀ place, place = pair.1 ∨ place = pair.2 →
        measured[place]? = tokens[place]?.map (Token.withSpan · (Pairing.spanOf pair))) ∧
      ∀ place, (∀ pair ∈ pairs, place ≠ pair.1 ∧ place ≠ pair.2) →
        measured[place]? = tokens[place]? := by
  obtain ⟨noFault, rfl⟩ := withSpans_eq_ok_iff.mp isMeasured
  have sound : Pairing.Sound tokens 0 [] (Pairing.ofTokens tokens).pairs :=
    Pairing.sound_of_scan (List.drop_zero) ⟨fun _ member => absurd member List.not_mem_nil, .nil⟩
      noFault
  refine ⟨_, sound, fun pair member place touched => ?_, fun place apart => ?_⟩
  · rw [Array.getElem?_toList, Pairing.getElem?_foldl_writePair touched sound.distinct member,
      List.getElem?_toArray]
  · rw [Array.getElem?_toList, Pairing.getElem?_foldl_writePair_of_ne _ apart,
      List.getElem?_toArray]

/-! ### Nesting kind by kind -/

/-- Within every component, the constructs of a list are nested and their ends carry their spans. -/
structure KindwiseNested (tokens : List Token) : Prop where
  opened : ∀ {component : Component} {place : Nat} {token : Token}, tokens[place]? = some token →
    token.signal.opens? = some component →
      ∃ partner, tokens[place + token.span - 1]? = some partner ∧
        partner.signal.closes? = some component ∧ partner.span = token.span
  closed : ∀ {component : Component} {place : Nat} {token : Token}, tokens[place]? = some token →
    token.signal.closes? = some component →
      ∃ first partner, first + token.span = place + 1 ∧ tokens[first]? = some partner ∧
        partner.signal.opens? = some component ∧ partner.span = token.span
  apart : ∀ {component : Component} {outer inner : Nat} {first second : Token},
    tokens[outer]? = some first → tokens[inner]? = some second →
      first.signal.opens? = some component → second.signal.opens? = some component →
        outer < inner → inner < outer + first.span →
          inner + second.span < outer + first.span

/-- Lists with the same signals have a token at the same places. -/
theorem exists_of_signals {tokens others : List Token}
    (same : others.map Token.signal = tokens.map Token.signal) {place : Nat} {token : Token}
    (isToken : tokens[place]? = some token) :
    ∃ other, others[place]? = some other ∧ other.signal = token.signal := by
  have signals := congrArg (·[place]?) same
  simpa only [List.getElem?_map, isToken, Option.map_some, Option.map_eq_some_iff] using signals

theorem opensAt_of_signals {tokens others : List Token}
    (same : others.map Token.signal = tokens.map Token.signal) {component : Component} {place : Nat}
    {token : Token} (isToken : tokens[place]? = some token)
    (opens : token.signal.opens? = some component) : OpensAt others component place := by
  obtain ⟨other, isOther, sameSignal⟩ := exists_of_signals same isToken
  exact ⟨other, isOther, by rw [sameSignal, opens]⟩

theorem closesAt_of_signals {tokens others : List Token}
    (same : others.map Token.signal = tokens.map Token.signal) {component : Component} {place : Nat}
    {token : Token} (isToken : tokens[place]? = some token)
    (closes : token.signal.closes? = some component) : ClosesAt others component place := by
  obtain ⟨other, isOther, sameSignal⟩ := exists_of_signals same isToken
  exact ⟨other, isOther, by rw [sameSignal, closes]⟩

/-- The ends of a pair after it was written. -/
structure PairWritten (measured : List Token) (pair : Nat × Nat) (opening closing : Token) :
    Prop where
  opensAt : measured[pair.1]? = some opening
  closesAt : measured[pair.2]? = some closing
  component : ∃ component, opening.signal.opens? = some component ∧
    closing.signal.closes? = some component
  openingSpan : pair.1 + opening.span = pair.2 + 1
  closingSpan : closing.span = opening.span

theorem pairWritten_of_withSpans {tokens measured : List Token}
    (isMeasured : withSpans tokens = .ok measured) (countable : tokens.length < spanLimit) :
    ∃ pairs, Pairing.Sound tokens 0 [] pairs ∧
      ∀ pair ∈ pairs, ∃ opening closing, PairWritten measured pair opening closing := by
  obtain ⟨pairs, sound, written, _⟩ := pairs_of_withSpans isMeasured
  refine ⟨pairs, sound, fun pair member => ?_⟩
  obtain ⟨_, forward, _, component, ⟨opening, isOpening, opens⟩, closing, isClosing, closes⟩ :=
    sound.joined pair member
  have openingWritten := written pair member pair.1 (.inl rfl)
  have closingWritten := written pair member pair.2 (.inr rfl)
  rw [isOpening, Option.map_some] at openingWritten
  rw [isClosing, Option.map_some] at closingWritten
  have inside := (List.getElem?_eq_some_iff.mp isClosing).1
  have small : pair.2 - pair.1 + 1 < spanLimit := by omega
  have span (token : Token) : (token.withSpan (Pairing.spanOf pair)).span = pair.2 - pair.1 + 1 :=
    span_withSpan (Nat.succ_pos _) small token
  refine ⟨_, _, openingWritten, closingWritten, ⟨component, opens, closes⟩, ?_, ?_⟩
  · rw [span]
    omega
  · rw [span, span]

/-- Whatever was measured is nested kind by kind. -/
theorem kindwiseNested_of_withSpans {tokens measured : List Token}
    (isMeasured : withSpans tokens = .ok measured) (countable : tokens.length < spanLimit) :
    KindwiseNested measured := by
  obtain ⟨pairs, sound, written⟩ := pairWritten_of_withSpans isMeasured countable
  have signals := map_signal_of_unspanned (unspanned_withSpans isMeasured)
  have paired {component : Component} {place : Nat} {token : Token}
      (isToken : measured[place]? = some token) (opens : token.signal.opens? = some component) :
      ∃ last closing, (place, last) ∈ pairs ∧ PairWritten measured (place, last) token closing := by
    obtain ⟨last, member⟩ := sound.opened (opensAt_of_signals signals.symm isToken opens)
      (.inr (Nat.zero_le place))
    obtain ⟨opening, closing, ends⟩ := written _ member
    have same := ends.opensAt
    rw [isToken] at same
    cases same
    exact ⟨last, closing, member, ends⟩
  refine ⟨fun {component place token} isToken opens => ?_,
    fun {component place token} isToken closes => ?_,
    fun {component outer inner first second} isFirst isSecond opensFirst opensSecond inside
      reaches => ?_⟩
  · obtain ⟨last, closing, _, ends⟩ := paired isToken opens
    obtain ⟨same, opensSame, closes⟩ := ends.component
    rw [opens] at opensSame
    cases opensSame
    have atLast : place + token.span - 1 = last := by
      rw [ends.openingSpan, Nat.add_sub_cancel]
    exact ⟨closing, atLast ▸ ends.closesAt, closes, ends.closingSpan⟩
  · obtain ⟨first, member⟩ := sound.closed (closesAt_of_signals signals.symm isToken closes)
      (Nat.zero_le place)
    obtain ⟨opening, closing, ends⟩ := written _ member
    have same := ends.closesAt
    rw [isToken] at same
    cases same
    obtain ⟨component, opens, closesSame⟩ := ends.component
    rw [closes] at closesSame
    cases closesSame
    exact ⟨first, opening, by rw [ends.closingSpan, ends.openingSpan], ends.opensAt, opens,
      ends.closingSpan.symm⟩
  · obtain ⟨firstLast, _, isOuter, outerEnds⟩ := paired isFirst opensFirst
    obtain ⟨secondLast, _, isInner, innerEnds⟩ := paired isSecond opensSecond
    have outerSpan := outerEnds.openingSpan
    have innerSpan := innerEnds.openingSpan
    have opensOuter := opensAt_of_signals signals.symm isFirst opensFirst
    have opensInner := opensAt_of_signals signals.symm isSecond opensSecond
    obtain ⟨_, _, _, _, _, closesOuter⟩ := sound.joined _ isOuter
    have notLast : inner ≠ firstLast := by
      rintro rfl
      exact opensInner.not_closesAt closesOuter
    have within := sound.apart isOuter isInner opensOuter opensInner inside (by
      dsimp only at outerSpan ⊢
      omega)
    dsimp only at outerSpan innerSpan within
    omega

end WireSchema
