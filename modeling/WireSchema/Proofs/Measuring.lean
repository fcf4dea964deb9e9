/-
Module: WireSchema.Proofs.Measuring
Purpose: Where constructs nest without interleaving, the spans that are measured are those that the
  nesting shows: an opening and a closing token get the number of tokens from the one to the other.
  `MeasuresTo` says so for lists of tokens, without pairing anything, and `withSpans_of_measuresTo`
  says that the measuring of spans agrees.
Main exports: MeasuresTo, withSpans_of_measuresTo
-/
import WireSchema.Proofs.SchemaTree
import WireSchema.Token.Spans

namespace WireSchema

/-- The span written onto both ends of a construct around some tokens. -/
def enclosedSpan (inner : List Token) : Int32 :=
  Int32.ofNat (inner.length + 2)

/-- The second list is the first one, a sequence of leaves and nested constructs, with the span of
every construct on its two ends. -/
inductive MeasuresTo : List Token → List Token → Prop where
  | nil : MeasuresTo [] []
  | leaf {token : Token} {rest measuredRest : List Token}
      (opensNothing : token.signal.opens? = none) (closesNothing : token.signal.closes? = none)
      (later : MeasuresTo rest measuredRest) :
      MeasuresTo (token :: rest) (token :: measuredRest)
  | construct {component : Component} {opening closing : Token}
      {inner measuredInner rest measuredRest : List Token}
      (opens : opening.signal.opens? = some component)
      (closes : closing.signal.closes? = some component)
      (inside : MeasuresTo inner measuredInner) (later : MeasuresTo rest measuredRest) :
      MeasuresTo (enclose opening inner closing ++ rest)
        (enclose (opening.withSpan (enclosedSpan inner)) measuredInner
          (closing.withSpan (enclosedSpan inner)) ++ measuredRest)

namespace MeasuresTo

theorem append {first measuredFirst second measuredSecond : List Token}
    (one : MeasuresTo first measuredFirst) (other : MeasuresTo second measuredSecond) :
    MeasuresTo (first ++ second) (measuredFirst ++ measuredSecond) := by
  induction one with
  | nil => exact other
  | leaf opensNothing closesNothing _ ih => exact .leaf opensNothing closesNothing ih
  | construct opens closes inside _ _ ih =>
      rw [List.append_assoc, List.append_assoc]
      exact .construct opens closes inside ih

/-- A single construct. -/
theorem enclosed {component : Component} {opening closing : Token}
    {inner measuredInner : List Token} (opens : opening.signal.opens? = some component)
    (closes : closing.signal.closes? = some component) (inside : MeasuresTo inner measuredInner) :
    MeasuresTo (enclose opening inner closing)
      (enclose (opening.withSpan (enclosedSpan inner)) measuredInner
        (closing.withSpan (enclosedSpan inner))) := by
  have alone := MeasuresTo.construct opens closes inside .nil
  rwa [List.append_nil, List.append_nil] at alone

/-- Leaves alone are as they are. -/
theorem leaves {tokens : List Token}
    (isLeaf : ∀ token ∈ tokens, token.signal.opens? = none ∧ token.signal.closes? = none) :
    MeasuresTo tokens tokens := by
  induction tokens with
  | nil => exact .nil
  | cons token rest ih =>
      have first := isLeaf token List.mem_cons_self
      have others := ih fun other member => isLeaf other (List.mem_cons_of_mem token member)
      exact .leaf first.1 first.2 others

theorem length_eq {tokens measured : List Token} (measures : MeasuresTo tokens measured) :
    measured.length = tokens.length := by
  induction measures with
  | nil => rfl
  | leaf _ _ _ ih => simp only [List.length_cons, ih]
  | construct _ _ _ _ ihInside ihLater =>
      simp only [List.length_append, length_enclose, ihInside, ihLater]

end MeasuresTo

/-! ### The pairs of a nested list -/

theorem opens?_eq_none_of_closes? {signal : Signal} {component : Component}
    (closes : signal.closes? = some component) : signal.opens? = none := by
  cases signal <;> first | rfl | simp [Signal.closes?] at closes

theorem scan_leaf {token : Token} (opensNothing : token.signal.opens? = none)
    (closesNothing : token.signal.closes? = none) (index : Nat) (pending : List (Nat × Token))
    (rest : List Token) :
    Pairing.scan index pending (token :: rest) = Pairing.scan (index + 1) pending rest := by
  simp [Pairing.scan, opensNothing, closesNothing]

theorem scan_opening {token : Token} {component : Component}
    (opens : token.signal.opens? = some component) (index : Nat) (pending : List (Nat × Token))
    (rest : List Token) :
    Pairing.scan index pending (token :: rest) =
      Pairing.scan (index + 1) ((index, token) :: pending) rest := by
  simp [Pairing.scan, opens]

/-- A closing token takes the latest open token off the pending ones if that one opened the same
component. -/
theorem scan_closing {token opening : Token} {component : Component}
    (opens : opening.signal.opens? = some component)
    (closes : token.signal.closes? = some component) (index start : Nat)
    (pending : List (Nat × Token)) (rest : List Token) :
    Pairing.scan index ((start, opening) :: pending) (token :: rest) =
      ⟨(start, index) :: (Pairing.scan (index + 1) pending rest).pairs,
        (Pairing.scan (index + 1) pending rest).fault⟩ := by
  have opensNothing := opens?_eq_none_of_closes? closes
  simp [Pairing.scan, opensNothing, closes, opens]

/-- The token at the front of the second part of a list is changed. -/
theorem modify_append (before after : List Token) (token : Token) (change : Token → Token) :
    (before ++ token :: after).toArray.modify before.length change =
      (before ++ change token :: after).toArray := by
  apply Array.toList_inj.mp
  simp [List.modify_eq_take_drop]

/-- The pair of a construct is written onto its two ends. -/
theorem writePair_enclose (before inner after : List Token) (opening closing : Token) :
    Pairing.writePair (before ++ (enclose opening inner closing ++ after)).toArray
        (before.length, before.length + inner.length + 1) =
      (before ++ (enclose (opening.withSpan (enclosedSpan inner)) inner
        (closing.withSpan (enclosedSpan inner)) ++ after)).toArray := by
  have span : before.length + inner.length + 1 - before.length + 1 = inner.length + 2 := by omega
  have closingAt : before.length + inner.length + 1 =
      (before ++ opening.withSpan (enclosedSpan inner) :: inner).length := by
    simp only [List.length_append, List.length_cons]
    omega
  rw [Pairing.writePair, span, enclose, List.cons_append, modify_append]
  have regroup : before ++ opening.withSpan (enclosedSpan inner) :: (inner ++ [closing] ++ after) =
      (before ++ opening.withSpan (enclosedSpan inner) :: inner) ++ closing :: after := by
    simp
  rw [closingAt]
  change (before ++ opening.withSpan (enclosedSpan inner) ::
    (inner ++ [closing] ++ after)).toArray.modify _ _ = _
  rw [regroup, modify_append]
  simp [enclose, enclosedSpan]

/-- What scanning a nested list finds, and what writing the pairs does, wherever the list stands.
Scanning goes on behind the list with the same open tokens. -/
theorem MeasuresTo.pairs {tokens measured : List Token} (measures : MeasuresTo tokens measured) :
    ∀ index, ∃ pairs : List (Nat × Nat),
      (∀ pending rest, Pairing.scan index pending (tokens ++ rest) =
        ⟨pairs ++ (Pairing.scan (index + tokens.length) pending rest).pairs,
          (Pairing.scan (index + tokens.length) pending rest).fault⟩) ∧
      (∀ before after : List Token, before.length = index →
        pairs.foldl Pairing.writePair (before ++ (tokens ++ after)).toArray =
          (before ++ (measured ++ after)).toArray) := by
  induction measures with
  | nil =>
      intro index
      refine ⟨[], fun pending rest => ?_, fun before after _ => rfl⟩
      simp
  | @leaf token rest measuredRest opensNothing closesNothing later ih =>
      intro index
      obtain ⟨pairs, scanned, written⟩ := ih (index + 1)
      refine ⟨pairs, fun pending following => ?_, fun before after start => ?_⟩
      · have position : index + 1 + rest.length = index + (token :: rest).length := by
          simp only [List.length_cons]
          omega
        rw [List.cons_append, scan_leaf opensNothing closesNothing, scanned, position]
      · have front := written (before ++ [token]) after (by simp [start])
        simpa using front
  | @construct component opening closing inner measuredInner rest measuredRest opens closes
      inside later ihInside ihLater =>
      intro index
      obtain ⟨innerPairs, innerScanned, innerWritten⟩ := ihInside (index + 1)
      obtain ⟨laterPairs, laterScanned, laterWritten⟩ := ihLater (index + inner.length + 2)
      refine ⟨innerPairs ++ (index, index + inner.length + 1) :: laterPairs,
        fun pending following => ?_, fun before after start => ?_⟩
      · have closingAt : index + 1 + inner.length = index + inner.length + 1 := by omega
        have behind : index + inner.length + 2 + rest.length =
            index + (enclose opening inner closing ++ rest).length := by
          simp only [List.length_append, length_enclose]
          omega
        have regroup : enclose opening inner closing ++ rest ++ following =
            opening :: (inner ++ closing :: (rest ++ following)) := by
          simp [enclose]
        rw [regroup, scan_opening opens, innerScanned, closingAt, scan_closing opens closes,
          laterScanned, behind]
        simp
      · have innerDone := innerWritten (before ++ [opening]) (closing :: (rest ++ after))
          (by simp [start])
        have ends := writePair_enclose before measuredInner (rest ++ after) opening closing
        have sameLength : measuredInner.length = inner.length := inside.length_eq
        have sameSpan : enclosedSpan measuredInner = enclosedSpan inner := by
          rw [enclosedSpan, enclosedSpan, sameLength]
        rw [sameLength, sameSpan, start] at ends
        have laterDone := laterWritten
          (before ++ enclose (opening.withSpan (enclosedSpan inner)) measuredInner
            (closing.withSpan (enclosedSpan inner))) after
          (by simp only [List.length_append, length_enclose, sameLength, start]; omega)
        have regroup : before ++ (enclose opening inner closing ++ rest ++ after) =
            before ++ [opening] ++ (inner ++ closing :: (rest ++ after)) := by
          simp [enclose]
        have regroupDone : before ++ [opening] ++ (measuredInner ++ closing :: (rest ++ after)) =
            before ++ (enclose opening measuredInner closing ++ (rest ++ after)) := by
          simp [enclose]
        rw [List.foldl_append, List.foldl_cons, regroup, innerDone, regroupDone, ends]
        simpa using laterDone

/-- Nested constructs get the spans that the nesting shows. -/
theorem withSpans_of_measuresTo {tokens measured : List Token}
    (measures : MeasuresTo tokens measured) : withSpans tokens = .ok measured := by
  obtain ⟨pairs, scanned, written⟩ := measures.pairs 0
  have scannedAll : Pairing.ofTokens tokens = ⟨pairs, none⟩ := by
    have whole := scanned [] []
    simpa [Pairing.ofTokens, Pairing.scan, Pairing.unclosed] using whole
  have writtenAll : pairs.foldl Pairing.writePair tokens.toArray = measured.toArray := by
    simpa using written [] [] rfl
  rw [withSpans, measureSpans, scannedAll, writtenAll]

end WireSchema
