/-
Module: WireSchema.Proofs.ConstructEnds
Purpose: The end of a construct is found in two ways.  The span of its opening token says how far it
  reaches, and behind that token the first one with the closing signal and the same name is searched
  for.
Main exports: nextNamed?, Searchable, EndsAt, ConstructAt.nextNamed?_iff, withSpans_endsAt
-/
import WireSchema.Decoding.Traversal
import WireSchema.Proofs.CompleteCapture
import WireSchema.Proofs.ExactSpans
import WireSchema.Stored.Reader
import WireSchema.Token.Sections

namespace WireSchema

/-!
The search itself is written down several times: for the end of a type, for that of the header and
of the messages of a stored schema, and once more in a form that never looks at the last token.  On
every list these are one search (`nextNamed?`).  It comes to the end of a construct exactly if the
construct holds none of its own component and name (`ConstructAt.nextNamed?_iff`).  In a list in
which no construct does, the search and the measured spans therefore agree everywhere
(`withSpans_endsAt`).
-/

/-- A token with a signal and a name stands at a place of a list. -/
def NamedAt (tokens : List Token) (signal : Signal) (name : String) (index : Nat) : Prop :=
  ∃ token, tokens[index]? = some token ∧ Token.isNamed signal name token = true

/-- The first place behind a given one at which a token with a signal and a name stands. -/
def nextNamed? (tokens : List Token) (place : Nat) (signal : Signal) (name : String) :
    Option Nat :=
  ((tokens.drop (place + 1)).findIdx? (Token.isNamed signal name)).map (place + 1 + ·)

/-- The types that are captured from a token on that opens one, if this one ends at a given place:
the type itself, those inside a composite, and those behind it. -/
def captureUpTo (tokens : List Token) (place limit : Nat) (opening : Token) (last : Nat) :
    Except SchemaError (List (String × List Token)) :=
  (if opening.signal = .beginComposite then
    captureTypes (place + 1) (last - (place + 1)) (tokens.drop (place + 1))
  else .ok []) >>= fun inner =>
    captureTypes (last + 1) (limit - (last - place)) (tokens.drop (last + 1)) >>= fun later =>
      .ok ((opening.name, tokens.extract place (last + 1)) :: (inner ++ later))

/-- The draft with the messages from a token on that opens one, if this one ends at a given
place. -/
def addUpTo (draft : SchemaDraft) (tokens : List Token) (place : Nat) (opening : Token)
    (last : Nat) : Except StoredError SchemaDraft :=
  match draft.addMessage opening.id.toInt64 (tokens.extract place (last + 1)) with
  | .error problem => .error (.malformed problem)
  | .ok extended => addStoredMessages extended (tokens.drop (last + 1))

/-- A construct whose end can be searched: both of its ends have one name, and it holds no construct
of its own component and name. -/
structure Searchable (opening : Token) (inner : List Token) (closing : Token) : Prop where
  named : closing.name = opening.name
  noneInside : ∀ token ∈ inner, token.signal = opening.signal → token.name ≠ opening.name

/-- A construct ends at one place, whichever way its end is found.  Its opening token is paired with
the token there.  That token is the first one behind with the closing signal and the name.  A type
is captured up to there, a header and a message are split off there, and the span of the opening
token is the number of tokens up to there, which is how far it reaches as long as that number fits
into a span. -/
structure EndsAt (tokens : List Token) (component : Component) (first : Nat) (opening : Token)
    (last : Nat) : Prop where
  paired : Paired tokens component first last
  next : nextNamed? tokens first component.closing opening.name = some last
  found : findEndSignal tokens first component.closing opening.name = last
  captured : component.isType = true → ∀ limit,
    captureTypes first (limit + 1) (tokens.drop first) =
      captureUpTo tokens first limit opening last
  header : component = .composite →
    splitHeader (tokens.drop first) = .ok (tokens.extract first (last + 1), tokens.drop (last + 1))
  message : component = .message → ∀ draft,
    addStoredMessages draft (tokens.drop first) = addUpTo draft tokens first opening last
  stored : opening.storedSpan = Int32.ofNat (last - first + 1)
  spanned : last - first + 1 < spanLimit → first + opening.span = last + 1 ∧
    construct opening (tokens.drop (first + 1)) = .ok (tokens.extract first (first + opening.span))

variable {tokens : List Token} {place : Nat} {opening : Token} {signal : Signal} {name : String}

/-! ### The search -/

theorem namedAt_iff {index : Nat} {token : Token} (isToken : tokens[index]? = some token) :
    NamedAt tokens signal name index ↔ Token.isNamed signal name token = true := by
  simp [NamedAt, isToken]

theorem nextNamed?_eq_some_iff {last : Nat} :
    nextNamed? tokens place signal name = some last ↔
      place < last ∧ NamedAt tokens signal name last ∧
        ∀ between, place < between → between < last → ¬ NamedAt tokens signal name between := by
  constructor
  · intro found
    obtain ⟨distance, isDistance, rfl⟩ := Option.map_eq_some_iff.mp found
    obtain ⟨inside, isNamed, notNamed⟩ := List.findIdx?_eq_some_iff_getElem.mp isDistance
    rw [List.length_drop] at inside
    refine ⟨by omega, ⟨_, List.getElem?_eq_getElem (by omega), ?_⟩, fun between behind before => ?_⟩
    · rwa [List.getElem_drop] at isNamed
    · obtain ⟨index, rfl⟩ := Nat.exists_eq_add_of_le (show place + 1 ≤ between by omega)
      have here := notNamed index (by omega)
      rwa [List.getElem_drop, ← namedAt_iff (List.getElem?_eq_getElem (by omega))] at here
  · rintro ⟨behind, ⟨token, isToken, isNamed⟩, notNamed⟩
    obtain ⟨distance, rfl⟩ := Nat.exists_eq_add_of_le (show place + 1 ≤ last by omega)
    obtain ⟨inside, rfl⟩ := List.getElem?_eq_some_iff.mp isToken
    refine Option.map_eq_some_iff.mpr ⟨distance, List.findIdx?_eq_some_iff_getElem.mpr ?_, rfl⟩
    refine ⟨by rw [List.length_drop]; omega, by rwa [List.getElem_drop], fun index before => ?_⟩
    rw [List.getElem_drop, ← namedAt_iff (List.getElem?_eq_getElem (by omega))]
    exact notNamed _ (by omega) (by omega)

theorem extract_eq_cons (isOpening : tokens[place]? = some opening) (distance : Nat) :
    tokens.extract place (place + 1 + distance + 1) =
      opening :: (tokens.drop (place + 1)).take (distance + 1) := by
  have count : place + 1 + distance + 1 - place = distance + 1 + 1 := by omega
  rw [List.extract_eq_take_drop, drop_eq_cons isOpening, count, List.take_succ_cons]

/-- Not looking at the last token makes no difference: where nothing is found, the last place is the
answer. -/
theorem findEndSignal_eq (notHere : ¬ NamedAt tokens signal name place) :
    findEndSignal tokens place signal name =
      (nextNamed? tokens place signal name).getD (tokens.length - 1) := by
  have searched : tokens.dropLast.drop place = (tokens.drop place).dropLast := by
    rw [List.dropLast_eq_take, List.drop_take, List.dropLast_eq_take, List.length_drop,
      Nat.sub_right_comm]
  rw [findEndSignal, nextNamed?, searched]
  cases isToken : tokens[place]? with
  | none =>
      have atEnd : tokens.length ≤ place := List.getElem?_eq_none_iff.mp isToken
      rw [List.drop_eq_nil_iff.mpr atEnd, List.drop_eq_nil_iff.mpr (Nat.le_succ_of_le atEnd)]
      rfl
  | some token =>
      have notNamed : Token.isNamed signal name token = false := by
        rwa [namedAt_iff isToken, Bool.not_eq_true] at notHere
      have whole := drop_eq_cons isToken
      have length := congrArg List.length whole
      rw [whole]
      rcases List.eq_nil_or_concat (tokens.drop (place + 1)) with nothing | ⟨front, final, isRest⟩
      · rw [nothing]
        rfl
      · rw [List.concat_eq_append] at isRest
        rw [isRest, List.length_drop, List.length_cons, List.length_append,
          List.length_singleton] at length
        rw [isRest, ← List.cons_append, List.dropLast_concat, List.findIdx?_cons, notNamed,
          List.findIdx?_append]
        cases found : front.findIdx? (Token.isNamed signal name) with
        | some distance =>
            simp only [Bool.false_eq_true, if_false, Option.map_some, Option.some_or,
              Option.getD_some]
            omega
        | none =>
            cases ends : Token.isNamed signal name final with
            | true =>
                simp [List.findIdx?_cons, ends]
                omega
            | false => simp [List.findIdx?_cons, ends]

/-- A type reaches to what the search finds. -/
theorem captureTypes_drop (isOpening : tokens[place]? = some opening) {closing : Signal}
    (opens : typeClosing? opening.signal = some closing) (limit : Nat) :
    captureTypes place (limit + 1) (tokens.drop place) =
      match nextNamed? tokens place closing opening.name with
      | none => .error (.missingEnd closing opening.name place)
      | some last => captureUpTo tokens place limit opening last := by
  rw [drop_eq_cons isOpening, nextNamed?]
  cases found : (tokens.drop (place + 1)).findIdx? (Token.isNamed closing opening.name) with
  | none =>
      rw [captureTypes.eq_def]
      simp only [opens, found, Option.map_none]
  | some distance =>
      have inside : place + 1 + distance - (place + 1) = distance := by omega
      have taken : place + 1 + distance - place = distance + 1 := by omega
      have behind : place + distance + 2 = place + 1 + distance + 1 := by omega
      rw [captureTypes_cons_of_some opens _ _ found, List.drop_drop, behind]
      simp only [captureUpTo, Option.map_some, inside, taken, extract_eq_cons isOpening,
        ← Nat.add_assoc]

/-- A header reaches to what the search finds. -/
theorem splitHeader_drop (isOpening : tokens[place]? = some opening)
    (opens : opening.signal = .beginComposite) :
    splitHeader (tokens.drop place) =
      match nextNamed? tokens place .endComposite opening.name with
      | none => .error .missingHeader
      | some last => .ok (tokens.extract place (last + 1), tokens.drop (last + 1)) := by
  rw [drop_eq_cons isOpening, nextNamed?]
  unfold splitHeader
  cases found : (tokens.drop (place + 1)).findIdx? (Token.isNamed .endComposite opening.name) with
  | none => simp only [if_pos opens, found, Option.map_none]
  | some distance =>
      simp only [if_pos opens, found, Option.map_some, extract_eq_cons isOpening,
        List.take_succ_cons, List.drop_succ_cons, List.drop_drop]
      rfl

/-- A message in front of the others reaches to what the search finds. -/
theorem addStoredMessages_drop (isOpening : tokens[place]? = some opening)
    (opens : opening.signal = .beginMessage) (draft : SchemaDraft) :
    addStoredMessages draft (tokens.drop place) =
      match nextNamed? tokens place .endMessage opening.name with
      | none => .error (.malformed (.unclosedBegin .beginMessage opening.name 0))
      | some last => addUpTo draft tokens place opening last := by
  have front : (tokens.drop place).dropWhile (·.signal ≠ .beginMessage) =
      opening :: tokens.drop (place + 1) := by
    rw [drop_eq_cons isOpening, List.dropWhile_cons_of_neg (by simp [opens])]
  have noneInFront : (tokens.drop place).takeWhile (·.signal ≠ .beginMessage) = [] := by
    rw [drop_eq_cons isOpening, List.takeWhile_cons_of_neg (by simp [opens])]
  rw [addStoredMessages, nextNamed?]
  split
  · rename_i nothing
    rw [front] at nothing
    cases nothing
  · rename_i first behind isFront
    rw [front] at isFront
    cases isFront
    cases found : (tokens.drop (place + 1)).findIdx? (Token.isNamed .endMessage opening.name) with
    | none => simp only [noneInFront, Option.map_none, List.length_nil]
    | some distance =>
        simp only [addUpTo, Option.map_some, extract_eq_cons isOpening, List.drop_drop]
        rfl

/-- The construct that a span shows. -/
theorem construct_drop (isOpening : tokens[place]? = some opening) :
    construct opening (tokens.drop (place + 1)) =
      if place + opening.span ≤ tokens.length ∧ 2 ≤ opening.span then
        .ok (tokens.extract place (place + opening.span))
      else .error (layoutError opening "a closed BEGIN/END construct") := by
  have inside := (List.getElem?_eq_some_iff.mp isOpening).1
  rw [construct, ← drop_eq_cons isOpening, List.extract_eq_take_drop,
    Nat.add_sub_cancel_left, List.length_take, List.length_drop]
  apply if_congr _ rfl rfl
  omega

/-! ### Constructs whose ends can be searched -/

theorem Nests.searchable_of_unspanned (nests : Nests Searchable tokens) :
    ∀ {others : List Token}, others.map Token.unspanned = tokens.map Token.unspanned →
      Nests Searchable others := by
  induction nests with
  | nil =>
      intro others same
      cases List.map_eq_nil_iff.mp same
      exact .nil
  | leaf isLeaf _ ih =>
      intro others same
      obtain ⟨other, rest, rfl, sameToken, sameRest⟩ := List.map_eq_cons_iff.mp same
      refine .leaf ?_ (ih sameRest)
      rwa [Token.IsLeaf, signal_of_unspanned sameToken]
  | construct opens closes fits _ _ ihInside ihLater =>
      intro others same
      obtain ⟨otherOpening, otherInner, otherClosing, otherRest, rfl, sameOpening, sameInner,
        sameClosing, sameRest⟩ := enclose_of_map_eq same
      rw [← signal_of_unspanned sameOpening] at opens
      rw [← signal_of_unspanned sameClosing] at closes
      refine .construct opens closes ⟨?_, fun token member => ?_⟩ (ihInside sameInner)
        (ihLater sameRest)
      · rw [name_of_unspanned sameClosing, name_of_unspanned sameOpening, fits.named]
      · have alike := List.mem_map_of_mem (f := Token.unspanned) member
        rw [sameInner] at alike
        obtain ⟨source, isSource, sameToken⟩ := List.mem_map.mp alike
        rw [← signal_of_unspanned sameToken, ← name_of_unspanned sameToken,
          signal_of_unspanned sameOpening, name_of_unspanned sameOpening]
        exact fits.noneInside source isSource

namespace ConstructAt

variable {component : Component} {first last : Nat} {inner : List Token} {closing : Token}

/-- The search comes to the end of a construct exactly if the construct holds none of its own
component and name. -/
theorem nextNamed?_iff (isAt : ConstructAt tokens component first last opening inner closing)
    (named : closing.name = opening.name)
    (inside : Nests (fun opening _ closing => closing.name = opening.name) inner) :
    nextNamed? tokens first component.closing opening.name = some last ↔
      ∀ token ∈ inner, token.signal = opening.signal → token.name ≠ opening.name := by
  have reach := isAt.reach
  rw [nextNamed?_eq_some_iff]
  constructor
  · rintro ⟨_, _, notBetween⟩ token member sameSignal sameName
    have opens := isAt.opens
    rw [← sameSignal] at opens
    obtain ⟨index, isToken⟩ := List.mem_iff_getElem?.mp member
    obtain ⟨_, ending, stop, isInside, sameEnds, _⟩ := inside.constructAt isToken opens
    -- the end of the construct inside is met first
    have before := isInside.last_lt
    have isEnding : tokens[first + 1 + stop]? = some ending := by
      rw [isAt.getElem?_inside before, isInside.getElem?_last]
    have closes := (Signal.closes?_eq_some_iff _ _).mp isInside.closes
    apply notBetween (first + 1 + stop) (by omega) (by omega)
    exact ⟨ending, isEnding, Token.isNamed_iff.mpr ⟨closes.symm, sameEnds.trans sameName⟩⟩
  · intro noneInside
    have opens := (Signal.opens?_eq_some_iff _ _).mp isAt.opens
    have closes := (Signal.closes?_eq_some_iff _ _).mp isAt.closes
    rw [← opens] at noneInside
    have notInside := inside.isNamed_eq_false (fun _ _ _ sameEnds => sameEnds) noneInside
    refine ⟨by omega, ⟨closing, isAt.getElem?_last, Token.isNamed_iff.mpr ⟨closes.symm, named⟩⟩,
      fun between behind before => ?_⟩
    obtain ⟨index, rfl⟩ := Nat.exists_eq_add_of_le (show first + 1 ≤ between by omega)
    rintro ⟨token, isToken, isNamed⟩
    rw [isAt.getElem?_inside (by omega)] at isToken
    rw [notInside token (List.mem_of_getElem? isToken)] at isNamed
    cases isNamed

/-- A composite within one of its own name: the search comes to the end of the inner one. -/
example : nextNamed? (around .composite "Price" (around .composite "Price" [])) 0 .endComposite
    "Price" = some 2 := by
  decide

/-- In a list that carries its own spans, the opening token of a construct has that of the
construct. -/
theorem withSpan_eq (isAt : ConstructAt tokens component first last opening inner closing)
    (inside : WellNested inner) (isMeasured : withSpans tokens = .ok tokens) :
    opening.withSpan (Int32.ofNat (last - first + 1)) = opening := by
  obtain ⟨noFault, isWritten⟩ := withSpans_eq_ok_iff.mp isMeasured
  have written := (Pairing.spansWritten noFault).written (isAt.paired inside) (.inl rfl)
  rw [isWritten, isAt.getElem?_first, Option.map_some, Option.some_inj] at written
  exact written.symm

/-- A construct whose end can be searched ends where its end is, in a list that carries its own
spans. -/
theorem endsAt (isAt : ConstructAt tokens component first last opening inner closing)
    (fits : Searchable opening inner closing) (inside : Nests Searchable inner)
    (isMeasured : withSpans tokens = .ok tokens) :
    EndsAt tokens component first opening last := by
  have reach := isAt.reach
  have isOpening := isAt.getElem?_first
  have opens := (Signal.opens?_eq_some_iff _ _).mp isAt.opens
  have next : nextNamed? tokens first component.closing opening.name = some last :=
    (isAt.nextNamed?_iff fits.named (inside.mono fun _ _ _ fits => fits.named)).mpr fits.noneInside
  have spanned := isAt.withSpan_eq inside.wellNested isMeasured
  refine ⟨isAt.paired inside.wellNested, next, ?_, ?_, ?_, ?_,
    (congrArg Token.storedSpan spanned).symm, fun countable => ?_⟩
  · rw [findEndSignal_eq, next, Option.getD_some]
    rw [namedAt_iff isOpening, Token.isNamed_iff, ← opens]
    cases component <;> rintro ⟨isClosing, _⟩ <;> cases isClosing
  · intro isType limit
    have closes := (Signal.closes?_eq_some_iff component.closing component).mpr rfl
    rw [captureTypes_drop isOpening (typeClosing?_of_opens? isAt.opens closes isType), next]
  · rintro rfl
    rw [Component.closing] at next
    rw [splitHeader_drop isOpening opens.symm, next]
  · rintro rfl draft
    rw [Component.closing] at next
    rw [addStoredMessages_drop isOpening opens.symm, next]
  · have span := span_withSpan (Nat.succ_pos (last - first)) countable opening
    rw [spanned] at span
    have before := isAt.last_lt
    exact ⟨by omega, by rw [construct_drop isOpening, if_pos (by omega)]⟩

end ConstructAt

/-- In a list of nested constructs, none of which holds one of its own component and name, the spans
can be measured, and then every opening token has one place where its construct ends. -/
theorem withSpans_endsAt (nests : Nests Searchable tokens) :
    ∃ measured, withSpans tokens = .ok measured ∧
      ∀ {component : Component} {first : Nat} {opening : Token},
        measured[first]? = some opening → opening.signal.opens? = some component →
          ∃ last, EndsAt measured component first opening last := by
  obtain ⟨measured, measures⟩ := nests.measuresTo
  have isMeasured := withSpans_of_measuresTo measures
  refine ⟨measured, isMeasured, fun {component first opening} isOpening opens => ?_⟩
  have searchable := nests.searchable_of_unspanned (unspanned_withSpans isMeasured)
  obtain ⟨inner, closing, last, isAt, fits, inside⟩ := searchable.constructAt isOpening opens
  exact ⟨last, isAt.endsAt fits inside (withSpans_of_measuresTo measures.again)⟩

/-- A composite that shares its name with other constructs. -/
def priceInCents : List Token :=
  around .composite "price" [{ signal := .encoding, name := "cents" }]

/-- A trade with fields and composites that share one name: a field around a composite of its name,
the composite in another field, and the field once more in a group within a group. -/
def sharedNames : List Token :=
  around .message "Trade"
    (around .field "price" priceInCents ++
      (around .field "total" priceInCents ++
        around .group "legs"
          (around .group "fills" (around .field "price" (around .enumeration "price" [])))))

theorem sharedNames_nests : Nests Searchable sharedNames := by
  have cents : Nests Searchable [{ signal := .encoding, name := "cents" }] := .leaves (by decide)
  have composite : Nests Searchable priceInCents :=
    cents.around .composite "price" ⟨rfl, by decide⟩
  have price := composite.around .field "price" ⟨rfl, by decide⟩
  have total := composite.around .field "total" ⟨rfl, by decide⟩
  have nothing : Nests Searchable [] := .nil
  have kind := nothing.around .enumeration "price" ⟨rfl, by decide⟩
  have again := kind.around .field "price" ⟨rfl, by decide⟩
  have fills := again.around .group "fills" ⟨rfl, by decide⟩
  have legs := fills.around .group "legs" ⟨rfl, by decide⟩
  exact (price.append (total.append legs)).around .message "Trade" ⟨rfl, by decide⟩

/-- The trade with its shared names. -/
theorem withSpans_endsAt_sharedNames :
    Nests Searchable sharedNames ∧ ∃ measured, withSpans sharedNames = .ok measured ∧
      ∀ {component : Component} {first : Nat} {opening : Token},
        measured[first]? = some opening → opening.signal.opens? = some component →
          ∃ last, EndsAt measured component first opening last :=
  ⟨sharedNames_nests, withSpans_endsAt sharedNames_nests⟩

end WireSchema
