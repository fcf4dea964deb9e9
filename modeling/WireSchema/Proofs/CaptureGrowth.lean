/-
Module: WireSchema.Proofs.CaptureGrowth
Purpose: A composite is searched up to the first closing token of its name, even where that token
  stands behind the end of the composite around it.  The search that has met the outer composite
  goes on at the end of that one, and meets once more what has been met from the inside.  So a type
  can be captured again and again, and the number of types can double with every two composites
  (`overlapping_doubles`).
Main exports: Captures, mostTypes, Untangled, typesOf_bounded, overlapping_doubles, typesOf_exceeds
-/
import Mathlib.Data.List.Forall2
import WireSchema.Proofs.AdditionOrder
import WireSchema.Proofs.CompleteCapture

namespace WireSchema

/-!
How many types there are at most is known for each number of opening tokens.  Where no composite
begins inside another one and ends behind it, every opening token stands for at most one type, and
the types are captured in the order of these tokens (`typesOf_bounded`).
-/

/-! ### What a search captures -/

/-- What a search among so many of the tokens from a place on captures. -/
inductive Captures : Nat → Nat → List Token → List (String × List Token) → Prop where
  | ended (place : Nat) (tokens : List Token) : Captures place 0 tokens []
  | nil (place limit : Nat) : Captures place limit [] []
  | pass {place limit : Nat} {token : Token} {rest : List Token}
      {types : List (String × List Token)} (noType : typeClosing? token.signal = none)
      (later : Captures (place + 1) limit rest types) :
      Captures place (limit + 1) (token :: rest) types
  | type {place limit distance : Nat} {token : Token} {rest : List Token} {closing : Signal}
      {inner later : List (String × List Token)} (opens : typeClosing? token.signal = some closing)
      (found : rest.findIdx? (Token.isNamed closing token.name) = some distance)
      (searched : token.signal = .beginComposite → Captures (place + 1) distance rest inner)
      (skipped : token.signal ≠ .beginComposite → inner = [])
      (behind : Captures (place + distance + 2) (limit - (distance + 1))
        (rest.drop (distance + 1)) later) :
      Captures place (limit + 1) (token :: rest)
        ((token.name, token :: rest.take (distance + 1)) :: (inner ++ later))

theorem captures_of_captureTypes {place limit : Nat} {tokens : List Token}
    {types : List (String × List Token)}
    (accepted : captureTypes place limit tokens = .ok types) :
    Captures place limit tokens types := by
  fun_induction captureTypes place limit tokens generalizing types with
  | case1 place tokens =>
      cases accepted
      exact .ended place tokens
  | case2 place limit =>
      cases accepted
      exact .nil place limit
  | case3 place limit token rest noType ih => exact .pass noType (ih accepted)
  | case4 => cases accepted
  | case5 place limit token rest closing opens distance found _ isComposite ihLater =>
      rename_i ihInner
      obtain ⟨inner, isInner, accepted⟩ := ok_of_bind accepted
      obtain ⟨later, isLater, accepted⟩ := ok_of_bind accepted
      cases accepted
      exact .type opens found (fun _ => ihInner isInner) (fun other => absurd isComposite other)
        (ihLater isLater)
  | case6 place limit token rest closing opens distance found _ other =>
      rename_i ihLater
      obtain ⟨inner, isInner, accepted⟩ := ok_of_bind accepted
      cases isInner
      obtain ⟨later, isLater, accepted⟩ := ok_of_bind accepted
      cases accepted
      exact .type opens found (fun isComposite => absurd isComposite other) (fun _ => rfl)
        (ihLater isLater)

/-! ### The most types -/

/-- The most types that can be captured where so many tokens open one. -/
def mostTypes : Nat → Nat
  | 0 => 0
  | 1 => 1
  | openings + 2 => 2 * mostTypes openings + 2

/-- Two more opening tokens allow for twice the types. -/
theorem mostTypes_two_mul (pairs : Nat) : mostTypes (2 * pairs) + 2 = 2 ^ (pairs + 1) := by
  induction pairs with
  | zero => rfl
  | succ pairs ih =>
      rw [Nat.mul_succ, mostTypes, Nat.pow_succ, ← ih]
      omega

theorem mostTypes_lt_succ : ∀ openings, mostTypes openings + 1 ≤ mostTypes (openings + 1)
  | 0 => by decide
  | 1 => by decide
  | openings + 2 => by
      have earlier := mostTypes_lt_succ openings
      rw [mostTypes, mostTypes]
      omega

theorem mostTypes_mono {fewer more : Nat} (fewerOrSame : fewer ≤ more) :
    mostTypes fewer ≤ mostTypes more :=
  monotone_nat_of_le_succ (fun openings => by
    have := mostTypes_lt_succ openings
    omega) fewerOrSame

theorem mostTypes_growth : ∀ openings,
    2 * mostTypes (openings + 1) ≤ 3 * mostTypes openings + 2
  | 0 => by decide
  | 1 => by decide
  | openings + 2 => by
      have earlier := mostTypes_growth openings
      rw [mostTypes, mostTypes]
      omega

/-- The more opening tokens there are, the more types one more of them allows for. -/
theorem mostTypes_convex {fewer more : Nat} (fewerOrSame : fewer ≤ more) :
    mostTypes (fewer + 1) + mostTypes more ≤ mostTypes (more + 1) + mostTypes fewer := by
  induction more, fewerOrSame using Nat.le_induction with
  | base => exact Nat.le_refl _
  | succ more _ ih =>
      have growth := mostTypes_growth more
      rw [mostTypes]
      omega

/-- A type with so many types inside and behind it, where `all` tokens behind its first one open
types, `after` of them behind its end, and `beyond` behind the end of the search. -/
theorem mostTypes_type {inner later all after beyond : Nat} (afterLe : after ≤ all)
    (beyondLe : beyond ≤ all)
    (ofInner : inner = 0 ∨
      after + 1 ≤ all ∧ inner + mostTypes (after + 1) ≤ mostTypes all + mostTypes after + 1)
    (ofLater : later = 0 ∨
      later + mostTypes (beyond + 1) ≤ mostTypes after + mostTypes beyond + 1) :
    inner + later + 1 + mostTypes (beyond + 1) ≤ mostTypes (all + 1) + mostTypes beyond + 1 := by
  have convexBeyond := mostTypes_convex beyondLe
  have more := mostTypes_lt_succ all
  have moreAfter := mostTypes_lt_succ after
  have monoAfter := mostTypes_mono afterLe
  rcases ofInner with rfl | ⟨fewer, ofInner⟩
  · rcases ofLater with rfl | ofLater
    · have monoBeyond : mostTypes (beyond + 1) ≤ mostTypes (all + 1) := mostTypes_mono (by omega)
      omega
    · omega
  · rcases ofLater with rfl | ofLater
    · omega
    · -- The tokens behind the end are searched from the inside as well as from the outside.
      have convexAfter := mostTypes_convex fewer
      rw [mostTypes] at convexAfter
      omega

/-! ### Searches in numbers -/

theorem opensType_of_typeClosing? {token : Token} {closing : Signal}
    (opens : typeClosing? token.signal = some closing) : token.opensType = true := by
  cases isType : token.opensType with
  | true => rfl
  | false =>
      rw [typeClosing?_eq_none_iff.mpr isType] at opens
      cases opens

/-- Where no token opens a type, nothing is captured. -/
theorem Captures.eq_nil {place limit : Nat} {tokens : List Token}
    {types : List (String × List Token)} (captures : Captures place limit tokens types)
    (noType : (tokens.take limit).countP Token.opensType = 0) : types = [] := by
  induction captures with
  | ended | nil => rfl
  | pass _ _ ih =>
      rw [List.take_succ_cons, List.countP_cons] at noType
      exact ih (Nat.eq_zero_of_add_eq_zero_right noType)
  | type opens _ _ _ _ _ _ =>
      rw [List.take_succ_cons, List.countP_cons_of_pos (opensType_of_typeClosing? opens)] at noType
      cases noType

/-- The token that closes a type opens none. -/
theorem countP_drop_closing {rest : List Token} {closing : Signal} {opening : Token}
    {distance : Nat} (opens : typeClosing? opening.signal = some closing)
    (found : rest.findIdx? (Token.isNamed closing opening.name) = some distance) :
    (rest.drop distance).countP Token.opensType =
      (rest.drop (distance + 1)).countP Token.opensType := by
  obtain ⟨inside, named, -⟩ := List.findIdx?_eq_some_iff_getElem.mp found
  have noType : rest[distance].opensType = false := by
    rw [Token.opensType, (Token.isNamed_iff.mp named).1]
    revert opens
    cases opening.signal <;> rintro ⟨⟩ <;> rfl
  rw [List.drop_eq_getElem_cons inside, List.countP_cons_of_neg (by rw [noType]; decide)]

/-- A search captures no more than `mostTypes` allows for, less what the opening tokens behind its
own ones will allow for themselves. -/
theorem Captures.length_le {place limit : Nat} {tokens : List Token}
    {types : List (String × List Token)} (captures : Captures place limit tokens types) :
    types.length + mostTypes ((tokens.drop limit).countP Token.opensType + 1) ≤
      mostTypes (tokens.countP Token.opensType) +
        mostTypes ((tokens.drop limit).countP Token.opensType) + 1 := by
  induction captures with
  | ended place tokens =>
      have growth := mostTypes_growth (tokens.countP Token.opensType)
      rw [List.drop_zero, List.length_nil]
      omega
  | nil place limit =>
      rw [List.drop_nil, List.length_nil]
      decide
  | @pass place limit token rest types noType _ ih =>
      rw [List.drop_succ_cons, List.countP_cons_of_neg]
      · exact ih
      · rw [typeClosing?_eq_none_iff.mp noType]
        decide
  | @type place limit distance token rest closing inner later opens found searched skipped behind
      ihInside ihBehind =>
      rw [List.drop_succ_cons, List.countP_cons_of_pos (opensType_of_typeClosing? opens),
        List.length_cons, List.length_append]
      have parts : (rest.take distance).countP Token.opensType +
          (rest.drop (distance + 1)).countP Token.opensType = rest.countP Token.opensType := by
        rw [← countP_drop_closing opens found, ← List.countP_append, List.take_append_drop]
      have beyondLe : (rest.drop limit).countP Token.opensType ≤ rest.countP Token.opensType :=
        (rest.drop_sublist limit).countP_le
      refine mostTypes_type (Nat.le_of_add_left_le (Nat.le_of_eq parts)) beyondLe ?inner ?later
      case inner =>
        by_cases isComposite : token.signal = .beginComposite
        · have ofInner := ihInside isComposite
          rw [countP_drop_closing opens found] at ofInner
          -- Whatever is found inside, its first type begins in front of the end.
          by_cases noType : (rest.take distance).countP Token.opensType = 0
          · rw [(searched isComposite).eq_nil noType]
            exact .inl rfl
          · exact .inr ⟨by omega, ofInner⟩
        · rw [skipped isComposite]
          exact .inl rfl
      case later =>
        by_cases inReach : distance + 1 ≤ limit
        · rw [List.drop_drop, Nat.add_sub_cancel' inReach] at ihBehind
          exact .inr ihBehind
        · -- The type ends behind the search, which goes on no further.
          rw [Nat.sub_eq_zero_of_le (by omega)] at behind
          rw [behind.eq_nil (by rw [List.take_zero]; rfl)]
          exact .inl rfl

/-! ### Where types begin -/

/-- A type that begins at a place: it has the name of the token there, and its tokens reach to the
first one that closes it. -/
def TypeAt (tokens : List Token) (place : Nat) (type : String × List Token) : Prop :=
  ∃ opening rest closing distance, tokens.drop place = opening :: rest ∧
    typeClosing? opening.signal = some closing ∧
    rest.findIdx? (Token.isNamed closing opening.name) = some distance ∧
    type = (opening.name, opening :: rest.take (distance + 1))

/-- The place up to which a composite is searched, for the place where it begins. -/
def compositeEnd? (tokens : List Token) (place : Nat) : Option Nat :=
  match tokens.drop place with
  | [] => none
  | opening :: rest =>
    if opening.signal = .beginComposite then
      (rest.findIdx? (Token.isNamed .endComposite opening.name)).map (place + 1 + ·)
    else none

/-- No composite begins inside another one and ends behind it. -/
def Untangled (tokens : List Token) : Prop :=
  ∀ outer < tokens.length, ∀ inner < tokens.length,
    ∀ outerEnd ∈ compositeEnd? tokens outer, ∀ innerEnd ∈ compositeEnd? tokens inner,
      outer < inner → inner < outerEnd → innerEnd ≤ outerEnd

instance : DecidablePred Untangled := fun tokens =>
  inferInstanceAs (Decidable (∀ outer < tokens.length, ∀ inner < tokens.length,
    ∀ outerEnd ∈ compositeEnd? tokens outer, ∀ innerEnd ∈ compositeEnd? tokens inner,
      outer < inner → inner < outerEnd → innerEnd ≤ outerEnd))

theorem compositeEnd?_lt {tokens : List Token} {place last : Nat}
    (ends : compositeEnd? tokens place = some last) :
    place < tokens.length ∧ last < tokens.length := by
  rw [compositeEnd?] at ends
  cases parts : tokens.drop place with
  | nil => simp [parts] at ends
  | cons opening rest =>
      have total := congrArg List.length parts
      rw [List.length_drop, List.length_cons] at total
      simp only [parts] at ends
      split at ends
      · obtain ⟨distance, found, rfl⟩ := Option.map_eq_some_iff.mp ends
        obtain ⟨inside, -⟩ := List.findIdx?_eq_some_iff_getElem.mp found
        omega
      · cases ends

theorem compositeEnd?_of_drop {tokens rest : List Token} {opening : Token} {place distance : Nat}
    (isRest : tokens.drop place = opening :: rest) (isComposite : opening.signal = .beginComposite)
    (found : rest.findIdx? (Token.isNamed .endComposite opening.name) = some distance) :
    compositeEnd? tokens place = some (place + 1 + distance) := by
  rw [compositeEnd?, isRest]
  simp only [if_pos isComposite, found, Option.map_some]

/-- Every type that is captured begins somewhere. -/
theorem Captures.exists_places {whole : List Token} {place limit : Nat} {tokens : List Token}
    {types : List (String × List Token)} (captures : Captures place limit tokens types)
    (isRest : whole.drop place = tokens) :
    ∃ places, List.Forall₂ (TypeAt whole) places types := by
  induction captures with
  | ended | nil => exact ⟨[], .nil⟩
  | @pass place limit token rest types _ _ ih =>
      exact ih (by rw [← List.drop_drop, isRest]; rfl)
  | @type place limit distance token rest closing inner later opens found _ skipped _ ihInside
      ihBehind =>
      obtain ⟨innerPlaces, ofInner⟩ : ∃ places, List.Forall₂ (TypeAt whole) places inner := by
        by_cases isComposite : token.signal = .beginComposite
        · exact ihInside isComposite (by rw [← List.drop_drop, isRest]; rfl)
        · rw [skipped isComposite]
          exact ⟨[], .nil⟩
      obtain ⟨laterPlaces, ofLater⟩ := ihBehind (by
        rw [Nat.add_assoc, ← List.drop_drop, isRest]
        rfl)
      exact ⟨place :: (innerPlaces ++ laterPlaces),
        .cons ⟨token, rest, closing, distance, isRest, opens, found, rfl⟩
          (List.rel_append ofInner ofLater)⟩

/-- A search that no composite leaves captures types at places one behind another. -/
theorem Captures.exists_increasing {whole : List Token} (untangled : Untangled whole)
    {place limit : Nat} {tokens : List Token} {types : List (String × List Token)}
    (captures : Captures place limit tokens types) (isRest : whole.drop place = tokens)
    (inside : ∀ inner, place ≤ inner → inner < place + limit →
      ∀ innerEnd ∈ compositeEnd? whole inner, innerEnd ≤ place + limit) :
    ∃ places, places.Pairwise (· < ·) ∧ (∀ found ∈ places, place ≤ found ∧ found < place + limit) ∧
      List.Forall₂ (TypeAt whole) places types := by
  induction captures with
  | ended | nil => exact ⟨[], .nil, nofun, .nil⟩
  | @pass place limit token rest types _ _ ih =>
      obtain ⟨places, increasing, bounds, ofTypes⟩ := ih
        (by rw [← List.drop_drop, isRest]; rfl)
        (fun inner least most innerEnd isEnd =>
          (inside inner (by omega) (by omega) innerEnd isEnd).trans (by omega))
      refine ⟨places, increasing, fun found member => ?_, ofTypes⟩
      have := bounds found member
      omega
  | @type place limit distance token rest closing inner later opens found searched skipped behind
      ihInside ihBehind =>
      have behindIsRest : whole.drop (place + distance + 2) = rest.drop (distance + 1) := by
        rw [Nat.add_assoc, ← List.drop_drop, isRest]
        rfl
      obtain ⟨innerPlaces, innerIncreasing, innerBounds, ofInner⟩ :
          ∃ places, places.Pairwise (· < ·) ∧
            (∀ found ∈ places, place + 1 ≤ found ∧ found < place + 1 + distance ∧
              found < place + (limit + 1)) ∧
            List.Forall₂ (TypeAt whole) places inner := by
        by_cases isComposite : token.signal = .beginComposite
        · have isClosing : closing = .endComposite := by
            rw [isComposite] at opens
            exact (Option.some.inj opens).symm
          rw [isClosing] at found
          have isEnd := compositeEnd?_of_drop isRest isComposite found
          have here := inside place (Nat.le_refl _) (by omega) _ isEnd
          -- No composite inside reaches behind the end of this one.
          obtain ⟨places, increasing, bounds, ofTypes⟩ := ihInside isComposite
            (by rw [← List.drop_drop, isRest]; rfl)
            (fun inner least most innerEnd isInnerEnd =>
              untangled place (compositeEnd?_lt isEnd).1 inner (compositeEnd?_lt isInnerEnd).1 _
                isEnd _ isInnerEnd (by omega) most)
          refine ⟨places, increasing, fun found member => ?_, ofTypes⟩
          have := bounds found member
          omega
        · rw [skipped isComposite]
          exact ⟨[], .nil, nofun, .nil⟩
      obtain ⟨laterPlaces, laterIncreasing, laterBounds, ofLater⟩ := ihBehind behindIsRest
        (fun inner least most innerEnd isEnd =>
          (inside inner (by omega) (by omega) innerEnd isEnd).trans (by omega))
      refine ⟨place :: (innerPlaces ++ laterPlaces), ?increasing, ?bounds,
        .cons ⟨token, rest, closing, distance, isRest, opens, found, rfl⟩
          (List.rel_append ofInner ofLater)⟩
      case increasing =>
        rw [List.pairwise_cons, List.pairwise_append]
        refine ⟨fun later member => ?_, innerIncreasing, laterIncreasing,
          fun one member other otherMember => ?_⟩
        · rcases List.mem_append.mp member with isInner | isLater
          · exact (innerBounds later isInner).1
          · have := laterBounds later isLater
            omega
        · have := innerBounds one member
          have := laterBounds other otherMember
          omega
      case bounds =>
        rw [List.forall_mem_cons, List.forall_mem_append]
        refine ⟨by omega, fun one member => ?_, fun one member => ?_⟩
        · have := innerBounds one member
          omega
        · have := laterBounds one member
          omega

theorem TypeAt.mem_typePlaces {tokens : List Token} {place : Nat} {type : String × List Token}
    (isAt : TypeAt tokens place type) : place ∈ typePlaces tokens := by
  obtain ⟨opening, rest, closing, distance, parts, opens, -, -⟩ := isAt
  have isOpening : tokens[place]? = some opening := by
    rw [← List.head?_drop, parts, List.head?_cons]
  rw [typePlaces, List.mem_filter, List.mem_range]
  refine ⟨(List.getElem?_eq_some_iff.mp isOpening).1, ?_⟩
  rw [isOpening, Option.any_some, opensType_of_typeClosing? opens]

theorem length_typePlaces (tokens : List Token) :
    (typePlaces tokens).length = tokens.countP Token.opensType := by
  induction tokens with
  | nil => rfl
  | cons token rest ih =>
      rw [typePlaces_cons, List.length_append, List.length_map, ih, List.countP_cons, Nat.add_comm]
      cases token.opensType <;> rfl

/-- Types at different places are no more than there are tokens to open them. -/
theorem length_le_of_increasing {tokens : List Token} {places : List Nat}
    {types : List (String × List Token)} (increasing : places.Pairwise (· < ·))
    (ofTypes : List.Forall₂ (TypeAt tokens) places types) :
    types.length ≤ tokens.countP Token.opensType := by
  have contained : places ⊆ typePlaces tokens := by
    intro place member
    obtain ⟨index, inside, rfl⟩ := List.getElem_of_mem member
    have isAt := List.forall₂_iff_get.mp ofTypes
    exact (isAt.2 index inside (isAt.1 ▸ inside)).mem_typePlaces
  have distinct : places.Nodup := increasing.imp Nat.ne_of_lt
  rw [← ofTypes.length_eq, ← length_typePlaces]
  exact (distinct.subperm contained).length_le

/-! ### Composites that overlap -/

/-- Of two composites that overlap, each one is captured once, and what stands between their ends
twice: the search inside the second one meets it, and so does the search behind the first one. -/
theorem CapturesTo.crossed {first second firstEnd secondEnd : Token} {inner : List Token}
    {types : List (String × List Token)} (firstOpens : first.signal = .beginComposite)
    (secondOpens : second.signal = .beginComposite) (firstCloses : firstEnd.signal = .endComposite)
    (secondCloses : secondEnd.signal = .endComposite) (firstNamed : firstEnd.name = first.name)
    (secondNamed : secondEnd.name = second.name) (different : first.name ≠ second.name)
    (unambiguous : ∀ token ∈ inner, Token.isNamed .endComposite second.name token = false)
    (captures : CapturesTo inner types) :
    CapturesTo (first :: second :: firstEnd :: (inner ++ [secondEnd]))
      ((first.name, [first, second, firstEnd]) ::
        (second.name, second :: firstEnd :: (inner ++ [secondEnd])) :: (types ++ types)) := by
  intro index extra suffix
  have opensFirst : typeClosing? first.signal = some .endComposite := by rw [firstOpens]; rfl
  have opensSecond : typeClosing? second.signal = some .endComposite := by rw [secondOpens]; rfl
  have passesFirst : typeClosing? firstEnd.signal = none := by rw [firstCloses]; rfl
  have passesSecond : typeClosing? secondEnd.signal = none := by rw [secondCloses]; rfl
  have foundFirst : (second :: firstEnd :: (inner ++ secondEnd :: suffix)).findIdx?
      (Token.isNamed .endComposite first.name) = some 1 := by
    simp [List.findIdx?_cons, Token.isNamed, secondOpens, firstCloses, firstNamed]
  have foundSecond : (firstEnd :: (inner ++ secondEnd :: suffix)).findIdx?
      (Token.isNamed .endComposite second.name) = some (inner.length + 1) := by
    have behind := findIdx?_isNamed unambiguous
      (Token.isNamed_iff.mpr ⟨secondCloses, secondNamed⟩) suffix
    rw [List.findIdx?_cons, behind]
    simp [Token.isNamed, firstNamed, different]
  have taken : (inner ++ secondEnd :: suffix).take (inner.length + 1) = inner ++ [secondEnd] := by
    rw [List.take_length_add_append]
    rfl
  have searched : captureTypes (index + 1) 1
      (second :: firstEnd :: (inner ++ secondEnd :: suffix)) =
        .ok ((second.name, second :: firstEnd :: (inner ++ [secondEnd])) :: types) := by
    have inside : captureTypes (index + 3) inner.length (inner ++ secondEnd :: suffix) =
        .ok (types ++ []) := by
      have found := captures (index + 3) 0 (secondEnd :: suffix)
      rwa [captureTypes_zero] at found
    rw [captureTypes_cons_of_some opensSecond _ _ foundSecond, if_pos secondOpens,
      captureTypes_cons_of_none passesFirst, inside, Nat.zero_sub, captureTypes_zero,
      List.take_succ_cons, taken]
    simp [bind, Except.bind]
  have behind : captureTypes (index + 3) (inner.length + (extra + 1))
      (inner ++ secondEnd :: suffix) =
        (captureTypes (index + 3 + inner.length + 1) extra suffix).map (types ++ ·) := by
    rw [captures, captureTypes_cons_of_none passesSecond]
  have regroup : first :: second :: firstEnd :: (inner ++ [secondEnd]) ++ suffix =
      first :: second :: firstEnd :: (inner ++ secondEnd :: suffix) := by
    simp
  have count : (first :: second :: firstEnd :: (inner ++ [secondEnd])).length + extra =
      inner.length + (extra + 1) + 2 + 1 := by
    simp only [List.length_cons, List.length_append, List.length_nil]
    omega
  have position : index + (first :: second :: firstEnd :: (inner ++ [secondEnd])).length =
      index + 3 + inner.length + 1 := by
    simp only [List.length_cons, List.length_append, List.length_nil]
    omega
  rw [regroup, count, captureTypes_cons_of_some opensFirst _ _ foundFirst, if_pos firstOpens,
    searched, position]
  change (captureTypes (index + 3) (inner.length + (extra + 1)) (inner ++ secondEnd :: suffix) >>=
    fun later => _) = _
  rw [behind]
  cases captureTypes (index + 3 + inner.length + 1) extra suffix with
  | error problem => rfl
  | ok later => simp [Except.map, bind, Except.bind]

/-- A name for each number. -/
def strokes (count : Nat) : String :=
  String.ofList (List.replicate count '|')

theorem strokes_inj {one other : Nat} (same : strokes one = strokes other) : one = other := by
  have lengths := congrArg (fun name : String => name.toList.length) same
  simpa [strokes] using lengths

/-- Composites of which each second one begins inside the one before it and ends behind all others.
-/
def overlapping : Nat → List Token
  | 0 => []
  | 1 => [opening 1, closing 1]
  | count + 2 =>
    opening (count + 2) :: opening (count + 1) :: closing (count + 2) ::
      (overlapping count ++ [closing (count + 1)])
where
  opening (number : Nat) : Token := { signal := .beginComposite, name := strokes number }
  closing (number : Nat) : Token := { signal := .endComposite, name := strokes number }

theorem length_overlapping : ∀ count, (overlapping count).length = 2 * count
  | 0 => rfl
  | 1 => rfl
  | count + 2 => by
      rw [overlapping]
      simp only [List.length_cons, List.length_append, List.length_nil, length_overlapping count]
      omega

theorem countP_overlapping : ∀ count, (overlapping count).countP Token.opensType = count
  | 0 => rfl
  | 1 => rfl
  | count + 2 => by
      rw [overlapping]
      simp only [List.countP_cons, List.countP_append, List.countP_nil, countP_overlapping count]
      rfl

theorem name_of_mem_overlapping : ∀ {count : Nat} {token : Token}, token ∈ overlapping count →
    ∃ number, number ≤ count ∧ token.name = strokes number
  | 0, _, member => nomatch member
  | 1, token, member => by
      simp only [overlapping, List.mem_cons, List.not_mem_nil, or_false] at member
      rcases member with rfl | rfl
      · exact ⟨1, Nat.le_refl 1, rfl⟩
      · exact ⟨1, Nat.le_refl 1, rfl⟩
  | count + 2, token, member => by
      simp only [overlapping, List.mem_cons, List.mem_append, List.not_mem_nil, or_false] at member
      rcases member with rfl | rfl | rfl | isInner | rfl
      · exact ⟨count + 2, Nat.le_refl _, rfl⟩
      · exact ⟨count + 1, Nat.le_succ _, rfl⟩
      · exact ⟨count + 2, Nat.le_refl _, rfl⟩
      · obtain ⟨number, small, isName⟩ := name_of_mem_overlapping isInner
        exact ⟨number, by omega, isName⟩
      · exact ⟨count + 1, Nat.le_succ _, rfl⟩

/-- None of them closes a composite of a later number. -/
theorem isNamed_of_mem_overlapping {count number : Nat} (later : count < number) {token : Token}
    (member : token ∈ overlapping count) :
    Token.isNamed .endComposite (strokes number) token = false := by
  obtain ⟨own, small, isName⟩ := name_of_mem_overlapping member
  have other : token.name ≠ strokes number := by
    rw [isName]
    intro same
    have := strokes_inj same
    omega
  rw [Token.isNamed, beq_false_of_ne other, Bool.and_false]

/-- They hold as many types as can be. -/
theorem overlapping_capturesTo : ∀ count,
    ∃ types, CapturesTo (overlapping count) types ∧ types.length = mostTypes count
  | 0 => ⟨[], .nil, rfl⟩
  | 1 => by
      have captures : CapturesTo (enclose (overlapping.opening 1) [] (overlapping.closing 1))
          [(strokes 1, enclose (overlapping.opening 1) [] (overlapping.closing 1))] :=
        .type rfl rfl (fun _ member => nomatch member) (fun _ => .nil) (fun _ => rfl)
      exact ⟨_, captures, rfl⟩
  | count + 2 => by
      obtain ⟨types, captures, isLength⟩ := overlapping_capturesTo count
      have different : strokes (count + 2) ≠ strokes (count + 1) := by
        intro same
        have := strokes_inj same
        omega
      refine ⟨_, captures.crossed rfl rfl rfl rfl rfl rfl different
        (fun token => isNamed_of_mem_overlapping (Nat.lt_succ_self count)), ?_⟩
      rw [List.length_cons, List.length_cons, List.length_append, isLength, mostTypes]
      omega

/-! ### All types of a list of tokens -/

theorem exists_typesOf_overlapping (count : Nat) :
    ∃ types, typesOf (overlapping count) = .ok types ∧ types.length = mostTypes count := by
  obtain ⟨types, captures, isLength⟩ := overlapping_capturesTo count
  exact ⟨types, captures.alone, isLength⟩

/-- Four more tokens, two more composites, and twice the types. -/
theorem overlapping_doubles (pairs : Nat) :
    (overlapping (2 * pairs)).length = 4 * pairs ∧
      ∃ types, typesOf (overlapping (2 * pairs)) = .ok types ∧
        types.length + 2 = 2 ^ (pairs + 1) := by
  obtain ⟨types, accepted, isLength⟩ := exists_typesOf_overlapping (2 * pairs)
  refine ⟨?_, types, accepted, ?_⟩
  · rw [length_overlapping]
    omega
  · rw [isLength, mostTypes_two_mul]

/-- However tokens stand, their types are no more than `mostTypes` allows for as many opening
tokens, and each of them begins somewhere.  Nothing better can be said from the number of opening
tokens alone: as many of them, with as many tokens to close them, can lead to just so many types.
But where no composite begins inside another one and ends behind it, the types begin one behind
another, so that an opening token stands for one type at most. -/
theorem typesOf_bounded {tokens : List Token} {types : List (String × List Token)}
    (accepted : typesOf tokens = .ok types) :
    let openings := tokens.countP Token.opensType
    types.length ≤ mostTypes openings ∧
      (∃ places, List.Forall₂ (TypeAt tokens) places types) ∧
      (∃ others found, others.length = 2 * openings ∧
        others.countP Token.opensType = openings ∧ typesOf others = .ok found ∧
        found.length = mostTypes openings) ∧
      (Untangled tokens → types.length ≤ openings ∧
        ∃ places, places.Pairwise (· < ·) ∧ List.Forall₂ (TypeAt tokens) places types) := by
  intro openings
  have captures : Captures 0 tokens.length tokens types := captures_of_captureTypes accepted
  refine ⟨?most, captures.exists_places rfl, ?attained, fun untangled => ?untangled⟩
  case most =>
    have bound := captures.length_le
    rw [List.drop_length, List.countP_nil, mostTypes, mostTypes] at bound
    exact Nat.le_of_succ_le_succ bound
  case attained =>
    obtain ⟨found, isFound, isLength⟩ := exists_typesOf_overlapping openings
    exact ⟨overlapping openings, found, length_overlapping openings, countP_overlapping openings,
      isFound, isLength⟩
  case untangled =>
    obtain ⟨places, increasing, -, ofTypes⟩ := captures.exists_increasing untangled rfl
      (fun inner _ _ innerEnd isEnd => by
        have := (compositeEnd?_lt isEnd).2
        omega)
    exact ⟨length_le_of_increasing increasing ofTypes, places, increasing, ofTypes⟩

/-- A box with a lid and a colour in it: three types for three tokens that open one. -/
theorem typesOf_bounded_nested :
    let tokens : List Token :=
      [{ signal := .beginComposite, name := "Box" }, { signal := .beginComposite, name := "Lid" },
        { signal := .endComposite, name := "Lid" }, { signal := .beginEnum, name := "Colour" },
        { signal := .endEnum, name := "Colour" }, { signal := .endComposite, name := "Box" }]
    ∃ types, typesOf tokens = .ok types ∧ types.map Prod.fst = ["Box", "Lid", "Colour"] ∧
      Untangled tokens ∧ types.length ≤ tokens.countP Token.opensType ∧
      ∃ places, places.Pairwise (· < ·) ∧ List.Forall₂ (TypeAt tokens) places types := by
  intro tokens
  have succeeds : (typesOf tokens).toOption.isSome = true := by decide +kernel
  obtain ⟨types, accepted⟩ := exists_ok_of_isSome succeeds
  have names : (typesOf tokens).toOption.map (·.map Prod.fst) = some ["Box", "Lid", "Colour"] := by
    decide +kernel
  rw [accepted] at names
  have untangled : Untangled tokens := by decide +kernel
  obtain ⟨bound, increasing⟩ := (typesOf_bounded accepted).2.2.2 untangled
  exact ⟨types, accepted, Option.some.inj names, untangled, bound, increasing⟩

/-- Two composites that cross, with a gauge in the part that the first one does not reach. -/
def crossedGauge : List Token :=
  [{ signal := .beginMessage, name := "Gauges" }, { signal := .beginComposite, name := "a" },
    { signal := .endComposite, name := "q" }, { signal := .beginComposite, name := "b" },
    { signal := .endComposite, name := "a" }, { signal := .beginComposite, name := "Gauge" },
    { signal := .encoding, name := "value", encodedLength := 8,
      encoding :=
        { primitiveType := some .double, presence := .optional,
          nullValue := some (.float Binary64.nan) } },
    { signal := .endComposite, name := "Gauge" }, { signal := .beginEnum, name := "F" },
    { signal := .beginComposite, name := "c" }, { signal := .endEnum, name := "G" },
    { signal := .endComposite, name := "b" }, { signal := .beginEnum, name := "H" },
    { signal := .endEnum, name := "F" }, { signal := .endMessage, name := "Gauges" }]

/-- Twelve tokens hold fourteen types.  A gauge that stands in a message once is found twice, and is
in conflict with itself where no two definitions may differ. -/
theorem typesOf_exceeds :
    (overlapping 6).length = 12 ∧ (typesOf (overlapping 6)).toOption.map List.length = some 14 ∧
      (typesOf crossedGauge).toOption.map (·.map Prod.fst) =
        some ["a", "b", "Gauge", "F", "Gauge", "F"] ∧
      (match strictDraft.addMessage 1 crossedGauge with
        | .ok _ => none
        | .error problem => some problem) = some (.conflictingType "Gauge") := by
  decide +kernel

end WireSchema
