/-
Module: WireSchema.Proofs.CompatibleTypes
Purpose: Two types under one name are compatible if their layouts are the same or if one of them is
  an enum that was reduced to one value.  The comparison of layouts is symmetric and transitive, but
  not reflexive: a value that is not a number differs from itself.  Types that were compatible once
  are so again after they were stored and read back (`Compatible.recaptured`).
Main exports: LayoutAgrees, Compatible, Compatible.symm, Compatible.recaptured
-/
import WireSchema.Proofs.RecapturedTypes
import WireSchema.Schema.Draft

namespace WireSchema

/-! ### Equal values -/

theorem Binary64.sameNumber_symm {first second : Binary64}
    (same : first.sameNumber second = true) : second.sameNumber first = true := by
  simp only [sameNumber, Bool.and_eq_true, Bool.or_eq_true, beq_iff_eq] at same ⊢
  obtain ⟨⟨one, other⟩, equal⟩ := same
  exact ⟨⟨other, one⟩, equal.imp Eq.symm And.symm⟩

theorem Binary64.sameNumber_trans {first second third : Binary64}
    (one : first.sameNumber second = true) (other : second.sameNumber third = true) :
    first.sameNumber third = true := by
  simp only [sameNumber, Bool.and_eq_true, Bool.or_eq_true, beq_iff_eq] at one other ⊢
  obtain ⟨⟨number, _⟩, equal⟩ := one
  obtain ⟨⟨_, otherNumber⟩, otherEqual⟩ := other
  refine ⟨⟨number, otherNumber⟩, ?_⟩
  rcases equal with rfl | zero
  · exact otherEqual
  · rcases otherEqual with rfl | otherZero
    · exact .inr zero
    · exact .inr ⟨zero.1, otherZero.2⟩

theorem Value.agrees_symm {first second : Value} (same : first.agrees second = true) :
    second.agrees first = true := by
  cases first <;> cases second <;> simp only [agrees, beq_iff_eq, Bool.false_eq_true] at same ⊢
  case float.float => exact Binary64.sameNumber_symm same
  all_goals exact same.symm

theorem Value.agrees_trans {first second third : Value} (one : first.agrees second = true)
    (other : second.agrees third = true) : first.agrees third = true := by
  cases first <;> cases second <;> simp only [agrees, beq_iff_eq, Bool.false_eq_true] at one <;>
    cases third <;> simp only [agrees, beq_iff_eq, Bool.false_eq_true] at other ⊢
  case float.float.float => exact Binary64.sameNumber_trans one other
  all_goals exact one.trans other

theorem optionalAgrees_symm {first second : Option Value}
    (same : optionalAgrees first second = true) : optionalAgrees second first = true := by
  cases first <;> cases second <;> first | exact same | exact Value.agrees_symm same

theorem optionalAgrees_trans {first second third : Option Value}
    (one : optionalAgrees first second = true) (other : optionalAgrees second third = true) :
    optionalAgrees first third = true := by
  cases first <;> cases second <;> cases third <;>
    first | exact one | exact other | cases one | exact Value.agrees_trans one other

/-- Equal numbers are equal when one word stands for all that are not numbers. -/
theorem Value.agrees_canonical {first second : Value} (same : first.agrees second = true) :
    first.canonical.agrees second.canonical = true := by
  cases first <;> cases second <;> try exact same
  rename_i one other
  simp only [agrees, Binary64.sameNumber, Bool.and_eq_true, Bool.not_eq_true'] at same
  simp only [agrees, canonical, Binary64.canonical, same.1.1, same.1.2, Bool.false_eq_true,
    if_false, Binary64.sameNumber, Bool.and_eq_true, Bool.not_eq_true', same.2, and_self]

theorem optionalAgrees_canonical {first second : Option Value}
    (same : optionalAgrees first second = true) :
    optionalAgrees (first.map Value.canonical) (second.map Value.canonical) = true := by
  cases first <;> cases second <;> first | exact same | exact Value.agrees_canonical same

/-! ### Equal encodings -/

theorem Encoding.agrees_symm {first second : Encoding} (same : first.agrees second = true) :
    second.agrees first = true := by
  simp only [agrees, Bool.and_eq_true, beq_iff_eq] at same ⊢
  obtain ⟨⟨⟨⟨⟨⟨⟨⟨⟨⟨presence, type⟩, order⟩, least⟩, greatest⟩, null⟩, const⟩, characters⟩, epoch⟩,
    unit⟩, semantics⟩ := same
  exact ⟨⟨⟨⟨⟨⟨⟨⟨⟨⟨presence.symm, type.symm⟩, order.symm⟩, optionalAgrees_symm least⟩,
    optionalAgrees_symm greatest⟩, optionalAgrees_symm null⟩, optionalAgrees_symm const⟩,
    characters.symm⟩, epoch.symm⟩, unit.symm⟩, semantics.symm⟩

theorem Encoding.agrees_trans {first second third : Encoding} (one : first.agrees second = true)
    (other : second.agrees third = true) : first.agrees third = true := by
  simp only [agrees, Bool.and_eq_true, beq_iff_eq] at one other ⊢
  obtain ⟨⟨⟨⟨⟨⟨⟨⟨⟨⟨presence, type⟩, order⟩, least⟩, greatest⟩, null⟩, const⟩, characters⟩, epoch⟩,
    unit⟩, semantics⟩ := one
  obtain ⟨⟨⟨⟨⟨⟨⟨⟨⟨⟨presence', type'⟩, order'⟩, least'⟩, greatest'⟩, null'⟩, const'⟩, characters'⟩,
    epoch'⟩, unit'⟩, semantics'⟩ := other
  exact ⟨⟨⟨⟨⟨⟨⟨⟨⟨⟨presence.trans presence', type.trans type'⟩, order.trans order'⟩,
    optionalAgrees_trans least least'⟩, optionalAgrees_trans greatest greatest'⟩,
    optionalAgrees_trans null null'⟩, optionalAgrees_trans const const'⟩,
    characters.trans characters'⟩, epoch.trans epoch'⟩, unit.trans unit'⟩,
    semantics.trans semantics'⟩

theorem Encoding.presence_eq_of_agrees {first second : Encoding}
    (same : first.agrees second = true) : first.presence = second.presence := by
  simp only [agrees, Bool.and_eq_true, beq_iff_eq] at same
  exact same.1.1.1.1.1.1.1.1.1.1

theorem Encoding.agrees_canonical {first second : Encoding} (same : first.agrees second = true) :
    first.canonical.agrees second.canonical = true := by
  simp only [agrees, canonical, Bool.and_eq_true, beq_iff_eq] at same ⊢
  obtain ⟨⟨⟨⟨⟨⟨⟨⟨⟨⟨presence, type⟩, order⟩, least⟩, greatest⟩, null⟩, const⟩, characters⟩, epoch⟩,
    unit⟩, semantics⟩ := same
  exact ⟨⟨⟨⟨⟨⟨⟨⟨⟨⟨presence, type⟩, order⟩, optionalAgrees_canonical least⟩,
    optionalAgrees_canonical greatest⟩, optionalAgrees_canonical null⟩,
    optionalAgrees_canonical const⟩, characters⟩, epoch⟩, unit⟩, semantics⟩

/-! ### Equal layouts -/

/-- Whether two tokens at one place of a layout are the same; at the two ends the offsets do not
count. -/
structure LayoutAgrees (atEnd : Prop) (one other : Token) : Prop where
  signal : one.signal = other.signal
  name : one.name = other.name
  encodedLength : one.encodedLength = other.encodedLength
  encoding : one.encoding.agrees other.encoding = true
  offset : atEnd ∨ one.offset = other.offset

theorem sameLayout_iff {first second : List Token} :
    sameLayout first second = true ↔ first.length = second.length ∧
      ∀ (index : Nat) (one other : Token), first[index]? = some one → second[index]? = some other →
        LayoutAgrees (index = 0 ∨ index = first.length - 1) one other := by
  simp only [sameLayout, Bool.and_eq_true, beq_iff_eq, List.all_eq_true, Prod.forall,
    List.mem_zipIdx_iff_getElem?, List.getElem?_zip_eq_some]
  constructor
  · rintro ⟨length, all⟩
    refine ⟨length, fun index one other isOne isOther => ?_⟩
    have agrees := all one other index ⟨isOne, isOther⟩
    simp only [Bool.or_eq_true, beq_iff_eq] at agrees
    obtain ⟨⟨⟨⟨signal, name⟩, encodedLength⟩, encoding⟩, offset⟩ := agrees
    exact ⟨signal, name, encodedLength, encoding, offset⟩
  · rintro ⟨length, all⟩
    refine ⟨length, fun one other index ⟨isOne, isOther⟩ => ?_⟩
    obtain ⟨signal, name, encodedLength, encoding, offset⟩ := all index one other isOne isOther
    simp only [Bool.or_eq_true, beq_iff_eq]
    exact ⟨⟨⟨⟨signal, name⟩, encodedLength⟩, encoding⟩, offset⟩

theorem sameLayout_symm {first second : List Token} (same : sameLayout first second = true) :
    sameLayout second first = true := by
  rw [sameLayout_iff] at same ⊢
  obtain ⟨length, all⟩ := same
  refine ⟨length.symm, fun index one other isOne isOther => ?_⟩
  obtain ⟨signal, name, encodedLength, encoding, offset⟩ := all index other one isOther isOne
  rw [length] at offset
  exact ⟨signal.symm, name.symm, encodedLength.symm, Encoding.agrees_symm encoding,
    offset.imp_right Eq.symm⟩

theorem sameLayout_trans {first second third : List Token}
    (one : sameLayout first second = true) (other : sameLayout second third = true) :
    sameLayout first third = true := by
  rw [sameLayout_iff] at one other ⊢
  obtain ⟨length, all⟩ := one
  obtain ⟨otherLength, otherAll⟩ := other
  refine ⟨length.trans otherLength, fun index start ending isStart isEnding => ?_⟩
  have inside : index < second.length := by
    rw [← length]
    exact (List.getElem?_eq_some_iff.mp isStart).1
  have isMiddle := List.getElem?_eq_getElem inside
  obtain ⟨signal, name, encodedLength, encoding, offset⟩ := all index _ _ isStart isMiddle
  obtain ⟨signal', name', encodedLength', encoding', offset'⟩ :=
    otherAll index _ _ isMiddle isEnding
  rw [← length] at offset'
  refine ⟨signal.trans signal', name.trans name', encodedLength.trans encodedLength',
    Encoding.agrees_trans encoding encoding', ?_⟩
  rcases offset with atEnd | offset
  · exact .inl atEnd
  · exact offset'.imp_right offset.trans

/-- Spans do not count. -/
theorem LayoutAgrees.of_unspanned {atEnd : Prop} {one other oneAgain otherAgain : Token}
    (same : LayoutAgrees atEnd one other) (isOne : oneAgain.unspanned = one.unspanned)
    (isOther : otherAgain.unspanned = other.unspanned) :
    LayoutAgrees atEnd oneAgain otherAgain := by
  have unspanned : LayoutAgrees atEnd one.unspanned other.unspanned :=
    ⟨same.signal, same.name, same.encodedLength, same.encoding, same.offset⟩
  rw [← isOne, ← isOther] at unspanned
  exact ⟨unspanned.signal, unspanned.name, unspanned.encodedLength, unspanned.encoding,
    unspanned.offset⟩

theorem LayoutAgrees.emptiedConstant {atEnd : Prop} {one other : Token}
    (same : LayoutAgrees atEnd one other) :
    LayoutAgrees atEnd (emptiedConstant one) (emptiedConstant other) := by
  obtain ⟨signal, name, encodedLength, encoding, offset⟩ := same
  have constant : one.isConstant = other.isConstant := by
    rw [Token.isConstant, Token.isConstant, Encoding.presence_eq_of_agrees encoding]
  unfold WireSchema.emptiedConstant
  rw [signal, constant]
  split
  · exact ⟨signal, name, rfl, encoding, offset⟩
  · exact ⟨signal, name, encodedLength, encoding, offset⟩

theorem LayoutAgrees.canonical {atEnd : Prop} {one other : Token}
    (same : LayoutAgrees atEnd one other) : LayoutAgrees atEnd one.canonical other.canonical :=
  ⟨same.signal, same.name, same.encodedLength, Encoding.agrees_canonical same.encoding,
    same.offset⟩

/-- Whether a change of tokens keeps signals, and what is constant, and takes tokens that are the
same in a layout to such tokens. -/
structure KeepsLayout (change : Token → Token) : Prop where
  signal : ∀ token, (change token).signal = token.signal
  constant : ∀ token, (change token).isConstant = token.isConstant
  agrees : ∀ {atEnd : Prop} {one other : Token}, LayoutAgrees atEnd one other →
    LayoutAgrees atEnd (change one) (change other)

theorem keepsLayout_stored : KeepsLayout fun token => (emptiedConstant token).canonical where
  signal := signal_emptiedConstant
  constant token := congrArg (·.presence == .constant) (encoding_emptiedConstant token)
  agrees same := same.emptiedConstant.canonical

/-- Equal layouts stay equal under such a change, whatever the spans. -/
theorem sameLayout_of_change {change : Token → Token} (keeps : KeepsLayout change)
    {first second firstAgain secondAgain : List Token} (same : sameLayout first second = true)
    (isFirst : firstAgain.map Token.unspanned = first.map fun token => (change token).unspanned)
    (isSecond : secondAgain.map Token.unspanned =
      second.map fun token => (change token).unspanned) :
    sameLayout firstAgain secondAgain = true := by
  rw [sameLayout_iff] at same ⊢
  obtain ⟨length, all⟩ := same
  have firstLength : firstAgain.length = first.length := by
    simpa using congrArg List.length isFirst
  have secondLength : secondAgain.length = second.length := by
    simpa using congrArg List.length isSecond
  refine ⟨by rw [firstLength, secondLength, length], fun index one other isOne isOther => ?_⟩
  have sourceOne := congrArg (fun tokens => tokens[index]?) isFirst
  have sourceOther := congrArg (fun tokens => tokens[index]?) isSecond
  simp only [List.getElem?_map, isOne, isOther, Option.map_some] at sourceOne sourceOther
  obtain ⟨source, isSource, sameOne⟩ := Option.map_eq_some_iff.mp sourceOne.symm
  obtain ⟨otherSource, isOtherSource, sameOther⟩ := Option.map_eq_some_iff.mp sourceOther.symm
  rw [firstLength]
  have agrees := keeps.agrees (all index source otherSource isSource isOtherSource)
  exact agrees.of_unspanned sameOne.symm sameOther.symm

/-! ### Reduced enums -/

/-- Whether a type is a reduced enum shows in the signals of its tokens and in which of them are
constant. -/
theorem isReducedEnum_congr {first second : List Token}
    (same : first.map (fun token => (token.signal, token.isConstant)) =
      second.map fun token => (token.signal, token.isConstant)) :
    isReducedEnum first = isReducedEnum second := by
  have anyValue : ∀ tokens : List Token,
      tokens.any (fun token => token.signal == .validValue && token.isConstant) =
        (tokens.map fun token => (token.signal, token.isConstant)).any
          fun part => part.1 == .validValue && part.2 := by
    intro tokens
    rw [List.any_map]
    rfl
  unfold isReducedEnum
  rw [anyValue, anyValue, same]
  congr 1
  cases first with
  | nil => rw [List.map_eq_nil_iff.mp same.symm]
  | cons token rest =>
      obtain ⟨other, others, rfl, sameParts, _⟩ := List.map_eq_cons_iff.mp same.symm
      simp only [(Prod.mk.inj sameParts).1]

theorem isReducedEnum_of_unspanned {first second : List Token}
    (same : first.map Token.unspanned = second.map Token.unspanned) :
    isReducedEnum first = isReducedEnum second := by
  apply isReducedEnum_congr
  have parts := congrArg (List.map fun token => (token.signal, token.isConstant)) same
  rwa [List.map_map, List.map_map] at parts

theorem isReducedEnum_of_sameLayout {first second : List Token}
    (same : sameLayout first second = true) : isReducedEnum first = isReducedEnum second := by
  apply isReducedEnum_congr
  rw [sameLayout_iff] at same
  obtain ⟨length, all⟩ := same
  apply List.ext_getElem?
  intro index
  simp only [List.getElem?_map]
  by_cases inside : index < first.length
  · have isOne := List.getElem?_eq_getElem inside
    have isOther := List.getElem?_eq_getElem (l := second) (i := index) (by omega)
    obtain ⟨signal, _, _, encoding, _⟩ := all index _ _ isOne isOther
    rw [isOne, isOther, Option.map_some, Option.map_some, signal, Token.isConstant,
      Token.isConstant, Encoding.presence_eq_of_agrees encoding]
  · rw [List.getElem?_eq_none (by omega), List.getElem?_eq_none (by omega)]

theorem isReducedEnum_of_change {change : Token → Token} (keeps : KeepsLayout change)
    {type again : List Token}
    (same : again.map Token.unspanned = type.map fun token => (change token).unspanned) :
    isReducedEnum again = isReducedEnum type := by
  apply isReducedEnum_congr
  have parts := congrArg (List.map fun token => (token.signal, token.isConstant)) same
  rw [List.map_map, List.map_map] at parts
  refine Eq.trans parts (List.map_congr_left fun token _ => ?_)
  change ((change token).signal, (change token).isConstant) = _
  rw [keeps.signal, keeps.constant]

/-! ### Compatible types -/

/-- Whether two types may stand under one name in a schema that allows no conflict. -/
def Compatible (one other : String × List Token) : Prop :=
  one.1 = other.1 →
    isReducedEnum one.2 = true ∨ isReducedEnum other.2 = true ∨ sameLayout one.2 other.2 = true

theorem Compatible.symm {one other : String × List Token} (compatible : Compatible one other) :
    Compatible other one := by
  intro sameName
  rcases compatible sameName.symm with reduced | reduced | same
  · exact .inr (.inl reduced)
  · exact .inl reduced
  · exact .inr (.inr (sameLayout_symm same))

/-- Compatible types are compatible again when they were stored and read back. -/
theorem Compatible.recaptured {change : Token → Token} (keeps : KeepsLayout change)
    {one other oneAgain otherAgain : String × List Token} (compatible : Compatible one other)
    (isOne : Recaptured change one oneAgain) (isOther : Recaptured change other otherAgain) :
    Compatible oneAgain otherAgain := by
  intro sameName
  rw [isOne.name, isOther.name] at sameName
  rcases isOne.layout with reduced | oneLayout
  · exact .inl reduced
  rcases isOther.layout with reduced | otherLayout
  · exact .inr (.inl reduced)
  rw [isReducedEnum_of_change keeps oneLayout, isReducedEnum_of_change keeps otherLayout]
  rcases compatible sameName with reduced | reduced | same
  · exact .inl reduced
  · exact .inr (.inl reduced)
  · exact .inr (.inr (sameLayout_of_change keeps same oneLayout otherLayout))

end WireSchema
