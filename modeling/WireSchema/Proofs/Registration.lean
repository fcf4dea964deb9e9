/-
Module: WireSchema.Proofs.Registration
Purpose: While a message is added, each of its types is weighed against the definition that its name
  already has.  What the message defines is collected apart and put into the registry at the end,
  but that comes to settling the types in the registry one after another (`registerTypes_eq`).
Main exports: settleTypes, registerTypes_eq, SchemaDraft.Covers.settleTypes,
  SchemaDraft.Known.settleTypes
-/
import WireSchema.Proofs.CompatibleTypes

namespace WireSchema

/-!
Where no conflict is allowed, types that were all settled are compatible with each other
(`Covers.settleTypes`); and types that are all compatible can be settled, in whatever order they
come (`Known.settleTypes`).
-/

/-! ### Registries -/

namespace Registry

variable {κ α : Type} [DecidableEq κ]

/-- Whether every key has one value. -/
def Distinct (registry : Registry κ α) : Prop :=
  (registry.entries.map (·.1)).Nodup

/-- A key that is not there is put behind all others. -/
theorem insertEntry_of_not_mem {key : κ} {entries : List (κ × α)}
    (absent : key ∉ entries.map (·.1)) (value : α) :
    insertEntry key value entries = entries ++ [(key, value)] := by
  induction entries with
  | nil => rfl
  | cons entry rest ih =>
      rw [List.map_cons, List.mem_cons, not_or] at absent
      rw [insertEntry, if_neg (Ne.symm absent.1), ih absent.2, List.cons_append]

theorem mem_keys_insertEntry {key other : κ} {value : α} {entries : List (κ × α)} :
    other ∈ (insertEntry key value entries).map (·.1) ↔
      other = key ∨ other ∈ entries.map (·.1) := by
  induction entries with
  | nil => simp [insertEntry]
  | cons entry rest ih =>
      by_cases same : entry.1 = key
      · simp [insertEntry, same]
      · rw [insertEntry, if_neg same, List.map_cons, List.mem_cons, ih, List.map_cons,
          List.mem_cons]
        exact or_left_comm

theorem mem_insert {registry : Registry κ α} {key : κ} {value : α} {entry : κ × α}
    (member : entry ∈ (registry.insert key value).entries) :
    entry = (key, value) ∨ entry ∈ registry.entries := by
  obtain ⟨entries⟩ := registry
  change entry ∈ insertEntry key value entries at member
  change _ ∨ entry ∈ entries
  induction entries with
  | nil => exact .inl (List.mem_singleton.mp member)
  | cons first others ih =>
      rw [insertEntry] at member
      split at member
      · exact (List.mem_cons.mp member).imp_right (List.mem_cons_of_mem first)
      · rcases List.mem_cons.mp member with rfl | isOther
        · exact .inr List.mem_cons_self
        · exact (ih isOther).imp_right (List.mem_cons_of_mem first)

theorem Distinct.insert {registry : Registry κ α} (distinct : registry.Distinct) (key : κ)
    (value : α) : (registry.insert key value).Distinct := by
  obtain ⟨entries⟩ := registry
  change (entries.map (·.1)).Nodup at distinct
  change ((insertEntry key value entries).map (·.1)).Nodup
  induction entries with
  | nil => simp [insertEntry]
  | cons entry rest ih =>
      rw [List.map_cons, List.nodup_cons] at distinct
      by_cases same : entry.1 = key
      · rw [insertEntry, if_pos same, List.map_cons, List.nodup_cons]
        exact ⟨same ▸ distinct.1, distinct.2⟩
      · rw [insertEntry, if_neg same, List.map_cons, List.nodup_cons, mem_keys_insertEntry]
        refine ⟨fun member => ?_, ih distinct.2⟩
        rcases member with isKey | member
        · exact same isKey
        · exact distinct.1 member

theorem isSome_get?_iff {registry : Registry κ α} {key : κ} :
    (registry.get? key).isSome ↔ key ∈ registry.entries.map (·.1) := by
  rw [get?, Option.isSome_map, List.find?_isSome, List.mem_map]
  simp

/-- The value under a key that is there once. -/
theorem get?_eq_some_iff {registry : Registry κ α} (distinct : registry.Distinct) {key : κ}
    {value : α} : registry.get? key = some value ↔ (key, value) ∈ registry.entries := by
  obtain ⟨entries⟩ := registry
  change (entries.map (·.1)).Nodup at distinct
  change (entries.find? fun entry => entry.1 == key).map (·.2) = some value ↔ (key, value) ∈ entries
  induction entries with
  | nil => simp
  | cons entry rest ih =>
      rw [List.map_cons, List.nodup_cons] at distinct
      by_cases same : entry.1 = key
      · have notLater : (key, value) ∉ rest := fun member =>
          distinct.1 (same ▸ List.mem_map_of_mem member)
        obtain ⟨entryKey, entryValue⟩ := entry
        simp only at same
        subst same
        simp [notLater, eq_comm]
      · have notFirst : (key, value) ≠ entry := by
          rintro rfl
          exact same rfl
        have other : (entry.1 == key) = false := by simp [same]
        rw [List.find?_cons, other, List.mem_cons, ← ih distinct.2]
        simp [notFirst]

/-- Extending a registry puts the values of the other one in front of its own. -/
theorem get?_extend (registry other : Registry κ α) (distinct : other.Distinct) (key : κ) :
    (registry.extend other).get? key = (other.get? key <|> registry.get? key) := by
  obtain ⟨entries⟩ := other
  change (entries.map (·.1)).Nodup at distinct
  induction entries generalizing registry with
  | nil => rfl
  | cons entry rest ih =>
      rw [List.map_cons, List.nodup_cons] at distinct
      change ((registry.insert entry.1 entry.2).extend ⟨rest⟩).get? key = _
      rw [ih _ distinct.2]
      by_cases same : entry.1 = key
      · have notLater : (⟨rest⟩ : Registry κ α).get? key = none := by
          cases found : (⟨rest⟩ : Registry κ α).get? key with
          | none => rfl
          | some value =>
              have distinctRest : (⟨rest⟩ : Registry κ α).Distinct := distinct.2
              have member := (get?_eq_some_iff distinctRest).mp found
              exact absurd (same ▸ List.mem_map_of_mem member) distinct.1
        rw [notLater, ← same, get?_insert_self]
        simp [get?]
      · rw [get?_insert_of_ne _ same]
        simp [get?, same]

/-- A registry is extended by distinct new keys at its end. -/
theorem extend_of_distinct {others : List (κ × α)} :
    ∀ {registry : Registry κ α},
      (registry.entries.map (·.1) ++ others.map (·.1)).Nodup →
        registry.extend ⟨others⟩ = ⟨registry.entries ++ others⟩ := by
  induction others with
  | nil =>
      intro registry _
      rw [List.append_nil]
      rfl
  | cons first others ih =>
      intro registry distinct
      have absent : first.1 ∉ registry.entries.map (·.1) := fun member =>
        List.disjoint_of_nodup_append distinct member List.mem_cons_self
      have inserted : registry.insert first.1 first.2 = ⟨registry.entries ++ [first]⟩ := by
        rw [insert, insertEntry_of_not_mem absent]
      change (registry.insert first.1 first.2).extend ⟨others⟩ = _
      rw [inserted, ih (by simpa using distinct), List.append_assoc, List.singleton_append]

/-! ### Insertions in another order -/

theorem insertEntry_insertEntry_self (key : κ) (first second : α) (entries : List (κ × α)) :
    insertEntry key second (insertEntry key first entries) = insertEntry key second entries := by
  induction entries with
  | nil => simp [insertEntry]
  | cons entry rest ih =>
      by_cases same : entry.1 = key
      · simp [insertEntry, same]
      · rw [insertEntry, if_neg same, insertEntry, if_neg same, ih, insertEntry, if_neg same]

/-- Two keys are inserted in either order if one of them is there already. -/
theorem insertEntry_comm {key other : κ} (different : key ≠ other) {entries : List (κ × α)}
    (present : key ∈ entries.map (·.1)) (value otherValue : α) :
    insertEntry key value (insertEntry other otherValue entries) =
      insertEntry other otherValue (insertEntry key value entries) := by
  induction entries with
  | nil => cases present
  | cons entry rest ih =>
      by_cases isKey : entry.1 = key
      · have notOther : entry.1 ≠ other := isKey ▸ different
        rw [insertEntry, if_neg notOther, insertEntry, if_pos isKey, insertEntry, if_pos isKey,
          insertEntry, if_neg different]
      · by_cases isOther : entry.1 = other
        · rw [insertEntry, if_pos isOther, insertEntry, if_neg (Ne.symm different), insertEntry,
            if_neg isKey, insertEntry, if_pos isOther]
        · have later : key ∈ rest.map (·.1) := by
            rw [List.map_cons, List.mem_cons] at present
            exact present.resolve_left (Ne.symm isKey)
          rw [insertEntry, if_neg isOther, insertEntry, if_neg isKey, ih later, insertEntry,
            if_neg isKey, insertEntry, if_neg isOther]

theorem insert_insert_self (registry : Registry κ α) (key : κ) (first second : α) :
    (registry.insert key first).insert key second = registry.insert key second :=
  congrArg Registry.mk (insertEntry_insertEntry_self key first second registry.entries)

/-- A key that is there and not among those of another registry is inserted before them or after
them. -/
theorem extend_insert_comm {key : κ} (value : α) (later : List (κ × α)) :
    ∀ {registry : Registry κ α}, key ∈ registry.entries.map (·.1) → key ∉ later.map (·.1) →
      (registry.insert key value).extend ⟨later⟩ =
        (registry.extend ⟨later⟩).insert key value := by
  induction later with
  | nil => exact fun _ _ => rfl
  | cons entry rest ih =>
      intro registry present absent
      rw [List.map_cons, List.mem_cons, not_or] at absent
      have swapped : (registry.insert key value).insert entry.1 entry.2 =
          (registry.insert entry.1 entry.2).insert key value :=
        congrArg Registry.mk (insertEntry_comm absent.1 present value entry.2).symm
      change ((registry.insert key value).insert entry.1 entry.2).extend ⟨rest⟩ = _
      rw [swapped]
      exact ih (mem_keys_insertEntry.mpr (.inr present)) absent.2

/-- Extending a registry by one that has gained an entry. -/
theorem extend_insert (registry : Registry κ α) {other : Registry κ α} (distinct : other.Distinct)
    (key : κ) (value : α) :
    registry.extend (other.insert key value) = (registry.extend other).insert key value := by
  obtain ⟨entries⟩ := other
  change (entries.map (·.1)).Nodup at distinct
  change registry.extend ⟨insertEntry key value entries⟩ = _
  induction entries generalizing registry with
  | nil => rfl
  | cons entry rest ih =>
      rw [List.map_cons, List.nodup_cons] at distinct
      by_cases same : entry.1 = key
      · rw [insertEntry, if_pos same]
        subst same
        have present : entry.1 ∈ (registry.insert entry.1 entry.2).entries.map (·.1) :=
          mem_keys_insertEntry.mpr (.inl rfl)
        change (registry.insert entry.1 value).extend ⟨rest⟩ =
          ((registry.insert entry.1 entry.2).extend ⟨rest⟩).insert entry.1 value
        rw [← extend_insert_comm value rest present distinct.1, insert_insert_self]
      · rw [insertEntry, if_neg same]
        exact ih (registry.insert entry.1 entry.2) distinct.2

end Registry

/-! ### Types that a message holds -/

/-- A type with its spans. -/
structure MeasuredAs (captured type : String × List Token) : Prop where
  name : type.1 = captured.1
  measured : withSpans captured.2 = .ok type.2

/-- The types that some tokens hold, with their spans. -/
def HoldsTypes (tokens : List Token) (types : List (String × List Token)) : Prop :=
  ∃ captured, typesOf tokens = .ok captured ∧ List.Forall₂ MeasuredAs captured types

theorem MeasuredAs.eq {captured type other : String × List Token}
    (one : MeasuredAs captured type) (second : MeasuredAs captured other) : type = other := by
  have measured := one.measured
  rw [second.measured] at measured
  exact Prod.ext (one.name.trans second.name.symm) (Except.ok.inj measured).symm

theorem MeasuredAs.unspanned {captured type : String × List Token}
    (measured : MeasuredAs captured type) :
    type.2.map Token.unspanned = captured.2.map Token.unspanned :=
  unspanned_withSpans measured.measured

/-! ### Settling types in a registry -/

/-- The registry with one more type, weighed against the definition that its name already has. -/
def settleType (policy : DuplicatePolicy) (registry : Registry String (List Token))
    (type : String × List Token) : Except SchemaError (Registry String (List Token)) :=
  match decideType policy (registry.get? type.1) type.2 with
  | .keep => .ok registry
  | .define => .ok (registry.insert type.1 type.2)
  | .conflict => .error (.conflictingType type.1)

/-- The registry with some more types, one after another. -/
def settleTypes (policy : DuplicatePolicy) (registry : Registry String (List Token))
    (types : List (String × List Token)) : Except SchemaError (Registry String (List Token)) :=
  types.foldlM (settleType policy) registry

variable {policy : DuplicatePolicy}

theorem settleTypes_cons (registry : Registry String (List Token)) (type : String × List Token)
    (types : List (String × List Token)) :
    settleTypes policy registry (type :: types) =
      settleType policy registry type >>= fun next => settleTypes policy next types := by
  rw [settleTypes, List.foldlM_cons]
  rfl

theorem settleTypes_append (registry : Registry String (List Token))
    (types others : List (String × List Token)) :
    settleTypes policy registry (types ++ others) =
      settleTypes policy registry types >>= fun next => settleTypes policy next others := by
  rw [settleTypes, List.foldlM_append]
  rfl

theorem settleType_eq_ok_iff {registry next : Registry String (List Token)}
    {type : String × List Token} :
    settleType policy registry type = .ok next ↔
      (decideType policy (registry.get? type.1) type.2 = .keep ∧ next = registry) ∨
        (decideType policy (registry.get? type.1) type.2 = .define ∧
          next = registry.insert type.1 type.2) := by
  rw [settleType]
  split <;> rename_i decided <;> simp [decided, eq_comm]

/-- Some names and one more, which comes last if it is new. -/
def withName (names : List String) (name : String) : List String :=
  if name ∈ names then names else names ++ [name]

theorem mem_withName {names : List String} {name other : String} :
    other ∈ withName names name ↔ other ∈ names ∨ other = name := by
  rw [withName]
  split
  · rename_i present
    refine ⟨.inl, fun either => either.elim id ?_⟩
    rintro rfl
    exact present
  · rw [List.mem_append, List.mem_singleton]

theorem mem_foldl_withName {added : List String} :
    ∀ {names : List String} {other : String},
      other ∈ added.foldl withName names ↔ other ∈ names ∨ other ∈ added := by
  induction added with
  | nil => simp
  | cons name added ih =>
      intro names other
      rw [List.foldl_cons, ih, mem_withName, List.mem_cons, or_assoc]

theorem keys_insertEntry (name : String) (tokens : List Token)
    (entries : List (String × List Token)) :
    (Registry.insertEntry name tokens entries).map (·.1) =
      withName (entries.map (·.1)) name := by
  induction entries with
  | nil => rfl
  | cons entry rest ih =>
      by_cases same : entry.1 = name
      · simp [Registry.insertEntry, withName, same]
      · rw [Registry.insertEntry, if_neg same, List.map_cons, ih, List.map_cons, withName, withName]
        by_cases present : name ∈ rest.map (·.1)
        · rw [if_pos present, if_pos (List.mem_cons_of_mem _ present)]
        · rw [if_neg present, if_neg (by simpa [Ne.symm same] using present), List.cons_append]

/-- The names of the types are those that there were before, and those of the types that were
settled, in the order in which they first came. -/
theorem keys_settleTypes {types : List (String × List Token)} :
    ∀ {registry next : Registry String (List Token)},
      settleTypes policy registry types = .ok next →
      next.entries.map (·.1) =
        (types.map (·.1)).foldl withName (registry.entries.map (·.1)) := by
  induction types with
  | nil =>
      intro registry next settled
      cases settled
      rfl
  | cons type types ih =>
      intro registry next settled
      rw [settleTypes_cons] at settled
      obtain ⟨between, isBetween, settled⟩ := ok_of_bind settled
      rw [ih settled, List.map_cons, List.foldl_cons]
      congr 1
      rcases settleType_eq_ok_iff.mp isBetween with ⟨keeps, rfl⟩ | ⟨_, rfl⟩
      · have present : type.1 ∈ between.entries.map (·.1) := by
          rw [← Registry.isSome_get?_iff]
          cases isKnown : between.get? type.1 with
          | some known => rfl
          | none =>
              rw [isKnown] at keeps
              cases keeps
        rw [withName, if_pos present]
      · exact keys_insertEntry type.1 type.2 registry.entries

/-- Types are registered together just as they are settled one after another. -/
theorem registerTypes_eq (draft : SchemaDraft) {captured types : List (String × List Token)}
    (measured : List.Forall₂ MeasuredAs captured types) :
    ∀ {found : Registry String (List Token)}, found.Distinct →
      (captured.foldlM draft.registerType found).map draft.types.extend =
        settleTypes draft.options.duplicateTypes (draft.types.extend found) types := by
  induction measured with
  | nil => exact fun _ => rfl
  | @cons first type others types measuredFirst _ ih =>
      intro found distinct
      obtain ⟨name, tokens⟩ := type
      obtain ⟨rfl, isMeasured⟩ := measuredFirst
      have known := draft.types.get?_extend found distinct first.1
      rw [List.foldlM_cons, settleTypes_cons, settleType, known, SchemaDraft.registerType,
        bind_of_ok isMeasured]
      dsimp only
      cases decided : decideType draft.options.duplicateTypes
          (found.get? first.1 <|> draft.types.get? first.1) tokens with
      | keep => exact ih distinct
      | define =>
          have one := ih (distinct.insert first.1 tokens)
          rw [draft.types.extend_insert distinct] at one
          exact one
      | conflict => rfl

/-- The types of a message that was accepted can be measured. -/
theorem measured_of_registerType {draft : SchemaDraft} {captured : List (String × List Token)} :
    ∀ {found next : Registry String (List Token)},
      captured.foldlM draft.registerType found = .ok next →
      ∃ types, List.Forall₂ MeasuredAs captured types := by
  induction captured with
  | nil => exact fun _ => ⟨[], .nil⟩
  | cons first others ih =>
      intro found next registered
      rw [List.foldlM_cons] at registered
      obtain ⟨between, isBetween, registered⟩ := ok_of_bind registered
      obtain ⟨measured, isMeasured, _⟩ := ok_of_bind isBetween
      obtain ⟨types, all⟩ := ih registered
      exact ⟨(first.1, measured) :: types, .cons ⟨rfl, isMeasured⟩ all⟩

namespace SchemaDraft

/-! ### No conflicts, seen from the types that were settled -/

/-- Every full type that was seen has a definition with its layout. -/
def Covers (definitions : String → Option (List Token)) (seen : List (String × List Token)) :
    Prop :=
  ∀ type ∈ seen, isReducedEnum type.2 = false →
    ∃ known, definitions type.1 = some known ∧ isReducedEnum known = false ∧
      (known = type.2 ∨ sameLayout known type.2 = true)

/-- What keeping a definition means where no conflict is allowed. -/
theorem decideType_eq_keep {existing : Option (List Token)} {captured : List Token}
    (keeps : decideType .reject existing captured = .keep) :
    ∃ known, existing = some known ∧
      (sameLayout known captured = true ∨ isReducedEnum captured = true) := by
  cases existing with
  | none => cases keeps
  | some known =>
      refine ⟨known, rfl, ?_⟩
      simp only [decideType] at keeps
      split at keeps
      · rename_i either
        simpa using either
      · split at keeps <;> cases keeps

/-- What a new definition means where no conflict is allowed. -/
theorem decideType_eq_define {existing : Option (List Token)} {captured : List Token}
    (defines : decideType .reject existing captured = .define) :
    ∀ known, existing = some known → isReducedEnum known = true := by
  rintro known rfl
  simp only [decideType] at defines
  split at defines
  · cases defines
  · split at defines
    · cases defines
    · rename_i noConflict
      simpa using noConflict

/-- A type that is settled where no conflict is allowed is compatible with all that were seen, and
is covered from then on. -/
theorem Covers.settleType {registry next : Registry String (List Token)}
    {type : String × List Token} {seen : List (String × List Token)}
    (covers : Covers registry.get? seen)
    (settled : WireSchema.settleType .reject registry type = .ok next) :
    Covers next.get? (seen ++ [type]) ∧ ∀ old ∈ seen, Compatible old type := by
  rcases settleType_eq_ok_iff.mp settled with ⟨keeps, rfl⟩ | ⟨defines, rfl⟩
  · obtain ⟨known, isKnown, alike⟩ := decideType_eq_keep keeps
    constructor
    · rw [Covers, List.forall_mem_append, List.forall_mem_singleton]
      refine ⟨covers, fun full => ?_⟩
      rcases alike with same | reduced
      · exact ⟨known, isKnown, by rw [isReducedEnum_of_sameLayout same, full], .inr same⟩
      · rw [full] at reduced
        cases reduced
    · intro old isOld sameName
      by_cases oldReduced : isReducedEnum old.2 = true
      · exact .inl oldReduced
      rcases alike with same | reduced
      · obtain ⟨other, isOther, _, oldAlike⟩ := covers old isOld (by simpa using oldReduced)
        rw [sameName, isKnown] at isOther
        cases isOther
        rcases oldAlike with rfl | oldSame
        · exact .inr (.inr same)
        · exact .inr (.inr (sameLayout_trans (sameLayout_symm oldSame) same))
      · exact .inr (.inl reduced)
  · have onlyReduced := decideType_eq_define defines
    have noFull : ∀ old ∈ seen, isReducedEnum old.2 = false → old.1 ≠ type.1 := by
      intro old isOld full sameName
      obtain ⟨known, isKnown, knownFull, _⟩ := covers old isOld full
      rw [sameName] at isKnown
      rw [onlyReduced known isKnown] at knownFull
      cases knownFull
    constructor
    · rw [Covers, List.forall_mem_append, List.forall_mem_singleton]
      refine ⟨fun old isOld full => ?_, fun full => ⟨type.2, ?_, full, .inl rfl⟩⟩
      · rw [Registry.get?_insert_of_ne _ (noFull old isOld full).symm]
        exact covers old isOld full
      · exact Registry.get?_insert_self _ _ _
    · intro old isOld sameName
      by_cases oldReduced : isReducedEnum old.2 = true
      · exact .inl oldReduced
      · exact absurd sameName (noFull old isOld (by simpa using oldReduced))

/-- Types that were settled where no conflict is allowed are compatible with each other and with all
that were seen before. -/
theorem Covers.settleTypes {types : List (String × List Token)} :
    ∀ {registry next : Registry String (List Token)} {seen : List (String × List Token)},
      Covers registry.get? seen → WireSchema.settleTypes .reject registry types = .ok next →
      Covers next.get? (seen ++ types) ∧
        (∀ old ∈ seen, ∀ type ∈ types, Compatible old type) ∧ types.Pairwise Compatible := by
  induction types with
  | nil =>
      intro registry next seen covers settled
      cases settled
      rw [List.append_nil]
      exact ⟨covers, by simp, .nil⟩
  | cons type types ih =>
      intro registry next seen covers settled
      rw [settleTypes_cons] at settled
      obtain ⟨between, isBetween, settled⟩ := ok_of_bind settled
      obtain ⟨coversBetween, oldFirst⟩ := covers.settleType isBetween
      obtain ⟨coversNext, oldOthers, pairwise⟩ := ih coversBetween settled
      rw [List.append_assoc, List.singleton_append] at coversNext
      refine ⟨coversNext, fun old isOld => ?_, .cons ?_ pairwise⟩
      · rw [List.forall_mem_cons]
        exact ⟨oldFirst old isOld, oldOthers old (List.mem_append_left _ isOld)⟩
      · exact oldOthers type (List.mem_append_right _ (List.mem_singleton.mpr rfl))

/-! ### No conflicts, seen from the types to be settled -/

/-- Every definition is a type that was seen. -/
def Known (definitions : String → Option (List Token)) (seen : List (String × List Token)) :
    Prop :=
  ∀ name known, definitions name = some known → (name, known) ∈ seen

/-- Only incompatible types conflict. -/
theorem decideType_ne_conflict {policy : DuplicatePolicy} {existing : Option (List Token)}
    {captured : List Token}
    (compatible : policy = .reject → ∀ known, existing = some known →
      isReducedEnum known = true ∨ isReducedEnum captured = true ∨
        sameLayout known captured = true) :
    decideType policy existing captured ≠ .conflict := by
  intro conflicts
  cases existing with
  | none => cases conflicts
  | some known =>
      simp only [decideType] at conflicts
      split at conflicts
      · cases conflicts
      rename_i different
      split at conflicts
      · rename_i full
        simp only [Bool.and_eq_true, Bool.not_eq_true', beq_iff_eq] at full
        simp only [Bool.or_eq_true, not_or] at different
        rcases compatible full.2 known rfl with reduced | reduced | same
        · rw [full.1] at reduced
          cases reduced
        · exact different.2 reduced
        · exact different.1 same
      · cases conflicts

/-- A type that is compatible with all definitions can be settled. -/
theorem Known.settleType {registry : Registry String (List Token)} {type : String × List Token}
    {seen : List (String × List Token)} (known : Known registry.get? seen)
    (compatible : policy = .reject → ∀ old ∈ seen, Compatible old type) :
    ∃ next, WireSchema.settleType policy registry type = .ok next ∧
      Known next.get? (seen ++ [type]) := by
  have noConflict : decideType policy (registry.get? type.1) type.2 ≠ .conflict :=
    decideType_ne_conflict fun rejects other isOther =>
      compatible rejects (type.1, other) (known _ _ isOther) rfl
  cases decided : decideType policy (registry.get? type.1) type.2 with
  | conflict => exact absurd decided noConflict
  | keep =>
      refine ⟨registry, settleType_eq_ok_iff.mpr (.inl ⟨decided, rfl⟩), ?_⟩
      exact fun name other isOther => List.mem_append_left _ (known name other isOther)
  | define =>
      refine ⟨_, settleType_eq_ok_iff.mpr (.inr ⟨decided, rfl⟩), fun name other isOther => ?_⟩
      by_cases sameName : type.1 = name
      · subst sameName
        rw [Registry.get?_insert_self] at isOther
        cases isOther
        exact List.mem_append_right _ (List.mem_singleton.mpr rfl)
      · rw [Registry.get?_insert_of_ne _ sameName] at isOther
        exact List.mem_append_left _ (known name other isOther)

/-- Types that are compatible with each other and with all definitions can be settled. -/
theorem Known.settleTypes {types : List (String × List Token)} :
    ∀ {registry : Registry String (List Token)} {seen : List (String × List Token)},
      Known registry.get? seen →
      (policy = .reject →
        (∀ old ∈ seen, ∀ type ∈ types, Compatible old type) ∧ types.Pairwise Compatible) →
      ∃ next, WireSchema.settleTypes policy registry types = .ok next ∧
        Known next.get? (seen ++ types) := by
  induction types with
  | nil =>
      intro registry seen known _
      rw [List.append_nil]
      exact ⟨registry, rfl, known⟩
  | cons type types ih =>
      intro registry seen known compatible
      obtain ⟨between, isBetween, knownBetween⟩ := known.settleType fun rejects old isOld =>
        (compatible rejects).1 old isOld type List.mem_cons_self
      have later : policy = .reject →
          (∀ old ∈ seen ++ [type], ∀ new ∈ types, Compatible old new) ∧
            types.Pairwise Compatible := by
        intro rejects
        obtain ⟨withOld, pairwise⟩ := compatible rejects
        rw [List.pairwise_cons] at pairwise
        refine ⟨?_, pairwise.2⟩
        rw [List.forall_mem_append, List.forall_mem_singleton]
        exact ⟨fun old isOld new isNew => withOld old isOld new (List.mem_cons_of_mem _ isNew),
          pairwise.1⟩
      obtain ⟨next, isNext, knownNext⟩ := ih knownBetween later
      rw [List.append_assoc, List.singleton_append] at knownNext
      refine ⟨next, ?_, knownNext⟩
      rw [settleTypes_cons, bind_of_ok isBetween]
      exact isNext

end SchemaDraft

/-! ### Definitions -/

/-- A definition stays as it is while nothing but reduced enums are captured under its name. -/
theorem get?_settleTypes {policy : DuplicatePolicy} {name : String}
    {types : List (String × List Token)} :
    ∀ {registry next : Registry String (List Token)},
      settleTypes policy registry types = .ok next →
        (∀ type ∈ types, type.1 = name →
          (registry.get? name).isSome ∧ isReducedEnum type.2 = true) →
        next.get? name = registry.get? name := by
  induction types with
  | nil =>
      intro registry next settled _
      cases settled
      rfl
  | cons first others ih =>
      intro registry next settled reduced
      rw [List.forall_mem_cons] at reduced
      rw [settleTypes_cons] at settled
      obtain ⟨between, isBetween, settledOthers⟩ := ok_of_bind settled
      have unchanged : between.get? name = registry.get? name := by
        rcases settleType_eq_ok_iff.mp isBetween with ⟨_, rfl⟩ | ⟨defines, rfl⟩
        · rfl
        · by_cases sameName : first.1 = name
          · obtain ⟨known, isReduced⟩ := reduced.1 sameName
            obtain ⟨tokens, isKnown⟩ := Option.isSome_iff_exists.mp known
            rw [sameName, isKnown, decideType] at defines
            simp [isReduced] at defines
          · exact Registry.get?_insert_of_ne _ sameName _
      rw [ih settledOthers (by rw [unchanged]; exact reduced.2), unchanged]

/-- The first type of a name is its definition if only reduced enums follow. -/
theorem definition_of_first {policy : DuplicatePolicy} {next : Registry String (List Token)}
    {before after : List (String × List Token)} {type : String × List Token}
    (settled : settleTypes policy {} (before ++ type :: after) = .ok next)
    (first : ∀ other ∈ before, other.1 ≠ type.1)
    (reduced : ∀ other ∈ after, other.1 = type.1 → isReducedEnum other.2 = true) :
    next.get? type.1 = some type.2 := by
  rw [settleTypes_append] at settled
  obtain ⟨front, isFront, settled⟩ := ok_of_bind settled
  rw [settleTypes_cons] at settled
  obtain ⟨between, isBetween, settled⟩ := ok_of_bind settled
  have unknown : front.get? type.1 = none :=
    get?_settleTypes isFront fun other member same => absurd same (first other member)
  have defined : between.get? type.1 = some type.2 := by
    rcases settleType_eq_ok_iff.mp isBetween with ⟨keeps, rfl⟩ | ⟨_, rfl⟩
    · rw [unknown] at keeps
      cases keeps
    · exact Registry.get?_insert_self _ _ _
  rw [get?_settleTypes settled fun other member same => ⟨by rw [defined]; rfl,
    reduced other member same⟩, defined]

end WireSchema
