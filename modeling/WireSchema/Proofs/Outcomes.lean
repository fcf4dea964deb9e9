/-
Module: WireSchema.Proofs.Outcomes
Purpose: Steps that may fail.  A sequence of steps succeeds only where each of them does, and fails
  as the first of them that fails; so it is taken apart into its steps and put together again.
Main exports: ok_of_bind, bind_of_ok, ok_of_map, ok_of_mapM, error_of_mapM, exists_ok_of_isSome
-/
import Mathlib.Control.Monad.Basic

namespace WireSchema

/-- A sequence of steps that succeeds has succeeded in its first step. -/
theorem ok_of_bind {ε α β : Type} {first : Except ε α} {next : α → Except ε β} {result : β}
    (succeeded : first >>= next = .ok result) :
    ∃ between, first = .ok between ∧ next between = .ok result := by
  cases first with
  | error problem => cases succeeded
  | ok between => exact ⟨between, rfl, succeeded⟩

/-- A sequence of steps whose first step succeeds goes on with the rest. -/
theorem bind_of_ok {ε α β : Type} {first : Except ε α} {between : α}
    (succeeded : first = .ok between) (next : α → Except ε β) : first >>= next = next between := by
  rw [succeeded]
  rfl

/-- A sequence of steps that is mapped has succeeded before. -/
theorem ok_of_map {ε α β : Type} {step : Except ε α} {change : α → β} {result : β}
    (succeeded : step.map change = .ok result) :
    ∃ before, step = .ok before ∧ change before = result := by
  cases step with
  | error problem => cases succeeded
  | ok before => exact ⟨before, rfl, Except.ok.inj succeeded⟩

/-- A mapped step fails only as the step does. -/
theorem error_of_map {ε α β : Type} {step : Except ε α} {change : α → β} {problem : ε}
    (failed : step.map change = .error problem) : step = .error problem := by
  cases step with
  | error reason => exact congrArg Except.error (Except.error.inj failed)
  | ok result => cases failed

theorem ok_of_toOption {ε α : Type} {step : Except ε α} {result : α}
    (isResult : step.toOption = some result) : step = .ok result := by
  cases step with
  | error problem => cases isResult
  | ok value =>
      cases isResult
      rfl

theorem exists_ok_of_isSome {ε α : Type} {step : Except ε α}
    (succeeds : step.toOption.isSome = true) : ∃ result, step = .ok result := by
  cases step with
  | error problem => cases succeeds
  | ok result => exact ⟨result, rfl⟩

/-! ### One step for each element of a list -/

/-- A sequence of steps succeeds only if each of them does. -/
theorem ok_of_mapM {ε α β : Type} {step : α → Except ε β} :
    ∀ {sources : List α} {results : List β}, sources.mapM step = .ok results →
      ∀ source ∈ sources, ∃ result, step source = .ok result
  | [], _, _, _, member => absurd member List.not_mem_nil
  | source :: sources, results, made, other, member => by
      rw [List.mapM_cons] at made
      obtain ⟨first, isFirst, made⟩ := ok_of_bind made
      obtain ⟨others, areOthers, _⟩ := ok_of_bind made
      rcases List.mem_cons.mp member with rfl | later
      · exact ⟨first, isFirst⟩
      · exact ok_of_mapM areOthers other later

/-- A sequence of steps fails only as one of them does. -/
theorem error_of_mapM {ε α β : Type} {step : α → Except ε β} {problem : ε} :
    ∀ {sources : List α}, sources.mapM step = .error problem →
      ∃ source ∈ sources, step source = .error problem
  | [], failed => nomatch failed
  | source :: sources, failed => by
      rw [List.mapM_cons] at failed
      cases isFirst : step source with
      | error reason =>
          rw [isFirst] at failed
          cases failed
          exact ⟨source, List.mem_cons_self, isFirst⟩
      | ok result =>
          cases areOthers : sources.mapM step with
          | error reason =>
              rw [isFirst, areOthers] at failed
              cases failed
              obtain ⟨origin, isOrigin, fails⟩ := error_of_mapM areOthers
              exact ⟨origin, List.mem_cons_of_mem source isOrigin, fails⟩
          | ok results =>
              rw [isFirst, areOthers] at failed
              cases failed

/-- Every result of a step comes from one of the sources. -/
theorem mem_of_mapM {ε α β : Type} {step : α → Except ε β} :
    ∀ {sources : List α} {results : List β}, sources.mapM step = .ok results →
      ∀ result ∈ results, ∃ source ∈ sources, step source = .ok result
  | [], results, made, result, member => by
      cases made
      cases member
  | source :: sources, results, made, result, member => by
      rw [List.mapM_cons] at made
      obtain ⟨first, isFirst, made⟩ := ok_of_bind made
      obtain ⟨others, areOthers, made⟩ := ok_of_bind made
      cases made
      rcases List.mem_cons.mp member with rfl | later
      · exact ⟨source, List.mem_cons_self, isFirst⟩
      · obtain ⟨origin, originMember, isResult⟩ := mem_of_mapM areOthers result later
        exact ⟨origin, List.mem_cons_of_mem source originMember, isResult⟩

/-- Values that were computed one after another begin with those of the first arguments. -/
theorem mapM_take {ε α β : Type} {step : α → Except ε β} {values : List α} {results : List β}
    (computed : values.mapM step = .ok results) (count : Nat) :
    (values.take count).mapM step = .ok (results.take count) := by
  induction values generalizing results count with
  | nil =>
      obtain rfl : [] = results := Except.ok.inj computed
      rw [List.take_nil, List.take_nil]
      rfl
  | cons first others ih =>
      rw [List.mapM_cons] at computed
      obtain ⟨result, isResult, computed⟩ := ok_of_bind computed
      obtain ⟨later, isLater, computed⟩ := ok_of_bind computed
      cases computed
      cases count with
      | zero => rfl
      | succ count =>
          rw [List.take_succ_cons, List.mapM_cons, bind_of_ok isResult,
            bind_of_ok (ih isLater count)]
          rfl

end WireSchema
