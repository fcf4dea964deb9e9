/-
Module: WireSchema.Proofs.RelatedLists
Purpose: Lists that are related element by element.  What holds of one list is taken over to the
  other, and lists that are split or joined are related part by part.
Main exports: exists_of_forall₂, pairwise_of_forall₂, split_of_forall₂, forall₂_trans,
  forall₂_flatMap
-/
import Mathlib.Data.List.Forall2

namespace WireSchema

theorem exists_of_forall₂ {α β : Type} {related : α → β → Prop} {sources : List α}
    {results : List β} (all : List.Forall₂ related sources results) {result : β}
    (member : result ∈ results) : ∃ source ∈ sources, related source result := by
  obtain ⟨index, inside, rfl⟩ := List.getElem_of_mem member
  have sourceInside : index < sources.length := all.length_eq ▸ inside
  exact ⟨sources[index], List.getElem_mem sourceInside, all.get sourceInside inside⟩

/-- What holds of every two elements holds of every two that they are related to. -/
theorem pairwise_of_forall₂ {α β : Type} {related : α → β → Prop} {before : α → α → Prop}
    {after : β → β → Prop} {sources : List α} {results : List β}
    (all : List.Forall₂ related sources results)
    (pairwise : sources.Pairwise before)
    (keeps : ∀ {one other : α} {next nextOther : β}, before one other → related one next →
      related other nextOther → after next nextOther) : results.Pairwise after := by
  induction all with
  | nil => exact .nil
  | cons first others ih =>
      rw [List.pairwise_cons] at pairwise ⊢
      refine ⟨fun result member => ?_, ih pairwise.2⟩
      obtain ⟨source, isSource, same⟩ := exists_of_forall₂ others member
      exact keeps (pairwise.1 source isSource) first same

theorem append_of_forall₂ {α β : Type} {related : α → β → Prop} {before after : List α}
    {others : List β} (alike : List.Forall₂ related (before ++ after) others) :
    ∃ otherBefore otherAfter, List.Forall₂ related before otherBefore ∧
      List.Forall₂ related after otherAfter ∧ others = otherBefore ++ otherAfter :=
  ⟨others.take before.length, others.drop before.length,
    (List.forall₂_take_append _ _ _ alike.flip).flip,
    (List.forall₂_drop_append _ _ _ alike.flip).flip, (List.take_append_drop _ _).symm⟩

/-- A list related to one that is split is split likewise. -/
theorem split_of_forall₂ {α β : Type} {related : α → β → Prop} {before after : List α} {middle : α}
    {others : List β} (alike : List.Forall₂ related (before ++ middle :: after) others) :
    ∃ otherBefore otherMiddle otherAfter, others = otherBefore ++ otherMiddle :: otherAfter ∧
      List.Forall₂ related before otherBefore ∧ related middle otherMiddle ∧
      List.Forall₂ related after otherAfter := by
  obtain ⟨otherBefore, _, alikeBefore, alikeBehind, rfl⟩ := append_of_forall₂ alike
  obtain ⟨otherMiddle, otherAfter, alikeMiddle, alikeAfter, rfl⟩ :=
    List.forall₂_cons_left_iff.mp alikeBehind
  exact ⟨otherBefore, otherMiddle, otherAfter, rfl, alikeBefore, alikeMiddle, alikeAfter⟩

theorem forall₂_trans {α β γ : Type} {first : α → β → Prop} {second : β → γ → Prop}
    {both : α → γ → Prop} {sources : List α} {between : List β} {results : List γ}
    (one : List.Forall₂ first sources between) (other : List.Forall₂ second between results)
    (joins : ∀ {source middle result}, first source middle → second middle result →
      both source result) : List.Forall₂ both sources results := by
  induction one generalizing results with
  | nil =>
      cases other
      exact .nil
  | cons front _ ih =>
      cases other with
      | cons back others => exact .cons (joins front back) (ih others)

theorem forall₂_flatMap {ι α β : Type} {related : α → β → Prop} {left : ι → List α}
    {right : ι → List β} {indices : List ι}
    (all : ∀ index ∈ indices, List.Forall₂ related (left index) (right index)) :
    List.Forall₂ related (indices.flatMap left) (indices.flatMap right) := by
  induction indices with
  | nil => exact .nil
  | cons first others ih =>
      rw [List.forall_mem_cons] at all
      rw [List.flatMap_cons, List.flatMap_cons]
      exact List.rel_append all.1 (ih all.2)

end WireSchema
