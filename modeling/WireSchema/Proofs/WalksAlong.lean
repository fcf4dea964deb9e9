/-
Module: WireSchema.Proofs.WalksAlong
Purpose: The induction over a reader.  A property of walks that holds of what is read of a field,
  and of the faults of everything else, and that passes from walks to their sequence and to what is
  put around them, holds of reading a block.  All that is read belongs to the tokens at hand, and
  the property may rely on that.
Main exports: LayoutFault, construct_eq_cons, Walk.CarriedAlong, Walk.CarriedAlong.block
-/
import WireSchema.Decoding.Traversal
import WireSchema.Proofs.WalkLaws

namespace WireSchema

/-- The tokens of a construct begin with the token that opens it. -/
theorem construct_eq_cons {token : Token} {following range : List Token}
    (isRange : construct token following = .ok range) : ∃ others, range = token :: others := by
  rw [construct] at isRange
  split at isRange
  · cases isRange
    cases span : token.span with
    | zero => exact absurd span (Nat.ne_of_gt token.span_pos)
    | succ count => exact ⟨following.take count, rfl⟩
  · cases isRange

/-- A fault of what is read along some tokens beside the values of fields: a construct that is not
closed, a composite without a position, or what a group or variable data begins with. -/
inductive LayoutFault (source : Source) (tokens : List Token) : AccessError → Prop where
  | unclosed {token : Token} {following : List Token} {cause : AccessError} :
      token :: following <:+ tokens → construct token following = .error cause →
      LayoutFault source tokens cause
  | composite {token : Token} {base : Nat} {cause : AccessError} :
      token ∈ tokens → token.signal = .beginComposite → positionOf base token = .error cause →
      LayoutFault source tokens cause
  | dimensions {group : Token} {range : List Token} {cause : AccessError} :
      group ∈ tokens → group.signal = .beginGroup → dimensionsOf group range = .error cause →
      LayoutFault source tokens cause
  | groupSize {group : Token} {range : List Token} {dimensions : Dimensions} {position : Nat}
      {cause : AccessError} :
      group ∈ tokens → group.signal = .beginGroup → dimensionsOf group range = .ok dimensions →
      readGroupSize source group dimensions position = .error cause →
      LayoutFault source tokens cause
  | varDataLayout {field : Token} {range : List Token} {cause : AccessError} :
      field ∈ tokens → field.signal = .beginVarData →
      walkVarData.varDataLayout field range = .error cause → LayoutFault source tokens cause
  | varData {field lengthToken dataToken : Token} {range : List Token} {position : Nat}
      {cause : AccessError} :
      field ∈ tokens → field.signal = .beginVarData →
      walkVarData.varDataLayout field range = .ok (lengthToken, dataToken) →
      walkVarData.readVarData source position field lengthToken dataToken = .error cause →
      LayoutFault source tokens cause

/-- A property of walks along some tokens that passes from the steps of a reader to the whole. -/
structure Walk.CarriedAlong (source : Source) (tokens : List Token)
    (holds : ∀ {α : Type}, Walk α → Prop) : Prop where
  done : ∀ {α : Type} (result : α), holds (Walk.done result)
  bind : ∀ {α β : Type} {walk : Walk α} {next : α → Walk β}, holds walk →
    (∀ result, holds (next result)) → holds (walk >>= next)
  composite : ∀ (field opening : Token) (others : List Token) {inner : Walk Unit}, holds inner →
    holds (Walk.bracket (.beginComposite field (opening :: others))
      (.endComposite field (opening :: others)) opening.name inner)
  entry : ∀ (group : Token) (index count : Nat) {inner : Walk Nat}, holds inner →
    holds (Walk.bracket (.beginGroup group index count) (.endGroup group index count) group.name
      inner)
  header : ∀ (group : Token) (count : Nat), holds (Walk.emit (.groupHeader group count))
  varData : ∀ (field : Token) (content : List UInt8) (typeToken : Token),
    holds (Walk.emit (.varData field content typeToken))
  fault : ∀ {α : Type} {cause : AccessError}, LayoutFault source tokens cause →
    holds (Walk.check (.error cause) : Walk α)
  leaf : ∀ {field token : Token} {following : List Token} (base : Nat), field ∈ tokens →
    token :: following <:+ tokens → token.signal ≠ .beginComposite →
    holds (walkComponent source field base (token :: following))

namespace Walk.CarriedAlong

variable {source : Source} {tokens : List Token} {holds : ∀ {α : Type}, Walk α → Prop}
  (law : Walk.CarriedAlong source tokens holds)
include law

/-- A step that delivers nothing, and a walk that relies on its success. -/
theorem check_bind {α β : Type} {step : Except AccessError α} {next : α → Walk β}
    (fails : ∀ cause, step = .error cause → LayoutFault source tokens cause)
    (behind : ∀ result, step = .ok result → holds (next result)) :
    holds (Walk.check step >>= next) := by
  cases step with
  | error cause => exact law.fault (fails cause rfl)
  | ok result => exact behind result rfl

theorem inTurn {σ : Type} {step : Nat → σ → Walk σ}
    (each : ∀ index state, holds (step index state)) (count : Nat) :
    ∀ (index : Nat) (state : σ), holds (Walk.inTurn step index count state) := by
  induction count with
  | zero => exact fun _ state => law.done state
  | succ count ih => exact fun index state => law.bind (each index state) fun _ => ih (index + 1) _

mutual

theorem component {field : Token} (isField : field ∈ tokens) (base : Nat) :
    ∀ part : List Token, part <:+ tokens → holds (walkComponent source field base part)
  | [], _ => by
      rw [walkComponent.eq_def]
      exact law.done ()
  | token :: following, isPart => by
      by_cases isComposite : token.signal = .beginComposite
      · rw [walkComponent.eq_def]
        simp only [isComposite]
        refine law.check_bind (fun cause => .unclosed isPart) fun range isRange => ?_
        obtain ⟨others, rfl⟩ := construct_eq_cons isRange
        refine law.check_bind
          (fun cause => .composite (isPart.subset List.mem_cons_self) isComposite)
          fun start _ => law.composite field token others ?_
        exact members isField start ((token :: others).length - 2) following
          ((List.suffix_cons token following).trans isPart)
      · exact law.leaf base isField isPart isComposite
termination_by part => 2 * part.length

theorem members {field : Token} (isField : field ∈ tokens) (start : Nat) :
    ∀ (limit : Nat) (part : List Token), part <:+ tokens →
      holds (walkMembers source field start limit part)
  | 0, _, _ => by
      rw [walkMembers.eq_def]
      exact law.done ()
  | _ + 1, [], _ => by
      rw [walkMembers.eq_def]
      exact law.done ()
  | limit + 1, token :: following, isPart => by
      rw [walkMembers.eq_def]
      exact law.bind (component isField start (token :: following) isPart) fun _ =>
        members isField start (limit + 1 - token.span) ((token :: following).drop token.span)
          ((List.drop_suffix _ _).trans isPart)
termination_by _ part => 2 * part.length + 1
decreasing_by
  · simp only [List.length_cons]
    omega
  · have positive := token.span_pos
    simp only [List.length_drop, List.length_cons]
    omega

end

theorem fields (base limit : Nat) (part : List Token) (isPart : part <:+ tokens) :
    holds (walkFields source base limit part) := by
  fun_induction walkFields source base limit part with
  | case1 => exact law.done ()
  | case2 => exact law.done ()
  | case3 limit field following _ ih =>
      exact law.bind (law.component (isPart.subset List.mem_cons_self) base following
        ((List.suffix_cons field following).trans isPart)) fun _ =>
          ih ((List.drop_suffix _ _).trans isPart)
  | case4 => exact law.done ()

theorem varDataFields (position limit : Nat) (part : List Token) (isPart : part <:+ tokens) :
    holds (walkVarData source position limit part) := by
  fun_induction walkVarData source position limit part with
  | case1 => exact law.done _
  | case2 => exact law.done _
  | case3 position limit field following isVarData ih =>
      have isField := isPart.subset (List.mem_cons_self (a := field) (l := following))
      refine law.check_bind (fun cause => .unclosed isPart) fun range _ => ?_
      refine law.check_bind (fun cause => .varDataLayout isField isVarData)
        fun layout isLayout => ?_
      refine law.check_bind (fun cause => .varData isField isVarData isLayout) fun read _ => ?_
      exact law.bind (law.varData field read.1 layout.2) fun _ =>
        ih read.2 ((List.drop_suffix _ _).trans isPart)
  | case4 => exact law.done _

mutual

theorem groups : ∀ (position limit : Nat) (part : List Token), part <:+ tokens →
    holds (walkGroups source position limit part)
  | position, 0, _, _ => by
      rw [walkGroups.eq_def]
      exact law.done position
  | position, _ + 1, [], _ => by
      rw [walkGroups.eq_def]
      exact law.done position
  | position, limit + 1, group :: following, isPart => by
      rw [walkGroups.eq_def]
      by_cases isGroup : group.signal = .beginGroup
      · have member := isPart.subset (List.mem_cons_self (a := group) (l := following))
        simp only [if_pos isGroup]
        refine law.check_bind (fun cause => .unclosed isPart) fun range _ => ?_
        refine law.check_bind (fun cause => .dimensions member isGroup)
          fun dimensions isDimensions => ?_
        refine law.check_bind (fun cause => .groupSize member isGroup isDimensions)
          fun size _ => law.bind (law.header group size.count) fun _ => ?_
        rw [Walk.iterate_eq_inTurn]
        refine law.bind (law.inTurn (fun index start => law.entry group index size.count
          (block start size.blockLength _ (following.drop dimensions.composite.span)
            ((List.drop_suffix _ _).trans ((List.suffix_cons group following).trans isPart))))
          _ _ _) fun next => ?_
        exact groups next (limit + 1 - group.span) ((group :: following).drop group.span)
          ((List.drop_suffix _ _).trans isPart)
      · simp only [if_neg isGroup]
        exact law.done position
termination_by _ _ part => 2 * part.length
decreasing_by
  · simp only [List.length_drop, List.length_cons]
    omega
  · have positive := group.span_pos
    simp only [List.length_drop, List.length_cons]
    omega

/-- Whatever is carried along the tokens of a block holds of reading it, its fields, groups and
variable data. -/
theorem block (start blockLength limit : Nat) (part : List Token) (isPart : part <:+ tokens) :
    holds (walkBlock source start blockLength limit part) := by
  have behindFields := passSection_suffix .beginField limit part
  have behindGroups := passSection_suffix .beginGroup (passSection .beginField limit part).1
    (passSection .beginField limit part).2
  rw [walkBlock.eq_def]
  exact law.bind (law.fields start limit part isPart) fun _ =>
    law.bind (groups _ _ (passSection .beginField limit part).2 (behindFields.trans isPart))
      fun _ => law.varDataFields _ _ _ (behindGroups.trans (behindFields.trans isPart))
termination_by 2 * part.length + 1
decreasing_by
  have shorter := passSection_length_le .beginField limit part
  omega

end

end Walk.CarriedAlong

end WireSchema
