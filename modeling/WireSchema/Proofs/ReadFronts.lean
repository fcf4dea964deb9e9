/-
Module: WireSchema.Proofs.ReadFronts
Purpose: A reader of the stored form that succeeds has read some bytes at the front of its input,
  and makes the same of them wherever they stand and whatever follows them (`ReadsFront`).  So where
  a stream is cut short, a reader that still succeeds has found all of the bytes that it finds in
  the whole stream (`ReadsFront.of_cut`); and the tokens that are read from a cut stream of stored
  tokens are the first ones of the stream, the cut being right behind them
  (`StoredReader.tokens_of_cut`).
Main exports: ReadsFront, ReadsFront.of_cut, StoredReader.tokens_of_cut
-/
import WireSchema.Proofs.StoredReading

namespace WireSchema

/-- Wherever a reader succeeds, it reads some bytes at the front of its input and leaves the
rest. -/
def ReadsFront {α : Type} (reader : StoredReader α) : Prop :=
  ∀ ⦃position : Nat⦄ ⦃input : List UInt8⦄ ⦃value : α⦄ ⦃next : ByteCursor⦄,
    reader ⟨position, input⟩ = .ok (value, next) →
      ∃ front, input = front ++ next.rest ∧ next.position = position + front.length ∧
        Reads reader front value

/-- One reader succeeds wherever another one does, with the same value. -/
def SucceedsLike {α : Type} (other reader : StoredReader α) : Prop :=
  ∀ cursor result, reader cursor = .ok result → other cursor = .ok result

namespace SucceedsLike

variable {α β : Type}

theorem refl (reader : StoredReader α) : SucceedsLike reader reader :=
  fun _ _ succeeds => succeeds

theorem throw (problem : StoredError) (other : StoredReader α) :
    SucceedsLike other (MonadExcept.throw problem) :=
  fun _ _ succeeds => nomatch succeeds

theorem bind {first : StoredReader α} {next other : α → StoredReader β}
    (alike : ∀ value, SucceedsLike (other value) (next value)) :
    SucceedsLike (first >>= other) (first >>= next) := by
  intro cursor result succeeds
  change (first cursor).bind (fun (value, cursor) => next value cursor) = .ok result at succeeds
  change (first cursor).bind (fun (value, cursor) => other value cursor) = .ok result
  cases isFirst : first cursor with
  | error problem =>
      rw [isFirst] at succeeds
      cases succeeds
  | ok found =>
      rw [isFirst] at succeeds
      exact alike found.1 found.2 result succeeds

end SucceedsLike

namespace ReadsFront

variable {α β : Type}

theorem pure (value : α) : ReadsFront (Pure.pure value) := by
  intro position input found next isRead
  cases isRead
  exact ⟨[], rfl, rfl, Reads.pure value⟩

theorem throw (problem : StoredError) :
    ReadsFront (MonadExcept.throw problem : StoredReader α) := by
  intro position input value next isRead
  cases isRead

theorem bind {first : StoredReader α} {next : α → StoredReader β} (one : ReadsFront first)
    (other : ∀ value, ReadsFront (next value)) : ReadsFront (first >>= next) := by
  intro position input result last isRead
  change (first ⟨position, input⟩).bind (fun (value, cursor) => next value cursor) = _ at isRead
  cases isFirst : first ⟨position, input⟩ with
  | error problem =>
      rw [isFirst] at isRead
      cases isRead
  | ok found =>
      obtain ⟨value, cursor⟩ := found
      rw [isFirst] at isRead
      obtain ⟨front, rfl, isPosition, readsFirst⟩ := one isFirst
      obtain ⟨more, isRest, isLast, readsNext⟩ := other value isRead
      refine ⟨front ++ more, ?_, ?_, readsFirst.bind readsNext⟩
      · rw [List.append_assoc, ← isRest]
      · rw [isLast, isPosition, List.length_append, Nat.add_assoc]

/-- A reader for which its position matters to nothing but its failures. -/
theorem position {next : Nat → StoredReader α} (reads : ∀ start, ReadsFront (next start))
    (alike : ∀ start other, SucceedsLike (next other) (next start)) :
    ReadsFront (StoredReader.position >>= next) := by
  intro start input value last isRead
  obtain ⟨front, isInput, isLast, readsNext⟩ := reads start isRead
  exact ⟨front, isInput, isLast,
    fun other rest => alike start other _ _ (readsNext other rest)⟩

theorem take (count : Nat) : ReadsFront (StoredReader.take count) := by
  intro position input taken next isRead
  rw [StoredReader.take] at isRead
  split at isRead
  · rename_i enough
    cases isRead
    have reads := Reads.take (input.take count)
    rw [enough] at reads
    exact ⟨input.take count, (List.take_append_drop count input).symm, by rw [enough], reads⟩
  · cases isRead

theorem int32 : ReadsFront StoredReader.int32 :=
  (take 4).bind fun _ => pure _

theorem byte : ReadsFront StoredReader.byte :=
  (take 1).bind fun _ => pure _

theorem coded (field : String) (ofCode? : UInt8 → Option α) :
    ReadsFront (StoredReader.coded field ofCode?) := by
  refine position (fun start => byte.bind fun code => ?_)
    (fun start other => SucceedsLike.bind fun code => ?_)
  · cases ofCode? code with
    | none => exact throw _
    | some found => exact pure found
  · cases ofCode? code with
    | none => exact .throw _ _
    | some found => exact .refl _

theorem text : ReadsFront StoredReader.text := by
  refine (take 2).bind fun count => position (fun start => (take _).bind fun bytes => ?_)
    (fun start other => SucceedsLike.bind fun bytes => ?_)
  · split
    · exact pure none
    · cases Text.ofUtf8? bytes with
      | none => exact throw _
      | some text => exact pure (some text)
  · split
    · exact .refl _
    · cases Text.ofUtf8? bytes with
      | none => exact .throw _ _
      | some text => exact .refl _

theorem value (type : Option PrimitiveType) : ReadsFront (StoredReader.value type) := by
  refine text.bind fun written => ?_
  cases written with
  | none => exact pure none
  | some written =>
      cases parsed : Value.parse written type with
      | ok value =>
          simp only [parsed]
          exact pure (some value)
      | error problem =>
          simp only [parsed]
          exact throw _

theorem token : ReadsFront StoredReader.token :=
  int32.bind fun _ => int32.bind fun _ => int32.bind fun _ => int32.bind fun _ =>
    int32.bind fun _ => (coded _ _).bind fun _ => (coded _ _).bind fun type =>
      (coded _ _).bind fun _ => (coded _ _).bind fun _ => text.bind fun _ =>
        (value type).bind fun _ => (value type).bind fun _ => (value type).bind fun _ =>
          (value type).bind fun _ => text.bind fun _ => text.bind fun _ => text.bind fun _ =>
            text.bind fun _ => text.bind fun _ => pure _

theorem frame : ReadsFront StoredReader.frame :=
  int32.bind fun _ => int32.bind fun _ => int32.bind fun _ => text.bind fun _ =>
    text.bind fun _ => text.bind fun _ => pure _

/-- A reader that succeeds on a stream that was cut short has found there all of the bytes that it
reads in the whole stream. -/
theorem of_cut {reader : StoredReader α} {bytes cut missing more : List UInt8} {value found : α}
    {start : Nat} {next : ByteCursor} (readsFront : ReadsFront reader)
    (reads : Reads reader bytes value) (whole : cut ++ missing = bytes ++ more)
    (isRead : reader ⟨start, cut⟩ = .ok (found, next)) :
    found = value ∧ next.position = start + bytes.length ∧ cut = bytes ++ next.rest ∧
      next.rest ++ missing = more := by
  obtain ⟨front, rfl, isPosition, readsFound⟩ := readsFront isRead
  rw [List.append_assoc] at whole
  have same := reads start more
  rw [← whole, readsFound] at same
  obtain ⟨sameValue, samePosition, sameRest⟩ : found = value ∧
      start + front.length = start + bytes.length ∧ next.rest ++ missing = more := by
    simpa using same
  obtain ⟨rfl, _⟩ := List.append_inj whole (Nat.add_left_cancel samePosition)
  exact ⟨sameValue, isPosition, rfl, sameRest⟩

end ReadsFront

/-! ### A stream of tokens that is cut short -/

/-- The tokens that are read from a stream that was cut short are the first ones of the stream, and
the cut is right behind them. -/
theorem StoredReader.tokens_of_cut {tokens : List Token} {pieces : List (List UInt8)}
    (legible : ∀ token ∈ tokens, token.Legible)
    (isStored : tokens.mapM storedToken = .ok pieces) {bound start : Nat}
    {cut missing : List UInt8} {found : List Token} {next : ByteCursor}
    (whole : cut ++ missing = pieces.flatten) (enough : cut.length ≤ bound)
    (isRead : StoredReader.tokens bound ⟨start, cut⟩ = .ok (found, next)) :
    ∃ count, cut = (pieces.take count).flatten ∧ found = (tokens.take count).map Token.reread := by
  induction tokens generalizing pieces bound start cut found with
  | nil =>
      cases isStored
      obtain ⟨rfl, _⟩ := List.append_eq_nil_iff.mp whole
      rw [StoredReader.tokens_nil] at isRead
      cases isRead
      exact ⟨0, rfl, rfl⟩
  | cons token rest ih =>
      by_cases ended : cut = []
      · subst ended
        rw [StoredReader.tokens_nil] at isRead
        cases isRead
        exact ⟨0, rfl, rfl⟩
      rw [List.forall_mem_cons] at legible
      rw [List.mapM_cons] at isStored
      obtain ⟨bytes, isBytes, isStored⟩ := ok_of_bind isStored
      obtain ⟨others, isOthers, isStored⟩ := ok_of_bind isStored
      cases isStored
      have positive := List.length_pos_of_ne_nil ended
      obtain ⟨less, rfl⟩ : ∃ less, bound = less + 1 := ⟨bound - 1, by omega⟩
      rw [StoredReader.tokens_succ ended] at isRead
      obtain ⟨⟨first, cursor⟩, isFirst, isRead⟩ := ok_of_bind isRead
      obtain ⟨⟨later, last⟩, isLater, isRead⟩ := ok_of_bind isRead
      cases isRead
      rw [List.flatten_cons] at whole
      obtain ⟨rfl, _, rfl, behind⟩ :=
        ReadsFront.token.of_cut (Reads.token legible.1 isBytes) whole isFirst
      have shorter := storedToken_ne_nil isBytes
      rw [List.length_append] at enough
      obtain ⟨count, isRest, rfl⟩ := ih legible.2 isOthers behind (by omega) isLater
      refine ⟨count + 1, ?_, rfl⟩
      rw [isRest, List.take_succ_cons, List.flatten_cons]

/-- What is read from a stored schema that was cut short: its frame and its first tokens. -/
theorem StoredReader.contents_of_cut {identity : SchemaIdentity} {tokens : List Token}
    {frame : List UInt8} {pieces : List (List UInt8)} (legibleFrame : identity.Legible)
    (legible : ∀ token ∈ tokens, token.Legible) (isFrame : storedFrame identity = .ok frame)
    (isStored : tokens.mapM storedToken = .ok pieces) {cut missing : List UInt8}
    (whole : cut ++ missing = frame ++ pieces.flatten) {found : SchemaIdentity × List Token}
    {next : ByteCursor}
    (isRead : StoredReader.contents cut.length ⟨0, cut⟩ = .ok (found, next)) :
    ∃ count, cut = frame ++ (pieces.take count).flatten ∧
      found = (identity, (tokens.take count).map Token.reread) := by
  rw [StoredReader.contents_eq] at isRead
  obtain ⟨⟨foundFrame, cursor⟩, isFirst, isRead⟩ := ok_of_bind isRead
  obtain ⟨⟨all, last⟩, isAll, isRead⟩ := ok_of_bind isRead
  cases isRead
  obtain ⟨rfl, _, isCut, behind⟩ :=
    ReadsFront.frame.of_cut (Reads.frame legibleFrame isFrame) whole isFirst
  have enough : cursor.rest.length ≤ cut.length := by
    rw [isCut, List.length_append]
    exact Nat.le_add_left _ _
  obtain ⟨count, isRest, rfl⟩ := StoredReader.tokens_of_cut legible isStored behind enough isAll
  exact ⟨count, by rw [isCut, isRest], rfl⟩

end WireSchema
