/-
Module: WireSchema.Proofs.StoredReading
Purpose: Every piece of the stored form is read back from the bytes that were written for it,
  wherever the bytes stand and whatever follows them (`Reads`).  A token is read back with its
  measured span, and its values are those that a schema would read again (`Token.reread`); that
  takes values that were read for the type of the token and that are not written as an empty text,
  since an empty text counts as an absent one.
Main exports: Token.reread, Token.Legible, Reads, StoredReader.contents_stored
-/
import WireSchema.Proofs.StoredMessage
import WireSchema.Proofs.ValueReading
import WireSchema.Stored.Reader
import WireSchema.Stored.Writer

namespace WireSchema

/-! ### What is read back -/

/-- The encoding with one word for all those that are not numbers. -/
def Encoding.canonical (encoding : Encoding) : Encoding :=
  { encoding with
    minValue := encoding.minValue.map Value.canonical
    maxValue := encoding.maxValue.map Value.canonical
    nullValue := encoding.nullValue.map Value.canonical
    constValue := encoding.constValue.map Value.canonical }

/-- The token with one word for all those that are not numbers. -/
def Token.canonical (token : Token) : Token :=
  { token with encoding := token.encoding.canonical }

/-- The token as it is read back: with the span that it shows to others. -/
def Token.reread (token : Token) : Token :=
  token.canonical.withSpan (Int32.ofNat token.span)

/-- Whether a value was read from a schema for a type and is not written as an empty text. -/
def Value.Legible (type : Option PrimitiveType) (value : Value) : Prop :=
  (∃ text, Value.parse text type = .ok value) ∧ value.schemaText type ≠ ""

/-- The values that an encoding lists. -/
def Encoding.values (encoding : Encoding) : List Value :=
  encoding.constValue.toList ++ encoding.minValue.toList ++ encoding.maxValue.toList ++
    encoding.nullValue.toList

/-- The optional texts of a token. -/
def Token.remarks (token : Token) : List (Option String) :=
  [token.encoding.characterEncoding, token.encoding.epoch, token.encoding.timeUnit,
    token.encoding.semanticType, token.description]

/-- Whether a token can be read back: its values are legible, and no optional text is there and
empty. -/
structure Token.Legible (token : Token) : Prop where
  values : ∀ value ∈ token.encoding.values, value.Legible token.encoding.primitiveType
  remarks : some "" ∉ token.remarks

/-- Whether no optional text of the frame is there and empty. -/
structure SchemaIdentity.Legible (identity : SchemaIdentity) : Prop where
  namespaceName : identity.namespaceName ≠ some ""
  semanticVersion : identity.semanticVersion ≠ some ""

/-! ### Readers and the bytes that they read -/

/-- A reader reads a value from some bytes wherever they stand, and stops behind them. -/
def Reads {α : Type} (reader : StoredReader α) (bytes : List UInt8) (value : α) : Prop :=
  ∀ position rest,
    reader ⟨position, bytes ++ rest⟩ = .ok (value, ⟨position + bytes.length, rest⟩)

namespace Reads

theorem pure {α : Type} (value : α) : Reads (Pure.pure value) [] value :=
  fun _ _ => rfl

/-- A reader that goes on after the first step goes on behind the bytes of that step. -/
theorem step {α β : Type} {first : StoredReader α} {bytes : List UInt8} {value : α}
    (one : Reads first bytes value) (next : α → StoredReader β) (position : Nat)
    (rest : List UInt8) :
    (first >>= next) ⟨position, bytes ++ rest⟩ = next value ⟨position + bytes.length, rest⟩ := by
  have run : (first >>= next) ⟨position, bytes ++ rest⟩ =
      (first ⟨position, bytes ++ rest⟩).bind fun (found, cursor) => next found cursor := rfl
  rw [run, one]
  rfl

theorem bind {α β : Type} {first : StoredReader α} {next : α → StoredReader β}
    {bytes more : List UInt8} {value : α} {result : β} (one : Reads first bytes value)
    (other : Reads (next value) more result) : Reads (first >>= next) (bytes ++ more) result := by
  intro position rest
  rw [List.append_assoc, one.step, other, List.length_append, Nat.add_assoc]

/-- A reader that needs no more bytes after the first step. -/
theorem finish {α β : Type} {first : StoredReader α} {next : α → StoredReader β}
    {bytes : List UInt8} {value : α} {result : β} (one : Reads first bytes value)
    (other : Reads (next value) [] result) : Reads (first >>= next) bytes result := by
  have both := one.bind other
  rwa [List.append_nil] at both

/-- A reader that continues alike from every position. -/
theorem position {α : Type} {next : Nat → StoredReader α} {bytes : List UInt8} {value : α}
    (alike : ∀ start, Reads (next start) bytes value) :
    Reads (StoredReader.position >>= next) bytes value :=
  fun start rest => alike start start rest

theorem take (bytes : List UInt8) : Reads (StoredReader.take bytes.length) bytes bytes := by
  intro position rest
  simp [StoredReader.take]

theorem byte (value : UInt8) : Reads StoredReader.byte [value] value := by
  have read : Reads StoredReader.byte [value] _ := (take [value]).finish (pure _)
  have word : UInt8.ofNat (ofLittleEndian [value]) = value := by
    simp [ofLittleEndian]
  rwa [word] at read

theorem int32 (number : Int32) : Reads StoredReader.int32 (storedInt32 number) number := by
  have taken := take (storedInt32 number)
  rw [storedInt32, length_littleEndian] at taken
  have read : Reads StoredReader.int32 (littleEndian 4 number.toUInt32.toNat) _ :=
    taken.finish (pure _)
  have small : number.toUInt32.toNat < wordCount 4 := number.toUInt32.toNat_lt
  have word : (UInt32.ofNat (ofLittleEndian (littleEndian 4 number.toUInt32.toNat))).toInt32 =
      number := by
    rw [ofLittleEndian_littleEndian, Nat.mod_eq_of_lt small, UInt32.ofNat_toNat,
      Int32.toInt32_toUInt32]
  rwa [word] at read

theorem coded {α : Type} {field : String} {ofCode? : UInt8 → Option α} {code : UInt8} {value : α}
    (known : ofCode? code = some value) :
    Reads (StoredReader.coded field ofCode?) [code] value := by
  refine position fun start => (byte code).finish ?_
  rw [known]
  exact pure value

/-- A text that two bytes can count is read; an empty one is read as an absent one. -/
theorem spelled (content : String) (short : (Text.utf8Bytes content).length < 65536) :
    Reads StoredReader.text
      (littleEndian 2 (Text.utf8Bytes content).length ++ Text.utf8Bytes content)
      ((some content).filter (· ≠ "")) := by
  generalize isBytes : Text.utf8Bytes content = spelled at short ⊢
  have counted := take (littleEndian 2 spelled.length)
  rw [length_littleEndian] at counted
  have length : ofLittleEndian (littleEndian 2 spelled.length) = spelled.length := by
    rw [ofLittleEndian_littleEndian]
    exact Nat.mod_eq_of_lt (by rw [wordCount, wordCount, wordCount]; omega)
  have taken := take spelled
  refine counted.bind (position fun start => ?_)
  rw [length]
  refine taken.finish ?_
  by_cases empty : spelled = []
  · subst empty
    rw [if_pos rfl, Text.utf8Bytes_eq_nil isBytes]
    exact pure none
  · have nonempty : content ≠ "" := by
      rintro rfl
      exact empty isBytes.symm
    have isText : (some content).filter (· ≠ "") = some content := by
      simp [Option.filter, nonempty]
    rw [if_neg empty, isText, ← isBytes, Text.ofUtf8?_utf8Bytes]
    exact pure _

/-- A text is read back; an empty one is read as an absent one. -/
theorem text {written : String × Option String} {bytes : List UInt8}
    (isStored : storedText written = .ok bytes) :
    Reads StoredReader.text bytes (written.2.filter (· ≠ "")) := by
  obtain ⟨field, content⟩ := written
  rw [storedText] at isStored
  split at isStored
  · cases isStored
  rename_i short
  cases isStored
  change ¬65534 < (Text.utf8Bytes (content.getD "")).length at short
  have read := spelled (content.getD "") (by omega)
  have sameText : (some (content.getD "")).filter (· ≠ "") = content.filter (· ≠ "") := by
    cases content <;> rfl
  rwa [sameText] at read

/-- A legible value is read back from its text. -/
theorem value {field : String} {type : Option PrimitiveType} {content : Option Value}
    {bytes : List UInt8} (legible : ∀ value ∈ content, value.Legible type)
    (isStored : storedText (field, content.map fun value => value.schemaText type) = .ok bytes) :
    Reads (StoredReader.value type) bytes (content.map Value.canonical) := by
  have read := text isStored
  cases content with
  | none => exact read.finish (pure none)
  | some known =>
      obtain ⟨⟨source, isRead⟩, nonempty⟩ := legible known rfl
      have kept : Option.filter (· ≠ "") (some (known.schemaText type)) =
          some (known.schemaText type) := by
        simp [Option.filter, nonempty]
      rw [Option.map_some, kept] at read
      refine read.finish ?_
      simp only [Value.parse_schemaText isRead]
      exact pure _

end Reads

/-! ### Tokens -/

/-- The bytes of several texts are those of the first and of the others. -/
theorem storedTexts_cons {first : String × Option String} {others : List (String × Option String)}
    {bytes : List UInt8} (isStored : storedTexts (first :: others) = .ok bytes) :
    ∃ front back, storedText first = .ok front ∧ storedTexts others = .ok back ∧
      bytes = front ++ back := by
  rw [storedTexts, List.mapM_cons] at isStored
  cases one : storedText first with
  | error problem =>
      rw [one] at isStored
      cases isStored
  | ok front =>
      cases rest : others.mapM storedText with
      | error problem =>
          rw [one, rest] at isStored
          cases isStored
      | ok pieces =>
          rw [one, rest] at isStored
          cases isStored
          refine ⟨front, pieces.flatten, rfl, ?_, rfl⟩
          rw [storedTexts, rest]
          rfl

theorem filter_nonempty {text : Option String} (present : text ≠ some "") :
    text.filter (· ≠ "") = text := by
  cases text with
  | none => rfl
  | some content =>
      have nonempty : content ≠ "" := fun empty => present (congrArg some empty)
      simp [Option.filter, nonempty]

theorem getD_filter_nonempty (text : String) :
    ((some text).filter (· ≠ "")).getD "" = text := by
  by_cases empty : text = ""
  · simp [Option.filter, empty]
  · simp [Option.filter, empty]

/-- The bytes of each text of a token. -/
structure TokenPieces (token : Token) where
  name : List UInt8
  isName : storedText ("name", some token.name) = .ok name
  constValue : List UInt8
  isConst : storedText ("const_value", token.encoding.constValue.map fun value =>
    value.schemaText token.encoding.primitiveType) = .ok constValue
  minValue : List UInt8
  isMin : storedText ("min_value", token.encoding.minValue.map fun value =>
    value.schemaText token.encoding.primitiveType) = .ok minValue
  maxValue : List UInt8
  isMax : storedText ("max_value", token.encoding.maxValue.map fun value =>
    value.schemaText token.encoding.primitiveType) = .ok maxValue
  nullValue : List UInt8
  isNull : storedText ("null_value", token.encoding.nullValue.map fun value =>
    value.schemaText token.encoding.primitiveType) = .ok nullValue
  characters : List UInt8
  isCharacters : storedText ("character_encoding", token.encoding.characterEncoding) =
    .ok characters
  epoch : List UInt8
  isEpoch : storedText ("epoch", token.encoding.epoch) = .ok epoch
  unit : List UInt8
  isUnit : storedText ("time_unit", token.encoding.timeUnit) = .ok unit
  semantics : List UInt8
  isSemantics : storedText ("semantic_type", token.encoding.semanticType) = .ok semantics
  description : List UInt8
  isDescription : storedText ("description", token.description) = .ok description

/-- All these bytes, one text after another. -/
def TokenPieces.bytes {token : Token} (pieces : TokenPieces token) : List UInt8 :=
  pieces.name ++ (pieces.constValue ++ (pieces.minValue ++ (pieces.maxValue ++ (pieces.nullValue ++
    (pieces.characters ++ (pieces.epoch ++ (pieces.unit ++ (pieces.semantics ++
      (pieces.description ++ [])))))))))

/-- The bytes of a token are those of its block and of its texts. -/
theorem storedToken_pieces {token : Token} {bytes : List UInt8}
    (isStored : storedToken token = .ok bytes) :
    ∃ pieces : TokenPieces token, bytes = tokenBlock token ++ pieces.bytes := by
  obtain ⟨texts, isTexts, rfl⟩ := ok_of_map isStored
  obtain ⟨name, _, isName, afterName, rfl⟩ := storedTexts_cons isTexts
  obtain ⟨constValue, _, isConst, afterConst, rfl⟩ := storedTexts_cons afterName
  obtain ⟨minValue, _, isMin, afterMin, rfl⟩ := storedTexts_cons afterConst
  obtain ⟨maxValue, _, isMax, afterMax, rfl⟩ := storedTexts_cons afterMin
  obtain ⟨nullValue, _, isNull, afterNull, rfl⟩ := storedTexts_cons afterMax
  obtain ⟨characters, _, isCharacters, afterCharacters, rfl⟩ := storedTexts_cons afterNull
  obtain ⟨epoch, _, isEpoch, afterEpoch, rfl⟩ := storedTexts_cons afterCharacters
  obtain ⟨unit, _, isUnit, afterUnit, rfl⟩ := storedTexts_cons afterEpoch
  obtain ⟨semantics, _, isSemantics, afterSemantics, rfl⟩ := storedTexts_cons afterUnit
  obtain ⟨description, _, isDescription, afterAll, rfl⟩ := storedTexts_cons afterSemantics
  cases afterAll
  exact ⟨⟨name, isName, constValue, isConst, minValue, isMin, maxValue, isMax, nullValue, isNull,
    characters, isCharacters, epoch, isEpoch, unit, isUnit, semantics, isSemantics, description,
    isDescription⟩, rfl⟩

/-- The block of a token in front of what follows it, piece by piece. -/
theorem tokenBlock_append (token : Token) (rest : List UInt8) :
    tokenBlock token ++ rest =
      storedInt32 token.offset ++ (storedInt32 token.encodedLength ++ (storedInt32 token.id ++
        (storedInt32 token.version ++ (storedInt32 (Int32.ofNat token.span) ++
          ([token.signal.code] ++ ([typeCode token.encoding.primitiveType] ++
            ([token.encoding.byteOrder.code] ++
              ([token.encoding.presence.code] ++ rest)))))))) := by
  simp [tokenBlock]

/-- A legible token is read back from its bytes. -/
theorem Reads.token {token : Token} {bytes : List UInt8} (legible : token.Legible)
    (isStored : storedToken token = .ok bytes) :
    Reads StoredReader.token bytes token.reread := by
  obtain ⟨pieces, rfl⟩ := storedToken_pieces isStored
  have values := fun value member => legible.values value member
  have remarks := legible.remarks
  simp only [Encoding.values, List.mem_append, Option.mem_toList] at values
  simp only [Token.remarks, List.mem_cons, List.not_mem_nil, or_false, not_or] at remarks
  obtain ⟨someCharacters, someEpoch, someUnit, someSemantics, someDescription⟩ := remarks
  have readName := Reads.text pieces.isName
  have readConst := Reads.value (fun value member => values value (.inl (.inl (.inl member))))
    pieces.isConst
  have readMin := Reads.value (fun value member => values value (.inl (.inl (.inr member))))
    pieces.isMin
  have readMax := Reads.value (fun value member => values value (.inl (.inr member))) pieces.isMax
  have readNull := Reads.value (fun value member => values value (.inr member)) pieces.isNull
  have readCharacters := Reads.text pieces.isCharacters
  have readEpoch := Reads.text pieces.isEpoch
  have readUnit := Reads.text pieces.isUnit
  have readSemantics := Reads.text pieces.isSemantics
  have readDescription := Reads.text pieces.isDescription
  rw [filter_nonempty (Ne.symm someCharacters)] at readCharacters
  rw [filter_nonempty (Ne.symm someEpoch)] at readEpoch
  rw [filter_nonempty (Ne.symm someUnit)] at readUnit
  rw [filter_nonempty (Ne.symm someSemantics)] at readSemantics
  rw [filter_nonempty (Ne.symm someDescription)] at readDescription
  rw [tokenBlock_append]
  refine (Reads.int32 _).bind ((Reads.int32 _).bind ((Reads.int32 _).bind ((Reads.int32 _).bind
    ((Reads.int32 _).bind ?_))))
  refine (Reads.coded (Signal.ofCode?_code _)).bind ((Reads.coded (typeOfCode?_typeCode _)).bind
    ((Reads.coded (ByteOrder.ofCode?_code _)).bind ((Reads.coded (Presence.ofCode?_code _)).bind
      ?_)))
  refine readName.bind (readConst.bind (readMin.bind (readMax.bind (readNull.bind
    (readCharacters.bind (readEpoch.bind (readUnit.bind (readSemantics.bind
      (readDescription.bind ?_)))))))))
  have isName : (Option.filter (fun text => decide (text ≠ "")) (some token.name)).getD "" =
      token.name := getD_filter_nonempty token.name
  simp only [isName]
  exact Reads.pure _

/-- No token is shorter than a byte. -/
theorem storedToken_ne_nil {token : Token} {bytes : List UInt8}
    (isStored : storedToken token = .ok bytes) : 0 < bytes.length := by
  obtain ⟨texts, _, rfl⟩ := ok_of_map isStored
  simp [tokenBlock]

/-- Where the input has not ended, a token is read and then the others. -/
theorem StoredReader.tokens_succ {input : List UInt8} (more : input ≠ []) (bound position : Nat) :
    StoredReader.tokens (bound + 1) ⟨position, input⟩ =
      (StoredReader.token ⟨position, input⟩).bind fun (first, cursor) =>
        (StoredReader.tokens bound cursor).bind fun (others, cursor) =>
          .ok (first :: others, cursor) := by
  change (if input = [] then (Pure.pure [] : StoredReader (List Token)) else _)
    ⟨position, input⟩ = _
  rw [if_neg more]
  rfl

theorem StoredReader.tokens_nil (bound position : Nat) :
    StoredReader.tokens bound ⟨position, []⟩ = .ok ([], ⟨position, []⟩) := by
  cases bound <;> rfl

/-- Tokens are read back up to the end of the input, if the bound on their number allows it. -/
theorem StoredReader.tokens_stored {tokens : List Token} {pieces : List (List UInt8)}
    (legible : ∀ token ∈ tokens, token.Legible)
    (isStored : tokens.mapM storedToken = .ok pieces) (bound position : Nat)
    (enough : pieces.flatten.length ≤ bound) :
    StoredReader.tokens bound ⟨position, pieces.flatten⟩ =
      .ok (tokens.map Token.reread, ⟨position + pieces.flatten.length, []⟩) := by
  induction tokens generalizing pieces bound position with
  | nil =>
      cases isStored
      exact StoredReader.tokens_nil bound position
  | cons token rest ih =>
      rw [List.mapM_cons] at isStored
      obtain ⟨bytes, isBytes, isStored⟩ := ok_of_bind isStored
      obtain ⟨others, isOthers, isStored⟩ := ok_of_bind isStored
      cases isStored
      have nonempty := storedToken_ne_nil isBytes
      rw [List.flatten_cons, List.length_append] at enough
      obtain ⟨less, rfl⟩ : ∃ less, bound = less + 1 := ⟨bound - 1, by omega⟩
      have first := Reads.token (legible token List.mem_cons_self) isBytes position others.flatten
      have later := ih (fun other member => legible other (List.mem_cons_of_mem token member))
        isOthers less (position + bytes.length) (by omega)
      have more : bytes ++ others.flatten ≠ [] := by
        intro empty
        have none := congrArg List.length empty
        rw [List.length_append, List.length_nil] at none
        omega
      rw [List.flatten_cons, StoredReader.tokens_succ more, first]
      simp only [Except.bind, later, List.map_cons, List.length_append, Nat.add_assoc]

/-! ### The whole input -/

/-- The frame of a stored schema. -/
def StoredReader.frame : StoredReader SchemaIdentity := do
  let id ← int32
  let _storedVersion ← int32
  let version ← int32
  let packageName ← text
  let namespaceName ← text
  let semanticVersion ← text
  return { packageName := packageName.getD "", namespaceName, id, version, semanticVersion }

theorem StoredReader.contents_eq (length : Nat) :
    StoredReader.contents length = do
      let identity ← StoredReader.frame
      let all ← StoredReader.tokens length
      return (identity, all) := by
  simp only [contents, frame, bind_assoc, pure_bind]

/-- The frame of a stored schema is read back. -/
theorem Reads.frame {identity : SchemaIdentity} {bytes : List UInt8}
    (legible : identity.Legible) (isStored : storedFrame identity = .ok bytes) :
    Reads StoredReader.frame bytes identity := by
  obtain ⟨texts, isTexts, rfl⟩ := ok_of_map isStored
  obtain ⟨package, _, isPackage, afterPackage, rfl⟩ := storedTexts_cons isTexts
  obtain ⟨space, _, isSpace, afterSpace, rfl⟩ := storedTexts_cons afterPackage
  obtain ⟨semantic, _, isSemantic, afterAll, rfl⟩ := storedTexts_cons afterSpace
  obtain rfl : [] = _ := Except.ok.inj afterAll
  have readPackage := Reads.text isPackage
  have readSpace := Reads.text isSpace
  have readSemantic := Reads.text isSemantic
  rw [filter_nonempty legible.namespaceName] at readSpace
  rw [filter_nonempty legible.semanticVersion] at readSemantic
  simp only [List.append_assoc]
  refine (Reads.int32 _).bind ((Reads.int32 _).bind ((Reads.int32 _).bind (readPackage.bind
    (readSpace.bind (readSemantic.bind ?_)))))
  rw [getD_filter_nonempty]
  exact Reads.pure _

/-- A frame that is read and the tokens of a stored schema are read back together. -/
theorem StoredReader.contents_stored {identity : SchemaIdentity} {tokens : List Token}
    {frame : List UInt8} {pieces : List (List UInt8)}
    (readsFrame : Reads StoredReader.frame frame identity)
    (legible : ∀ token ∈ tokens, token.Legible)
    (isStored : tokens.mapM storedToken = .ok pieces) :
    ∃ cursor, StoredReader.contents (frame ++ pieces.flatten).length ⟨0, frame ++ pieces.flatten⟩ =
      .ok ((identity, tokens.map Token.reread), cursor) := by
  have enough : pieces.flatten.length ≤ (frame ++ pieces.flatten).length := by
    rw [List.length_append]
    exact Nat.le_add_left _ _
  have read := StoredReader.tokens_stored legible isStored _ (0 + frame.length) enough
  refine ⟨⟨0 + frame.length + pieces.flatten.length, []⟩, ?_⟩
  rw [StoredReader.contents_eq, readsFrame.step]
  change (StoredReader.tokens _ ⟨0 + frame.length, pieces.flatten⟩).bind (fun (all, cursor) =>
    .ok ((identity, all), cursor)) = _
  rw [read]
  rfl

end WireSchema
