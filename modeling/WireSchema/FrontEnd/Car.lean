/-
Module: WireSchema.FrontEnd.Car
Purpose: A complete schema with a message in which every construct occurs, and a message of it in
  bytes.  The root block has 51 bytes; the last field of the block and the last variable data came
  in with version one of the schema, before which the block had 47 bytes.
Main exports: carMessage, carDraft, carSchema, carBuffer
-/
import WireSchema.Bytes.LittleEndian
import WireSchema.FrontEnd.Constructs
import WireSchema.Number.Binary64
import WireSchema.Schema.Draft

namespace WireSchema.FrontEnd

/-- The number of the car schema. -/
def carSchemaId : Int32 := 1

/-- The version of the car schema. -/
def carSchemaVersion : Int32 := 1

/-- The template of the car message. -/
def carTemplateId : Int32 := 1

/-- The length of the root block, which grew by a field of four bytes in version one. -/
def carBlockLength (version : UInt16) : UInt16 :=
  if 1 ≤ version then 51 else 47

/-- The models of the car, an enum of characters. -/
def modelEnum (offset : Int32) : Except UnreadableValue (List Token) :=
  enumType "Model" .char offset [("A", "A"), ("B", "B"), ("C", "C")]

/-- The engine of the car, a composite with two constants and a composite inside. -/
def engine : Except UnreadableValue (List Token) := do
  let maxRpm ← constant "maxRpm" .uint16 3 "9000"
  let fuel ← constant "fuel" .char 6 "Petrol"
  let boostType ← enumType "BoostType" .char 0
    [("TURBO", "T"), ("SUPERCHARGER", "S"), ("NITROUS", "N"), ("KERS", "K")]
  let booster := composite "Booster" 6 2 (boostType ++ [encoding "horsePower" .uint8 1])
  .ok (composite "Engine" 39 8
    ([encoding "capacity" .uint16 0, encoding "numCylinders" .uint8 2, maxRpm,
      array "manufacturerCode" .char 3 3, fuel] ++ booster))

/-- The group of fuel figures, with variable data. -/
def fuelFiguresGroup : List Token :=
  group "fuelFigures" 11 6
    (field "speed" 12 [encoding "uint16" .uint16 0] ++
      field "mpg" 13 [encoding "float" .float 2] ++
      varData "usageDescription" 14 (some "UTF-8"))

/-- The group of performance figures, with a group inside. -/
def performanceFiguresGroup : List Token :=
  let acceleration :=
    field "mph" 18 [encoding "uint16" .uint16 0] ++ field "seconds" 19 [encoding "float" .float 2]
  group "performanceFigures" 15 1
    (field "octaneRating" 16 [encoding "Octane" .uint8 0] ++
      group "acceleration" 17 6 acceleration)

/-- The tokens of the car message. -/
def carMessage : Except UnreadableValue (List Token) := do
  let available ← enumType "BooleanType" .uint8 10 [("F", "0"), ("T", "1")]
  let code ← modelEnum 11
  let discounted ← modelEnum 39
  let engineTokens ← engine
  let extras := setType "OptionalExtras" .uint8 38
    [("sunRoof", 0), ("sportsPack", 1), ("cruiseControl", 2)]
  let fields :=
    field "serialNumber" 1 [encoding "uint64" .uint64 0] ++
      field "modelYear" 2 [encoding "ModelYear" .uint16 8] ++
      field "available" 3 available ++
      field "code" 4 code ++
      field "someNumbers" 5 [array "someNumbers" .uint32 12 5] ++
      field "vehicleCode" 6 [array "VehicleCode" .char 32 6] ++
      field "extras" 7 extras ++
      constantEnumField "discountedModel" 8 "Model.C" discounted ++
      field "engine" 9 engineTokens ++
      since 1 (field "fuelRating" 10 [optional "FuelRating" .int32 47])
  let data :=
    varData "make" 20 (some "UTF-8") ++ varData "model" 21 (some "UTF-8") ++
      since 1 (varData "activationCode" 22 (some "UTF-8"))
  .ok (message "Car" carTemplateId 51
    (fields ++ fuelFiguresGroup ++ performanceFiguresGroup ++ data))

/-- A draft with the header and the identity of the car schema, still without messages. -/
def carDraft (options : SchemaOptions) : SchemaDraft :=
  { options, headerTokens,
    identity :=
      { packageName := "baseline", namespaceName := some "sbe.baseline", id := carSchemaId,
        version := carSchemaVersion, semanticVersion := some "5.2" } }

/-- The car schema, given the tokens of its one message. -/
def carSchema (options : SchemaOptions) (tokens : List Token) : Except SchemaError Schema := do
  let draft ← (carDraft options).addMessage carTemplateId.toInt64 tokens
  draft.build

/-- The four bytes of a decimal number in the format of 32 bits. -/
def singleBytes (number : Decimal) : List UInt8 :=
  littleEndian 4 (BinaryFormat.single.ofDecimal number)

/-- The speed, the miles per gallon and the description of each fuel figure. -/
def fuelFigures : List (UInt16 × Decimal × String) :=
  [(30, ⟨359, -1⟩, "Urban Cycle"), (55, ⟨49, 0⟩, "Combined Cycle"), (75, ⟨40, 0⟩, "Highway Cycle")]

/-- The octane rating of each performance figure, and the speeds and seconds of its
accelerations. -/
def performanceFigures : List (UInt8 × List (UInt16 × Decimal)) :=
  [(95, [(30, ⟨4, 0⟩), (60, ⟨75, -1⟩), (100, ⟨122, -1⟩)]),
    (99, [(30, ⟨38, -1⟩), (60, ⟨71, -1⟩), (100, ⟨118, -1⟩)])]

/-- The root block of the car message. -/
def carBlock (version : UInt16) : List UInt8 :=
  littleEndian 8 1234 ++ littleEndian 2 2013 ++ [1, 65] ++
    (List.range 5).flatMap (littleEndian 4) ++ Text.utf8Bytes "abcdef" ++ [6] ++
    littleEndian 2 2000 ++ [4] ++ Text.utf8Bytes "123" ++ [78, 200] ++
    (if 1 ≤ version then littleEndian 4 7 else [])

/-- A car message with its header, as a sender of a version writes it. -/
def carBuffer (version : UInt16) : List UInt8 :=
  headerBytes (carBlockLength version) 1 1 version ++ carBlock version ++
    groupHeaderBytes 6 3 ++
    fuelFigures.flatMap (fun (speed, milesPerGallon, description) =>
      littleEndian 2 speed.toNat ++ singleBytes milesPerGallon ++
        varDataBytes (Text.utf8Bytes description)) ++
    groupHeaderBytes 1 2 ++
    performanceFigures.flatMap (fun (octane, accelerations) =>
      octane :: (groupHeaderBytes 6 (UInt16.ofNat accelerations.length) ++
        accelerations.flatMap fun (speed, seconds) =>
          littleEndian 2 speed.toNat ++ singleBytes seconds)) ++
    varDataBytes (Text.utf8Bytes "Honda") ++ varDataBytes (Text.utf8Bytes "Civic VTi") ++
    (if 1 ≤ version then varDataBytes (Text.utf8Bytes "deadbeef") else [])

end WireSchema.FrontEnd
