import WireSchema.Token.Sections
import WireSchema.Stored.Writer
import WireSchema.Stored.Reader
import WireSchema.Decoding.Printout
import WireSchema.Decoding.Reception
import WireSchema.FrontEnd.Car
import WireSchema.Proofs.OlderDecoding
import WireSchema.Proofs.WrittenMessage
import WireSchema.Proofs.StoredRoundTrip
import WireSchema.Proofs.EventScopes
import WireSchema.Proofs.EndPosition
import WireSchema.Proofs.FewerFields
import WireSchema.Proofs.StoredNesting
import WireSchema.Proofs.LocalReading
import WireSchema.Proofs.AdditionOrder
import WireSchema.Proofs.ConstantFolding
import WireSchema.Proofs.LoadedTypes
import WireSchema.Proofs.UntrappedReading
import WireSchema.Proofs.BufferFaults
import WireSchema.Proofs.StoredAgain
import WireSchema.Proofs.TypeReuse
import WireSchema.Proofs.AbsentTypes
import WireSchema.Proofs.GroupWork
import WireSchema.Proofs.FieldPlaces
import WireSchema.Proofs.AtomicAddition
import WireSchema.Proofs.CutSchema
import WireSchema.Proofs.ReloadedOutline
import WireSchema.Proofs.ReadTexts
import WireSchema.Proofs.SharedPrintout
import WireSchema.Proofs.ExactSpans
import WireSchema.Proofs.CompleteCapture
import WireSchema.Proofs.SectionStops
import WireSchema.Proofs.WrittenScalars
import WireSchema.Proofs.SchemaTexts
import WireSchema.Proofs.RefusedTexts
import WireSchema.Proofs.CaptureGrowth
import WireSchema.Proofs.ConstructEnds
