import ApiNotes.Main
import ApiNotes.Proofs.Attachment
import ApiNotes.Proofs.Clashes
import ApiNotes.Proofs.Columns
import ApiNotes.Proofs.CommentStyles
import ApiNotes.Proofs.Composition
import ApiNotes.Proofs.Defaults
import ApiNotes.Proofs.DocumentDefaults
import ApiNotes.Proofs.ExampleKeys
import ApiNotes.Proofs.Fields
import ApiNotes.Proofs.FileOrder
import ApiNotes.Proofs.FirstFault
import ApiNotes.Proofs.Languages
import ApiNotes.Proofs.ParsedTypes
import ApiNotes.Proofs.ReadBack
import ApiNotes.Proofs.Refusals
import ApiNotes.Proofs.RoundTrip
import ApiNotes.Proofs.SchemaImages
import ApiNotes.Proofs.SchemaShapes
import ApiNotes.Proofs.Sections
import ApiNotes.Proofs.Slots
import ApiNotes.Proofs.SourceFiles
import ApiNotes.Proofs.StepOrder
import ApiNotes.Proofs.Structure
import ApiNotes.Proofs.TagLines
import ApiNotes.Proofs.Texts
import ApiNotes.Proofs.TypeTokens
import ApiNotes.Proofs.Unmarked
