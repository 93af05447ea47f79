import IndentMarkup.Embedding
import IndentMarkup.Main
import IndentMarkup.Proofs.Alignment
import IndentMarkup.Proofs.Outline
import IndentMarkup.Proofs.FirstFault
import IndentMarkup.Proofs.Group
import IndentMarkup.Proofs.Name
import IndentMarkup.Proofs.Tail
import IndentMarkup.Proofs.Declaration
import IndentMarkup.Proofs.Origin
import IndentMarkup.Proofs.ElementLine
import IndentMarkup.Proofs.Discipline
import IndentMarkup.Proofs.Relocation
import IndentMarkup.Proofs.Ignored
import IndentMarkup.Proofs.Emission
import IndentMarkup.Proofs.Diagnostics
import IndentMarkup.Proofs.Nesting
import IndentMarkup.Proofs.Sequence
import IndentMarkup.Proofs.Lines
import IndentMarkup.Proofs.Decoding
import IndentMarkup.Proofs.Recompilation
import IndentMarkup.Proofs.Shape
import IndentMarkup.Proofs.LineEnding
import IndentMarkup.Proofs.Interleaving
import IndentMarkup.Proofs.BatchReport
import IndentMarkup.Proofs.DashLine
import IndentMarkup.Proofs.Condition
import IndentMarkup.Proofs.ControlWord
import IndentMarkup.Proofs.DashKinds
import IndentMarkup.Proofs.Storage
import IndentMarkup.Proofs.Streams
import IndentMarkup.Proofs.Targets
import IndentMarkup.Proofs.Saving
import IndentMarkup.Proofs.Slice
import IndentMarkup.Proofs.Encoded
