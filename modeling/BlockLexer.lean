import BlockLexer.Main
import BlockLexer.Proofs.Alignment
import BlockLexer.Proofs.BodyBounds
import BlockLexer.Proofs.Comments
import BlockLexer.Proofs.Concatenation
import BlockLexer.Proofs.EndKeyword
import BlockLexer.Proofs.Endings
import BlockLexer.Proofs.Extent
import BlockLexer.Proofs.FailedPulls
import BlockLexer.Proofs.FaultPlaces
import BlockLexer.Proofs.Grammar
import BlockLexer.Proofs.HeaderBounds
import BlockLexer.Proofs.ImportDepth
import BlockLexer.Proofs.MarkerNames
import BlockLexer.Proofs.NumeralValues
import BlockLexer.Proofs.Places
import BlockLexer.Proofs.Printout
import BlockLexer.Proofs.Quoting
import BlockLexer.Proofs.Reindented
import BlockLexer.Proofs.RelativeIndents
import BlockLexer.Proofs.ReservedWords
import BlockLexer.Proofs.RoundTrip
import BlockLexer.Proofs.SkippedImports
import BlockLexer.Proofs.StringValues
import BlockLexer.Proofs.StuckScans
import BlockLexer.Proofs.Suppressed
