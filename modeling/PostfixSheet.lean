import PostfixSheet.Formula.Workspace
import PostfixSheet.Main
import PostfixSheet.Table.Sink
import PostfixSheet.Proofs.Formula.PostfixOrder
import PostfixSheet.Proofs.Table.LineBreaks
import PostfixSheet.Proofs.Table.Placement
import PostfixSheet.Proofs.Text.Utf8RoundTrip
import PostfixSheet.Proofs.Cell.AddressText
import PostfixSheet.Proofs.Table.Delivery
import PostfixSheet.Proofs.Table.DocumentOrder
import PostfixSheet.Proofs.Table.RecordLines
import PostfixSheet.Proofs.Table.EncodedRecords
import PostfixSheet.Proofs.Table.RowRoundTrip
import PostfixSheet.Proofs.Number.NumberText
import PostfixSheet.Proofs.Text.Words
import PostfixSheet.Proofs.Formula.Folding
import PostfixSheet.Proofs.Formula.StackMachine
import PostfixSheet.Proofs.Formula.PostfixText
import PostfixSheet.Proofs.Table.FieldBreaks
import PostfixSheet.Proofs.Table.Reevaluation
import PostfixSheet.Proofs.Table.WrittenRows
import PostfixSheet.Proofs.Table.UndecodableRecords
import PostfixSheet.Proofs.Table.ByteOrderMark
import PostfixSheet.Proofs.Table.TextDocuments
import PostfixSheet.Proofs.Table.ContinuedDocuments
import PostfixSheet.Proofs.Table.Dependence
import PostfixSheet.Proofs.Table.StandIns
import PostfixSheet.Proofs.Table.InPlace
import PostfixSheet.Proofs.Formula.AddressNames
import PostfixSheet.Proofs.Formula.MaximalFolding
import PostfixSheet.Proofs.Formula.FirstError
import PostfixSheet.Proofs.Formula.NamesRead
import PostfixSheet.Proofs.Formula.Respelling
import PostfixSheet.Proofs.Table.EscapedLines
import PostfixSheet.Proofs.Cell.ColumnLabels
import PostfixSheet.Proofs.Cell.ColumnWords
import PostfixSheet.Proofs.Cell.AddressGrammar
import PostfixSheet.Proofs.Formula.SameTrees
import PostfixSheet.Proofs.Formula.InfixText
import PostfixSheet.Proofs.Table.NumberFormulas
import PostfixSheet.Table.Reader
import PostfixSheet.Proofs.Table.LinePieces
import PostfixSheet.Proofs.Table.ReaderSlices
import PostfixSheet.Proofs.Command.OutputModes
