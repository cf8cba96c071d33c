import SqlRoutine.Main
import SqlRoutine.Proofs.Body.Bracketing
import SqlRoutine.Proofs.Body.Conservation
import SqlRoutine.Proofs.Body.Discipline
import SqlRoutine.Proofs.Body.Nesting
import SqlRoutine.Proofs.Body.Notes
import SqlRoutine.Proofs.Body.Structure
import SqlRoutine.Proofs.Code.Terminator
import SqlRoutine.Proofs.Expression.Blank
import SqlRoutine.Proofs.LineSource
import SqlRoutine.Proofs.LookAhead
import SqlRoutine.Proofs.Rename.Blocks
import SqlRoutine.Proofs.Routine.Header
import SqlRoutine.Proofs.Routine.Phases
import SqlRoutine.Proofs.Script.Flush
import SqlRoutine.Proofs.Script.Layout
import SqlRoutine.Proofs.Script.Segments
import SqlRoutine.Proofs.Text.Scan
import SqlRoutine.Proofs.Rename.Reference
import SqlRoutine.Proofs.Rename.Idempotence
import SqlRoutine.Proofs.Body.Share
import SqlRoutine.Proofs.Script.Unclosed
import SqlRoutine.Proofs.File.Conversion
import SqlRoutine.Proofs.File.DefaultOutput
import SqlRoutine.Proofs.DataType.Token
import SqlRoutine.Proofs.DataType.Spelling
import SqlRoutine.Proofs.Expression.Sigil
import SqlRoutine.Proofs.Body.Sigil
import SqlRoutine.Proofs.Name.SnakeCase
import SqlRoutine.Proofs.Routine.Flags
import SqlRoutine.Proofs.Script.CalledName
import SqlRoutine.Proofs.Code.Level
import SqlRoutine.Proofs.Body.Selection
import SqlRoutine.Proofs.Body.RowCount
import SqlRoutine.Proofs.Expression.Concatenation
import SqlRoutine.Proofs.Body.Declaration
import SqlRoutine.Proofs.Expression.Trailer
import SqlRoutine.Proofs.Text.Opening
import SqlRoutine.Proofs.Body.Terminator.Line
import SqlRoutine.Proofs.Body.Terminator.Selection
import SqlRoutine.Proofs.Body.Terminator.Reading
import SqlRoutine.Proofs.Body.Terminator.Writing
import SqlRoutine.Proofs.Body.Terminator.Declare
import SqlRoutine.Proofs.Body.Terminator
import SqlRoutine.Proofs.Body.SelfJoin
import SqlRoutine.Proofs.Code.Literal
import SqlRoutine.Proofs.Code.Scanner
import SqlRoutine.Proofs.Expression.CharIndex
import SqlRoutine.Proofs.Rename.Tokens
import SqlRoutine.Proofs.Expression.Respelling
import SqlRoutine.Proofs.Body.Call.Parameters
import SqlRoutine.Proofs.Rename.Control
import SqlRoutine.Proofs.Text.Word
import SqlRoutine.Proofs.Rename.Resolution
import SqlRoutine.Proofs.Rename.Columns
import SqlRoutine.Proofs.Rename.Brackets
import SqlRoutine.Proofs.Expression.Completeness
import SqlRoutine.Proofs.DataType.Varchar
import SqlRoutine.Proofs.Script.ObjectName
import SqlRoutine.Proofs.Routine.ArgumentList
import SqlRoutine.Proofs.Expression.Parts
import SqlRoutine.Proofs.Expression.Call
import SqlRoutine.Proofs.Run
import SqlRoutine.Proofs.Routine.CommentBlock
import SqlRoutine.Proofs.Expression.Balance
import SqlRoutine.Proofs.NameMap
import SqlRoutine.Proofs.Body.Statement
