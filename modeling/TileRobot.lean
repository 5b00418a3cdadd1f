import TileRobot.Board.Basic
import TileRobot.Board.Text
import TileRobot.Challenge
import TileRobot.Color
import TileRobot.CommandLine.Arguments
import TileRobot.CommandLine.Command
import TileRobot.CommandLine.Execute
import TileRobot.CommandLine.Help
import TileRobot.Goals
import TileRobot.Heading
import TileRobot.Json.Decode
import TileRobot.Json.Reader
import TileRobot.Json.Token
import TileRobot.Json.Value
import TileRobot.Json.Writer
import TileRobot.Level.Basic
import TileRobot.Level.Document
import TileRobot.Machine.Basic
import TileRobot.Machine.Event
import TileRobot.Machine.Run
import TileRobot.Main
import TileRobot.Position
import TileRobot.Program.Basic
import TileRobot.Program.Parser
import TileRobot.Program.Printer
import TileRobot.Program.Repertoire
import TileRobot.Scene
import TileRobot.Search.Basic
import TileRobot.Search.Report
import TileRobot.Space.Basic
import TileRobot.Space.Odometer
import TileRobot.Space.Phrase
import TileRobot.Space.Word
import TileRobot.Text.Blank
import TileRobot.Text.Numeral
import TileRobot.Text.Quoted
import TileRobot.Text.Split
import TileRobot.Text.Unprintable
import TileRobot.Proofs.Board.Painted
import TileRobot.Proofs.Board.Passable
import TileRobot.Proofs.Board.Reading
import TileRobot.Proofs.Board.Redrawn
import TileRobot.Proofs.CommandLine.Arguments
import TileRobot.Proofs.CommandLine.Confirmation
import TileRobot.Proofs.CommandLine.ExitCode
import TileRobot.Proofs.Json.Extent
import TileRobot.Proofs.Json.Lines
import TileRobot.Proofs.Json.RoundTrip
import TileRobot.Proofs.Json.Tokens
import TileRobot.Proofs.Level.RoundTrip
import TileRobot.Proofs.Machine.Account
import TileRobot.Proofs.Machine.CallReturn
import TileRobot.Proofs.Machine.Collection
import TileRobot.Proofs.Machine.Compaction
import TileRobot.Proofs.Machine.Confinement
import TileRobot.Proofs.Machine.Divergence
import TileRobot.Proofs.Machine.Faults
import TileRobot.Proofs.Machine.Lines
import TileRobot.Proofs.Machine.LockStep
import TileRobot.Proofs.Machine.MoreGoals
import TileRobot.Proofs.Machine.Motion
import TileRobot.Proofs.Machine.Painting
import TileRobot.Proofs.Machine.Path
import TileRobot.Proofs.Machine.Renaming
import TileRobot.Proofs.Machine.Repetition
import TileRobot.Proofs.Machine.Replay
import TileRobot.Proofs.Machine.Reports
import TileRobot.Proofs.Machine.Symmetry
import TileRobot.Proofs.Machine.Termination
import TileRobot.Proofs.Machine.Trace
import TileRobot.Proofs.Machine.Watch
import TileRobot.Proofs.Program.Grammar
import TileRobot.Proofs.Program.Recognition
import TileRobot.Proofs.Program.RoundTrip
import TileRobot.Proofs.Search.Account
import TileRobot.Proofs.Search.Exhaustive
import TileRobot.Proofs.Search.FirstSolution
import TileRobot.Proofs.Search.Limits
import TileRobot.Proofs.Search.Resume
import TileRobot.Proofs.Search.Termination
import TileRobot.Proofs.Search.Turning
import TileRobot.Proofs.Space.Cardinality
import TileRobot.Proofs.Space.Odometer
import TileRobot.Proofs.Space.Order
import TileRobot.Proofs.Space.Restart
import TileRobot.Proofs.Space.Skipping
import TileRobot.Proofs.Space.Unranking
import TileRobot.Proofs.Text.Parts
