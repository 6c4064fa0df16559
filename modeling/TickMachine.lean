import TickMachine.Main
import TickMachine.Tool.Directory
import TickMachine.Proofs.Attempts
import TickMachine.Proofs.Text.Cutting
import TickMachine.Proofs.Text.Numeral
import TickMachine.Proofs.Text.Digits
import TickMachine.Proofs.Binary.Written
import TickMachine.Proofs.Binary.Nearest
import TickMachine.Proofs.Binary.Denoted
import TickMachine.Proofs.Machine.Control
import TickMachine.Proofs.Machine.Moves
import TickMachine.Proofs.Machine.Typed
import TickMachine.Proofs.Machine.Faults
import TickMachine.Proofs.Machine.Frame
import TickMachine.Proofs.Machine.Confined
import TickMachine.Proofs.Machine.WellFormed
import TickMachine.Proofs.Machine.Pace
import TickMachine.Proofs.Machine.Exact
import TickMachine.Proofs.Machine.Copies
import TickMachine.Proofs.Registry.Commands
import TickMachine.Proofs.Registry.History
import TickMachine.Proofs.Registry.Tick
import TickMachine.Proofs.Registry.Isolation
import TickMachine.Proofs.Registry.Lookup
import TickMachine.Proofs.Registry.Lifecycle
import TickMachine.Proofs.Registry.InPlace
import TickMachine.Proofs.Registry.Identity
import TickMachine.Proofs.Registry.Budget
import TickMachine.Proofs.Registry.Following
import TickMachine.Proofs.Registry.Pausing
import TickMachine.Proofs.Registry.Resetting
import TickMachine.Proofs.Image.Codec
import TickMachine.Proofs.Image.LongTexts
import TickMachine.Proofs.Image.Truncation
import TickMachine.Proofs.Assembly.Passes
import TickMachine.Proofs.Assembly.Lines
import TickMachine.Proofs.Assembly.Encoding
import TickMachine.Proofs.Assembly.Mistakes
import TickMachine.Proofs.Assembly.FirstMistake
import TickMachine.Proofs.Assembly.TypeSafety
import TickMachine.Proofs.Assembly.Labelled
import TickMachine.Proofs.Assembly.LabelElimination
import TickMachine.Proofs.Assembly.Listing
import TickMachine.Proofs.Assembly.Relisting
import TickMachine.Proofs.Assembly.Layout
import TickMachine.Proofs.Assembly.Scanning
import TickMachine.Proofs.Source.Grammar
import TickMachine.Proofs.Source.Phrases
import TickMachine.Proofs.Source.Program
import TickMachine.Proofs.Source.Policies
import TickMachine.Proofs.Source.Faults
import TickMachine.Proofs.Source.Lexemes
import TickMachine.Proofs.Source.Cover
import TickMachine.Proofs.Source.Classes
import TickMachine.Proofs.Source.Spoiled
import TickMachine.Proofs.Source.Recovery
import TickMachine.Proofs.Source.Names
import TickMachine.Proofs.Source.Balance
import TickMachine.Proofs.Source.Losses
import TickMachine.Proofs.Source.Inside
import TickMachine.Proofs.Source.Joining
import TickMachine.Proofs.Source.Nodes
import TickMachine.Proofs.Source.Descent
import TickMachine.Proofs.Source.Shape
import TickMachine.Proofs.Source.Mismatches
import TickMachine.Proofs.Source.Breaks
import TickMachine.Proofs.Source.Seams
import TickMachine.Proofs.Source.Printing
import TickMachine.Proofs.Source.Horizon
import TickMachine.Proofs.Source.Numbers
import TickMachine.Proofs.Source.Literals
import TickMachine.Proofs.Text.Boundary
import TickMachine.Proofs.Text.Encoded
import TickMachine.Proofs.Tool.Reader
