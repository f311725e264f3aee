import Chip8.Machine.Operation
import Chip8.Main
import Chip8.Proofs.Effect
import Chip8.Proofs.Steps
import Chip8.Proofs.Runs
import Chip8.Proofs.Bounds
import Chip8.Proofs.Faults
import Chip8.Proofs.Restart
import Chip8.Proofs.Atomicity
import Chip8.Proofs.Diagnosis
import Chip8.Proofs.Halting
import Chip8.Proofs.Execution
import Chip8.Proofs.Calls
import Chip8.Proofs.KeyWait
import Chip8.Proofs.Reserved
import Chip8.Proofs.Fetching
import Chip8.Proofs.Randomness
import Chip8.Proofs.Countdown
import Chip8.Proofs.Noninterference
import Chip8.Proofs.Drawing
import Chip8.Proofs.Pacing
import Chip8.Proofs.Dialects
import Chip8.Proofs.Printing
import Chip8.Proofs.Outcome
import Chip8.Proofs.Overdrawing
import Chip8.Proofs.Sprites
import Chip8.Proofs.Arithmetic
import Chip8.Proofs.Transfer
import Chip8.Proofs.Confinement
import Chip8.Proofs.ControlFlow
import Chip8.Proofs.Decoding
import Chip8.Proofs.Feasibility
import Chip8.Proofs.Bytewise
import Chip8.Proofs.Loading
import Chip8.Proofs.Numerals
import Chip8.Proofs.Assembly
import Chip8.Proofs.Listings
import Chip8.Proofs.RunningOut
import Chip8.Proofs.Logging
import Chip8.Proofs.Indexing
import Chip8.Proofs.Stacking
import Chip8.Proofs.Pictures
import Chip8.Proofs.Spellings
