import Chip8.Launch.Folder
import Chip8.Main
import Chip8.Proofs.Guarded.Machine
import Chip8.Proofs.Instruction.Canonical
import Chip8.Proofs.Instruction.Fields
import Chip8.Proofs.Instruction.Mnemonic
import Chip8.Proofs.Launch.Play
import Chip8.Proofs.Launch.Start
import Chip8.Proofs.Machine.Assembly
import Chip8.Proofs.Machine.Bounds
import Chip8.Proofs.Machine.Draws
import Chip8.Proofs.Machine.Footprint
import Chip8.Proofs.Machine.Progress
import Chip8.Proofs.Machine.Residue
import Chip8.Proofs.Machine.TraceLine
import Chip8.Proofs.Plain.Refinement
import Chip8.Proofs.Screen.History
import Chip8.Proofs.Screen.Painting
import Chip8.Proofs.Screen.Picture
