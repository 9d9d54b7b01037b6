import SynthRack.Document.Settings
import SynthRack.Play.Player
import SynthRack.Play.Wav
import SynthRack.Proofs.Document.Evolution
import SynthRack.Proofs.Document.Identifiers
import SynthRack.Proofs.Play.Blocks
import SynthRack.Proofs.Play.Delay
import SynthRack.Proofs.Play.Isolation
import SynthRack.Proofs.Play.Rearrange
import SynthRack.Proofs.Play.Retrigger
import SynthRack.Proofs.Play.Riff
import SynthRack.Proofs.Play.Seamless
import SynthRack.Proofs.Play.Upkeep
import SynthRack.Proofs.Play.Versions
import SynthRack.Proofs.Rack.Removal
import SynthRack.Proofs.Signal.Design
import SynthRack.Proofs.Signal.Rearm
import SynthRack.Proofs.Signal.Trajectory
import SynthRack.Proofs.Signal.Turns
import SynthRack.Release
