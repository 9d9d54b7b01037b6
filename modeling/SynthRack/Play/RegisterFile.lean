import SynthRack.Signal.DelayLine
import SynthRack.Signal.Noise
import SynthRack.Rack.Basic
import SynthRack.Play.Fault

/-!
# Register files

The state of one voice: its registers, its delay lines and its noise. `RegisterFile.reconcile`
brings a file in line with a template before a sample is played. A file that was built for another
layout starts over; a file whose rack was only compiled anew keeps its persisted registers and every
buffer whose duration stayed; a fresh trigger resets everything but the noise.
-/

namespace SynthRack

/-- The registers and buffers of one voice. -/
structure RegisterFile where
  values : Array Float32
  /-- For every register, whether it outlives a compilation. -/
  persisted : Array Bool
  buffers : Array DelayLine
  /-- The duration each buffer was last sized for. -/
  bufferSeconds : Array Float32
  /-- The rate the buffers were last sized for; zero before the first sample. -/
  sampleRate : Float32
  /-- The version of the template last seen. -/
  version : Option Nat
  /-- The layout of the template last seen. -/
  fingerprint : List UInt8
  noise : NoiseSource
  deriving DecidableEq

/-- An array cut or filled up to a size. -/
def resize {α : Type} (xs : Array α) (size : Nat) (filler : α) : Array α :=
  xs.extract 0 size ++ Array.replicate (size - xs.size) filler

namespace RegisterFile

/-- A file that saw no template yet. -/
def ofSeed (seed : UInt64) : RegisterFile where
  values := #[]
  persisted := #[]
  buffers := #[]
  bufferSeconds := #[]
  sampleRate := 0
  version := none
  fingerprint := []
  noise := .ofSeed seed

/-- How many registers there are. -/
@[inline] def size (file : RegisterFile) : Nat := file.values.size

/-- The register that an index names. An index has 32 bits, and the greatest one names none. -/
def register? (index : Nat) : Option Nat :=
  let i := index % UInt32.size
  if i = Fault.unallocated then none else some i

/-- Reads a register. -/
@[inline] def read (file : RegisterFile) (register : Option Nat) : Except Fault Float32 :=
  match register with
  | some i =>
    if h : i < file.values.size then .ok file.values[i]
    else .error (.readOutOfRange register file.values.size)
  | none => .error (.readOutOfRange register file.values.size)

/-- Writes a register. -/
@[inline] def write (file : RegisterFile) (register : Option Nat) (value : Float32) :
    Except Fault RegisterFile :=
  match register with
  | some i =>
    if h : i < file.values.size then .ok { file with values := file.values.set i value }
    else .error (.writeOutOfRange register file.values.size)
  | none => .error (.writeOutOfRange register file.values.size)

/-- The delay line of a buffer. -/
def line (file : RegisterFile) (buffer : Option Nat) : Except Fault DelayLine :=
  match buffer.bind (file.buffers[·]?) with
  | some line => .ok line
  | none => .error (.bufferOutOfRange buffer file.buffers.size)

/-- Plays one sample through a buffer: the sample taken out and the next cursor. The line is taken
out of the file while it changes, so that it is changed in place. -/
@[inline] def tickBuffer (file : RegisterFile) (buffer : Option Nat) (input : Float32)
    (cursor length : Nat) : Except Fault ((Float32 × Nat) × RegisterFile) :=
  match buffer with
  | some i =>
    if h : i < file.buffers.size then
      let (line, others) := file.buffers.swapAt i .empty h
      let (out, next, line) := line.tick input cursor length
      .ok ((out, next), { file with buffers := others.setIfInBounds i line })
    else .error (.bufferOutOfRange buffer file.buffers.size)
  | none => .error (.bufferOutOfRange buffer file.buffers.size)

/-- Draws the next sample of noise. -/
@[inline] def drawNoise (file : RegisterFile) : Float32 × RegisterFile :=
  let (sample, noise) := file.noise.next
  (sample, { file with noise })

/-- Cuts or fills the registers up to a size. -/
def resizeTo (file : RegisterFile) (size : Nat) : RegisterFile :=
  { file with
    values := resize file.values size 0
    persisted := resize file.persisted size false }

/-- Whether the file was built for another layout than the template's. -/
def layoutDiffers (file : RegisterFile) (t : Template) : Bool :=
  file.version.isNone || file.fingerprint != t.fingerprint || file.values.size != t.size

/-- Whether the template is from another compilation than the one last seen. -/
def compilationDiffers (file : RegisterFile) (t : Template) : Bool :=
  file.version != some t.version

/-- Whether the buffers are sized for another rate. -/
def rateDiffers (file : RegisterFile) (sampleRate : Float32) : Bool :=
  file.sampleRate != sampleRate

/-- The registers with the constants of the template and the persisted values of the file. -/
def refreshedValues (file : RegisterFile) (t : Template) : Array Float32 :=
  (file.values.zip file.persisted).mapIdx fun i (value, keep) =>
    if keep then value else (t.slots[i]?.map (·.initial)).getD value

/-- The registers after reconciling. -/
def reconciledValues (file : RegisterFile) (t : Template) (fresh : Bool) : Array Float32 :=
  if file.layoutDiffers t || fresh then t.values
  else if file.compilationDiffers t then file.refreshedValues t
  else file.values

/-- Silent buffers for all durations of the template. -/
def newBuffers (t : Template) (sampleRate : Float32) : Array DelayLine :=
  t.bufferSeconds.map fun seconds => .silent (samplesFor seconds sampleRate)

/-- The buffers, those replaced whose duration changed. -/
def resizedBuffers (file : RegisterFile) (t : Template) (sampleRate : Float32) : Array DelayLine :=
  file.buffers.mapIdx fun i line =>
    match t.bufferSeconds[i]? with
    | some seconds =>
      if file.bufferSeconds[i]? = some seconds then line
      else .silent (samplesFor seconds sampleRate)
    | none => line

/-- The buffers after reconciling. -/
def reconciledBuffers (file : RegisterFile) (t : Template) (sampleRate : Float32) (fresh : Bool) :
    Array DelayLine :=
  if file.layoutDiffers t || file.rateDiffers sampleRate then newBuffers t sampleRate
  else
    let buffers :=
      if file.compilationDiffers t then file.resizedBuffers t sampleRate else file.buffers
    if fresh then buffers.map (·.clear) else buffers

/-- Brings the file in line with a template before a sample is played. -/
def reconcile (file : RegisterFile) (t : Template) (sampleRate : Float32) (fresh : Bool) :
    RegisterFile :=
  let changed := file.layoutDiffers t || file.compilationDiffers t || file.rateDiffers sampleRate
  if changed || fresh then
    { file with
      values := file.reconciledValues t fresh
      persisted := if file.layoutDiffers t then t.persisted else file.persisted
      buffers := file.reconciledBuffers t sampleRate fresh
      bufferSeconds := if changed then t.bufferSeconds else file.bufferSeconds
      sampleRate :=
        if file.layoutDiffers t || file.rateDiffers sampleRate then sampleRate
        else file.sampleRate
      version := some t.version
      fingerprint := if file.layoutDiffers t then t.fingerprint else file.fingerprint }
  else file

end RegisterFile

end SynthRack
