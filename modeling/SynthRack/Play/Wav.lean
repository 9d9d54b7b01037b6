import SynthRack.Numeral.Bytes
import SynthRack.Play.Render

/-!
# Sound files

A mono file of 16-bit samples: a container that holds a format chunk and a data chunk, every number
with its lowest byte first.
-/

namespace SynthRack

namespace Wav

/-- Bytes of one sample. -/
def bytesPerSample : Nat := 2

/-- Bytes before the first sample. -/
def headerSize : Nat := 44

/-- A sample as a 16-bit integer: clipped to one, stretched, and cut toward zero; what is no number
becomes zero. -/
def level (sample : Float32) : Int :=
  let clipped := if 1 < sample then 1 else if sample < -1 then -1 else sample
  let stretched := clipped * 32767
  if stretched < 0 then -((-stretched).toUInt16.toNat : Int) else stretched.toUInt16.toNat

/-- An integer of 16 bits as two bytes, negative numbers in two's complement. -/
def levelBytes (n : Int) : List UInt8 := littleEndian bytesPerSample (n % 65536).toNat

/-- Four ASCII characters as bytes. -/
def tag (text : String) : List UInt8 := text.toList.map (·.toNat.toUInt8)

/-- The tag and the size in front of a chunk. -/
def chunkHeader (name : String) (size : Nat) : List UInt8 := tag name ++ littleEndian 4 size

/-- The file that holds the samples. -/
def encode (samples : List Float32) (sampleRate : Nat) : List UInt8 :=
  let dataSize := samples.length * bytesPerSample
  chunkHeader "RIFF" (headerSize - 8 + dataSize) ++ tag "WAVE" ++
    chunkHeader "fmt " 16 ++
    littleEndian 2 1 ++ littleEndian 2 1 ++
    littleEndian 4 sampleRate ++ littleEndian 4 (sampleRate * bytesPerSample) ++
    littleEndian 2 bytesPerSample ++ littleEndian 2 (bytesPerSample * 8) ++
    chunkHeader "data" dataSize ++
    samples.flatMap fun sample => levelBytes (level sample)

end Wav

/-- One note as a sound file. -/
def renderWav (rack : Rack) (config : RenderConfig) : Except Fault (List UInt8) :=
  (render rack config).map fun samples => Wav.encode samples.toList config.sampleRate.toNat

end SynthRack
