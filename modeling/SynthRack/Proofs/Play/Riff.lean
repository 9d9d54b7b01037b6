import Mathlib
import SynthRack.Proofs.Play.Level

/-!
# Reading sound files

A reader of RIFF files knows nothing of how a file was written: it takes each chunk by the length in
front of it, passes over chunks it does not know, and reads numbers with their lowest byte first.
`read_encode` says that it finds the samples in every file that is written, each as it is kept
(`Wav.Kept`), as long as the lengths and the rates fit their fields.

Every reading function takes bytes from the front and leaves the others, so each lemma about what it
reads holds in front of any rest.
-/

namespace SynthRack

namespace Riff

/-! ## The reader -/

/-- The next bytes, if there are so many, and those after them. -/
def take? (count : Nat) (bytes : List UInt8) : Option (List UInt8 × List UInt8) :=
  if count ≤ bytes.length then some (bytes.take count, bytes.drop count) else none

/-- The number that bytes write, the lowest first. -/
def number : List UInt8 → Nat
  | [] => 0
  | byte :: rest => byte.toNat + 256 * number rest

/-- The next number of so many bytes. -/
def number? (count : Nat) (bytes : List UInt8) : Option (Nat × List UInt8) := do
  let (digits, bytes) ← take? count bytes
  return (number digits, bytes)

/-- ASCII characters. -/
def text (bytes : List UInt8) : String := .ofList (bytes.map fun byte => .ofNat byte.toNat)

/-- A tagged part of a file, with the length that is written in front of it. -/
structure Chunk where
  name : String
  length : Nat
  body : List UInt8
  deriving DecidableEq

/-- The next chunk. After a body of odd length there is one byte more. -/
def chunk? (bytes : List UInt8) : Option (Chunk × List UInt8) := do
  let (name, bytes) ← take? 4 bytes
  let (length, bytes) ← number? 4 bytes
  let (body, bytes) ← take? length bytes
  return (⟨text name, length, body⟩, bytes.drop (length % 2))

/-- What is taken off the front is as long as was asked for. -/
theorem take_eq_some {count : Nat} {bytes first rest : List UInt8}
    (h : take? count bytes = some (first, rest)) : bytes = first ++ rest ∧ first.length = count := by
  unfold take? at h
  split at h
  case isTrue hle =>
    obtain ⟨rfl, rfl⟩ := Prod.mk.inj (Option.some.inj h)
    exact ⟨(List.take_append_drop ..).symm, List.length_take_of_le hle⟩
  case isFalse => cases h

/-- A chunk takes some bytes. -/
theorem length_lt_of_chunk {bytes rest : List UInt8} {chunk : Chunk}
    (h : chunk? bytes = some (chunk, rest)) : rest.length < bytes.length := by
  unfold chunk? number? at h
  simp only [Option.bind_eq_bind, Option.bind_eq_some_iff, Option.pure_def, Option.some.injEq,
    Prod.exists, Prod.mk.injEq] at h
  obtain ⟨name, afterName, hname, length, afterLength, ⟨digits, _, hlength, rfl, rfl⟩, body, afterBody,
    hbody, -, rfl⟩ := h
  obtain ⟨rfl, hfour⟩ := take_eq_some hname
  obtain ⟨rfl, -⟩ := take_eq_some hlength
  obtain ⟨rfl, -⟩ := take_eq_some hbody
  simp only [List.length_append, List.length_drop]
  omega

/-- All chunks of bytes that hold nothing else. -/
def chunks? (bytes : List UInt8) : Option (List Chunk) :=
  if bytes = [] then some []
  else
    match _ : chunk? bytes with
    | none => none
    | some (chunk, rest) => (chunks? rest).map (chunk :: ·)
termination_by bytes.length
decreasing_by exact length_lt_of_chunk ‹_›

/-- How samples are laid out. -/
structure Layout where
  coding : Nat
  channels : Nat
  rate : Nat
  byteRate : Nat
  blockAlign : Nat
  bits : Nat
  deriving DecidableEq

/-- The layout in the body of a format chunk. -/
def layout? (bytes : List UInt8) : Option Layout := do
  let (coding, bytes) ← number? 2 bytes
  let (channels, bytes) ← number? 2 bytes
  let (rate, bytes) ← number? 4 bytes
  let (byteRate, bytes) ← number? 4 bytes
  let (blockAlign, bytes) ← number? 2 bytes
  let (bits, _) ← number? 2 bytes
  return ⟨coding, channels, rate, byteRate, blockAlign, bits⟩

/-- Numbers of 16 bits in two's complement. -/
def words? : List UInt8 → Option (List Int)
  | [] => some []
  | [_] => none
  | low :: high :: rest => (words? rest).map (Int.bmod (number [low, high]) (2 ^ 16) :: ·)

/-- What a reader finds in a sound file. -/
structure Sound where
  length : Nat
  chunks : List Chunk
  layout : Layout
  levels : List Int

/-- A file is one chunk, which holds its form and then chunks; one of these says how the samples in
another are laid out. -/
def read? (file : List UInt8) : Option Sound := do
  let (riff, rest) ← chunk? file
  guard (riff.name = "RIFF" ∧ rest = [])
  let (form, bytes) ← take? 4 riff.body
  guard (text form = "WAVE")
  let chunks ← chunks? bytes
  let format ← chunks.find? (·.name = "fmt ")
  let layout ← layout? format.body
  guard (layout.coding = 1 ∧ layout.bits = 16)
  let data ← chunks.find? (·.name = "data")
  let levels ← words? data.body
  return ⟨riff.length, chunks, layout, levels⟩

/-! ## Numbers -/

/-- Bytes in front are taken off by their number. -/
theorem take_append {count : Nat} {bytes : List UInt8} (h : bytes.length = count)
    (rest : List UInt8) : take? count (bytes ++ rest) = some (bytes, rest) := by
  unfold take?
  rw [if_pos (by simp [h]), List.take_left' h, List.drop_left' h]

/-- Bytes with the lowest first stand for the number, as far as they reach. -/
theorem number_little_endian (count n : Nat) : number (littleEndian count n) = n % 256 ^ count := by
  induction count generalizing n with
  | zero =>
      rw [pow_zero, Nat.mod_one]
      rfl
  | succ count ih =>
      have hnext : littleEndian (count + 1) n = n.toUInt8 :: littleEndian count (n / 256) := by
        simp [littleEndian, List.range_succ_eq_map, Nat.div_div_eq_div_mul, Nat.pow_succ, Nat.mul_comm]
      rw [hnext, number, ih, pow_succ', Nat.mod_mul]
      rfl

/-- A number that fits its field is read back. -/
theorem number_read {count n : Nat} (h : n < 256 ^ count) (rest : List UInt8) :
    number? count (littleEndian count n ++ rest) = some (n, rest) := by
  rw [number?, take_append (length_little_endian count n)]
  show some (number (littleEndian count n), rest) = _
  rw [number_little_endian, Nat.mod_eq_of_lt h]

/-! ## Chunks -/

/-- A chunk of even length is read back from its header and its body. -/
theorem chunk_read (name : String) (body : List UInt8) (hname : (Wav.tag name).length = 4)
    (htext : text (Wav.tag name) = name) (hfits : body.length < 2 ^ 32)
    (heven : body.length % 2 = 0) (rest : List UInt8) :
    chunk? (Wav.chunkHeader name body.length ++ (body ++ rest)) =
      some (⟨name, body.length, body⟩, rest) := by
  have hlength : body.length < 256 ^ 4 := hfits
  simp only [Wav.chunkHeader, List.append_assoc, chunk?, take_append hname, number_read hlength,
    take_append (rfl : body.length = body.length), Option.bind_eq_bind, Option.bind_some,
    Option.pure_def, htext, heven, List.drop_zero]

/-- A file with nothing left has no more chunks. -/
theorem chunks_nil : chunks? [] = some [] := by
  rw [chunks?, if_pos rfl]

/-- The chunks of a file are the first and those behind it. -/
theorem chunks_of_chunk {bytes rest : List UInt8} {chunk : Chunk}
    (h : chunk? bytes = some (chunk, rest)) : chunks? bytes = (chunks? rest).map (chunk :: ·) := by
  have hsome : bytes ≠ [] := by
    rintro rfl
    exact absurd (length_lt_of_chunk h) (Nat.not_lt_zero _)
  rw [chunks?, if_neg hsome]
  split
  case h_1 hnone => cases h.symm.trans hnone
  case h_2 hnext =>
    rw [h] at hnext
    obtain ⟨rfl, rfl⟩ := Prod.mk.inj (Option.some.inj hnext)
    rfl

/-! ## Samples -/

/-- Two bytes of a number of 16 bits are read back. -/
theorem words_cons {n : Int} (hlow : -2 ^ 15 ≤ n) (hhigh : n < 2 ^ 15) (rest : List UInt8) :
    words? (Wav.levelBytes n ++ rest) = (words? rest).map (n :: ·) := by
  have hword : ((n % 65536).toNat : Int) = n % 65536 := Int.toNat_of_nonneg (by omega)
  have hnumber : number (Wav.levelBytes n) = (n % 65536).toNat := by
    rw [Wav.levelBytes, number_little_endian]
    exact Nat.mod_eq_of_lt (by show _ < 65536; omega)
  have hvalue : Int.bmod (number (Wav.levelBytes n)) (2 ^ 16) = n := by
    rw [hnumber, hword, Int.bmod_def]
    omega
  show (words? rest).map (Int.bmod (number (Wav.levelBytes n)) (2 ^ 16) :: ·) = _
  rw [hvalue]

/-- The body of the data chunk. -/
def dataBytes (samples : List Float32) : List UInt8 :=
  samples.flatMap fun sample => Wav.levelBytes (Wav.level sample)

/-- The data are read as the levels of the samples. -/
theorem words_read (samples : List Float32) :
    words? (dataBytes samples) = some (samples.map Wav.level) := by
  induction samples with
  | nil => rfl
  | cons sample rest ih =>
      obtain ⟨hlow, hhigh⟩ := Wav.level_bounds sample
      have hbytes : dataBytes (sample :: rest) =
          Wav.levelBytes (Wav.level sample) ++ dataBytes rest := List.flatMap_cons
      rw [hbytes, words_cons (by omega) (by omega), ih]
      rfl

/-- Two bytes hold a sample. -/
theorem length_data_bytes (samples : List Float32) :
    (dataBytes samples).length = 2 * samples.length := by
  have hsize (n : Int) : (Wav.levelBytes n).length = 2 := length_little_endian _ _
  simp [dataBytes, List.length_flatMap, hsize, Nat.mul_comm]

/-! ## Files -/

/-- The fields of a layout agree. -/
structure Layout.Consistent (layout : Layout) : Prop where
  byteRate : layout.byteRate = layout.rate * layout.blockAlign
  blockAlign : layout.blockAlign = layout.channels * layout.bits / 8

/-- Mono with 16 bits takes two bytes a frame, at any rate. -/
theorem consistent_mono (rate : Nat) : Layout.Consistent ⟨1, 1, rate, rate * 2, 2, 16⟩ :=
  ⟨rfl, show 2 = 1 * 16 / 8 by decide⟩

/-- The body of the format chunk. -/
def formatBytes (sampleRate : Nat) : List UInt8 :=
  littleEndian 2 1 ++ (littleEndian 2 1 ++ (littleEndian 4 sampleRate ++
    (littleEndian 4 (sampleRate * 2) ++ (littleEndian 2 2 ++ (littleEndian 2 16 ++ [])))))

/-- The format takes sixteen bytes. -/
theorem length_format_bytes (sampleRate : Nat) : (formatBytes sampleRate).length = 16 := by
  simp [formatBytes, length_little_endian]

/-- The format is read as mono with 16 bits at the given rate. -/
theorem layout_read {sampleRate : Nat} (h : sampleRate < 2 ^ 31) :
    layout? (formatBytes sampleRate) = some ⟨1, 1, sampleRate, sampleRate * 2, 2, 16⟩ := by
  have hone : 1 < 256 ^ 2 := by decide
  have htwo : 2 < 256 ^ 2 := by decide
  have hsixteen : 16 < 256 ^ 2 := by decide
  have hrate : sampleRate < 256 ^ 4 := by omega
  have hbytes : sampleRate * 2 < 256 ^ 4 := by omega
  simp only [layout?, formatBytes, number_read hone, number_read htwo, number_read hsixteen,
    number_read hrate, number_read hbytes, Option.bind_eq_bind, Option.bind_some, Option.pure_def]

/-- The chunks in a file. -/
def chunkBytes (samples : List Float32) (sampleRate : Nat) : List UInt8 :=
  Wav.chunkHeader "fmt " (formatBytes sampleRate).length ++ (formatBytes sampleRate ++
    (Wav.chunkHeader "data" (dataBytes samples).length ++ (dataBytes samples ++ [])))

/-- The body of the chunk that a file is: its form and its chunks. -/
def waveBytes (samples : List Float32) (sampleRate : Nat) : List UInt8 :=
  Wav.tag "WAVE" ++ chunkBytes samples sampleRate

/-- The body of the file: the headers and two bytes for each sample. -/
theorem length_wave_bytes (samples : List Float32) (sampleRate : Nat) :
    (waveBytes samples sampleRate).length = 36 + 2 * samples.length := by
  have hform : (Wav.tag "WAVE").length = 4 := rfl
  have hformat : (Wav.tag "fmt ").length = 4 := rfl
  have hdata : (Wav.tag "data").length = 4 := rfl
  simp only [waveBytes, chunkBytes, Wav.chunkHeader, List.length_append, hform, hformat, hdata,
    length_little_endian, length_format_bytes, length_data_bytes, List.length_nil]
  omega

/-- A file is its chunk. -/
theorem encode_eq (samples : List Float32) (sampleRate : Nat) :
    Wav.encode samples sampleRate = Wav.chunkHeader "RIFF" (waveBytes samples sampleRate).length ++
      (waveBytes samples sampleRate ++ []) := by
  rw [length_wave_bytes, waveBytes, chunkBytes, length_format_bytes, length_data_bytes]
  simp only [formatBytes, dataBytes, Wav.encode, List.append_assoc, List.append_nil,
    Nat.mul_comm samples.length]
  rfl

/-- The size of the file: the headers and two bytes for each sample. -/
theorem length_encode (samples : List Float32) (sampleRate : Nat) :
    (Wav.encode samples sampleRate).length = 44 + 2 * samples.length := by
  have htag : (Wav.tag "RIFF").length = 4 := rfl
  rw [encode_eq, List.append_nil, List.length_append, Wav.chunkHeader, List.length_append, htag,
    length_little_endian, length_wave_bytes]
  omega

/-- The data end where the file ends. -/
theorem suffix_encode (samples : List Float32) (sampleRate : Nat) :
    dataBytes samples <:+ Wav.encode samples sampleRate := by
  rw [encode_eq, waveBytes, chunkBytes, List.append_nil, List.append_nil]
  iterate 4 refine .trans ?_ (List.suffix_append _ _)
  exact List.suffix_append _ _

/-- The file has the format and the data as its chunks, in this order. -/
theorem chunks_read {samples : List Float32} (hsize : 2 * samples.length + 36 < 2 ^ 32)
    (sampleRate : Nat) :
    chunks? (chunkBytes samples sampleRate) = some [⟨"fmt ", 16, formatBytes sampleRate⟩,
      ⟨"data", 2 * samples.length, dataBytes samples⟩] := by
  have hformat := length_format_bytes sampleRate
  have hdata := length_data_bytes samples
  have hfirst := chunk_read "fmt " (formatBytes sampleRate) rfl rfl (by omega) (by omega)
    (Wav.chunkHeader "data" (dataBytes samples).length ++ (dataBytes samples ++ []))
  have hsecond := chunk_read "data" (dataBytes samples) rfl rfl (by omega) (by omega) []
  rw [chunkBytes, chunks_of_chunk hfirst, chunks_of_chunk hsecond, chunks_nil, hformat, hdata]
  rfl

/-- What a reader finds in a file that was written. -/
theorem read_eq {samples : List Float32} {sampleRate : Nat}
    (hsize : 2 * samples.length + 36 < 2 ^ 32) (hrate : sampleRate < 2 ^ 31) :
    read? (Wav.encode samples sampleRate) = some ⟨36 + 2 * samples.length,
      [⟨"fmt ", 16, formatBytes sampleRate⟩, ⟨"data", 2 * samples.length, dataBytes samples⟩],
      ⟨1, 1, sampleRate, sampleRate * 2, 2, 16⟩, samples.map Wav.level⟩ := by
  have hwave := length_wave_bytes samples sampleRate
  have hriff := chunk_read "RIFF" (waveBytes samples sampleRate) rfl rfl (by omega) (by omega) []
  have hform : take? 4 (waveBytes samples sampleRate) =
      some (Wav.tag "WAVE", chunkBytes samples sampleRate) :=
    take_append (rfl : (Wav.tag "WAVE").length = 4) _
  have htext : text (Wav.tag "WAVE") = "WAVE" := rfl
  rw [encode_eq, read?, hriff]
  simp [hform, htext, chunks_read hsize, layout_read hrate, words_read, hwave]

/-- A reader finds the samples in every file whose lengths and rates fit their fields: it is a RIFF
file of form WAVE with consistent lengths, and its data are the samples as they are kept. -/
theorem read_encode {samples : List Float32} {sampleRate : Nat}
    (hsize : 2 * samples.length + 36 < 2 ^ 32) (hrate : sampleRate < 2 ^ 31) :
    let file := Wav.encode samples sampleRate
    file.length = 44 + 2 * samples.length ∧ ∃ sound format data,
      read? file = some sound ∧ sound.length = file.length - 8 ∧
      sound.chunks = [⟨"fmt ", 16, format⟩, ⟨"data", 2 * samples.length, data⟩] ∧
      format.length = 16 ∧ data.length = 2 * samples.length ∧ data <:+ file ∧
      sound.layout.Consistent ∧ sound.layout.coding = 1 ∧ sound.layout.channels = 1 ∧
      sound.layout.rate = sampleRate ∧ sound.layout.bits = 16 ∧
      List.Forall₂ Wav.Kept samples sound.levels := by
  intro file
  have hlength : file.length = 44 + 2 * samples.length := length_encode samples sampleRate
  have hfield : 36 + 2 * samples.length = file.length - 8 := by omega
  have hkept : List.Forall₂ Wav.Kept samples (samples.map Wav.level) :=
    List.forall₂_map_right_iff.2 (List.forall₂_same.2 fun sample _ => Wav.kept_level sample)
  exact ⟨hlength, _, _, _, read_eq hsize hrate, hfield, rfl, length_format_bytes sampleRate,
    length_data_bytes samples, suffix_encode samples sampleRate, consistent_mono sampleRate,
    rfl, rfl, rfl, rfl, hkept⟩

/-- Samples that are too large, or no numbers, at the highest rate that fits: each is read back as the
nearest level, and the rate of bytes still fits its field. -/
theorem read_encode_extremes :
    let samples : List Float32 := [2, -2, .nan, 0.5]
    let file := Wav.encode samples 2147483647
    2 * samples.length + 36 < 2 ^ 32 ∧ 2147483647 < 2 ^ 31 ∧ file.length = 52 ∧
      ∃ sound, read? file = some sound ∧ sound.length = 44 ∧
        sound.chunks.map Chunk.length = [16, 8] ∧ sound.layout.Consistent ∧
        sound.layout.rate = 2147483647 ∧ sound.levels = [32767, -32767, 0, 16383] := by
  intro samples file
  have hsize : 2 * samples.length + 36 < 2 ^ 32 := by decide
  have hrate : 2147483647 < 2 ^ 31 := by decide
  obtain ⟨hlength, sound, format, data, hread, hfield, hchunks, -, -, -, hconsistent, -, -, hsound, -,
    hkept⟩ := read_encode hsize hrate
  have hlevels : sound.levels = samples.map Wav.level := by
    have heach := hkept.imp fun _ _ => Wav.kept_iff.1
    rw [← List.forall₂_map_left_iff, List.forall₂_eq_eq_eq] at heach
    exact heach.symm
  refine ⟨hsize, hrate, hlength, sound, hread, hfield.trans ?_, ?_, hconsistent, hsound, hlevels⟩
  · rw [hlength]
    rfl
  · rw [hchunks]
    rfl

end Riff

end SynthRack
