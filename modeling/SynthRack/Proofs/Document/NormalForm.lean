import Mathlib
import SynthRack.Proofs.Document.RoundTrip

/-!
# The normal form of a document

`normalize` reads a document, compiles it and writes it. Its result is a normal form with the
meaning of the document exactly when all constants are finite: `normalize_settled_iff`. Numbers
beyond single precision are read as infinities, which are written as null and then read as nothing,
so they are lost: `normalize_huge`.
-/

namespace SynthRack

namespace Rack

/-- Two compiled racks alike in everything that is written and in what their voices start from. -/
structure SameMeaning (a b : Rack) : Prop where
  name : a.name = b.name
  nodes : a.nodes.map Node.uncompiled = b.nodes.map Node.uncompiled
  values : a.template.values = b.template.values
  persisted : a.template.persisted = b.template.persisted
  bufferSeconds : a.template.bufferSeconds = b.template.bufferSeconds

/-- Whether constants are finite does not depend on registers. -/
theorem Finite.of_uncompiled {a b : Rack} (h : a.Finite)
    (hnodes : a.nodes.map Node.uncompiled = b.nodes.map Node.uncompiled) : b.Finite := by
  intro node hnode param hparam
  have hmem : node.uncompiled ∈ a.nodes.map Node.uncompiled :=
    hnodes ▸ List.mem_map_of_mem hnode
  obtain ⟨other, hother, hequal⟩ := List.mem_map.1 hmem
  have hparams : other.effect.params.map (fun p => Param.ofBinding p.binding) =
      node.effect.params.map fun p => Param.ofBinding p.binding := by
    have heffect := congrArg (·.effect.params) hequal
    simpa [Node.uncompiled] using heffect
  have hparamMem : Param.ofBinding param.binding ∈
      other.effect.params.map fun p => Param.ofBinding p.binding :=
    hparams ▸ List.mem_map_of_mem hparam
  obtain ⟨otherParam, hotherParam, hbinding⟩ := List.mem_map.1 hparamMem
  have hsame : otherParam.binding = param.binding := congrArg (·.binding) hbinding
  exact hsame ▸ h other hother otherParam hotherParam

/-- What is read of a written rack has finite constants only. -/
theorem finite_stored (rack : Rack) : rack.stored.Finite := by
  intro node hnode param hparam
  obtain ⟨before, -, rfl⟩ := List.mem_map.1 hnode
  unfold Node.stored at hparam
  rw [Effect.params_map] at hparam
  obtain ⟨p, -, rfl⟩ := List.mem_map.1 hparam
  show p.binding.stored.Finite
  unfold Binding.stored
  split
  · split
    case isTrue hfinite => exact Binding.finite_constant hfinite
    case isFalse => intro value hvalue; cases hvalue
  · rename_i hother
    intro value hvalue
    exact absurd hvalue (hother value)

/-- Loading is decoding and then compiling, and only decoding can fail. -/
theorem load_eq_ok {text : String} {version : Nat} {rack : Rack} :
    load text version = .ok rack ↔
      ∃ decoded, decode text = .ok decoded ∧ decoded.compile version = rack := by
  unfold load
  cases decode text <;> simp [Except.map]

end Rack

/-- The result of `normalize` on an accepted document is its own normal form and means what the
document means exactly when all constants of the compiled rack are finite. -/
theorem normalize_settled_iff {text normal : String} {rack : Rack}
    (hload : Rack.load text 1 = .ok rack) (hnormal : normalize text = .ok normal)
    (hcount : rack.nodes.length ≤ UInt32.size) :
    (normalize normal = .ok normal ∧
      ∃ again, Rack.load normal 1 = .ok again ∧ again.SameMeaning rack) ↔ rack.Finite := by
  obtain ⟨raw, hraw, rfl⟩ := Rack.load_eq_ok.1 hload
  obtain rfl : (raw.serialize 1).1 = normal := by
    unfold normalize at hnormal
    rw [hraw] at hnormal
    exact Except.ok.inj hnormal
  have hdecoded := Rack.decode_compiled raw 1 hcount
  -- What is read again is finite, so only a finite rack can mean the same.
  constructor
  · rintro ⟨-, again, hagain, hmeaning⟩
    obtain ⟨decoded, hother, rfl⟩ := Rack.load_eq_ok.1 hagain
    obtain rfl : (raw.compile 1).stored = decoded := Except.ok.inj (hdecoded.symm.trans hother)
    exact ((Rack.finite_stored _).compile 1).of_uncompiled hmeaning.nodes
  · intro hfinite
    rw [hfinite.stored] at hdecoded
    have hagain := Rack.compile_uncompiled raw 1 1
    refine ⟨?_, _, Rack.load_eq_ok.2 ⟨_, hdecoded, rfl⟩, ?_⟩
    · unfold normalize
      rw [hdecoded]
      show Except.ok ((raw.compile 1).uncompiled.compile 1).toJson.print = _
      rw [hagain]
      rfl
    · rw [hagain]
      exact ⟨rfl, rfl, rfl, rfl, rfl⟩

/-- The text of a rack with one node of each kind is normal once it was normalized. -/
theorem normalize_settled_one_of_each : ∃ normal,
    normalize (Rack.oneOfEach.serialize 1).1 = .ok normal ∧ normalize normal = .ok normal := by
  have hdecoded := Rack.decode_compiled Rack.oneOfEach 1 (by decide +kernel)
  have hload : Rack.load (Rack.oneOfEach.serialize 1).1 1 =
      .ok ((Rack.oneOfEach.compile 1).stored.compile 1) :=
    Rack.load_eq_ok.2 ⟨_, hdecoded, rfl⟩
  have hnormal : normalize (Rack.oneOfEach.serialize 1).1 =
      .ok ((Rack.oneOfEach.compile 1).stored.serialize 1).1 := by
    unfold normalize
    rw [hdecoded]
    rfl
  have hsettled := (normalize_settled_iff hload hnormal (by decide +kernel)).2 (by decide +kernel)
  exact ⟨_, hnormal, hsettled.1⟩

/-- A document whose only number is beyond single precision. -/
def hugeAmplitude : String :=
  "\x7b\"effects\":[\x7b\"value\":\x7b\"type\":4,\"amplitude\":\x7b\"value\":1e39\x7d\x7d\x7d]\x7d"

/-- What it is written as: the infinity as null, which is then read as no constant at all. -/
def hugeAmplitudeWritten : String :=
  "\x7b\"name\":\"\",\"effects\":[\x7b\"id\":0,\"toDelete\":false,\"enabled\":true," ++
    "\"value\":\x7b\"amplitude\":\x7b\"value\":null\x7d,\"type\":4\x7d\x7d]\x7d"

/-- A number beyond single precision is written as null, and null is read and written as no
constant. -/
theorem normalize_huge : normalize hugeAmplitude = .ok hugeAmplitudeWritten ∧
    normalize hugeAmplitudeWritten ≠ .ok hugeAmplitudeWritten := by
  have hfirst : (normalize hugeAmplitude).toOption = some hugeAmplitudeWritten := by
    decide +kernel
  have hsecond : (normalize hugeAmplitudeWritten).toOption ≠ some hugeAmplitudeWritten := by
    decide +kernel
  constructor
  · cases hnormal : normalize hugeAmplitude with
    | error e =>
        rw [hnormal] at hfirst
        cases hfirst
    | ok normal =>
        rw [hnormal] at hfirst
        rw [Option.some.inj hfirst]
  · intro hnormal
    rw [hnormal] at hsecond
    exact hsecond rfl

end SynthRack
