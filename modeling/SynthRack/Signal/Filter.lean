import SynthRack.Signal.Number

/-!
# Second-order filters

`Coefficients.tick` runs one sample of a filter that keeps two taps. `Coefficients.design` computes
the coefficients of the four classic responses at a frequency and a quality.
-/

namespace SynthRack

/-- Filter coefficients, scaled so that the newest feedback coefficient is one. -/
structure Coefficients (α : Type) where
  a1 : α
  a2 : α
  b0 : α
  b1 : α
  b2 : α

/-- The classic responses. -/
inductive Response where
  | lowpass
  | highpass
  | bandpass
  | notch
  deriving DecidableEq, Inhabited

namespace Coefficients

open Number (two)

variable {α : Type}

/-- Passes its input on. -/
@[inline] def identity [Number α] : Coefficients α := ⟨0, 0, 1, 0, 0⟩

/-- One sample: the output, and the two taps for the next sample. The first tap keeps the input
after feedback, the second keeps the first. -/
@[inline] def tick [Number α] (c : Coefficients α) (signal z1 z2 : α) : α × α × α :=
  let w := signal - c.a1 * z1 - c.a2 * z2
  (c.b0 * w + c.b1 * z1 + c.b2 * z2, w, z1)

/-- The coefficients of a response at `frequency`, with the resonance set by `q`. -/
def design [Circular α] (response : Response) (frequency q sampleRate : α) : Coefficients α :=
  let angle := two * Circular.pi * frequency / sampleRate
  let cosine := Circular.cos angle
  let alpha := Circular.sin angle / (two * q)
  let a0 := 1 + alpha
  let scaled (b0 b1 b2 : α) : Coefficients α :=
    ⟨(-two * cosine) / a0, (1 - alpha) / a0, b0 / a0, b1 / a0, b2 / a0⟩
  match response with
  | .lowpass => scaled ((1 - cosine) / two) (1 - cosine) ((1 - cosine) / two)
  | .highpass => scaled ((1 + cosine) / two) (-(1 + cosine)) ((1 + cosine) / two)
  | .bandpass => scaled alpha 0 (-alpha)
  | .notch => scaled 1 (-two * cosine) 1

end Coefficients

end SynthRack
