import Mathlib
import SynthRack.Proofs.Play.Kernels
import SynthRack.Proofs.Rack.Fingerprint

/-!
# The template that a register file follows

`RegisterFile.Tracks` relates a register file to the template it was last reconciled with: constants,
persistence, durations and buffer sizes are those of the template. `tracks_reconcile` proves that
reconciling arrives there from every file that is new or tracks any other template, as long as
versions and fingerprints tell templates apart. `reconcile_fresh` says that after a fresh trigger
nothing but the noise, and which of the two zeros a rate is, tells a file from a new one.
-/

namespace SynthRack

namespace RegisterFile

/-- The file is in line with a template. The registers of the inputs are written in every sample and
hold anything in between. -/
structure Tracks (file : RegisterFile) (t : Template) : Prop where
  version : file.version = some t.version
  fingerprint : file.fingerprint = t.fingerprint
  size : file.values.size = t.size
  persisted : file.persisted = t.persisted
  bufferSeconds : file.bufferSeconds = t.bufferSeconds
  /-- Every buffer has the size that its duration needs at the rate of the file. -/
  capacities : file.buffers.map (·.capacity) = t.bufferSeconds.map (samplesFor · file.sampleRate)
  constants : ∀ register value, Builtin.count ≤ register →
    t.slots[register]? = some ⟨value, false⟩ → file.Holds register value

/-- Templates that voices tell apart: a version names one template, and a fingerprint, together with
the number of registers, one layout. -/
structure Discerned (t u : Template) : Prop where
  version : t.version = u.version → t = u
  layout : t.fingerprint = u.fingerprint → t.size = u.size →
    t.persisted = u.persisted ∧ t.bufferSeconds.size = u.bufferSeconds.size

/-- A file that saw no template yet, or tracks one that voices tell from another. -/
def Ready (file : RegisterFile) (t : Template) : Prop :=
  file.version = none ∨ ∃ seen, file.Tracks seen ∧ Discerned seen t

variable {file : RegisterFile} {t : Template} {sampleRate : Float32} {fresh : Bool}

/-! ## Reconciling, field by field -/

/-- When nothing changed, reconciling leaves every field as it is. -/
theorem reconcile_eq (file : RegisterFile) (t : Template) (sampleRate : Float32) (fresh : Bool) :
    file.reconcile t sampleRate fresh =
      { file with
        values := file.reconciledValues t fresh
        persisted := if file.layoutDiffers t then t.persisted else file.persisted
        buffers := file.reconciledBuffers t sampleRate fresh
        bufferSeconds :=
          if file.layoutDiffers t || file.compilationDiffers t || file.rateDiffers sampleRate then
            t.bufferSeconds
          else file.bufferSeconds
        sampleRate :=
          if file.layoutDiffers t || file.rateDiffers sampleRate then sampleRate
          else file.sampleRate
        version := some t.version
        fingerprint := if file.layoutDiffers t then t.fingerprint else file.fingerprint } := by
  by_cases hchanged : (file.layoutDiffers t || file.compilationDiffers t ||
      file.rateDiffers sampleRate || fresh) = true
  · exact if_pos hchanged
  · simp only [Bool.or_eq_true, not_or, Bool.not_eq_true] at hchanged
    obtain ⟨⟨⟨hlayout, hcompilation⟩, hrate⟩, hfresh⟩ := hchanged
    have hversion : file.version = some t.version := by
      simpa [compilationDiffers] using hcompilation
    simp [reconcile, reconciledValues, reconciledBuffers, hlayout, hcompilation, hrate, hfresh,
      ← hversion]

/-- Where the layout does not differ, a file has the fingerprint and the size of the template. -/
theorem layout_differs_eq_false (h : file.layoutDiffers t = false) :
    file.version ≠ none ∧ file.fingerprint = t.fingerprint ∧ file.values.size = t.size := by
  simp only [layoutDiffers, Bool.or_eq_false_iff, bne_eq_false_iff_eq] at h
  exact ⟨fun hnone => by simp [hnone] at h, h.1.2, h.2⟩

/-- A file that was not built for another layout tracks a template of this layout. -/
theorem Ready.seen (h : file.Ready t) (hlayout : file.layoutDiffers t = false) :
    ∃ seen, file.Tracks seen ∧ (seen.version = t.version → seen = t) ∧
      seen.persisted = t.persisted ∧ seen.bufferSeconds.size = t.bufferSeconds.size := by
  obtain ⟨hsome, hfingerprint, hsize⟩ := layout_differs_eq_false hlayout
  rcases h with hnone | ⟨seen, hseen, hdiscerned⟩
  · exact absurd hnone hsome
  · refine ⟨seen, hseen, hdiscerned.version, ?_⟩
    exact hdiscerned.layout (hseen.fingerprint.symm.trans hfingerprint)
      (hseen.size.symm.trans hsize)

/-- A file that saw this version, and was not built for another layout, tracks the template. -/
theorem Ready.same (h : file.Ready t) (hlayout : file.layoutDiffers t = false)
    (hcompilation : file.compilationDiffers t = false) : file.Tracks t := by
  obtain ⟨seen, hseen, hversion, -⟩ := h.seen hlayout
  have hsame : file.version = some t.version := by
    simpa [compilationDiffers] using hcompilation
  obtain rfl := hversion (Option.some.inj (hseen.version.symm.trans hsame))
  exact hseen

/-- Where the rate does not differ, it is equal as a number. -/
theorem rate_of_not_differs (h : file.rateDiffers sampleRate = false) :
    (file.sampleRate == sampleRate) = true := by
  simpa [rateDiffers, bne] using h

/-! ## Registers -/

/-- Refreshing gives a register whose flag is unset the constant of the template. -/
theorem refreshed_values_unset {register : Nat} {value : Float32}
    (hlt : register < file.values.size) (hunset : file.persisted[register]? = some false)
    (hslot : t.slots[register]? = some ⟨value, false⟩) :
    (file.refreshedValues t)[register]? = some value := by
  have hpair : (file.values.zip file.persisted)[register]? = some (file.values[register], false) :=
    Array.getElem?_zip_eq_some.2 ⟨Array.getElem?_eq_getElem hlt, hunset⟩
  simp [refreshedValues, Array.getElem?_mapIdx, hpair, hslot]

/-- Refreshing gives a register that is not persisted the value of the template. -/
theorem refreshed_values_constant (hsize : file.values.size = t.size)
    (hpersisted : file.persisted = t.persisted) {register : Nat} {value : Float32}
    (hslot : t.slots[register]? = some ⟨value, false⟩) :
    (file.refreshedValues t)[register]? = some value := by
  have hunset : file.persisted[register]? = some false := by
    rw [hpersisted]
    exact Template.persisted_of_slot hslot
  exact refreshed_values_unset (hsize ▸ (Array.getElem?_eq_some_iff.1 hslot).1) hunset hslot

/-- Refreshing keeps what a persisted register holds. -/
theorem refreshed_values_persisted {register : Nat} {value : Float32}
    (hkeep : file.persisted[register]? = some true) (hholds : file.Holds register value) :
    (file.refreshedValues t)[register]? = some value := by
  have hpair : (file.values.zip file.persisted)[register]? = some (value, true) :=
    Array.getElem?_zip_eq_some.2 ⟨hholds, hkeep⟩
  simp [refreshedValues, Array.getElem?_mapIdx, hpair]

/-- Refreshing constants keeps the number of registers. -/
theorem size_refreshed_values (hsize : file.values.size = t.size)
    (hpersisted : file.persisted = t.persisted) : (file.refreshedValues t).size = t.size := by
  simp [refreshedValues, hpersisted, Template.persisted, hsize, Template.size]

/-- In one layout and without a fresh trigger a persisted register keeps what it holds. -/
theorem reconciled_values_persisted (hlayout : file.layoutDiffers t = false) {register : Nat}
    {value : Float32} (hkeep : file.persisted[register]? = some true)
    (hholds : file.Holds register value) :
    (file.reconciledValues t false)[register]? = some value := by
  simp only [reconciledValues, hlayout, Bool.or_self]
  split
  · cases ‹false = true›
  · split
    · exact refreshed_values_persisted hkeep hholds
    · exact hholds

/-- After reconciling the constants are those of the template. -/
theorem reconciled_constants (h : file.Ready t) (fresh : Bool) :
    (file.reconciledValues t fresh).size = t.size ∧
      ∀ register value, Builtin.count ≤ register → t.slots[register]? = some ⟨value, false⟩ →
        (file.reconciledValues t fresh)[register]? = some value := by
  cases hreset : file.layoutDiffers t || fresh with
  | true =>
      simp only [reconciledValues, hreset, if_true]
      exact ⟨by simp [Template.values, Template.size], fun register value _ hslot =>
        Template.value_of_slot hslot⟩
  | false =>
      obtain ⟨hlayout, -⟩ := Bool.or_eq_false_iff.1 hreset
      obtain ⟨seen, hseen, -, hpersisted, -⟩ := h.seen hlayout
      have hsize := (layout_differs_eq_false hlayout).2.2
      have hflags := hseen.persisted.trans hpersisted
      simp only [reconciledValues, hreset]
      cases hcompilation : file.compilationDiffers t with
      | true =>
          exact ⟨size_refreshed_values hsize hflags, fun register value _ hslot =>
            refreshed_values_constant hsize hflags hslot⟩
      | false =>
          have hsame := h.same hlayout hcompilation
          exact ⟨hsame.size, hsame.constants⟩

/-! ## Buffers -/

/-- A silent ring has the capacity it was made with. -/
@[simp] theorem capacity_silent (capacity : Nat) : (DelayLine.silent capacity).capacity = capacity := by
  simp [DelayLine.silent, DelayLine.capacity]

/-- Clearing a ring keeps its capacity. -/
@[simp] theorem capacity_clear (line : DelayLine) : line.clear.capacity = line.capacity :=
  capacity_silent _

/-- New buffers have the sizes that their durations need. -/
theorem capacities_new (t : Template) (sampleRate : Float32) :
    (newBuffers t sampleRate).map (·.capacity) = t.bufferSeconds.map (samplesFor · sampleRate) := by
  simp [newBuffers]

/-- Clearing buffers keeps their sizes. -/
theorem capacities_clear (buffers : Array DelayLine) :
    (buffers.map (·.clear)).map (·.capacity) = buffers.map (·.capacity) := by
  simp

/-- Cleared buffers of the sizes that a rate needs are new buffers for this rate. -/
theorem clear_buffers_eq {buffers : Array DelayLine}
    (h : buffers.map (·.capacity) = t.bufferSeconds.map (samplesFor · sampleRate)) :
    buffers.map (·.clear) = newBuffers t sampleRate := by
  have hclear : buffers.map (·.clear) = (buffers.map (·.capacity)).map .silent := by
    rw [Array.map_map]
    rfl
  rw [hclear, h, newBuffers, Array.map_map]
  rfl

/-- Buffers that are replaced where their duration changed have the sizes for the new durations,
at a rate that compares as equal to that of the file. -/
theorem capacities_resized {seen : Template} (hseen : file.Tracks seen)
    (hcount : seen.bufferSeconds.size = t.bufferSeconds.size)
    (hrate : (file.sampleRate == sampleRate) = true) :
    (file.resizedBuffers t sampleRate).map (·.capacity) =
      t.bufferSeconds.map (samplesFor · file.sampleRate) := by
  have hsize : file.buffers.size = t.bufferSeconds.size := by
    have hsizes := congrArg Array.size hseen.capacities
    simpa [hcount] using hsizes
  refine Array.ext (by simp [resizedBuffers, hsize]) fun index hlt hlt' => ?_
  have hbuffer : index < file.buffers.size := by simpa [resizedBuffers] using hlt
  have hseconds : index < t.bufferSeconds.size := hsize ▸ hbuffer
  have hduration := Array.getElem?_eq_getElem hseconds
  simp only [resizedBuffers, Array.getElem_map, Array.getElem_mapIdx, hduration]
  split
  case isTrue hsame =>
    -- The duration is the one that the buffer was made for.
    rw [hseen.bufferSeconds] at hsame
    have hcapacity := congrArg (·[index]?) hseen.capacities
    simp only [Array.getElem?_map, hsame, Array.getElem?_eq_getElem hbuffer, Option.map_some,
      Option.some.injEq] at hcapacity
    exact hcapacity
  case isFalse => rw [capacity_silent, samples_for_of_beq hrate]

/-- The buffers that reconciling keeps, some of them replaced, have the sizes that the durations of
the template need. -/
theorem capacities_kept (h : file.Ready t) (hlayout : file.layoutDiffers t = false)
    (hrate : file.rateDiffers sampleRate = false) :
    (if file.compilationDiffers t then file.resizedBuffers t sampleRate else file.buffers).map
        (·.capacity) = t.bufferSeconds.map (samplesFor · file.sampleRate) := by
  obtain ⟨seen, hseen, -, -, hcount⟩ := h.seen hlayout
  cases hcompilation : file.compilationDiffers t with
  | true => exact capacities_resized hseen hcount (rate_of_not_differs hrate)
  | false => exact (h.same hlayout hcompilation).capacities

/-- After reconciling every buffer has the size that its duration needs, at the rate of the file. -/
theorem capacities_reconciled (h : file.Ready t) :
    (file.reconciledBuffers t sampleRate fresh).map (·.capacity) =
      t.bufferSeconds.map (samplesFor · (if file.layoutDiffers t || file.rateDiffers sampleRate then
        sampleRate else file.sampleRate)) := by
  cases hreset : file.layoutDiffers t || file.rateDiffers sampleRate with
  | true =>
      simp only [reconciledBuffers, hreset, if_true]
      exact capacities_new t sampleRate
  | false =>
      obtain ⟨hlayout, hrate⟩ := Bool.or_eq_false_iff.1 hreset
      have hkept := capacities_kept h hlayout hrate
      simp only [reconciledBuffers, hreset]
      cases fresh with
      | true => exact (capacities_clear _).trans hkept
      | false => exact hkept

/-! ## Reconciling as a whole -/

/-- Reconciling brings a file in line with the template. -/
theorem tracks_reconcile (h : file.Ready t) (sampleRate : Float32) (fresh : Bool) :
    (file.reconcile t sampleRate fresh).Tracks t := by
  obtain ⟨hsize, hconstants⟩ := reconciled_constants h fresh
  rw [reconcile_eq]
  refine ⟨rfl, ?fingerprint, hsize, ?persisted, ?bufferSeconds, capacities_reconciled h,
    hconstants⟩
  case fingerprint =>
    cases hlayout : file.layoutDiffers t with
    | true => rfl
    | false => exact (layout_differs_eq_false hlayout).2.1
  case persisted =>
    cases hlayout : file.layoutDiffers t with
    | true => rfl
    | false =>
        obtain ⟨seen, hseen, -, hpersisted, -⟩ := h.seen hlayout
        exact hseen.persisted.trans hpersisted
  case bufferSeconds =>
    cases hchanged : file.layoutDiffers t || file.compilationDiffers t ||
        file.rateDiffers sampleRate with
    | true => rfl
    | false =>
        simp only [Bool.or_eq_false_iff] at hchanged
        exact (h.same hchanged.1.1 hchanged.1.2).bufferSeconds

/-- The two numbers are equal as numbers, or none is one. -/
def SameNumber (x y : Float32) : Prop := (x == y) = true ∨ (x.isNaN = true ∧ y.isNaN = true)

/-- The files are the same but for their noise and the sign of a rate of zero. -/
structure Alike (a b : RegisterFile) : Prop where
  values : a.values = b.values
  persisted : a.persisted = b.persisted
  buffers : a.buffers = b.buffers
  bufferSeconds : a.bufferSeconds = b.bufferSeconds
  sampleRate : SameNumber a.sampleRate b.sampleRate
  version : a.version = b.version
  fingerprint : a.fingerprint = b.fingerprint

/-- Every number is the same number as itself, and so is what is no number. -/
theorem SameNumber.refl (x : Float32) : SameNumber x x := by
  by_cases hnan : x.isNaN = true
  · exact .inr ⟨hnan, hnan⟩
  · refine .inl (Float32.beq_iff_ne_nan_and_eq.2 ?_)
    rw [Float32.isNaN_eq_decide_eq_nan, decide_eq_true_iff] at hnan
    exact ⟨hnan, hnan, .inl rfl⟩

/-- The same numbers differ from the same others. -/
theorem SameNumber.bne {x y : Float32} (h : SameNumber x y) (c : Float32) : (x != c) = (y != c) := by
  rcases h with heq | ⟨hx, hy⟩
  · exact bne_of_beq heq c
  · rw [Float32.isNaN_eq_decide_eq_nan, decide_eq_true_iff] at hx hy
    rw [hx, hy]

/-- Buffers of one duration have one size at rates that are the same number. -/
theorem SameNumber.samples_for {x y : Float32} (h : SameNumber x y) (seconds : Float32) :
    samplesFor seconds x = samplesFor seconds y := by
  rcases h with heq | ⟨hx, hy⟩
  · exact samples_for_of_beq heq seconds
  · rw [Float32.isNaN_eq_decide_eq_nan, decide_eq_true_iff] at hx hy
    rw [hx, hy]

/-- After reconciling, the rate of the file is the rate of the call. -/
theorem rate_reconcile (file : RegisterFile) (t : Template) (sampleRate : Float32) (fresh : Bool) :
    SameNumber (file.reconcile t sampleRate fresh).sampleRate sampleRate := by
  rw [reconcile_eq]
  cases hreset : file.layoutDiffers t || file.rateDiffers sampleRate with
  | true => exact .refl sampleRate
  | false => exact .inl (rate_of_not_differs (Bool.or_eq_false_iff.1 hreset).2)

/-- A fresh trigger leaves of a file what it leaves of a new one. -/
theorem reconcile_fresh (h : file.Ready t) (sampleRate : Float32) (seed : UInt64) :
    (file.reconcile t sampleRate true).Alike ((ofSeed seed).reconcile t sampleRate true) := by
  have hnew : (ofSeed seed).layoutDiffers t = true := rfl
  have htracks := tracks_reconcile h sampleRate true
  have hready : (ofSeed seed).Ready t := .inl rfl
  have hfresh := tracks_reconcile hready sampleRate true
  refine ⟨?values, htracks.persisted.trans hfresh.persisted.symm, ?buffers,
    htracks.bufferSeconds.trans hfresh.bufferSeconds.symm, ?sampleRate,
    htracks.version.trans hfresh.version.symm, htracks.fingerprint.trans hfresh.fingerprint.symm⟩
  case values =>
    rw [reconcile_eq, reconcile_eq]
    simp [reconciledValues]
  case buffers =>
    rw [reconcile_eq, reconcile_eq]
    simp only [reconciledBuffers, hnew, Bool.true_or, if_true]
    cases hreset : file.layoutDiffers t || file.rateDiffers sampleRate with
    | true => rfl
    | false =>
        -- Whatever was kept or resized has the size of a new buffer, and is cleared.
        obtain ⟨hlayout, hrate⟩ := Bool.or_eq_false_iff.1 hreset
        refine clear_buffers_eq ((capacities_kept h hlayout hrate).trans ?_)
        rw [funext fun seconds => samples_for_of_beq (rate_of_not_differs hrate) seconds]
  case sampleRate =>
    rw [reconcile_eq (ofSeed seed)]
    exact rate_reconcile file t sampleRate true

end RegisterFile

end SynthRack
