import Mathlib
import SynthRack.Proofs.Play.Studio

/-!
# A fresh trigger erases history

Two register files are `RegisterFile.Alike` when they differ in their noise, and in the sign of a
rate of zero, at most. Reconciling keeps them alike (`Alike.reconcile`), and so does a sample of a
rack that has no noise node, which is then the same for both (`Rack.watch_alike`). A fresh trigger
makes every file of a studio and a new one alike (`reconcile_fresh`). So from a new note on, a voice
with any history sounds as a new voice does: `history_erased`.
-/

namespace SynthRack

open Checked

namespace RegisterFile

variable {a b : RegisterFile} {t : Template}

namespace Alike

/-- Reconciling looks at the rate of a file as a number, and not at the noise. -/
theorem reconcile (h : a.Alike b) (t : Template) (sampleRate : Float32) (fresh : Bool) :
    (a.reconcile t sampleRate fresh).Alike (b.reconcile t sampleRate fresh) := by
  have hlayout : a.layoutDiffers t = b.layoutDiffers t := by
    simp only [layoutDiffers, h.version, h.fingerprint, h.values]
  have hcompilation : a.compilationDiffers t = b.compilationDiffers t := by
    simp only [compilationDiffers, h.version]
  have hrate : a.rateDiffers sampleRate = b.rateDiffers sampleRate := h.sampleRate.bne sampleRate
  rw [reconcile_eq, reconcile_eq]
  refine ⟨?values, ?persisted, ?buffers, ?bufferSeconds, ?rate, rfl, ?fingerprint⟩
  case values =>
    simp only [reconciledValues, refreshedValues, hlayout, hcompilation, h.values, h.persisted]
  case persisted => simp only [hlayout, h.persisted]
  case buffers =>
    simp only [reconciledBuffers, resizedBuffers, hlayout, hcompilation, hrate, h.buffers,
      h.bufferSeconds]
  case bufferSeconds => simp only [hlayout, hcompilation, hrate, h.bufferSeconds]
  case fingerprint => simp only [hlayout, h.fingerprint]
  case rate =>
    simp only [hlayout, hrate]
    split
    · exact .refl sampleRate
    · exact h.sampleRate

/-- Files that are alike read alike. -/
theorem read (h : a.Alike b) (register : Option Nat) : a.read register = b.read register := by
  simp only [RegisterFile.read, h.values]

/-- Files that are alike stay so when they are written alike. -/
theorem write (h : a.Alike b) {register : Option Nat} {value : Float32} {after : RegisterFile}
    (hwrite : a.write register value = .ok after) :
    ∃ other, b.write register value = .ok other ∧ after.Alike other := by
  cases register with
  | none => cases hwrite
  | some index =>
      by_cases hlt : index < a.values.size
      · have hlt' : index < b.values.size := h.values ▸ hlt
        simp only [RegisterFile.write, hlt, dif_pos, Except.ok.injEq] at hwrite
        subst hwrite
        refine ⟨{ b with values := b.values.set index value }, by simp [RegisterFile.write, hlt'],
          ?_, h.persisted, h.buffers, h.bufferSeconds, h.sampleRate, h.version, h.fingerprint⟩
        simp only [h.values]
      · simp [RegisterFile.write, hlt] at hwrite

/-- Files that are alike play their buffers alike, and stay alike. -/
theorem tick (h : a.Alike b) {buffer : Option Nat} {input : Float32} {cursor length : Nat}
    {ticked : Float32 × Nat} {after : RegisterFile}
    (htick : a.checkedTick buffer input cursor length = .ok (ticked, after)) :
    ∃ other, b.checkedTick buffer input cursor length = .ok (ticked, other) ∧
      after.Alike other := by
  cases buffer with
  | none => cases htick
  | some index =>
      obtain ⟨line, hline, -⟩ := bind_eq_ok.1 htick
      rw [look_up_eq_ok] at hline
      have hticked := checked_tick_ok hline input cursor length
      have hother := checked_tick_ok (h.buffers ▸ hline) input cursor length
      cases hticked.symm.trans htick
      refine ⟨_, hother, h.values, h.persisted, ?_, h.bufferSeconds, h.sampleRate, h.version,
        h.fingerprint⟩
      simp only [h.buffers]

end Alike

end RegisterFile

/-- A script without noise does the same to files that are alike. -/
theorem Script.watch_alike {α : Type} {rack : Rack} (hnoise : ¬ rack.HasNoise) {script : Script α}
    (h : script.Within rack) {a b after : RegisterFile} (hab : a.Alike b) {result : α}
    {readings : List ParamReading} (hwatch : script.watch a = .ok (result, readings, after)) :
    ∃ other, script.watch b = .ok (result, readings, other) ∧ after.Alike other := by
  induction h generalizing a b readings with
  | done value =>
      cases hwatch
      exact ⟨b, rfl, hab⟩
  | param _ _ ih =>
      obtain ⟨value, hread, hwatch⟩ := bind_eq_ok.1 hwatch
      obtain ⟨⟨last, rest, final⟩, hrest, hwatch⟩ := bind_eq_ok.1 hwatch
      cases hwatch
      obtain ⟨other, hother, halike⟩ := ih value hab hrest
      rw [hab.read] at hread
      exact ⟨other, by rw [watch, hread, ok_bind, hother]; rfl, halike⟩
  | read _ _ ih =>
      obtain ⟨value, hread, hwatch⟩ := bind_eq_ok.1 hwatch
      obtain ⟨other, hother, halike⟩ := ih value hab hwatch
      rw [hab.read] at hread
      exact ⟨other, by rw [watch, hread, ok_bind, hother], halike⟩
  | write _ _ ih | input _ ih =>
      obtain ⟨written, hwrite, hwatch⟩ := bind_eq_ok.1 hwatch
      obtain ⟨twin, htwin, halike⟩ := hab.write (of_playing_eq_ok.1 hwrite)
      obtain ⟨other, hother, halike⟩ := ih halike hwatch
      exact ⟨other, by rw [watch, of_playing_eq_ok.2 htwin, ok_bind, hother], halike⟩
  | noise hnode _ _ => exact absurd hnode hnoise
  | tick _ _ ih =>
      obtain ⟨⟨ticked, played⟩, htick, hwatch⟩ := bind_eq_ok.1 hwatch
      obtain ⟨twin, htwin, halike⟩ := hab.tick htick
      obtain ⟨other, hother, halike⟩ := ih ticked halike hwatch
      exact ⟨other, by rw [watch, htwin, ok_bind]; exact hother, halike⟩

/-- Files that reconciling makes alike play the same sample, and are alike afterwards. -/
theorem Rack.watch_alike {rack : Rack} (hlaid : rack.LaidOut) (hcompiled : rack.isCompiled = true)
    (hnoise : ¬ rack.HasNoise) (call : Call) {a b after : RegisterFile}
    (hab : (a.reconcile rack.template call.sampleRate call.fresh).Alike
      (b.reconcile rack.template call.sampleRate call.fresh)) {sample : Float32}
    {readings : List ParamReading} (hwatch : rack.watch call a = .ok (sample, readings, after)) :
    ∃ other, rack.watch call b = .ok (sample, readings, other) ∧ after.Alike other := by
  rw [watch_eq hcompiled] at hwatch ⊢
  exact Script.watch_alike hnoise (Script.within_sample hlaid call rack.played_nodes_subset) hab
    hwatch

/-! ## Voices -/

/-- What can happen to a voice that plays one rack. -/
inductive Event where
  | noteOn (frequency : Float32)
  | noteOff
  | setFrequency (frequency : Float32)
  | setSignal (signal : Float32)
  /-- A sample is played at a rate. -/
  | sample (sampleRate : Float32)

/-- The samples that a voice plays on a rack while things happen to it. -/
def Voice.samples (rack : Rack) (voice : Voice) : List Event → Except Fault (List Float32)
  | [] => .ok []
  | .noteOn frequency :: rest => (voice.noteOn frequency).samples rack rest
  | .noteOff :: rest => voice.noteOff.samples rack rest
  | .setFrequency frequency :: rest => { voice with frequency }.samples rack rest
  | .setSignal signal :: rest => { voice with signal }.samples rack rest
  | .sample sampleRate :: rest => do
    let (sample, voice) ← voice.next rack sampleRate
    let samples ← voice.samples rack rest
    return sample :: samples

/-- The voices sound the same on a rack from now on: they have the same key and gate, and their
next sample makes their registers alike, also if a note starts before it. -/
structure Voice.Twins (rack : Rack) (a b : Voice) : Prop where
  frequency : a.frequency = b.frequency
  signal : a.signal = b.signal
  retrigger : a.retrigger = b.retrigger
  ready : a.registers.Ready rack.template
  alike : ∀ sampleRate fresh, (a.retrigger = true → fresh = true) →
    (a.registers.reconcile rack.template sampleRate fresh).Alike
      (b.registers.reconcile rack.template sampleRate fresh)

namespace Voice.Twins

variable {rack : Rack} {a b : Voice}

/-- Voices that are twins are so after the same trigger. -/
theorem note_on (h : Twins rack a b) (frequency : Float32) :
    Twins rack (a.noteOn frequency) (b.noteOn frequency) :=
  ⟨rfl, rfl, rfl, h.ready, fun sampleRate fresh hfresh =>
    h.alike sampleRate fresh fun _ => hfresh rfl⟩

/-- A sample of a rack without noise is the same for both, and they stay twins. -/
theorem next (hlaid : rack.LaidOut) (hcompiled : rack.isCompiled = true) (hnoise : ¬ rack.HasNoise)
    (h : Twins rack a b) (sampleRate : Float32) :
    ∃ sample nextA nextB, a.next rack sampleRate = .ok (sample, nextA) ∧
      b.next rack sampleRate = .ok (sample, nextB) ∧ Twins rack nextA nextB := by
  let call : Call := ⟨a.frequency, a.signal, sampleRate, a.retrigger⟩
  obtain ⟨sample, readings, after, hwatch, htracks, -⟩ :=
    rack.watch_ok hlaid hcompiled h.ready call
  obtain ⟨other, hother, halike⟩ := Rack.watch_alike hlaid hcompiled hnoise call
    (h.alike sampleRate a.retrigger id) hwatch
  have hready : after.Ready rack.template :=
    .inr ⟨rack.template, htracks, fun _ => rfl, fun _ _ => ⟨rfl, rfl⟩⟩
  have hstep : rack.step ⟨b.frequency, b.signal, sampleRate, b.retrigger⟩ b.registers =
      .ok (sample, other) := by
    rw [← h.frequency, ← h.signal, ← h.retrigger]
    exact Rack.step_of_watch hother
  exact ⟨sample, _, _, Voice.next_ok (Rack.step_of_watch hwatch), Voice.next_ok hstep, h.frequency,
    h.signal, rfl, hready, fun sampleRate fresh _ => halike.reconcile rack.template sampleRate fresh⟩

/-- Whatever happens to both, they play the same samples. -/
theorem samples (hlaid : rack.LaidOut) (hcompiled : rack.isCompiled = true)
    (hnoise : ¬ rack.HasNoise) (h : Twins rack a b) (events : List Event) :
    ∃ samples, a.samples rack events = .ok samples ∧ b.samples rack events = .ok samples := by
  induction events generalizing a b with
  | nil => exact ⟨[], rfl, rfl⟩
  | cons event rest ih =>
      cases event with
      | noteOn frequency => exact ih (h.note_on frequency)
      | noteOff => exact ih ⟨h.frequency, rfl, h.retrigger, h.ready, h.alike⟩
      | setFrequency frequency => exact ih ⟨rfl, h.signal, h.retrigger, h.ready, h.alike⟩
      | setSignal signal => exact ih ⟨h.frequency, rfl, h.retrigger, h.ready, h.alike⟩
      | sample sampleRate =>
          obtain ⟨sample, nextA, nextB, hnextA, hnextB, hnext⟩ :=
            h.next hlaid hcompiled hnoise sampleRate
          obtain ⟨samples, hsamplesA, hsamplesB⟩ := ih hnext
          refine ⟨sample :: samples, ?_, ?_⟩
          · rw [Voice.samples, hnextA]
            show (nextA.samples rack rest >>= _) = _
            rw [hsamplesA]
            rfl
          · rw [Voice.samples, hnextB]
            show (nextB.samples rack rest >>= _) = _
            rw [hsamplesB]
            rfl

end Voice.Twins

namespace Studio

/-- A note that starts makes a voice with any history a twin of a new voice. -/
theorem twins_note_on {rack : Rack} {voice : Voice} (hready : voice.registers.Ready rack.template)
    (seed : UInt64) (frequency : Float32) :
    Voice.Twins rack (voice.noteOn frequency) ((Voice.ofSeed seed).noteOn frequency) := by
  refine ⟨rfl, rfl, rfl, hready, fun sampleRate fresh hfresh => ?_⟩
  obtain rfl := hfresh rfl
  exact RegisterFile.reconcile_fresh hready sampleRate seed

/-- After every history a new note on any voice sounds as it does on a new voice, on every rack
without noise and whatever happens next; the next sample starts from the same registers and buffers. -/
theorem history_erased (actions : List Action) :
    ∃ studio, start.run actions = .ok studio ∧
      ∀ name voice, (studio.racks name).current = true →
        (∀ node ∈ (studio.racks name).rack.nodes, node.effect.type ≠ .noise) →
        ∀ (seed : UInt64) (frequency : Float32),
          let rack := (studio.racks name).rack
          let old := (studio.voices voice).noteOn frequency
          let new := (Voice.ofSeed seed).noteOn frequency
          (∀ events, ∃ samples,
            old.samples rack events = .ok samples ∧ new.samples rack events = .ok samples) ∧
          ∀ sampleRate,
            (old.registers.reconcile rack.template sampleRate old.retrigger).Alike
              (new.registers.reconcile rack.template sampleRate new.retrigger) := by
  obtain ⟨catalog, studio, hrun, hsound⟩ := run_sound (sound_start fun _ => .empty) actions
  refine ⟨studio, hrun, fun name voice hcurrent hnoise seed frequency => ?_⟩
  have hcompiled := hsound.racks name hcurrent
  have hready := hcompiled.ready (hsound.voices voice)
  have hsilent : ¬ (studio.racks name).rack.HasNoise := fun ⟨node, hnode, htype⟩ =>
    hnoise node hnode htype
  exact ⟨(twins_note_on hready seed frequency).samples hcompiled.laid_out hcompiled.is_compiled
    hsilent, fun sampleRate => RegisterFile.reconcile_fresh hready sampleRate seed⟩

/-- A voice that played a sum with feedback starts a note on a rack that was compiled anew. -/
theorem history_erased_feedback :
    let feedback (step : Float32) := Node.ofEffect (.maths ⟨[[.constant step], [.node 0]]⟩)
    let actions : List Action := [.edit 0 "" [feedback 1] none, .compile 0, .noteOn 0 440,
      .next 0 0 44100, .next 0 0 48000, .edit 0 "" [feedback 2] none, .compile 0]
    ∃ studio, start.run actions = .ok studio ∧ (studio.racks 0).current = true ∧
      (∀ node ∈ (studio.racks 0).rack.nodes, node.effect.type ≠ .noise) ∧
      ∃ samples,
        ((studio.voices 0).noteOn 220).samples (studio.racks 0).rack [.sample 44100, .sample 44100] =
          .ok samples ∧
        ((Voice.ofSeed 1).noteOn 220).samples (studio.racks 0).rack
          [.sample 44100, .sample 44100] = .ok samples := by
  intro feedback actions
  obtain ⟨studio, hrun, h⟩ := history_erased actions
  have hkept : (start.run actions).map (fun studio => ((studio.racks 0).current,
      (studio.racks 0).rack.nodes.map (·.effect.type))) = .ok (true, [.maths]) := by
    decide +kernel
  rw [hrun] at hkept
  obtain ⟨hcurrent, htypes⟩ := Prod.mk.inj (Except.ok.inj hkept)
  have hnoise : ∀ node ∈ (studio.racks 0).rack.nodes, node.effect.type ≠ .noise := by
    intro node hnode htype
    have hmem : node.effect.type ∈ (studio.racks 0).rack.nodes.map (·.effect.type) :=
      List.mem_map_of_mem hnode
    rw [htypes, htype] at hmem
    simp at hmem
  exact ⟨studio, hrun, hcurrent, hnoise, (h 0 0 hcurrent hnoise 1 220).1 _⟩

end Studio

end SynthRack
