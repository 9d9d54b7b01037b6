import Mathlib
import SynthRack.Document.Read
import SynthRack.Play.Voice
import SynthRack.Proofs.Play.Bounds
import SynthRack.Proofs.Rack.SameLayout
import SynthRack.Proofs.Rack.Tables

/-!
# Any history of racks and voices

A `Studio` holds any number of racks and voices. Its actions edit, compile, load and clone racks,
start and release notes, and play samples of any voice on any rack that was compiled and not edited
since, at any rate. Versions come from one counter. `run_sound` says that no history of actions
faults, and describes where it leads: every template that a voice saw or can see next is that of a
known compilation. From this, `no_stale_constant` says that in every sample that can be played next
the nodes read their constants as they were compiled, and `checks_hold` that compiling and playing
meet the conditions of all their operations.
-/

namespace SynthRack

/-- When every step from a state with an invariant succeeds and keeps it, so does every run. -/
theorem foldl_m_invariant {σ α : Type} {step : σ → α → Except Fault σ} {invariant : σ → Prop}
    (hstep : ∀ s, invariant s → ∀ a, ∃ next, step s a = .ok next ∧ invariant next) {s : σ}
    (h : invariant s) (as : List α) : ∃ after, as.foldlM step s = .ok after ∧ invariant after := by
  induction as generalizing s with
  | nil => exact ⟨s, rfl, h⟩
  | cons a rest ih =>
      obtain ⟨next, hnext, hkept⟩ := hstep s h a
      obtain ⟨after, hrun, hafter⟩ := ih hkept
      exact ⟨after, by rw [List.foldlM_cons, hnext]; exact hrun, hafter⟩

/-- A sample that does not fault leaves the voice with its key and its gate, and uses up the
trigger. -/
theorem Voice.next_ok {voice : Voice} {rack : Rack} {sampleRate sample : Float32}
    {after : RegisterFile}
    (h : rack.step ⟨voice.frequency, voice.signal, sampleRate, voice.retrigger⟩ voice.registers =
      .ok (sample, after)) :
    voice.next rack sampleRate = .ok (sample, ⟨after, voice.frequency, voice.signal, false⟩) := by
  simp only [next, h]

/-- A rack in a studio. -/
structure KeptRack where
  rack : Rack
  /-- Nothing but the cursor changed since the rack was compiled. -/
  current : Bool

/-- Racks and voices, named by numbers. -/
structure Studio where
  racks : Nat → KeptRack
  voices : Nat → Voice
  /-- The version of the next compilation. -/
  nextVersion : Nat

/-- What can be done in a studio. -/
inductive Action where
  | newRack (rack : Nat)
  /-- Whatever a user can change of a rack; the nodes can be those of another rack. -/
  | edit (rack : Nat) (name : String) (nodes : List Node) (cursor : Option Nat)
  | moveCursor (rack : Nat) (cursor : Option Nat)
  | compile (rack : Nat)
  /-- Reads and compiles a document; one that is not accepted changes nothing. -/
  | load (rack : Nat) (text : String)
  | cloneRack (source target : Nat)
  | newVoice (voice : Nat) (seed : UInt64)
  | cloneVoice (source target : Nat)
  | noteOn (voice : Nat) (frequency : Float32)
  | noteOff (voice : Nat)
  | setFrequency (voice : Nat) (frequency : Float32)
  | setSignal (voice : Nat) (signal : Float32)
  /-- Plays the next sample of a voice. -/
  | next (voice rack : Nat) (sampleRate : Float32)
  /-- Plays a sample on the registers of a voice, whatever its key and its gate are. -/
  | step (voice rack : Nat) (call : Call)

namespace Studio

/-- Empty racks and released voices. -/
def start : Studio := ⟨fun _ => ⟨.empty, false⟩, fun _ => .ofSeed 0, 1⟩

/-- The studio with another rack of a name. -/
def setRack (studio : Studio) (name : Nat) (kept : KeptRack) : Studio :=
  { studio with racks := Function.update studio.racks name kept }

/-- The studio with another voice of a name. -/
def setVoice (studio : Studio) (name : Nat) (voice : Voice) : Studio :=
  { studio with voices := Function.update studio.voices name voice }

/-- Keeps a rack that was just compiled. -/
def publish (studio : Studio) (name : Nat) (rack : Rack) : Studio :=
  { studio.setRack name ⟨rack, true⟩ with nextVersion := studio.nextVersion + 1 }

/-- Performs an action. A rack that was edited since it was compiled is not played. -/
def perform (studio : Studio) : Action → Except Fault Studio
  | .newRack name => .ok (studio.setRack name ⟨.empty, false⟩)
  | .edit target name nodes cursor =>
    .ok (studio.setRack target ⟨{ (studio.racks target).rack with name, nodes, cursor }, false⟩)
  | .moveCursor target cursor =>
    let ⟨rack, current⟩ := studio.racks target
    .ok (studio.setRack target ⟨{ rack with cursor }, current⟩)
  | .compile name =>
    .ok (studio.publish name ((studio.racks name).rack.compile studio.nextVersion))
  | .load name text =>
    match Rack.load text studio.nextVersion with
    | .ok rack => .ok (studio.publish name rack)
    | .error _ => .ok studio
  | .cloneRack source target => .ok (studio.setRack target (studio.racks source))
  | .newVoice name seed => .ok (studio.setVoice name (.ofSeed seed))
  | .cloneVoice source target => .ok (studio.setVoice target (studio.voices source))
  | .noteOn name frequency => .ok (studio.setVoice name ((studio.voices name).noteOn frequency))
  | .noteOff name => .ok (studio.setVoice name (studio.voices name).noteOff)
  | .setFrequency name frequency =>
    .ok (studio.setVoice name { studio.voices name with frequency })
  | .setSignal name signal => .ok (studio.setVoice name { studio.voices name with signal })
  | .next name target sampleRate =>
    let ⟨rack, current⟩ := studio.racks target
    if current then
      match (studio.voices name).next rack sampleRate with
      | .ok (_, voice) => .ok (studio.setVoice name voice)
      | .error fault => .error fault
    else .ok studio
  | .step name target call =>
    let ⟨rack, current⟩ := studio.racks target
    if current then
      match rack.step call (studio.voices name).registers with
      | .ok (_, registers) => .ok (studio.setVoice name { studio.voices name with registers })
      | .error fault => .error fault
    else .ok studio

/-- Performs actions one after another. -/
def run (studio : Studio) (actions : List Action) : Except Fault Studio :=
  actions.foldlM perform studio

/-! ## Known templates -/

/-- The template of the rack that was compiled as a version. -/
def templateOf (catalog : Nat → Rack) (version : Nat) : Template :=
  ((catalog version).compile version).template

/-- The rack was compiled as a version below the next one; its cursor may have moved. -/
def CompiledIn (catalog : Nat → Rack) (next : Nat) (rack : Rack) : Prop :=
  ∃ version cursor, 0 < version ∧ version < next ∧
    rack = { (catalog version).compile version with cursor }

/-- The file saw no template yet or tracks that of a version below the next one. -/
def KnownTo (catalog : Nat → Rack) (next : Nat) (file : RegisterFile) : Prop :=
  file.version = none ∨ ∃ version < next, file.Tracks (templateOf catalog version)

/-- What a history leaves behind: a version names one compilation, and racks and voices are in the
state that compilations and samples brought them to. -/
structure Sound (catalog : Nat → Rack) (studio : Studio) : Prop where
  next : 0 < studio.nextVersion
  racks : ∀ name, (studio.racks name).current = true →
    CompiledIn catalog studio.nextVersion (studio.racks name).rack
  voices : ∀ name, KnownTo catalog studio.nextVersion (studio.voices name).registers

/-- Templates of compilations are told apart by their versions. -/
theorem discerned_compile {a b : Rack} {v w : Nat} (h : v = w → a = b) :
    RegisterFile.Discerned (a.compile v).template (b.compile w).template where
  version hversion := by
    obtain rfl : v = w := hversion
    rw [h rfl]
  layout hfingerprint hsize :=
    (layout_of_fingerprint (sealed_compile a v) (sealed_compile b w) hsize hfingerprint).2

variable {catalog : Nat → Rack} {studio : Studio} {next : Nat} {rack : Rack} {file : RegisterFile}

/-- A rack that was compiled is built, also with another cursor. -/
theorem CompiledIn.built (h : CompiledIn catalog next rack) : rack.Built := by
  obtain ⟨version, cursor, -, -, rfl⟩ := h
  exact ((catalog version).built_compile version).with_cursor cursor

/-- A rack that was compiled is laid out. -/
theorem CompiledIn.laid_out (h : CompiledIn catalog next rack) : rack.LaidOut := h.built.toLaidOut

/-- A rack that was compiled knows that it was. -/
theorem CompiledIn.is_compiled (h : CompiledIn catalog next rack) : rack.isCompiled = true := by
  obtain ⟨version, cursor, hpositive, -, rfl⟩ := h
  exact decide_eq_true hpositive

/-- Every file of the studio can be brought in line with every rack that is played. -/
theorem CompiledIn.ready (h : CompiledIn catalog next rack) (hfile : KnownTo catalog next file) :
    file.Ready rack.template := by
  obtain ⟨version, cursor, -, -, rfl⟩ := h
  rcases hfile with hnone | ⟨seen, -, htracks⟩
  · exact .inl hnone
  · refine .inr ⟨_, htracks, discerned_compile ?_⟩
    rintro rfl
    rfl

/-- A file that tracks the rack it was played on is known. -/
theorem CompiledIn.known (h : CompiledIn catalog next rack) (htracks : file.Tracks rack.template) :
    KnownTo catalog next file := by
  obtain ⟨version, cursor, -, hlt, rfl⟩ := h
  exact .inr ⟨version, hlt, htracks⟩

/-- A voice notices every compilation that is later than those of the studio. -/
theorem CompiledIn.differs_later (h : CompiledIn catalog next rack)
    (htracks : file.Tracks rack.template) {version : Nat} (hversion : next ≤ version)
    (source : Rack) : file.compilationDiffers (source.compile version).template = true := by
  obtain ⟨old, cursor, -, hlt, rfl⟩ := h
  have hold : file.version = some old := htracks.version
  have hnew : (source.compile version).template.version = version := rfl
  simp only [RegisterFile.compilationDiffers, hold, hnew, bne_iff_ne, ne_eq, Option.some.injEq]
  omega

/-- It can be brought in line with such a compilation. -/
theorem CompiledIn.ready_later (h : CompiledIn catalog next rack)
    (htracks : file.Tracks rack.template) {version : Nat} (hversion : next ≤ version)
    (source : Rack) : file.Ready (source.compile version).template := by
  obtain ⟨old, cursor, -, hlt, rfl⟩ := h
  refine .inr ⟨_, htracks, discerned_compile fun hsame => ?_⟩
  omega

/-- A sample played on a rack of the studio passes all checks, reads the constants of the rack, and
leaves a known file. -/
theorem CompiledIn.sample_ok (h : CompiledIn catalog next rack) (hfile : KnownTo catalog next file)
    (call : Call) :
    ∃ sample readings after, rack.watch call file = .ok (sample, readings, after) ∧
      rack.step call file = .ok (sample, after) ∧
      (∀ reading ∈ readings, reading.Faithful rack) ∧ KnownTo catalog next after := by
  obtain ⟨sample, readings, after, hwatch, htracks, hreadings⟩ :=
    Rack.watch_ok h.laid_out h.is_compiled (h.ready hfile) call
  exact ⟨sample, readings, after, hwatch, Rack.step_of_watch hwatch, hreadings, h.known htracks⟩

/-- Racks that were compiled stay so when there are more versions. -/
def Grows (catalog : Nat → Rack) (next : Nat) (after : Nat → Rack) (last : Nat) : Prop :=
  ∀ rack, CompiledIn catalog next rack → CompiledIn after last rack

/-! ## Actions one by one -/

/-- A rack stays compiled when the next version is given to another. -/
theorem CompiledIn.publish (h : CompiledIn catalog next rack) (source : Rack) :
    CompiledIn (Function.update catalog next source) (next + 1) rack := by
  obtain ⟨version, cursor, hpositive, hlt, rfl⟩ := h
  refine ⟨version, cursor, hpositive, hlt.trans (Nat.lt_succ_self _), ?_⟩
  rw [Function.update_of_ne hlt.ne]

/-- A file still tracks what it tracked when the next version is given away. -/
theorem KnownTo.publish (h : KnownTo catalog next file) (source : Rack) :
    KnownTo (Function.update catalog next source) (next + 1) file := by
  rcases h with hnone | ⟨version, hlt, htracks⟩
  · exact .inl hnone
  · refine .inr ⟨version, hlt.trans (Nat.lt_succ_self _), ?_⟩
    rwa [templateOf, Function.update_of_ne hlt.ne]

/-- A studio stays sound when a rack is put into it that was compiled there, or that is not
current. -/
theorem Sound.set_rack (h : Sound catalog studio) (name : Nat) {kept : KeptRack}
    (hkept : kept.current = true → CompiledIn catalog studio.nextVersion kept.rack) :
    Sound catalog (studio.setRack name kept) where
  next := h.next
  racks other hcurrent := by
    by_cases hname : other = name
    · subst hname
      simp only [setRack, Function.update_self] at hcurrent ⊢
      exact hkept hcurrent
    · simp only [setRack, Function.update_of_ne hname] at hcurrent ⊢
      exact h.racks other hcurrent
  voices := h.voices

/-- A studio stays sound when a voice is put into it that tracks one of its versions. -/
theorem Sound.set_voice (h : Sound catalog studio) (name : Nat) {voice : Voice}
    (hvoice : KnownTo catalog studio.nextVersion voice.registers) :
    Sound catalog (studio.setVoice name voice) where
  next := h.next
  racks := h.racks
  voices other := by
    by_cases hname : other = name
    · subst hname
      simpa only [setVoice, Function.update_self] using hvoice
    · simpa only [setVoice, Function.update_of_ne hname] using h.voices other

/-- Compiling a rack adds it to the catalog. -/
theorem Sound.publish (h : Sound catalog studio) (name : Nat) (source : Rack) :
    Sound (Function.update catalog studio.nextVersion source)
      (studio.publish name (source.compile studio.nextVersion)) where
  next := Nat.succ_pos _
  racks other hcurrent := by
    by_cases hname : other = name
    · subst hname
      refine ⟨studio.nextVersion, (source.compile studio.nextVersion).cursor, h.next,
        Nat.lt_succ_self _, ?_⟩
      simp only [Studio.publish, setRack, Function.update_self]
    · simp only [Studio.publish, setRack, Function.update_of_ne hname] at hcurrent ⊢
      exact (h.racks other hcurrent).publish source
  voices other := (h.voices other).publish source

/-- A current rack plays a sample of every voice, which may then have what was left. -/
theorem Sound.play (h : Sound catalog studio) {target : Nat}
    (hcurrent : (studio.racks target).current = true) (name : Nat) (call : Call) :
    ∃ sample after,
      (studio.racks target).rack.step call (studio.voices name).registers = .ok (sample, after) ∧
        ∀ voice : Voice, voice.registers = after → Sound catalog (studio.setVoice name voice) := by
  obtain ⟨sample, readings, after, -, hstep, -, hafter⟩ :=
    (h.racks target hcurrent).sample_ok (h.voices name) call
  refine ⟨sample, after, hstep, ?_⟩
  rintro voice rfl
  exact h.set_voice name hafter

/-- Before anything happened the studio is sound. -/
theorem sound_start (catalog : Nat → Rack) : Sound catalog start :=
  ⟨Nat.one_pos, fun _ hcurrent => (nomatch hcurrent), fun _ => .inl rfl⟩

/-- No action faults, and what it leaves is known. -/
theorem perform_sound (h : Sound catalog studio) (action : Action) :
    ∃ extended after, studio.perform action = .ok after ∧ Sound extended after ∧
      Grows catalog studio.nextVersion extended after.nextVersion := by
  have hkept : Grows catalog studio.nextVersion catalog studio.nextVersion := fun _ hrack => hrack
  cases action with
  | newRack name => exact ⟨catalog, _, rfl, h.set_rack name fun hcurrent => (nomatch hcurrent), hkept⟩
  | edit target name nodes cursor =>
      exact ⟨catalog, _, rfl, h.set_rack target fun hcurrent => (nomatch hcurrent), hkept⟩
  | moveCursor target cursor =>
      refine ⟨catalog, _, rfl, h.set_rack target fun hcurrent => ?_, hkept⟩
      obtain ⟨version, old, hpositive, hlt, hrack⟩ := h.racks target hcurrent
      exact ⟨version, cursor, hpositive, hlt, by rw [hrack]⟩
  | compile name => exact ⟨_, _, rfl, h.publish name _, fun _ hrack => hrack.publish _⟩
  | load name text =>
      cases hdecode : Rack.decode text with
      | error error =>
          exact ⟨catalog, studio, by rw [perform, Rack.load, hdecode]; rfl, h, hkept⟩
      | ok source =>
          exact ⟨_, _, by rw [perform, Rack.load, hdecode]; rfl,
            h.publish name source, fun _ hrack => hrack.publish _⟩
  | cloneRack source target =>
      exact ⟨catalog, _, rfl, h.set_rack target (h.racks source), hkept⟩
  | newVoice name seed => exact ⟨catalog, _, rfl, h.set_voice name (.inl rfl), hkept⟩
  | cloneVoice source target =>
      exact ⟨catalog, _, rfl, h.set_voice target (h.voices source), hkept⟩
  | noteOn name | noteOff name | setFrequency name | setSignal name =>
      exact ⟨catalog, _, rfl, h.set_voice name (h.voices name), hkept⟩
  | next name target sampleRate =>
      cases hcurrent : (studio.racks target).current with
      | false => exact ⟨catalog, studio, by simp [perform, hcurrent], h, hkept⟩
      | true =>
          obtain ⟨sample, after, hstep, hsound⟩ := h.play hcurrent name
            ⟨(studio.voices name).frequency, (studio.voices name).signal, sampleRate,
              (studio.voices name).retrigger⟩
          let voice : Voice :=
            ⟨after, (studio.voices name).frequency, (studio.voices name).signal, false⟩
          refine ⟨catalog, _, ?_, hsound voice rfl, hkept⟩
          simp only [perform, hcurrent, if_true, Voice.next_ok hstep]
          rfl
  | step name target call =>
      cases hcurrent : (studio.racks target).current with
      | false => exact ⟨catalog, studio, by simp [perform, hcurrent], h, hkept⟩
      | true =>
          obtain ⟨sample, after, hstep, hsound⟩ := h.play hcurrent name call
          refine ⟨catalog, _, ?_, hsound { studio.voices name with registers := after } rfl, hkept⟩
          simp only [perform, hcurrent, if_true, hstep]

/-- No history faults, and what it leaves is known. -/
theorem run_sound (h : Sound catalog studio) (actions : List Action) :
    ∃ extended after, studio.run actions = .ok after ∧ Sound extended after := by
  have hstep (studio : Studio) (h : ∃ catalog, Sound catalog studio) (action : Action) :
      ∃ after, studio.perform action = .ok after ∧ ∃ catalog, Sound catalog after := by
    obtain ⟨catalog, h⟩ := h
    obtain ⟨extended, after, hperform, hafter, -⟩ := perform_sound h action
    exact ⟨after, hperform, extended, hafter⟩
  obtain ⟨after, hrun, extended, hafter⟩ := foldl_m_invariant hstep ⟨catalog, h⟩ actions
  exact ⟨extended, after, hrun, hafter⟩

/-! ## Samples after any history -/

/-- After every history, in every sample that can be played next, what a node reads from a parameter
bound to a constant or to nothing is the constant or the default of the compiled rack. -/
theorem no_stale_constant (actions : List Action) :
    ∃ studio, start.run actions = .ok studio ∧
      ∀ name voice, (studio.racks name).current = true → ∀ call : Call,
        let rack := (studio.racks name).rack
        let file := (studio.voices voice).registers
        ∃ sample readings after, rack.watch call file = .ok (sample, readings, after) ∧
          rack.step call file = .ok (sample, after) ∧
          ∀ reading ∈ readings, reading.Faithful rack := by
  obtain ⟨catalog, studio, hrun, hsound⟩ := run_sound (sound_start fun _ => .empty) actions
  refine ⟨studio, hrun, fun name voice hcurrent call => ?_⟩
  obtain ⟨sample, readings, after, hwatch, hstep, hreadings, -⟩ :=
    (hsound.racks name hcurrent).sample_ok (hsound.voices voice) call
  exact ⟨sample, readings, after, hwatch, hstep, hreadings⟩

/-- A voice that played one rack is played on a clone of it that was edited and compiled anew. -/
theorem no_stale_constant_two_racks :
    let maths := Node.ofEffect (.maths ⟨[[.constant 3, .unset]]⟩)
    let edited := Node.ofEffect (.maths ⟨[[.constant 5, .unset]]⟩)
    let actions : List Action := [.edit 0 "" [maths] none, .compile 0, .cloneRack 0 1,
      .edit 1 "" [edited] none, .compile 1, .noteOn 0 440, .next 0 0 44100]
    ∃ studio, start.run actions = .ok studio ∧ (studio.racks 1).current = true ∧
      ∀ call : Call, ∃ sample readings after,
        (studio.racks 1).rack.watch call (studio.voices 0).registers =
          .ok (sample, readings, after) ∧
        (studio.racks 1).rack.step call (studio.voices 0).registers = .ok (sample, after) ∧
        ∀ reading ∈ readings, reading.Faithful (studio.racks 1).rack := by
  intro maths edited actions
  obtain ⟨studio, hrun, h⟩ := no_stale_constant actions
  have hcurrent : (studio.racks 1).current = true := by
    have hkept : (start.run actions).map (fun studio => (studio.racks 1).current) = .ok true := by
      decide +kernel
    rw [hrun] at hkept
    exact Except.ok.inj hkept
  exact ⟨studio, hrun, hcurrent, h 1 0 hcurrent⟩

/-- Compiling meets the conditions of all its operations for every rack, and so does every sample
that can be played after any history, whatever the call. -/
theorem checks_hold :
    (∀ (rack : Rack) (version : Nat),
      rack.checkedCompile version = .ok (rack.compile version)) ∧
    ∀ actions : List Action, ∃ studio, start.run actions = .ok studio ∧
      ∀ name voice, (studio.racks name).current = true → ∀ call : Call,
        let rack := (studio.racks name).rack
        let file := (studio.voices voice).registers
        ∃ sample readings after, rack.watch call file = .ok (sample, readings, after) ∧
          rack.step call file = .ok (sample, after) := by
  refine ⟨Rack.checked_compile_eq, fun actions => ?_⟩
  obtain ⟨catalog, studio, hrun, hsound⟩ := run_sound (sound_start fun _ => .empty) actions
  refine ⟨studio, hrun, fun name voice hcurrent call => ?_⟩
  obtain ⟨sample, readings, after, hwatch, hstep, -⟩ :=
    (hsound.racks name hcurrent).sample_ok (hsound.voices voice) call
  exact ⟨sample, readings, after, hwatch, hstep⟩

/-- A voice that played a rack with a delay is played on another rack at no rate at all. -/
theorem checks_hold_after_delay :
    let delay := Node.ofEffect (.delay ⟨.builtin .keyFrequency, .constant 0.001⟩)
    let filter := Node.ofEffect (Effect.new .biquad)
    let actions : List Action := [.edit 0 "" [delay] none, .compile 0, .noteOn 0 440,
      .next 0 0 1000, .edit 1 "" [filter, delay] (some 7), .compile 1]
    ∃ studio, start.run actions = .ok studio ∧ (studio.racks 1).current = true ∧
      ∃ sample readings after,
        (studio.racks 1).rack.watch ⟨-1, .nan, 0, true⟩ (studio.voices 0).registers =
          .ok (sample, readings, after) ∧
        (studio.racks 1).rack.step ⟨-1, .nan, 0, true⟩ (studio.voices 0).registers =
          .ok (sample, after) := by
  intro delay filter actions
  obtain ⟨studio, hrun, h⟩ := checks_hold.2 actions
  have hcurrent : (studio.racks 1).current = true := by
    have hkept : (start.run actions).map (fun studio => (studio.racks 1).current) = .ok true := by
      decide +kernel
    rw [hrun] at hkept
    exact Except.ok.inj hkept
  exact ⟨studio, hrun, hcurrent, h 1 0 hcurrent _⟩

end Studio

end SynthRack
