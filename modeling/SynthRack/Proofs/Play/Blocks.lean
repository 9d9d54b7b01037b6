import Mathlib
import SynthRack.Play.Render
import SynthRack.Proofs.Play.Simulation

/-!
# Rendering and playing in blocks

A note can be rendered at once or played live, in blocks between which the key is released.
`RenderConfig.calls` lists the calls of a note, one for each sample, and both ways make exactly these,
whatever interpreter answers them: `render_ok` and `live_ok`. A compiled rack answers all of them, so
the two ways give the same samples whatever the blocks are: `plays_note`. They differ in what they
need: a rendered note stands in one array, and `RenderConfig.Fits` says that an array can hold it.
-/

namespace SynthRack

/-! ## Calls one after another -/

namespace Play

variable {α β : Type} {file after : RegisterFile}

/-- Two steps succeed if the first does and the second does on what it leaves. -/
theorem bind_eq_ok {first : Play α} {next : α → Play β} {b : β} :
    (first >>= next) file = .ok (b, after) ↔
      ∃ a mid, first file = .ok (a, mid) ∧ next a mid = .ok (b, after) := by
  constructor
  · intro h
    cases hfirst : first file with
    | error fault =>
        have hfault : (first >>= next) file = .error fault := by
          show first file >>= _ = _
          rw [hfirst]
          rfl
        cases hfault.symm.trans h
    | ok done => exact ⟨done.1, done.2, rfl, (bind_ok hfirst).symm.trans h⟩
  · rintro ⟨a, mid, hfirst, hnext⟩
    exact (bind_ok hfirst).trans hnext

/-- Returning succeeds and leaves the file as it is. -/
theorem pure_eq_ok {a b : α} : (pure a : Play α) file = .ok (b, after) ↔ a = b ∧ file = after := by
  show Except.ok (a, file) = .ok (b, after) ↔ _
  rw [Except.ok.injEq, Prod.mk.injEq]

variable {f : α → Play β} {results : List β}

/-- No calls have no results and leave the file as it is. -/
theorem map_m_nil_eq_ok : [].mapM f file = .ok (results, after) ↔ [] = results ∧ file = after :=
  pure_eq_ok

/-- Calls succeed if the first does and the others do on what it leaves. -/
theorem map_m_cons_eq_ok {a : α} {as : List α} :
    (a :: as).mapM f file = .ok (results, after) ↔
      ∃ b bs mid, f a file = .ok (b, mid) ∧ as.mapM f mid = .ok (bs, after) ∧ b :: bs = results := by
  simp only [List.mapM_cons, bind_eq_ok, pure_eq_ok]
  constructor
  · rintro ⟨b, mid, hfirst, bs, last, hrest, hresults, rfl⟩
    exact ⟨b, bs, mid, hfirst, hrest, hresults⟩
  · rintro ⟨b, bs, mid, hfirst, hrest, hresults⟩
    exact ⟨b, mid, hfirst, bs, after, hrest, hresults, rfl⟩

/-- Calls and then more calls succeed if the second do on what the first leave. -/
theorem map_m_append_eq_ok {as more : List α} :
    (as ++ more).mapM f file = .ok (results, after) ↔
      ∃ bs cs mid, as.mapM f file = .ok (bs, mid) ∧ more.mapM f mid = .ok (cs, after) ∧
        bs ++ cs = results := by
  simp only [List.mapM_append, bind_eq_ok, pure_eq_ok]
  constructor
  · rintro ⟨bs, mid, hfirst, cs, last, hrest, hresults, rfl⟩
    exact ⟨bs, cs, mid, hfirst, hrest, hresults⟩
  · rintro ⟨bs, cs, mid, hfirst, hrest, hresults⟩
    exact ⟨bs, mid, hfirst, cs, after, hrest, hresults, rfl⟩

/-- Every call has one result. -/
theorem length_of_map_m_eq_ok {as : List α} (h : as.mapM f file = .ok (results, after)) :
    results.length = as.length := by
  induction as generalizing file results with
  | nil =>
      obtain ⟨rfl, -⟩ := map_m_nil_eq_ok.1 h
      rfl
  | cons a as ih =>
      obtain ⟨b, bs, mid, -, hrest, rfl⟩ := map_m_cons_eq_ok.1 h
      rw [List.length_cons, List.length_cons, ih hrest]

/-- The first calls have the first results. -/
theorem map_m_take_eq_ok {as : List α} (h : as.mapM f file = .ok (results, after)) (count : Nat) :
    ∃ mid, (as.take count).mapM f file = .ok (results.take count, mid) := by
  induction as generalizing file results count with
  | nil =>
      obtain ⟨rfl, rfl⟩ := map_m_nil_eq_ok.1 h
      exact ⟨file, by simp [pure_eq_ok]⟩
  | cons a as ih =>
      obtain ⟨b, bs, mid, hfirst, hrest, rfl⟩ := map_m_cons_eq_ok.1 h
      cases count with
      | zero => exact ⟨file, rfl⟩
      | succ count =>
          obtain ⟨last, htake⟩ := ih hrest count
          exact ⟨last, map_m_cons_ok hfirst htake⟩

end Play

/-! ## The calls of a note -/

namespace RenderConfig

/-- The sample rate as a number. -/
def rate (config : RenderConfig) : Float32 := config.sampleRate.toFloat32

/-- How many samples the key is held. -/
def heldSamples (config : RenderConfig) : Nat := nearestSamples config.gateSeconds config.rate

/-- How many samples there are after the release. -/
def tailSamples (config : RenderConfig) : Nat := nearestSamples config.tailSeconds config.rate

/-- An array can hold all samples of the note. -/
def Fits (config : RenderConfig) : Prop := config.heldSamples + config.tailSamples ≤ maxSamples

/-- The call for sample `i`: only the first is fresh, and the gate is open while the key is held. -/
def call (config : RenderConfig) (i : Nat) : Call :=
  ⟨config.frequency, if i < config.heldSamples then 1 else 0, config.rate, decide (i = 0)⟩

/-- The calls of a note. -/
def calls (config : RenderConfig) : List Call :=
  (List.range (config.heldSamples + config.tailSamples)).map config.call

/-- A note has as many calls as samples. -/
theorem length_calls (config : RenderConfig) :
    config.calls.length = config.heldSamples + config.tailSamples := by
  rw [calls, List.length_map, List.length_range]

/-- The voice of a note before its first sample. -/
def voice (config : RenderConfig) : Voice := (Voice.ofSeed config.seed).noteOn config.frequency

end RenderConfig

/-- Appends the next samples to a block. -/
abbrev Process := Nat → Voice → Array Float32 → Except Fault (Array Float32 × Voice)

/-- Plays blocks of samples one after another. -/
def Process.blocks (process : Process) :
    List Nat → Voice → Except Fault (List (Array Float32) × Voice)
  | [], voice => .ok ([], voice)
  | size :: rest, voice => do
    let (block, voice) ← process size voice #[]
    let (blocks, voice) ← process.blocks rest voice
    return (block :: blocks, voice)

/-- Plays a note live: some blocks while the key is held, then others after the release. -/
def RenderConfig.live (config : RenderConfig) (process : Process) (held tail : List Nat) :
    Except Fault (List (Array Float32)) := do
  let (before, voice) ← process.blocks held config.voice
  let (after, _) ← process.blocks tail voice.noteOff
  return before ++ after

/-! ## Interpreters -/

/-- What answers the calls of a voice. -/
abbrev Interpreter := Call → Play Float32

namespace Interpreter

variable (play : Interpreter) (sampleRate : Float32)

/-- The next sample of a voice that is answered by `play`. -/
def next (voice : Voice) : Except Fault (Float32 × Voice) :=
  match play ⟨voice.frequency, voice.signal, sampleRate, voice.retrigger⟩ voice.registers with
  | .ok (sample, registers) => .ok (sample, ⟨registers, voice.frequency, voice.signal, false⟩)
  | .error fault => .error fault

/-- A block of samples that `play` answers. -/
def process : Process
  | 0, voice, block => .ok (block, voice)
  | count + 1, voice, block =>
    match play.next sampleRate voice with
    | .ok (sample, voice) => process count voice (block.push sample)
    | .error fault => .error fault

/-- The samples from position `i` on that `play` answers; the key is released at position `gate`. -/
def renderFrom (gate : Nat) : Nat → Nat → Voice → Array Float32 → Except Fault (Array Float32)
  | 0, _, _, out => .ok out
  | count + 1, i, voice, out =>
    match play.next sampleRate (if i = gate then voice.noteOff else voice) with
    | .ok (sample, voice) => renderFrom gate count (i + 1) voice (out.push sample)
    | .error fault => .error fault

/-- All samples of a note that `play` answers. -/
def render (config : RenderConfig) : Except Fault (Array Float32) :=
  let total := (config.heldSamples + config.tailSamples) % UInt64.size
  if maxSamples < total then .error .capacityOverflow
  else play.renderFrom config.rate config.heldSamples total 0 config.voice #[]

/-- Answers every call with whether it is fresh. -/
def trigger : Interpreter := fun call => pure (if call.fresh then 1 else 0)

variable {sampleRate}

/-- The next sample of a voice is answered by the interpreter of its rack. -/
theorem next_step (rack : Rack) (voice : Voice) :
    next rack.step sampleRate voice = voice.next rack sampleRate := rfl

/-- Blocks of a rack are those of its interpreter. -/
theorem process_step (rack : Rack) : process rack.step sampleRate = Voice.process rack sampleRate := by
  funext count
  induction count with
  | zero => rfl
  | succ count ih =>
      funext voice block
      cases hnext : voice.next rack sampleRate with
      | ok done => simp only [process, Voice.process, next_step, hnext, ih]
      | error fault => simp only [process, Voice.process, next_step, hnext]

/-- Rendering with the interpreter of a rack is rendering the rack, from any sample on. -/
theorem render_from_step (rack : Rack) (gate count i : Nat) (voice : Voice) (out : Array Float32) :
    renderFrom rack.step sampleRate gate count i voice out =
      SynthRack.renderFrom rack sampleRate gate count i voice out := by
  induction count generalizing i voice out with
  | zero => rfl
  | succ count ih =>
      cases hnext : (if i = gate then voice.noteOff else voice).next rack sampleRate with
      | ok done => simp only [renderFrom, SynthRack.renderFrom, next_step, hnext, ih]
      | error fault => simp only [renderFrom, SynthRack.renderFrom, next_step, hnext]

/-- A rack is rendered as its interpreter is. -/
theorem render_step (rack : Rack) (config : RenderConfig) :
    render rack.step config = SynthRack.render rack config := by
  rw [render, render_from_step]
  rfl

end Interpreter

section Samples

variable {play : Interpreter} {config : RenderConfig} {voice : Voice} {samples : List Float32}
  {after : RegisterFile} {i count : Nat}

/-- The voice is about to play sample `i` of a note with this gate: it makes the calls of the note as
long as the gate of the note is that of the voice. -/
structure Voice.Before (config : RenderConfig) (i : Nat) (voice : Voice) : Prop where
  frequency : voice.frequency = config.frequency
  retrigger : voice.retrigger = decide (i = 0)

/-- The next sample of a voice is that of its call. -/
theorem Voice.Before.next_ok (h : voice.Before config i)
    (hsignal : (config.call i).signal = voice.signal) {sample : Float32}
    (hstep : play (config.call i) voice.registers = .ok (sample, after)) :
    play.next config.rate voice = .ok (sample, ⟨after, voice.frequency, voice.signal, false⟩) := by
  have hcall : config.call i = ⟨voice.frequency, voice.signal, config.rate, voice.retrigger⟩ := by
    rw [h.frequency, h.retrigger, ← hsignal]
    rfl
  rw [hcall] at hstep
  simp only [Interpreter.next, hstep]

/-- A voice that has played sample `i` is before sample `i + 1`. -/
theorem Voice.Before.later (h : voice.Before config i) (signal : Float32) (registers : RegisterFile) :
    Voice.Before config (i + 1) ⟨registers, voice.frequency, signal, false⟩ :=
  ⟨h.frequency, (decide_eq_false (Nat.succ_ne_zero i)).symm⟩

/-- A block makes the calls of its samples. -/
theorem process_ok (h : voice.Before config i)
    (hsignal : ∀ j, i ≤ j → j < i + count → (config.call j).signal = voice.signal)
    (hcalls : ((List.range' i count).map config.call).mapM play voice.registers =
      .ok (samples, after)) (block : Array Float32) :
    play.process config.rate count voice block =
      .ok (block ++ samples.toArray,
        ⟨after, voice.frequency, voice.signal, decide (i + count = 0)⟩) := by
  induction count generalizing i voice samples block with
  | zero =>
      obtain ⟨rfl, rfl⟩ := Play.map_m_nil_eq_ok.1 hcalls
      rw [Nat.add_zero, ← h.retrigger, Array.append_empty]
      rfl
  | succ count ih =>
      obtain ⟨sample, rest, mid, hstep, hrest, rfl⟩ := Play.map_m_cons_eq_ok.1 hcalls
      have hnext := h.next_ok (hsignal i le_rfl (by omega)) hstep
      have hlater := ih (h.later voice.signal mid)
        (fun j hlow hhigh => hsignal j (by omega) (by omega)) hrest (block.push sample)
      have hplace : i + 1 + count = i + (count + 1) := by omega
      simp only [Interpreter.process, hnext, hlater, hplace]
      simp

/-- Blocks of any sizes make the calls of their samples, and each is filled. -/
theorem blocks_ok {sizes : List Nat} (h : voice.Before config i)
    (hsignal : ∀ j, i ≤ j → j < i + sizes.sum → (config.call j).signal = voice.signal)
    (hcalls : ((List.range' i sizes.sum).map config.call).mapM play voice.registers =
      .ok (samples, after)) :
    ∃ blocks, (play.process config.rate).blocks sizes voice =
        .ok (blocks, ⟨after, voice.frequency, voice.signal, decide (i + sizes.sum = 0)⟩) ∧
      blocks.map Array.size = sizes ∧ blocks.flatMap Array.toList = samples := by
  induction sizes generalizing i voice samples with
  | nil =>
      obtain ⟨rfl, rfl⟩ := Play.map_m_nil_eq_ok.1 hcalls
      refine ⟨[], ?_, rfl, rfl⟩
      rw [List.sum_nil, Nat.add_zero, ← h.retrigger]
      rfl
  | cons size rest ih =>
      rw [List.sum_cons, ← List.range'_append_1, List.map_append] at hcalls
      obtain ⟨first, others, mid, hfirst, hothers, rfl⟩ := Play.map_m_append_eq_ok.1 hcalls
      rw [List.sum_cons] at hsignal
      have hblock := process_ok h (fun j hlow hhigh => hsignal j hlow (by omega)) hfirst #[]
      have hlater : Voice.Before config (i + size)
          ⟨mid, voice.frequency, voice.signal, decide (i + size = 0)⟩ := ⟨h.frequency, rfl⟩
      obtain ⟨blocks, hblocks, hsizes, hflat⟩ :=
        ih hlater (fun j hlow hhigh => hsignal j (by omega) (by omega)) hothers
      have hlength : first.length = size := by
        simpa using Play.length_of_map_m_eq_ok hfirst
      refine ⟨first.toArray :: blocks, ?_, by simp [hlength, hsizes], by simp [hflat]⟩
      rw [Array.empty_append] at hblock
      rw [List.sum_cons, ← Nat.add_assoc, Process.blocks, hblock]
      show ((play.process config.rate).blocks rest _ >>= _) = _
      rw [hblocks]
      rfl

/-- From any sample on, rendering makes the calls of the note. -/
theorem render_from_ok (h : voice.Before config i)
    (hsignal : voice.signal = if i ≤ config.heldSamples then 1 else 0)
    (hcalls : ((List.range' i count).map config.call).mapM play voice.registers =
      .ok (samples, after)) (out : Array Float32) :
    play.renderFrom config.rate config.heldSamples count i voice out =
      .ok (out ++ samples.toArray) := by
  induction count generalizing i voice samples out with
  | zero =>
      obtain ⟨rfl, rfl⟩ := Play.map_m_nil_eq_ok.1 hcalls
      rw [Array.append_empty]
      rfl
  | succ count ih =>
      obtain ⟨sample, rest, mid, hstep, hrest, rfl⟩ := Play.map_m_cons_eq_ok.1 hcalls
      -- The release comes before sample `heldSamples`, the first whose call has a closed gate.
      have hreleased : ∃ signal, (if i = config.heldSamples then voice.noteOff else voice) =
            ⟨voice.registers, voice.frequency, signal, voice.retrigger⟩ ∧
          signal = (config.call i).signal ∧
          signal = if i + 1 ≤ config.heldSamples then 1 else 0 := by
        by_cases hgate : i = config.heldSamples
        · refine ⟨0, if_pos hgate, (if_neg (by omega)).symm, (if_neg (by omega)).symm⟩
        · refine ⟨voice.signal, if_neg hgate, ?_, ?_⟩
          · rw [hsignal]
            show _ = if i < config.heldSamples then (1 : Float32) else 0
            simp only [Nat.le_iff_lt_or_eq, hgate, or_false]
          · rw [hsignal]
            simp only [Nat.succ_le_iff, Nat.le_iff_lt_or_eq, hgate, or_false]
      obtain ⟨signal, hvoice, hcall, hlater⟩ := hreleased
      have hbefore : Voice.Before config i
          ⟨voice.registers, voice.frequency, signal, voice.retrigger⟩ := ⟨h.frequency, h.retrigger⟩
      have hnext := hbefore.next_ok hcall.symm hstep
      have hrendered := ih (hbefore.later signal mid) hlater hrest (out.push sample)
      simp only [Interpreter.renderFrom, hvoice, hnext, hrendered]
      simp

/-- A note that begins is before its first sample. -/
theorem before_voice (config : RenderConfig) : Voice.Before config 0 config.voice := ⟨rfl, rfl⟩

/-- The calls of a note are those from the first sample on. -/
theorem calls_eq (config : RenderConfig) :
    config.calls = (List.range' 0 (config.heldSamples + config.tailSamples)).map config.call := by
  rw [RenderConfig.calls, List.range_eq_range']

/-- Rendering makes the calls of a note that fits into an array. -/
theorem render_ok (hfits : config.Fits)
    (hcalls : config.calls.mapM play (.ofSeed config.seed) = .ok (samples, after)) :
    play.render config = .ok samples.toArray := by
  have hword : maxSamples < UInt64.size := by decide
  have htotal : (config.heldSamples + config.tailSamples) % UInt64.size =
      config.heldSamples + config.tailSamples := Nat.mod_eq_of_lt (hfits.trans_lt hword)
  rw [calls_eq] at hcalls
  have hrendered := render_from_ok (before_voice config) (if_pos (Nat.zero_le _)).symm hcalls #[]
  rw [Array.empty_append] at hrendered
  rw [Interpreter.render, htotal, if_neg (Nat.not_lt.2 hfits)]
  exact hrendered

/-- Rendering a note that does not fit makes no call. -/
theorem render_overflow (hlong : ¬ config.Fits)
    (hword : config.heldSamples + config.tailSamples < UInt64.size) :
    play.render config = .error .capacityOverflow := by
  rw [Interpreter.render, Nat.mod_eq_of_lt hword]
  exact if_pos (Nat.not_le.1 hlong)

/-- Playing live makes the calls of the note. -/
theorem live_ok {held tail : List Nat} (hheld : held.sum = config.heldSamples)
    (htail : tail.sum = config.tailSamples)
    (hcalls : config.calls.mapM play (.ofSeed config.seed) = .ok (samples, after)) :
    ∃ blocks, config.live (play.process config.rate) held tail = .ok blocks ∧
      blocks.map Array.size = held ++ tail ∧ blocks.flatMap Array.toList = samples := by
  rw [calls_eq, ← hheld, ← htail, ← List.range'_append_1, List.map_append, Nat.zero_add] at hcalls
  obtain ⟨first, others, mid, hfirst, hothers, rfl⟩ := Play.map_m_append_eq_ok.1 hcalls
  obtain ⟨before, hbefore, hbeforeSizes, hbeforeFlat⟩ :=
    blocks_ok (before_voice config) (fun j _ hhigh => if_pos (by omega)) hfirst
  -- The release leaves the trigger to the first sample after it, if there was none before.
  have hreleased : Voice.Before config held.sum
      ⟨mid, config.frequency, 0, decide (held.sum = 0)⟩ := ⟨rfl, rfl⟩
  obtain ⟨later, hlater, hlaterSizes, hlaterFlat⟩ :=
    blocks_ok hreleased (fun j hlow _ => if_neg (by omega)) hothers
  refine ⟨before ++ later, ?_, by simp [hbeforeSizes, hlaterSizes], by simp [hbeforeFlat, hlaterFlat]⟩
  rw [RenderConfig.live, hbefore, Nat.zero_add]
  show ((play.process config.rate).blocks tail
    ⟨mid, config.frequency, 0, decide (held.sum = 0)⟩ >>= _) = _
  rw [hlater]
  rfl

end Samples

/-! ## Notes -/

/-- The samples of a note, however it is played. -/
structure PlaysNote (rack : Rack) (config : RenderConfig) (samples : List Float32) : Prop where
  length : samples.length = config.heldSamples + config.tailSamples
  rendered : config.Fits → render rack config = .ok samples.toArray
  /-- A note that is too long for an array is not rendered, but it can be played live. -/
  overflow : ¬ config.Fits → config.heldSamples + config.tailSamples < UInt64.size →
    render rack config = .error .capacityOverflow
  /-- Blocks of any sizes, also of none, are filled with the samples in order. -/
  live : ∀ held tail : List Nat, held.sum = config.heldSamples → tail.sum = config.tailSamples →
    ∃ blocks, config.live (Voice.process rack config.rate) held tail = .ok blocks ∧
      blocks.map Array.size = held ++ tail ∧ blocks.flatMap Array.toList = samples
  /-- The samples are the answers to the calls of the note. -/
  answered : ∃ after, config.calls.mapM rack.step (.ofSeed config.seed) = .ok (samples, after)

/-- The calls of a note as an interpreter sees them that is put in the place of a rack's: only that
for the first sample is fresh, also if the key is released before it. -/
structure TriggersOnce (config : RenderConfig) : Prop where
  rack_render : ∀ rack : Rack, Interpreter.render rack.step config = render rack config
  rack_process : ∀ rack : Rack,
    Interpreter.process rack.step config.rate = Voice.process rack config.rate
  rendered : config.Fits → Interpreter.trigger.render config =
    .ok ((List.range (config.heldSamples + config.tailSamples)).map
      fun i => if i = 0 then 1 else 0).toArray
  live : ∀ held tail : List Nat, held.sum = config.heldSamples → tail.sum = config.tailSamples →
    ∃ blocks, config.live (Interpreter.trigger.process config.rate) held tail = .ok blocks ∧
      blocks.flatMap Array.toList =
        (List.range (config.heldSamples + config.tailSamples)).map fun i => if i = 0 then 1 else 0

/-- A compiled rack plays every note. -/
theorem exists_note (rack : Rack) (version : Nat) (cursor : Option Nat) (config : RenderConfig) :
    ∃ samples, PlaysNote { rack.compile (version + 1) with cursor } config samples := by
  have hlaid := (Rack.laid_out_compile rack (version + 1)).with_cursor cursor
  have hcompiled : ({ rack.compile (version + 1) with cursor } : Rack).isCompiled = true :=
    decide_eq_true (Nat.succ_pos version)
  obtain ⟨after, hcalls⟩ := samples_ok hlaid hcompiled config.calls fun call =>
    running_reconcile_start hlaid call config.seed
  have hlength := (Play.length_of_map_m_eq_ok hcalls).trans (RenderConfig.length_calls config)
  refine ⟨_, hlength, fun hfits => ?rendered, fun hlong hword => ?overflow,
    fun held tail hheld htail => ?live, after, hcalls⟩
  case rendered => rw [← Interpreter.render_step, render_ok hfits hcalls]
  case overflow => rw [← Interpreter.render_step, render_overflow hlong hword]
  case live =>
    rw [← Interpreter.process_step]
    exact live_ok hheld htail hcalls

/-- Every note is triggered by its first sample. -/
theorem triggers_once (config : RenderConfig) : TriggersOnce config := by
  have hcalls : config.calls.mapM Interpreter.trigger (.ofSeed config.seed) =
      .ok ((List.range (config.heldSamples + config.tailSamples)).map
        fun i => if i = 0 then 1 else 0, .ofSeed config.seed) := by
    have hfresh (i : Nat) : (if (config.call i).fresh then 1 else 0 : Float32) =
        if i = 0 then 1 else 0 := by
      simp only [RenderConfig.call, decide_eq_true_eq]
    unfold Interpreter.trigger RenderConfig.calls
    rw [List.mapM_pure, List.map_map]
    simp only [Function.comp_def, hfresh]
    rfl
  refine ⟨fun rack => Interpreter.render_step rack config, fun rack => Interpreter.process_step rack,
    fun hfits => render_ok hfits hcalls, fun held tail hheld htail => ?_⟩
  obtain ⟨blocks, hlive, -, hflat⟩ := live_ok hheld htail hcalls
  exact ⟨blocks, hlive, hflat⟩

section Notes

variable {rack : Rack} {config other : RenderConfig} {samples others : List Float32}

/-- Notes that begin with the same calls begin with the same samples. -/
theorem PlaysNote.take_eq (h : PlaysNote rack config samples) (h' : PlaysNote rack other others)
    (hseed : config.seed = other.seed) (count : Nat)
    (hcalls : config.calls.take count = other.calls.take count) :
    samples.take count = others.take count := by
  obtain ⟨after, hanswered⟩ := h.answered
  obtain ⟨after', hanswered'⟩ := h'.answered
  obtain ⟨mid, hfirst⟩ := Play.map_m_take_eq_ok hanswered count
  obtain ⟨mid', hfirst'⟩ := Play.map_m_take_eq_ok hanswered' count
  rw [hcalls, hseed] at hfirst
  exact (Prod.mk.inj (Except.ok.inj (hfirst.symm.trans hfirst'))).1

/-- Notes with the same calls up to a sample begin with the same list of calls. -/
theorem RenderConfig.take_calls {count : Nat}
    (hcount : count ≤ config.heldSamples + config.tailSamples)
    (hcount' : count ≤ other.heldSamples + other.tailSamples)
    (hcall : ∀ i < count, config.call i = other.call i) :
    config.calls.take count = other.calls.take count := by
  rw [calls, calls, ← List.map_take, ← List.map_take, List.take_range, List.take_range,
    min_eq_left hcount, min_eq_left hcount']
  exact List.map_congr_left fun i hi => hcall i (List.mem_range.1 hi)

/-- A note with a longer tail goes on where the other ends. -/
theorem PlaysNote.begins {tailSeconds : Float32} (h : PlaysNote rack config samples)
    (h' : PlaysNote rack { config with tailSeconds } others)
    (htail : config.tailSamples ≤ { config with tailSeconds }.tailSamples) :
    samples <+: others := by
  have hheld : { config with tailSeconds }.heldSamples = config.heldSamples := rfl
  have hshared := h.take_eq h' rfl samples.length <|
    RenderConfig.take_calls h.length.le (by rw [h.length, hheld]; omega) fun _ _ => rfl
  rw [List.take_length] at hshared
  exact hshared ▸ List.take_prefix _ _

/-- As long as the key is held in both, notes that differ in their gates agree. -/
theorem PlaysNote.held_eq {gateSeconds : Float32} (h : PlaysNote rack config samples)
    (h' : PlaysNote rack { config with gateSeconds } others) :
    let common := min config.heldSamples { config with gateSeconds }.heldSamples
    samples.take common = others.take common := by
  intro common
  have hheld : common ≤ config.heldSamples := min_le_left _ _
  have hheld' : common ≤ { config with gateSeconds }.heldSamples := min_le_right _ _
  refine h.take_eq h' rfl common (RenderConfig.take_calls (by omega) (by omega) fun i hi => ?_)
  have hopen : i < config.heldSamples := by omega
  have hopen' : i < { config with gateSeconds }.heldSamples := by omega
  rw [RenderConfig.call, RenderConfig.call, if_pos hopen, if_pos hopen']
  rfl

end Notes

/-- A compiled rack plays every note, in the same way rendered and live, and is triggered by the first
sample alone. Rendering returns the notes that fit into an array and refuses longer ones. Notes that
differ in their tails only are the beginnings of one another, and notes that differ in how long the
key is held agree while it is held in both. -/
theorem plays_note (rack : Rack) (version : Nat) (cursor : Option Nat) (config : RenderConfig) :
    let done := { rack.compile (version + 1) with cursor }
    TriggersOnce config ∧ ∃ samples, PlaysNote done config samples ∧
      (∀ tailSeconds, ∃ others, PlaysNote done { config with tailSeconds } others ∧
        (samples <+: others ∨ others <+: samples)) ∧
      ∀ gateSeconds, ∃ others, PlaysNote done { config with gateSeconds } others ∧
        let common := min config.heldSamples { config with gateSeconds }.heldSamples
        samples.take common = others.take common := by
  intro done
  obtain ⟨samples, hnote⟩ := exists_note rack version cursor config
  refine ⟨triggers_once config, samples, hnote, fun tailSeconds => ?tail, fun gateSeconds => ?gate⟩
  case tail =>
    obtain ⟨others, hother⟩ := exists_note rack version cursor { config with tailSeconds }
    refine ⟨others, hother, ?_⟩
    rcases Nat.le_total config.tailSamples { config with tailSeconds }.tailSamples with hle | hge
    · exact .inl (hnote.begins hother hle)
    · exact .inr (hother.begins hnote hge)
  case gate =>
    obtain ⟨others, hother⟩ := exists_note rack version cursor { config with gateSeconds }
    exact ⟨others, hother, hnote.held_eq hother⟩

/-- A key that is released before the first sample: there are three samples, all after the release,
of which the first is fresh, and live playing fills two blocks with them around an empty one. -/
theorem plays_note_released_at_once :
    let done := { Rack.compile { Rack.empty with nodes := [.ofEffect (.new .envelope)] } 1 with
      cursor := none }
    let config : RenderConfig := ⟨8, 440, 0, 0.375, 7⟩
    config.heldSamples = 0 ∧ config.tailSamples = 3 ∧
      Interpreter.trigger.render config = .ok #[1, 0, 0] ∧
      ∃ samples blocks, render done config = .ok samples ∧
        config.live (Voice.process done config.rate) [0] [2, 0, 1] = .ok blocks ∧
        blocks.map Array.size = [0, 2, 0, 1] ∧ blocks.flatMap Array.toList = samples.toList := by
  intro done config
  have hheld : config.heldSamples = 0 := by decide
  have htail : config.tailSamples = 3 := by decide
  obtain ⟨htrigger, samples, hnote, -⟩ := plays_note
    { Rack.empty with nodes := [.ofEffect (.new .envelope)] } 0 none config
  have hfits : config.Fits := by
    rw [RenderConfig.Fits, hheld, htail]
    decide
  have hfresh := htrigger.rendered hfits
  rw [hheld, htail] at hfresh
  obtain ⟨blocks, hlive, hsizes, hflat⟩ := hnote.live [0] [2, 0, 1] hheld.symm htail.symm
  exact ⟨hheld, htail, hfresh, samples.toArray, blocks, hnote.rendered hfits, hlive, hsizes, hflat⟩

/-- A key that is held for one sample more than an array can hold: there is nothing to play, and still
the note is not rendered. -/
theorem long_note_not_rendered :
    let config : RenderConfig := ⟨1, 440, 2305843009213693952, 0, 0⟩
    config.heldSamples = maxSamples + 1 ∧ config.tailSamples = 0 ∧
      render (Rack.empty.compile 1) config = .error .capacityOverflow := by
  intro config
  have hheld : config.heldSamples = maxSamples + 1 := by decide +kernel
  have htail : config.tailSamples = 0 := by decide
  have hrefused : Interpreter.render (Rack.empty.compile 1).step config = .error .capacityOverflow := by
    apply render_overflow
    · rw [RenderConfig.Fits, hheld, htail]
      decide
    · rw [hheld, htail]
      decide
  exact ⟨hheld, htail, (Interpreter.render_step _ config).symm.trans hrefused⟩

end SynthRack
