import Mathlib
import SynthRack.Play.Step
import SynthRack.Proofs.Play.Dataflow

/-!
# Kernels on registers and on numbers

`evaluate_ok` says what evaluating a node does to a register file: it never faults, its sample and
its new private state are those that `Effect.respond` computes from the numbers in the registers,
and the file changes in the node's private registers, its buffer and the noise alone. It is
assembled from one lemma for each kernel.
-/

namespace SynthRack

namespace Cell

/-- What the private registers of a node hold, in order. -/
def contents (cell : Cell) : EffectType → List Float32
  | .oscillator => [cell.phase]
  | .envelope => [cell.stage.register, cell.level]
  | .delay => [cell.cursor]
  | .biquad => [cell.z1, cell.z2]
  | .maths | .switch | .noise => []

/-- The contents of a cell fill the private registers of its kind. -/
theorem length_contents (cell : Cell) (type : EffectType) :
    (cell.contents type).length = type.stateCount := by
  cases type <;> rfl

/-- The private registers do not hold the output. -/
theorem contents_with_output (cell : Cell) (output : Float32) (type : EffectType) :
    ({ cell with output } : Cell).contents type = cell.contents type := by
  cases type <;> rfl

/-- Nor do they hold the delay memory. -/
theorem contents_with_line (cell : Cell) (line : DelayLine) (type : EffectType) :
    ({ cell with line } : Cell).contents type = cell.contents type := by
  cases type <;> rfl

end Cell

/-- A stage is found again in the register it was stored in. -/
theorem Stage.of_register_register (stage : Stage) : Stage.ofRegister stage.register = stage := by
  cases stage <;> decide

namespace RegisterFile

/-- A register of the file and what it holds. -/
def Holds (file : RegisterFile) (register : Nat) (value : Float32) : Prop :=
  file.values[register]? = some value

/-- The parameter has a register, and it holds the number. -/
def Reads (file : RegisterFile) (param : Param) (number : Float32) : Prop :=
  ∃ register, param.register = some register ∧ file.Holds register number

/-- Registers after several of them are written. -/
def writeAll (values : Array Float32) (writes : List (Nat × Float32)) : Array Float32 :=
  writes.foldl (fun values (register, value) => values.setIfInBounds register value) values

/-- The file after several registers are written. -/
def written (file : RegisterFile) (writes : List (Nat × Float32)) : RegisterFile :=
  { file with values := writeAll file.values writes }

/-- The file with the private state of a node stored and the noise changed. -/
def keep (file : RegisterFile) (home : Home) (type : EffectType) (cell : Cell)
    (noise : NoiseSource) : RegisterFile :=
  { file with
    values := writeAll file.values (home.state.zip (cell.contents type))
    buffers := home.buffer.elim file.buffers (file.buffers.setIfInBounds · cell.line)
    noise }

variable {file : RegisterFile}

/-- A register that holds something is a register of the file. -/
theorem Holds.lt {register : Nat} {value : Float32} (h : file.Holds register value) :
    register < file.values.size := (Array.getElem?_eq_some_iff.1 h).1

/-- Writing registers makes none. -/
@[simp] theorem size_write_all (values : Array Float32) (writes : List (Nat × Float32)) :
    (writeAll values writes).size = values.size := by
  induction writes generalizing values with
  | nil => rfl
  | cons write writes ih => exact (ih _).trans (Array.size_setIfInBounds ..)

/-- A register that is not written keeps what it holds. -/
theorem get_elem_write_all_of_not_mem {register : Nat} {writes : List (Nat × Float32)}
    (h : register ∉ writes.map Prod.fst) (values : Array Float32) :
    (writeAll values writes)[register]? = values[register]? := by
  induction writes generalizing values with
  | nil => rfl
  | cons write writes ih =>
      simp only [List.map_cons, List.mem_cons, not_or] at h
      refine (ih h.2 _).trans ?_
      exact Array.getElem?_setIfInBounds_ne (Ne.symm h.1)

/-- A parameter whose register is not written is read as before. -/
theorem Reads.written_apart {p : Param} {number : Float32} (h : file.Reads p number)
    (writes : List (Nat × Float32))
    (hapart : ∀ register ∈ writes.map Prod.fst, p.register ≠ some register) :
    (file.written writes).Reads p number := by
  obtain ⟨register, hregister, hholds⟩ := h
  have hkept := get_elem_write_all_of_not_mem (fun hmem => hapart register hmem hregister) file.values
  exact ⟨register, hregister, hkept.trans hholds⟩

/-- Different registers hold what was written to them. -/
theorem get_elem_write_all_of_mem {register : Nat} {value : Float32} {writes : List (Nat × Float32)}
    (hmem : (register, value) ∈ writes) (hnodup : (writes.map Prod.fst).Nodup)
    {values : Array Float32} (hlt : register < values.size) :
    (writeAll values writes)[register]? = some value := by
  induction writes generalizing values with
  | nil => cases hmem
  | cons write writes ih =>
      rw [List.map_cons, List.nodup_cons] at hnodup
      rcases List.mem_cons.1 hmem with rfl | hrest
      · refine (get_elem_write_all_of_not_mem hnodup.1 _).trans ?_
        simp [hlt]
      · exact ih hrest hnodup.2 (by simpa using hlt)

/-- Playing a buffer that is there succeeds and leaves the line after the tick in its place. -/
theorem tick_buffer_ok {index : Nat} {line : DelayLine} (hline : file.buffers[index]? = some line)
    (input : Float32) (cursor length : Nat) :
    let ticked := line.tick input cursor length
    file.tickBuffer (some index) input cursor length = .ok ((ticked.1, ticked.2.1),
      { file with buffers := file.buffers.setIfInBounds index ticked.2.2 }) := by
  obtain ⟨hlt, rfl⟩ := Array.getElem?_eq_some_iff.1 hline
  simp [tickBuffer, hlt, Array.swapAt, Array.setIfInBounds]

/-- Writing what is there already changes nothing. -/
theorem write_all_eq_self {registers : List Nat} {contents : List Float32}
    (h : List.Forall₂ file.Holds registers contents) :
    writeAll file.values (registers.zip contents) = file.values := by
  induction h with
  | nil => rfl
  | @cons register value registers contents hholds _ ih =>
      have hset : file.values.setIfInBounds register value = file.values := by
        obtain ⟨hlt, rfl⟩ := Array.getElem?_eq_some_iff.1 hholds
        simp [Array.setIfInBounds, hlt]
      show writeAll (file.values.setIfInBounds register value) (registers.zip contents) = _
      rw [hset, ih]

end RegisterFile

/-- The home of a node holds a cell. -/
structure NodeHeld (file : RegisterFile) (node : Node) (home : Home) (cell : Cell) : Prop where
  placed : node.home = some home
  output : file.Holds home.output cell.output
  state : List.Forall₂ file.Holds home.state (cell.contents node.effect.type)
  buffer : home.buffer.isSome = node.effect.bufferNeed?.isSome
  line : ∀ index ∈ home.buffer, file.buffers[index]? = some cell.line

namespace Play

variable {α β : Type} {file : RegisterFile}

/-- Running two computations when the first succeeds. -/
theorem bind_ok {first : Play α} {next : α → Play β} {after : RegisterFile} {a : α}
    (h : first file = .ok (a, after)) : (first >>= next) file = next a after := by
  show (first file >>= fun result => next result.1 result.2) = _
  rw [h]
  rfl

/-- Running a computation for each entry of a list, when all of them succeed. -/
theorem map_m_cons_ok {f : α → Play β} {a : α} {as : List α} {b : β} {bs : List β}
    {next after : RegisterFile} (hfirst : f a file = .ok (b, next))
    (hrest : as.mapM f next = .ok (bs, after)) :
    (a :: as).mapM f file = .ok (b :: bs, after) := by
  rw [List.mapM_cons, bind_ok hfirst, bind_ok hrest]
  rfl

/-- Reading a register succeeds with what it holds. -/
theorem read_ok {register : Nat} {value : Float32} (h : file.Holds register value) :
    read (some register) file = .ok (value, file) := by
  obtain ⟨hlt, rfl⟩ := Array.getElem?_eq_some_iff.1 h
  simp [read, RegisterFile.read, hlt]

/-- Writing a register of the file succeeds. -/
theorem write_ok {register : Nat} (h : register < file.values.size) (value : Float32) :
    write (some register) value file =
      .ok ((), { file with values := file.values.setIfInBounds register value }) := by
  simp [write, RegisterFile.write, h, Array.setIfInBounds]

/-- Reading a parameter succeeds with what it reads. -/
theorem param_ok {p : Param} {number : Float32} (h : file.Reads p number) :
    param p file = .ok (number, file) := by
  obtain ⟨register, hregister, hholds⟩ := h
  rw [param, hregister, read_ok hholds]

section Kernels

variable {call : Call} {cell : Cell} {noise : NoiseSource}

/-- An oscillator plays as on numbers and stores its phase. -/
theorem oscillator_ok {o : Oscillator Param} {x : Oscillator Float32}
    (hwaveform : o.waveform = x.waveform) (hamplitude : file.Reads o.amplitude x.amplitude)
    (hfrequency : file.Reads o.frequency x.frequency)
    (hmultiplier : file.Reads o.frequencyMult x.frequencyMult)
    (hphase : file.Reads o.phase x.phase) (hoffset : file.Reads o.offset x.offset) {phase : Nat}
    (hstate : file.Holds phase cell.phase) (hapart : o.offset.register ≠ some phase) :
    let result := (Effect.oscillator x).respond call cell noise
    oscillator o (some phase) call.dt file =
      .ok (result.1, file.written [(phase, result.2.1.phase)]) := by
  intro result
  rw [oscillator, bind_ok (param_ok hamplitude)]
  by_cases hsilent : x.amplitude == 0
  · have hresult : result = (0, cell, noise) := by simp [result, Effect.respond, hsilent]
    have hkeep := RegisterFile.write_all_eq_self (.cons hstate .nil)
    rw [List.zip_cons_cons, List.zip_nil_left] at hkeep
    rw [if_pos hsilent, hresult, RegisterFile.written, hkeep]
    rfl
  · have hresult : result = (x.waveform.output x.amplitude x.phase x.offset cell.phase,
        { cell with phase := nextPhase x.frequency x.frequencyMult call.dt cell.phase }, noise) := by
      simp [result, Effect.respond, Waveform.play, hsilent]
    rw [if_neg hsilent, bind_ok (read_ok hstate), bind_ok (param_ok hphase),
      bind_ok (param_ok hfrequency), bind_ok (param_ok hmultiplier),
      bind_ok (write_ok hstate.lt _), hwaveform, hresult]
    -- The offset is read after the phase is written, from another register.
    exact bind_ok (param_ok (hoffset.written_apart
      [(phase, nextPhase x.frequency x.frequencyMult call.dt cell.phase)] (by simpa using hapart)))

/-- An envelope plays as on numbers and stores its stage and its level. -/
theorem envelope_ok {e : Envelope Param} {x : Envelope Float32}
    (hsignal : file.Reads e.signal x.signal) (hattack : file.Reads e.attack x.attack)
    (hdecay : file.Reads e.decay x.decay) (hsustain : file.Reads e.sustain x.sustain)
    (hrelease : file.Reads e.release x.release) (hshaped : file.Reads e.toModulate x.toModulate)
    {stage level : Nat} (hstage : file.Holds stage cell.stage.register)
    (hlevel : file.Holds level cell.level)
    (hapart : e.toModulate.register ≠ some stage ∧ e.toModulate.register ≠ some level) :
    let result := (Effect.envelope x).respond call cell noise
    envelope e (some stage) (some level) call.dt file =
      .ok (result.1, file.written
        [(stage, result.2.1.stage.register), (level, result.2.1.level)]) := by
  intro result
  obtain ⟨⟨nextStage, nextLevel⟩, hnext⟩ : ∃ next, (⟨x.attack, x.decay, x.sustain, x.release⟩ :
      Adsr Float32).advance cell.stage cell.level x.signal call.dt = next := ⟨_, rfl⟩
  have hresult : result = (nextLevel * x.toModulate,
      { cell with stage := nextStage, level := nextLevel }, noise) := by
    simp only [result, Effect.respond, hnext]
  rw [envelope, bind_ok (param_ok hattack), bind_ok (param_ok hdecay), bind_ok (param_ok hsustain),
    bind_ok (param_ok hrelease), bind_ok (read_ok hstage), bind_ok (param_ok hsignal),
    bind_ok (read_ok hlevel), Stage.of_register_register]
  simp only [hnext]
  rw [bind_ok (write_ok hstage.lt _), bind_ok (write_ok (by simpa using hlevel.lt) _), hresult]
  -- The shaped signal is read after the state is written, from another register.
  exact bind_ok (param_ok (hshaped.written_apart
    [(stage, nextStage.register), (level, nextLevel)] (by simpa using hapart)))

/-- A product of parameters is that of their numbers. -/
theorem product_ok {coefficients : List Param} {numbers : List Float32}
    (h : List.Forall₂ file.Reads coefficients numbers) (so : Float32) :
    product coefficients so file = .ok (numbers.foldl (· * ·) so, file) := by
  induction h generalizing so with
  | nil => rfl
  | cons hread _ ih =>
      rw [product, bind_ok (param_ok hread), ih]
      rfl

/-- A sum of products is that of the numbers. -/
theorem sum_ok {terms : List (List Param)} {numbers : List (List Float32)}
    (h : List.Forall₂ (List.Forall₂ file.Reads) terms numbers) (so : Float32) :
    sum terms so file =
      .ok (numbers.foldl (fun so term => so + term.foldl (· * ·) 1) so, file) := by
  induction h generalizing so with
  | nil => rfl
  | cons hterm _ ih =>
      rw [sum, bind_ok (product_ok hterm 1), ih]
      rfl

/-- A condition whose parameters are read as the numbers of another. -/
structure ConditionReads (file : RegisterFile) (c : Condition Param) (x : Condition Float32) :
    Prop where
  operator : c.operator = x.operator
  a : file.Reads c.a x.a
  b : file.Reads c.b x.b
  result : file.Reads c.result x.result

/-- A switch chooses as on numbers. -/
theorem choose_ok {conditions : List (Condition Param)} {numbers : List (Condition Float32)}
    (h : List.Forall₂ (ConditionReads file) conditions numbers) {fallback : Param}
    {number : Float32} (hfallback : file.Reads fallback number) :
    choose conditions fallback file =
      .ok (((Effect.switch ⟨numbers, number⟩).respond call cell noise).1, file) := by
  induction h with
  | nil => exact param_ok hfallback
  | @cons c x conditions numbers hread _ ih =>
      rw [choose, bind_ok (param_ok hread.a), bind_ok (param_ok hread.b), hread.operator]
      by_cases htest : x.operator.test x.a x.b = true
      · rw [if_pos htest, param_ok hread.result]
        simp [Effect.respond, htest]
      · rw [if_neg htest, ih]
        simp [Effect.respond, htest]

/-- Noise is drawn as on numbers, and the source moves on. -/
theorem gated_noise_ok {n : Noise Param} {x : Noise Float32}
    (hamplitude : file.Reads n.amplitude x.amplitude) :
    let result := (Effect.noise x).respond call cell file.noise
    gatedNoise n file = .ok (result.1, { file with noise := result.2.2 }) := by
  intro result
  rw [gatedNoise, bind_ok (param_ok hamplitude)]
  by_cases hon : 0 < x.amplitude.abs
  · have hresult : result = (file.noise.next.1, cell, file.noise.next.2) := by
      simp [result, Effect.respond, hon]
    rw [if_pos hon, hresult]
    rfl
  · have hresult : result = (0, cell, file.noise) := by simp [result, Effect.respond, hon]
    rw [if_neg hon, hresult]
    rfl

/-- A delay plays as on numbers, stores its cursor and leaves its line after the tick. -/
theorem delay_ok {d : Delay Param} {x : Delay Float32} (hsignal : file.Reads d.signal x.signal)
    (hseconds : file.Reads d.seconds x.seconds) {cursor index : Nat}
    (hcursor : file.Holds cursor cell.cursor) (hline : file.buffers[index]? = some cell.line) :
    let result := (Effect.delay x).respond call cell noise
    delay d (some cursor) (some index) call.sampleRate file =
      .ok (result.1, { file.written [(cursor, result.2.1.cursor)] with
        buffers := file.buffers.setIfInBounds index result.2.1.line }) := by
  intro result
  have htick : tickBuffer (some index) x.signal cell.cursor.toUInt64.toNat
      (samplesFor x.seconds call.sampleRate) file = _ := RegisterFile.tick_buffer_ok hline _ _ _
  rw [delay, bind_ok (param_ok hsignal), bind_ok (param_ok hseconds), bind_ok (read_ok hcursor),
    bind_ok htick]
  exact bind_ok (write_ok (by exact hcursor.lt) _)

/-- A filter plays as on numbers and stores its taps. -/
theorem biquad_ok {b : Biquad Param} {x : Biquad Float32} (hsignal : file.Reads b.signal x.signal)
    (ha1 : file.Reads b.a1 x.a1) (ha2 : file.Reads b.a2 x.a2) (hb0 : file.Reads b.b0 x.b0)
    (hb1 : file.Reads b.b1 x.b1) (hb2 : file.Reads b.b2 x.b2) {first second : Nat}
    (hfirst : file.Holds first cell.z1) (hsecond : file.Holds second cell.z2) :
    let result := (Effect.biquad x).respond call cell noise
    biquad b (some first) (some second) file =
      .ok (result.1, file.written [(first, result.2.1.z1), (second, result.2.1.z2)]) := by
  intro result
  rw [biquad, bind_ok (param_ok ha1), bind_ok (param_ok ha2), bind_ok (param_ok hb0),
    bind_ok (param_ok hb1), bind_ok (param_ok hb2), bind_ok (param_ok hsignal),
    bind_ok (read_ok hfirst), bind_ok (read_ok hsecond)]
  dsimp only [Coefficients.tick]
  rw [bind_ok (write_ok hfirst.lt _), bind_ok (write_ok (by simpa using hsecond.lt) _)]
  rfl

/-! ## Nodes -/

/-- Only a noise effect draws noise. -/
theorem respond_noise {x : Effect Float32} (h : x.type ≠ .noise) :
    (x.respond call cell noise).2.2 = noise := by
  cases x with
  | noise => exact absurd rfl h
  | oscillator o =>
      simp only [Effect.respond]
      split <;> rfl
  | switch s =>
      simp only [Effect.respond]
      split <;> rfl
  | _ => rfl

/-- An effect with no private state and no buffer changes the file by its noise. -/
theorem keep_stateless {home : Home} {type : EffectType} (hstate : home.state = [])
    (hbuffer : home.buffer = none) : file.keep home type cell noise = { file with noise } := by
  simp [RegisterFile.keep, hstate, hbuffer, RegisterFile.writeAll]

/-- The coefficients of a maths effect are read term by term. -/
theorem maths_reads {m : Maths Param} {number : Param × Float32 → Float32}
    (hreads : ∀ p ∈ (Effect.maths m).withDefaults.params, file.Reads p.1 (number p)) :
    List.Forall₂ (List.Forall₂ file.Reads) m.terms
      ((m.terms.map (·.map (·, (1 : Float32)))).map (·.map number)) := by
  simp only [List.forall₂_map_right_iff]
  refine List.forall₂_same.2 fun term hterm => ?_
  refine List.forall₂_same.2 fun coefficient hcoefficient => hreads (coefficient, 1) ?_
  simp only [Effect.withDefaults, Effect.params, List.mem_flatten, List.mem_map]
  exact ⟨_, ⟨term, hterm, rfl⟩, List.mem_map.2 ⟨coefficient, hcoefficient, rfl⟩⟩

/-- The parameters of a switch effect are read condition by condition. -/
theorem switch_reads {s : Switch Param} {number : Param × Float32 → Float32}
    (hreads : ∀ p ∈ (Effect.switch s).withDefaults.params, file.Reads p.1 (number p)) :
    List.Forall₂ (ConditionReads file) s.conditions
      ((s.conditions.map (·.map (·, (0 : Float32)))).map (·.map number)) := by
  simp only [List.forall₂_map_right_iff]
  refine List.forall₂_same.2 fun c hc => ?_
  have hcondition : ∀ p ∈ (c.map (·, (0 : Float32))).params, file.Reads p.1 (number p) := by
    intro p hp
    refine hreads p ?_
    simp only [Effect.withDefaults, Effect.params, List.mem_append, List.mem_flatMap, List.mem_map]
    exact .inl ⟨_, ⟨c, hc, rfl⟩, hp⟩
  simp only [Condition.params, Condition.map, List.forall_mem_cons] at hcondition
  obtain ⟨ha, hb, hresult, -⟩ := hcondition
  exact ⟨rfl, ha, hb, hresult⟩

/-- Evaluating a node plays its effect on the numbers in the registers. -/
theorem evaluate_ok (call : Call) {node : Node} {home : Home} {number : Param × Float32 → Float32}
    (hheld : NodeHeld file node home cell)
    (hreads : ∀ p ∈ node.effect.withDefaults.params, file.Reads p.1 (number p))
    (hapart : ∀ p ∈ node.effect.params, ∀ register ∈ home.state, p.register ≠ some register) :
    let result := (node.effect.withDefaults.map number).respond call cell file.noise
    evaluate call node file =
      .ok (result.1, file.keep home node.effect.type result.2.1 result.2.2) := by
  intro result
  obtain ⟨id, toDelete, enabled, placed, effect⟩ := node
  obtain ⟨output, state, buffer⟩ := home
  obtain ⟨rfl, -, hstate, hbuffer, hline⟩ := hheld
  -- Each kind names its private registers and the parameters that its kernel reads.
  cases effect with
  | oscillator o =>
      obtain rfl : buffer = none := by simpa [Effect.bufferNeed?] using hbuffer
      obtain ⟨phase, hphase, rfl⟩ : ∃ phase, file.Holds phase cell.phase ∧ state = [phase] := by
        simpa [Cell.contents, Effect.type, List.forall₂_cons_right_iff] using hstate
      simp only [Effect.withDefaults, Effect.params, List.forall_mem_cons] at hreads
      obtain ⟨hamplitude, hfrequency, hmultiplier, hshift, hoffset, -⟩ := hreads
      have hnoise : result.2.2 = file.noise :=
        respond_noise (by simp [Effect.withDefaults, Effect.map, Effect.type])
      rw [hnoise]
      exact oscillator_ok rfl hamplitude hfrequency hmultiplier hshift hoffset hphase
        (hapart o.offset (by simp [Effect.params]) phase (by simp))
  | envelope e =>
      obtain rfl : buffer = none := by simpa [Effect.bufferNeed?] using hbuffer
      obtain ⟨stage, hstage, level, hlevel, rfl⟩ : ∃ stage, file.Holds stage cell.stage.register ∧
          ∃ level, file.Holds level cell.level ∧ state = [stage, level] := by
        simpa [Cell.contents, Effect.type, List.forall₂_cons_right_iff] using hstate
      simp only [Effect.withDefaults, Effect.params, List.forall_mem_cons] at hreads
      obtain ⟨hsignal, hattack, hdecay, hsustain, hrelease, hshaped, -⟩ := hreads
      exact envelope_ok hsignal hattack hdecay hsustain hrelease hshaped hstage hlevel
        ⟨hapart e.toModulate (by simp [Effect.params]) stage (by simp),
          hapart e.toModulate (by simp [Effect.params]) level (by simp)⟩
  | maths m =>
      obtain rfl : buffer = none := by simpa [Effect.bufferNeed?] using hbuffer
      obtain rfl : state = [] := by
        simpa [Cell.contents, Effect.type] using hstate
      rw [keep_stateless rfl rfl]
      exact sum_ok (maths_reads hreads) (-0)
  | switch s =>
      obtain rfl : buffer = none := by simpa [Effect.bufferNeed?] using hbuffer
      obtain rfl : state = [] := by
        simpa [Cell.contents, Effect.type] using hstate
      have hnoise : result.2.2 = file.noise :=
        respond_noise (by simp [Effect.withDefaults, Effect.map, Effect.type])
      rw [keep_stateless rfl rfl, hnoise]
      exact choose_ok (switch_reads hreads)
        (hreads (s.fallback, 0) (by simp [Effect.withDefaults, Effect.params]))
  | noise n =>
      obtain rfl : buffer = none := by simpa [Effect.bufferNeed?] using hbuffer
      obtain rfl : state = [] := by
        simpa [Cell.contents, Effect.type] using hstate
      rw [keep_stateless rfl rfl]
      exact gated_noise_ok (hreads (n.amplitude, 1) (by simp [Effect.withDefaults, Effect.params]))
  | delay d =>
      obtain ⟨index, rfl⟩ : ∃ index, buffer = some index :=
        Option.isSome_iff_exists.1 (by simpa [Effect.bufferNeed?] using hbuffer)
      obtain ⟨cursor, hcursor, rfl⟩ : ∃ cursor, file.Holds cursor cell.cursor ∧
          state = [cursor] := by
        simpa [Cell.contents, Effect.type, List.forall₂_cons_right_iff] using hstate
      simp only [Effect.withDefaults, Effect.params, List.forall_mem_cons] at hreads
      obtain ⟨hsignal, hseconds, -⟩ := hreads
      exact delay_ok hsignal hseconds hcursor (hline index rfl)
  | biquad b =>
      obtain rfl : buffer = none := by simpa [Effect.bufferNeed?] using hbuffer
      obtain ⟨first, hfirst, second, hsecond, rfl⟩ : ∃ first, file.Holds first cell.z1 ∧
          ∃ second, file.Holds second cell.z2 ∧ state = [first, second] := by
        simpa [Cell.contents, Effect.type, List.forall₂_cons_right_iff] using hstate
      simp only [Effect.withDefaults, Effect.params, List.forall_mem_cons] at hreads
      obtain ⟨hsignal, ha1, ha2, hb0, hb1, hb2, -⟩ := hreads
      exact biquad_ok hsignal ha1 ha2 hb0 hb1 hb2 hfirst hsecond

end Kernels

end Play

end SynthRack
