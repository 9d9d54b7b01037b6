import Mathlib
import SynthRack.Proofs.Play.Isolation
import SynthRack.Proofs.Play.Kinds
import SynthRack.Proofs.Rack.Retune
import SynthRack.Proofs.Signal.Length
import SynthRack.Proofs.Signal.Ring

/-!
# A delay node delays

The output of a delay of `n` samples is the number that its signal had `n` samples ago. `Rack.hear`
plays a sample and notes both, the input where the sample comes to the delay (`step_of_turn`). The
cell of a delay node holds a ring that `Remembers` the past inputs: a sample on which the delay is
played adds its input (`hear_ok`), a fresh trigger leaves silence (`remembers_fresh`), and the ring
comes along to a rack whose constants were replaced (`remembers_carried`). So a run that starts with a
fresh trigger is delayed by exactly the length of the buffer: `delays_end_to_end`.
-/

namespace SynthRack

/-- What a delay is given in one sample and what it gives. -/
structure Exchange where
  input : Float32
  output : Float32
  deriving DecidableEq

/-- One sample of a voice: the rack that it is played on, the key and the gate. -/
structure Moment where
  rack : Rack
  frequency : Float32
  signal : Float32

/-- The register that a delay reads its signal from. -/
def Effect.signal? : Effect Param → Option Nat
  | .delay d => d.signal.register
  | _ => none

namespace Rack

/-- Starts a sample and plays the nodes before a position. -/
def turn (rack : Rack) (call : Call) (position : Nat) : Play Unit := do
  modify (·.reconcile rack.template call.sampleRate call.fresh)
  Play.inputs call Builtin.all
  Play.nodes call (rack.playedNodes.take position)

/-- Plays one sample. The input of the delay at a position is what its signal is when its turn comes,
and the output is what it leaves in its register. -/
def hear (rack : Rack) (call : Call) (position : Nat) (file : RegisterFile) :
    Except Fault (Exchange × RegisterFile) := do
  let node := rack.nodes[position]?
  let (_, turned) ← rack.turn call position file
  let input ← turned.read (node.bind (·.effect.signal?))
  let (_, after) ← rack.step call file
  let output ← after.read (node.bind (·.output))
  return (⟨input, output⟩, after)

end Rack

/-- Plays samples one after another at one rate; only the first of them can be a fresh trigger. -/
def exchanges (position : Nat) (sampleRate : Float32) :
    Bool → List Moment → RegisterFile → Except Fault (List Exchange)
  | _, [], _ => .ok []
  | fresh, moment :: rest, file => do
    let (exchange, after) ←
      moment.rack.hear ⟨moment.frequency, moment.signal, sampleRate, fresh⟩ position file
    let others ← exchanges position sampleRate false rest after
    return exchange :: others

/-- From silence on, every output is the input of `n` samples ago; for no samples, that of the same
sample. -/
structure Delayed (n : Nat) (heard : List Exchange) : Prop where
  silence : ∀ k < n, ∀ exchange, heard[k]? = some exchange → exchange.output = 0
  delayed : ∀ k < heard.length, n ≤ k → heard[k]?.map (·.output) = heard[k - n]?.map (·.input)

/-! ## One sample -/

section Sample

variable {rack : Rack} {call : Call} {file turned : RegisterFile} {flow : Dataflow} {position n : Nat}
  {seconds : Float32} {past : List Float32}

namespace Play

/-- Nodes and then more nodes are played one after another. -/
theorem nodes_append (call : Call) (first second : List Node) :
    nodes call (first ++ second) = (do nodes call first; nodes call second) := by
  induction first with
  | nil => rfl
  | cons node rest ih =>
      rw [List.cons_append, nodes, nodes, ih]
      split <;> simp only [bind_assoc]

end Play

namespace Rack

/-- When the turn of a node comes, the inputs are written and the nodes in front of it are
played. -/
theorem turn_eq : rack.turn call position file =
    (do
      Play.inputs call Builtin.all
      Play.nodes call (rack.playedNodes.take position) : Play Unit)
      (file.reconcile rack.template call.sampleRate call.fresh) := rfl

/-- Once the turn of a node has come, the sample goes on with this node: what `hear` notes as an input
is read in the middle of `step`. -/
theorem step_of_turn (hcompiled : rack.isCompiled = true)
    (h : rack.turn call position file = .ok ((), turned)) :
    rack.step call file =
      (do
        Play.nodes call (rack.playedNodes.drop position)
        match rack.playedNodes.getLast? with
        | some last => Play.read last.output
        | none => return 0 : Play Float32) turned := by
  have hplayed : Play.nodes call rack.playedNodes =
      (do
        Play.nodes call (rack.playedNodes.take position)
        Play.nodes call (rack.playedNodes.drop position)) := by
    rw [← Play.nodes_append, List.take_append_drop]
  let rest : Play Float32 := do
    Play.nodes call (rack.playedNodes.drop position)
    match rack.playedNodes.getLast? with
    | some last => Play.read last.output
    | none => return 0
  have hrest : (rack.turn call position >>= fun _ => rest) file = rest turned := Play.bind_ok h
  rw [step_eq hcompiled, hplayed]
  refine Eq.trans ?_ hrest
  simp only [turn, bind_assoc]
  rfl

/-- Nodes and then more nodes are read one after another, each at its position. -/
theorem play_from_append (rack : Rack) (call : Call) (first second : List Node) (start : Nat)
    (flow : Dataflow) :
    rack.playFrom call (first ++ second) start flow =
      rack.playFrom call second (start + first.length) (rack.playFrom call first start flow) := by
  induction first generalizing start flow with
  | nil => rfl
  | cons node rest ih =>
      have hlength : start + 1 + rest.length = start + (node :: rest).length := by
        rw [List.length_cons]
        omega
      rw [List.cons_append, playFrom, playFrom, ih, hlength]

/-- Playing a stretch of the nodes leaves the cells of the others alone. -/
theorem play_from_elsewhere (rack : Rack) (call : Call) {nodes : List Node} {start other : Nat}
    (flow : Dataflow) (h : other < start ∨ start + nodes.length ≤ other) :
    (rack.playFrom call nodes start flow).cells other = flow.cells other := by
  induction nodes generalizing start flow with
  | nil => rfl
  | cons node rest ih =>
      rw [List.length_cons] at h
      rw [playFrom, ih _ (by omega), play_node_elsewhere _ _ _ _ (by omega)]

end Rack

/-- Reading a register gives what it holds. -/
theorem RegisterFile.Holds.read {register : Nat} {value : Float32} (h : file.Holds register value) :
    file.read (some register) = .ok value := by
  obtain ⟨hlt, rfl⟩ := Array.getElem?_eq_some_iff.1 h
  simp [RegisterFile.read, hlt]

/-- Reading the register of a parameter gives what the parameter reads. -/
theorem RegisterFile.Reads.read {param : Param} {number : Float32} (h : file.Reads param number) :
    file.read param.register = .ok number := by
  obtain ⟨register, hregister, hholds⟩ := h
  rw [hregister, hholds.read]

/-- When the turn of a node has come, the nodes before it have been played in the dataflow reading
too. -/
theorem turn_ok (hlaid : rack.LaidOut) (position : Nat)
    (h : Running rack (file.reconcile rack.template call.sampleRate call.fresh) flow) :
    ∃ turned, rack.turn call position file = .ok ((), turned) ∧
      Sounding rack call turned (rack.playFrom call (rack.playedNodes.take position) 0 flow) := by
  obtain ⟨ready, hready, hinputs⟩ := sounding_inputs call hlaid h
  have hfirst (index : Nat) (node : Node)
      (hnode : (rack.playedNodes.take position)[index]? = some node) :
      rack.nodes[0 + index]? = some node := by
    rw [List.getElem?_take] at hnode
    split at hnode
    · rw [Nat.zero_add]
      exact played_node hnode
    · cases hnode
  obtain ⟨turned, hturned, hnodes⟩ := sounding_nodes hlaid hready hfirst
  exact ⟨turned, by rw [Rack.turn_eq, Play.bind_ok hinputs, hnodes], hturned⟩

/-- In a sample, the cell of a node changes in its own turn and at no other time. -/
theorem cell_of_turn (call : Call) (flow : Dataflow) {node : Node}
    (hplayed : rack.playedNodes[position]? = some node) :
    let turned := rack.playFrom call (rack.playedNodes.take position) 0 flow
    turned.cells position = flow.cells position ∧
      (rack.playFrom call rack.playedNodes 0 flow).cells position =
        (rack.playNode call turned node position).cells position := by
  intro turned
  obtain ⟨hlt, hget⟩ := List.getElem?_eq_some_iff.1 hplayed
  have hsplit : rack.playedNodes =
      rack.playedNodes.take position ++ node :: rack.playedNodes.drop (position + 1) := by
    rw [← hget, ← List.drop_eq_getElem_cons hlt, List.take_append_drop]
  have hcount : 0 + (rack.playedNodes.take position).length = position := by
    rw [List.length_take]
    omega
  refine ⟨rack.play_from_elsewhere call flow (.inr hcount.le), ?_⟩
  conv_lhs => rw [hsplit]
  rw [Rack.play_from_append, hcount, Rack.playFrom,
    rack.play_from_elsewhere call _ (.inl (Nat.lt_succ_self position))]

/-- What is heard of a node in a sample, from the sample and what its registers hold. -/
theorem hear_of_step {node : Node} {after : RegisterFile} {input sample output : Float32}
    (hnode : rack.nodes[position]? = some node)
    (hturn : rack.turn call position file = .ok ((), turned))
    (hinput : turned.read node.effect.signal? = .ok input)
    (hstep : rack.step call file = .ok (sample, after))
    (houtput : after.read node.output = .ok output) :
    rack.hear call position file = .ok (⟨input, output⟩, after) := by
  simp only [Rack.hear, hnode, Option.bind_some, hturn, hstep, bind, Except.bind, hinput, houtput]
  rfl

/-- The cell of a delay holds its last inputs, in a ring of which a cursor can point to every place. -/
def Cell.Remembers (cell : Cell) (n : Nat) (past : List Float32) : Prop :=
  0 < n → ∃ place < 2 ^ 24, cell.cursor = place.toUInt64.toFloat32 ∧
    cell.line.Remembers place n past

/-- A voice between two samples of a rack with a delay by `n` samples at a position, which was given
some inputs, the latest first. -/
structure Delaying (rack : Rack) (position : Nat) (sampleRate : Float32) (n : Nat)
    (past : List Float32) (file : RegisterFile) : Prop where
  tracks : file.Tracks rack.template
  rate : RegisterFile.SameNumber file.sampleRate sampleRate
  cells : ∃ flow, Running rack file flow ∧ (flow.cells position).Remembers n past

/-- A node that needs a buffer has one of this duration. -/
theorem buffer_of_need (hlaid : rack.LaidOut) {node : Node} (hnode : node ∈ rack.nodes)
    (hneed : node.effect.bufferNeed? = some seconds) :
    ∃ index, node.buffer = some index ∧ rack.template.bufferSeconds[index]? = some seconds := by
  have hbuffer := hlaid.buffer_home hnode
  rw [hneed] at hbuffer
  generalize node.buffer = buffer at hbuffer ⊢
  cases hbuffer with
  | some hseconds => exact ⟨_, rfl, hseconds⟩

/-- The memory of a delay has the length that its duration needs. -/
theorem line_capacity (hlaid : rack.LaidOut) (htracks : file.Tracks rack.template)
    (h : Running rack file flow) {node : Node} (hnode : rack.nodes[position]? = some node)
    (hneed : node.effect.bufferNeed? = some seconds) :
    (flow.cells position).line.capacity = samplesFor seconds file.sampleRate := by
  obtain ⟨index, hindex, hseconds⟩ := buffer_of_need hlaid (List.mem_of_getElem? hnode) hneed
  have hline := h.lines position node index hnode hindex
  have hcapacity := congrArg (·[index]?) htracks.capacities
  simpa [hline, hseconds] using hcapacity

/-- A tick of the whole ring gives the oldest input, and the next cursor survives the way through a
register. -/
theorem cell_tick {cell : Cell} (h : cell.Remembers n past) (hsmall : n ≤ 2 ^ 24) {length : Nat}
    (hlength : cell.line.effective length = n) (input output : Float32) :
    let ticked := cell.line.tick input cell.cursor.toUInt64.toNat length
    (n = 0 → ticked.1 = input) ∧ (∀ x, 0 < n → past[n - 1]? = some x → ticked.1 = x) ∧
      ({ cell with cursor := ticked.2.1.toUInt64.toFloat32, line := ticked.2.2, output } :
        Cell).Remembers n (input :: past) := by
  intro ticked
  refine ⟨fun hn => ?pass, fun x hn hpast => ?oldest, fun hn => ?remembers⟩
  case pass =>
    exact congrArg Prod.fst (DelayLine.tick_pass input _ (hlength.trans hn))
  all_goals
    obtain ⟨place, hplace, hcursor, hring⟩ := h hn
    have hback : cell.cursor.toUInt64.toNat = place := by
      rw [hcursor, Float32.to_nat_round_trip hplace]
    obtain ⟨hout, hnext⟩ := hring.tick hn hlength input
    rw [← hback] at hout hnext
  case oldest => exact hout x hpast
  case remembers =>
    have hlt : ticked.2.1 < n := by
      rcases DelayLine.cursor_tick cell.line input cell.cursor.toUInt64.toNat length with
        hlt | ⟨hnone, -⟩
      · exact hlength ▸ hlt
      · omega
    exact ⟨ticked.2.1, by omega, rfl, hnext⟩

/-- The cell of an enabled delay after its turn. -/
theorem play_delay {node : Node} {d : Delay Param} (henabled : node.enabled = true)
    (heffect : node.effect = .delay d)
    (hseconds : d.seconds.binding = .constant seconds ∨ d.seconds.binding = .unset ∧ seconds = 0.1) :
    let cell := flow.cells position
    let ticked := cell.line.tick (rack.value call flow.cells 0 d.signal.binding)
      cell.cursor.toUInt64.toNat (samplesFor seconds call.sampleRate)
    (rack.playNode call flow node position).cells position =
      { cell with
        cursor := ticked.2.1.toUInt64.toFloat32, line := ticked.2.2, output := ticked.1 } := by
  intro cell ticked
  have hvalue : rack.value call flow.cells 0.1 d.seconds.binding = seconds := by
    rcases hseconds with hconstant | ⟨hunset, rfl⟩
    · rw [hconstant]
      rfl
    · rw [hunset]
      rfl
  simp only [Rack.playNode, henabled, if_true, heffect, Effect.withDefaults, Effect.map,
    Effect.respond, hvalue, Function.update_self]
  rfl

/-- The memory of a delay is used to the full, also by a delay that asks for more than the longest
duration. -/
theorem effective_length (hlaid : rack.LaidOut) (hready : file.Ready rack.template)
    (h : Running rack (file.reconcile rack.template call.sampleRate call.fresh) flow) {node : Node}
    {d : Delay Param} (hnode : rack.nodes[position]? = some node) (heffect : node.effect = .delay d)
    (hseconds : d.seconds.binding = .constant seconds ∨ d.seconds.binding = .unset ∧ seconds = 0.1)
    (hsmall : samplesFor (bufferedSeconds seconds) call.sampleRate ≤ 2 ^ 24) :
    (flow.cells position).line.effective (samplesFor seconds call.sampleRate) =
      samplesFor (bufferedSeconds seconds) call.sampleRate := by
  have hneed := Rack.buffer_need_of_seconds heffect hseconds
  have htracks := RegisterFile.tracks_reconcile hready call.sampleRate call.fresh
  have hrate := RegisterFile.rate_reconcile file rack.template call.sampleRate call.fresh
  rw [DelayLine.effective, line_capacity hlaid htracks h hnode hneed, hrate.samples_for]
  exact min_eq_right (samples_for_buffered_le seconds call.sampleRate hsmall)

/-- A sample on which a delay is played gives what was put in `n` samples ago. -/
theorem hear_ok (call : Call) (hlaid : rack.LaidOut) (hcompiled : rack.isCompiled = true)
    (hplays : rack.PlaysDelay position seconds)
    (hn : samplesFor (bufferedSeconds seconds) call.sampleRate = n) (hsmall : n ≤ 2 ^ 24)
    (hready : file.Ready rack.template)
    (h : Running rack (file.reconcile rack.template call.sampleRate call.fresh) flow)
    (hpast : (flow.cells position).Remembers n past) :
    ∃ exchange after, rack.hear call position file = .ok (exchange, after) ∧
      (n = 0 → exchange.output = exchange.input) ∧
      (∀ x, 0 < n → past[n - 1]? = some x → exchange.output = x) ∧
      Delaying rack position call.sampleRate n (exchange.input :: past) after := by
  obtain ⟨node, d, hplayed, henabled, heffect, hseconds⟩ := hplays
  have hnode := played_node hplayed
  have hlength := effective_length hlaid hready h hnode heffect hseconds (hn ▸ hsmall)
  rw [hn] at hlength
  -- What the delay is given.
  obtain ⟨turned, hturn, hturned⟩ := turn_ok hlaid position h
  have hsignal : (d.signal, 0) ∈ node.effect.withDefaults.params := by
    rw [heffect]
    exact List.mem_cons_self
  have hread := (sounding_reads hlaid hturned (List.mem_of_getElem? hnode) hsignal).read
  -- What it gives, and what is in its cell then.
  obtain ⟨after, hstep, hafter⟩ := sounding_step hlaid hcompiled call h
  obtain ⟨hbefore, hcell⟩ := cell_of_turn call flow hplayed
  rw [play_delay henabled heffect hseconds, hbefore] at hcell
  obtain ⟨home, hheld⟩ := node_held hlaid hafter.toRunning hnode
  have houtput : node.output = some home.output := by
    rw [Node.output, hheld.placed, Option.map_some]
  have hleft := hheld.output.read
  rw [hcell, ← houtput] at hleft
  obtain ⟨hpass, holdest, hremembers⟩ := cell_tick hpast hsmall hlength
    (rack.value call (rack.playFrom call (rack.playedNodes.take position) 0 flow).cells 0
      d.signal.binding) _
  rw [← hcell] at hremembers
  have hheard := hear_of_step hnode hturn (by rw [heffect]; exact hread) hstep hleft
  exact ⟨_, after, hheard, hpass, holdest, tracks_step hlaid hcompiled hready hstep,
    rate_step h hafter.toRunning, _, hafter.toRunning, hremembers⟩

/-! ## From sample to sample -/

/-- After a fresh trigger a delay remembers silence. -/
theorem remembers_fresh (call : Call) (hlaid : rack.LaidOut) (hplays : rack.PlaysDelay position seconds)
    (hn : samplesFor (bufferedSeconds seconds) call.sampleRate = n) (hfresh : call.fresh = true)
    (hready : file.Ready rack.template) :
    ∃ flow, Running rack (file.reconcile rack.template call.sampleRate call.fresh) flow ∧
      (flow.cells position).Remembers n (List.replicate n 0) := by
  obtain ⟨node, d, hplayed, -, heffect, hseconds⟩ := hplays
  obtain ⟨flow, hflow, hcells, -⟩ := running_reconcile_fresh hlaid call hfresh hready
  refine ⟨flow, hflow, fun hpos => ⟨0, by decide, ?cursor, ?line⟩⟩
  case cursor =>
    have hstart : Cell.initial.cursor = (0 : Nat).toUInt64.toFloat32 := by decide +kernel
    rw [hcells]
    exact hstart
  case line =>
    rw [hcells]
    show (rack.memory call.sampleRate position).Remembers 0 n _
    rw [Rack.memory, played_node hplayed, Option.bind_some,
      Rack.buffer_need_of_seconds heffect hseconds]
    exact DelayLine.remembers_silent hpos hn.ge 0

/-- A rate at which something is delayed is a number. -/
theorem rate_kept {sampleRate : Float32} (hrate : RegisterFile.SameNumber file.sampleRate sampleRate)
    (hpos : 0 < samplesFor seconds sampleRate) : file.rateDiffers sampleRate = false := by
  rcases hrate with hsame | ⟨-, hnan⟩
  · simpa [RegisterFile.rateDiffers, bne] using hsame
  · rw [Float32.isNaN_eq_decide_eq_nan, decide_eq_true_iff] at hnan
    rw [hnan, samples_for_nan] at hpos
    exact absurd hpos (lt_irrefl 0)

/-- Racks of different versions are told apart. -/
theorem discerned_of_built {a b : Rack} (ha : a.Built) (hb : b.Built)
    (hversion : a.template.version ≠ b.template.version) :
    RegisterFile.Discerned a.template b.template where
  version h := absurd h hversion
  layout hfingerprint hsize :=
    (layout_of_fingerprint ha.is_sealed hb.is_sealed hsize hfingerprint).2

/-- In a rack that was edited in place and compiled later, a delay remembers what it did. -/
theorem remembers_carried {a b : Rack} {sampleRate : Float32} (ha : a.Built) (hb : b.Built)
    (hplays : a.PlaysDelay position seconds) (hplays' : b.PlaysDelay position seconds)
    (hedit : a.HotEdit b) (hversion : a.template.version ≠ b.template.version)
    (hn : samplesFor (bufferedSeconds seconds) sampleRate = n)
    (h : Delaying a position sampleRate n past file) :
    ∃ flow, Running b (file.reconcile b.template sampleRate false) flow ∧
      (flow.cells position).Remembers n past := by
  obtain ⟨old, d, hplayed, -, heffect, hseconds⟩ := hplays
  obtain ⟨new, d', hplayed', -, heffect', hseconds'⟩ := hplays'
  obtain ⟨flow, hrunning, hpast⟩ := h.cells
  have hold := played_node hplayed
  have hnew := played_node hplayed'
  have hlayout := hedit.same_layout ha.toLaidOut hb.toLaidOut
  have hready : file.Ready b.template := .inr ⟨_, h.tracks, discerned_of_built ha hb hversion⟩
  have hlater : file.compilationDiffers b.template = true := by
    simpa [RegisterFile.compilationDiffers, h.tracks.version] using hversion
  refine ⟨_, Rack.running_resumed hb.toLaidOut (RegisterFile.tracks_reconcile hready _ _)
    (Rack.cells_carried ha hb hlayout h.tracks hrunning.registers.cells sampleRate), fun hpos => ?_⟩
  obtain ⟨place, hplace, hcursor, hring⟩ := hpast hpos
  refine ⟨place, hplace, hcursor, ?_⟩
  -- The duration stayed, and so the buffer is the one that it was.
  obtain ⟨index, hindex, hbuffered⟩ := buffer_of_need ha.toLaidOut (List.mem_of_getElem? hold)
    (Rack.buffer_need_of_seconds heffect hseconds)
  obtain ⟨index', hindex', hbuffered'⟩ := buffer_of_need hb.toLaidOut (List.mem_of_getElem? hnew)
    (Rack.buffer_need_of_seconds heffect' hseconds')
  have hsame : index' = index := by
    have hhomes := ha.same_home hb.toLaidOut hlayout hold hnew
    rw [Node.buffer, hhomes] at hindex
    exact Option.some.inj (hindex'.symm.trans hindex)
  subst hsame
  have hkept : (file.reconcile b.template sampleRate false).buffers[index']? =
      some (flow.cells position).line := by
    rw [RegisterFile.carried_buffer h.tracks ha hb hlayout hlater hbuffered',
      if_pos ⟨hbuffered, rate_kept h.rate (hn ▸ hpos)⟩,
      hrunning.lines position old index' hold hindex]
  rwa [Rack.line_resumed hnew hindex' hkept]

/-- In the rack that it was played on, a delay remembers what it did. -/
theorem remembers_same {sampleRate : Float32} (hlaid : rack.LaidOut)
    (hn : samplesFor (bufferedSeconds seconds) sampleRate = n)
    (h : Delaying rack position sampleRate n past file) :
    ∃ flow, Running rack (file.reconcile rack.template sampleRate false) flow ∧
      (flow.cells position).Remembers n past := by
  obtain ⟨flow, hrunning, hpast⟩ := h.cells
  refine ⟨_, running_reconcile hlaid ⟨0, 0, sampleRate, false⟩ hrunning, fun hpos => ?_⟩
  have hsame : flow.rateDiffers sampleRate = false := by
    have hrate := rate_kept h.rate (hn ▸ hpos)
    simpa [Dataflow.rateDiffers, hrunning.rate, RegisterFile.rateDiffers] using hrate
  rw [Rack.prepare, hsame]
  exact hpast hpos

end Sample

/-! ## Runs -/

/-- Every output is the oldest of the last `n` inputs, of which some were given before; for no inputs it
is that of the same sample. -/
def DelayedAfter (n : Nat) (past : List Float32) (heard : List Exchange) : Prop :=
  ∀ k exchange, heard[k]? = some exchange → (n = 0 → exchange.output = exchange.input) ∧
    ∀ x, 0 < n → (((heard.take k).map (·.input)).reverse ++ past)[n - 1]? = some x →
      exchange.output = x

/-- One more exchange in front is delayed if its output is its input or the oldest of the past. -/
theorem DelayedAfter.cons {n : Nat} {past : List Float32} {exchange : Exchange}
    {rest : List Exchange} (hpass : n = 0 → exchange.output = exchange.input)
    (holdest : ∀ x, 0 < n → past[n - 1]? = some x → exchange.output = x)
    (h : DelayedAfter n (exchange.input :: past) rest) : DelayedAfter n past (exchange :: rest) := by
  intro k other hother
  cases k with
  | zero =>
      obtain rfl := Option.some.inj hother
      exact ⟨hpass, holdest⟩
  | succ k =>
      obtain ⟨hnone, hsome⟩ := h k other hother
      exact ⟨hnone, fun x hn hx => hsome x hn (by simpa using hx)⟩

/-- After silence the outputs are silent until the first input comes out. -/
theorem DelayedAfter.delayed {n : Nat} {heard : List Exchange}
    (h : DelayedAfter n (List.replicate n 0) heard) : Delayed n heard where
  silence k hk exchange hexchange := by
    have hlt := (List.getElem?_eq_some_iff.1 hexchange).1
    have hcount : ((heard.take k).map (·.input)).length = k := by simp; omega
    refine (h k exchange hexchange).2 0 (by omega) ?_
    rw [DelayLine.past_get_elem _ _ (by omega), hcount, if_neg (by omega), List.getElem?_replicate,
      if_pos (by omega)]
  delayed k hk hle := by
    have hexchange := List.getElem?_eq_getElem hk
    have hearlier : k - n < heard.length := by omega
    rw [hexchange, List.getElem?_eq_getElem hearlier, Option.map_some, Option.map_some]
    refine congrArg some ?_
    obtain ⟨hpass, hdelayed⟩ := h k heard[k] hexchange
    rcases Nat.eq_zero_or_pos n with rfl | hpos
    · exact hpass rfl
    · have hcount : ((heard.take k).map (·.input)).length = k := by simp; omega
      refine hdelayed _ hpos ?_
      rw [DelayLine.past_get_elem _ _ hpos, hcount, if_pos hle, List.getElem?_map,
        List.getElem?_take, if_pos (by omega), List.getElem?_eq_getElem hearlier, Option.map_some]

section Run

variable {a : Rack} {file : RegisterFile} {position n : Nat} {seconds sampleRate : Float32}
  {past : List Float32}

/-- The exchanges of a run are that of its first sample and those of the rest. -/
theorem exchanges_cons {fresh : Bool} {moment : Moment} {rest : List Moment} {exchange : Exchange}
    {after : RegisterFile} {others : List Exchange}
    (hhear : moment.rack.hear ⟨moment.frequency, moment.signal, sampleRate, fresh⟩ position file =
      .ok (exchange, after))
    (hrest : exchanges position sampleRate false rest after = .ok others) :
    exchanges position sampleRate fresh (moment :: rest) file = .ok (exchange :: others) := by
  simp only [exchanges, hhear, bind, Except.bind, hrest]
  rfl

/-- Further samples go on with what the delay remembers. -/
theorem exchanges_delaying (ha : a.Built) (hcompiled : a.isCompiled = true)
    (hplays : a.PlaysDelay position seconds)
    (hn : samplesFor (bufferedSeconds seconds) sampleRate = n) (hsmall : n ≤ 2 ^ 24)
    (h : Delaying a position sampleRate n past file) (moments : List Moment)
    (hchain : List.IsChain (Rack.Retunes position) (a :: moments.map (·.rack))) :
    ∃ heard, exchanges position sampleRate false moments file = .ok heard ∧
      heard.length = moments.length ∧ DelayedAfter n past heard := by
  induction moments generalizing a file past with
  | nil => exact ⟨[], rfl, rfl, fun k exchange hexchange => by simp at hexchange⟩
  | cons moment rest ih =>
      rw [List.map_cons, List.isChain_cons_cons] at hchain
      have hcarried := Rack.retunes_carried ha hcompiled hplays hchain.1
      obtain ⟨hready, flow, hrunning, hpast⟩ : file.Ready moment.rack.template ∧
          ∃ flow, Running moment.rack (file.reconcile moment.rack.template sampleRate false) flow ∧
            (flow.cells position).Remembers n past := by
        rcases hcarried.later with hsame | ⟨hedit, hlater⟩
        · rw [hsame]
          exact ⟨.inr ⟨_, h.tracks, fun _ => rfl, fun _ _ => ⟨rfl, rfl⟩⟩,
            remembers_same ha.toLaidOut hn h⟩
        · exact ⟨.inr ⟨_, h.tracks, discerned_of_built ha hcarried.built hlater.ne⟩,
            remembers_carried ha hcarried.built hplays hcarried.plays hedit hlater.ne hn h⟩
      obtain ⟨exchange, after, hhear, hpass, holdest, hafter⟩ :=
        hear_ok ⟨moment.frequency, moment.signal, sampleRate, false⟩ hcarried.built.toLaidOut
          hcarried.compiled hcarried.plays hn hsmall hready hrunning hpast
      obtain ⟨others, hothers, hcount, hdelayed⟩ :=
        ih hcarried.built hcarried.compiled hcarried.plays hafter hchain.2
      exact ⟨_, exchanges_cons hhear hothers, congrArg (· + 1) hcount,
        .cons hpass holdest hdelayed⟩

end Run

namespace Studio

/-- After any history, a run that starts with a fresh trigger is delayed by the number of samples that
the buffer of the delay holds, as long as a significand can count them: whatever the key and the gate
do, and also when constants of other parameters are replaced in between. -/
theorem delays_end_to_end (actions : List Action) :
    ∃ studio, start.run actions = .ok studio ∧
      ∀ name voice position seconds sampleRate,
        let rack := (studio.racks name).rack
        let n := samplesFor (bufferedSeconds seconds) sampleRate
        (studio.racks name).current = true → rack.PlaysDelay position seconds → n ≤ 2 ^ 24 →
        ∀ frequency signal rest,
          List.IsChain (Rack.Retunes position) (rack :: rest.map (·.rack)) →
          ∃ heard, exchanges position sampleRate true (⟨rack, frequency, signal⟩ :: rest)
              (studio.voices voice).registers = .ok heard ∧
            heard.length = rest.length + 1 ∧ Delayed n heard := by
  obtain ⟨catalog, studio, hrun, hsound⟩ := run_sound (sound_start fun _ => .empty) actions
  refine ⟨studio, hrun, ?_⟩
  intro name voice position seconds sampleRate rack n hcurrent hplays hsmall frequency signal rest
    hchain
  have hn : samplesFor (bufferedSeconds seconds) sampleRate = n := rfl
  clear_value n
  have hrack : CompiledIn catalog studio.nextVersion rack := hsound.racks name hcurrent
  have hready := hrack.ready (hsound.voices voice)
  obtain ⟨flow, hrunning, hpast⟩ := remembers_fresh ⟨frequency, signal, sampleRate, true⟩
    hrack.laid_out hplays hn rfl hready
  obtain ⟨exchange, after, hhear, hpass, holdest, hafter⟩ :=
    hear_ok ⟨frequency, signal, sampleRate, true⟩ hrack.laid_out hrack.is_compiled hplays hn hsmall
      hready hrunning hpast
  obtain ⟨others, hothers, hcount, hdelayed⟩ :=
    exchanges_delaying hrack.built hrack.is_compiled hplays hn hsmall hafter rest hchain
  exact ⟨_, exchanges_cons hhear hothers, congrArg (· + 1) hcount,
    (DelayedAfter.cons hpass holdest hdelayed).delayed⟩

/-- Three samples of delay. The pitch is changed after two of them, and later the note is released. -/
theorem delays_end_to_end_retuned :
    let sound (pitch : Float32) : Node := .ofEffect (.oscillator
      ⟨.triangle, .constant 1, .builtin .keyFrequency, .constant pitch, .unset, .unset⟩)
    let delay : Node := .ofEffect (.delay ⟨.node 0, .constant 0.003⟩)
    let nodes := [{ sound 2 with id := some 0 }, { delay with id := some 1 }]
    let actions : List Action := [
      .edit 0 "" [sound 1, delay] none, .compile 0, .noteOn 0 440, .next 0 0 1000, .next 0 0 1000]
    ∃ studio, start.run actions = .ok studio ∧
      let rack := (studio.racks 0).rack
      let done := { rack with nodes }.compile studio.nextVersion
      rack.PlaysDelay 1 0.003 ∧ Rack.Retunes 1 rack done ∧
        ∃ heard, exchanges 1 1000 true [⟨rack, 440, 1⟩, ⟨rack, 440, 1⟩, ⟨done, 440, 1⟩,
            ⟨done, 440, 1⟩, ⟨done, 440, 0⟩] (studio.voices 0).registers = .ok heard ∧
          heard.length = 5 ∧ Delayed 3 heard := by
  intro sound delay nodes actions
  obtain ⟨studio, hrun, h⟩ := delays_end_to_end actions
  have hchecks : (start.run actions).map (fun studio =>
      let rack := (studio.racks 0).rack
      ((studio.racks 0).current, decide (rack.PlaysDelay 1 0.003),
        decide (rack.Retuned 1 { rack with nodes }),
        decide (rack.template.version < studio.nextVersion))) =
      .ok (true, true, true, true) := by
    decide +kernel
  rw [hrun] at hchecks
  obtain ⟨hcurrent, hplays, hretuned, hlater⟩ :
      (studio.racks 0).current = true ∧ (studio.racks 0).rack.PlaysDelay 1 0.003 ∧
        (studio.racks 0).rack.Retuned 1 { (studio.racks 0).rack with nodes } ∧
        (studio.racks 0).rack.template.version < studio.nextVersion := by
    simpa [Except.map] using hchecks
  refine ⟨studio, hrun, ?_⟩
  intro rack done
  have hedited : Rack.Retunes 1 rack done := .single ⟨_, _, hretuned, hlater, rfl⟩
  have hcount : samplesFor (bufferedSeconds 0.003) 1000 = 3 := by decide +kernel
  have hsmall : samplesFor (bufferedSeconds 0.003) 1000 ≤ 2 ^ 24 := by decide +kernel
  have hchain : List.IsChain (Rack.Retunes 1) [rack, rack, done, done, done] := by
    have hsame (rack : Rack) : Rack.Retunes 1 rack rack := .refl
    simp [List.isChain_cons_cons, hsame, hedited]
  obtain ⟨heard, hheard, hlength, hdelayed⟩ :=
    h 0 0 1 0.003 1000 hcurrent hplays hsmall 440 1
      [⟨rack, 440, 1⟩, ⟨done, 440, 1⟩, ⟨done, 440, 1⟩, ⟨done, 440, 0⟩] hchain
  exact ⟨hplays, hedited, heard, hheard, hlength, hcount ▸ hdelayed⟩

end Studio

end SynthRack
