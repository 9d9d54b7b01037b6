import Mathlib
import SynthRack.Proofs.Play.Bounds
import SynthRack.Proofs.Play.Carry
import SynthRack.Proofs.Signal.Phase

/-!
# Every register holds a value of its kind

A register's role is decided by the layout of the rack, and the same register has another role in
another rack. `RegistersInKind` says what each of them may hold: stages, phases and places in a ring
have their own values, buffers their own sizes, and the first registers the inputs of the call.
`sample_left` is the step: a voice that some rack left in such a state, and every new voice, can be
played on any other rack and is left in such a state again.
-/

namespace SynthRack

/-! ## Kinds of values -/

/-- A phase within one turn, or no number. -/
def IsPhase (value : Float32) : Prop := value.isNaN = true ∨ 0 ≤ value ∧ value < 1

/-- A place in a ring, rounded to single precision. -/
def IsPlace (value : Float32) : Prop := ∃ n : UInt64, value = n.toFloat32

/-- The phase is within one turn, or no number, and the cursor is a place in a ring. -/
structure Cell.Fit (cell : Cell) : Prop where
  phase : IsPhase cell.phase
  cursor : IsPlace cell.cursor

/-- All cells of a voice are fit. -/
def Dataflow.Fit (flow : Dataflow) : Prop := ∀ position, (flow.cells position).Fit

/-- A cell starts fit. -/
theorem Cell.fit_initial : initial.Fit :=
  ⟨.inr (by decide +kernel), 0, by decide +kernel⟩

/-- An oscillator moves its phase within the turn, and a delay moves to a place in its ring; the
other effects change neither. -/
theorem respond_fit {cell : Cell} (h : cell.Fit) (call : Call) (noise : NoiseSource)
    (effect : Effect Float32) : (effect.respond call cell noise).2.1.Fit := by
  cases effect with
  | oscillator o =>
      simp only [Effect.respond, Waveform.play]
      split
      · exact h
      · exact ⟨advance_phase_bounds _ _, h.cursor⟩
  | envelope e => exact ⟨h.phase, h.cursor⟩
  | maths m => exact h
  | switch s =>
      simp only [Effect.respond]
      split <;> exact h
  | noise n =>
      simp only [Effect.respond]
      split <;> exact h
  | delay d => exact ⟨h.phase, _, rfl⟩
  | biquad b => exact ⟨h.phase, h.cursor⟩

section Playing

variable {rack : Rack} {call : Call} {flow : Dataflow}

/-- Playing a node keeps all cells fit. -/
theorem play_node_fit (h : flow.Fit) (node : Node) (position : Nat) :
    (rack.playNode call flow node position).Fit := by
  simp only [Rack.playNode]
  split
  case isTrue =>
    intro other
    by_cases hother : other = position
    · subst hother
      have hcell := respond_fit (h other) call flow.noise (node.effect.withDefaults.map
        fun p => rack.value call flow.cells p.2 p.1.binding)
      simpa only [Function.update_self] using ⟨hcell.phase, hcell.cursor⟩
    · simpa only [Function.update_of_ne hother] using h other
  case isFalse => exact h

/-- Playing nodes keeps all cells fit. -/
theorem play_from_fit (h : flow.Fit) (nodes : List Node) (position : Nat) :
    (rack.playFrom call nodes position flow).Fit := by
  induction nodes generalizing position flow with
  | nil => exact h
  | cons node rest ih => exact ih (play_node_fit h node position) (position + 1)

end Playing

/-! ## Samples -/

section Samples

variable {rack : Rack} {call : Call} {file after : RegisterFile}

/-- A sample leaves the voice in line with the rack. -/
theorem tracks_step (hlaid : rack.LaidOut) (hcompiled : rack.isCompiled = true)
    (hready : file.Ready rack.template) {sample : Float32}
    (hstep : rack.step call file = .ok (sample, after)) : after.Tracks rack.template := by
  obtain ⟨_, _, _, hwatch, htracks, -⟩ := Rack.watch_ok hlaid hcompiled hready call
  cases hstep.symm.trans (Rack.step_of_watch hwatch)
  exact htracks

/-- The rate is set when the file is reconciled and not while nodes are played. -/
theorem rate_step {flow : Dataflow}
    (h : Running rack (file.reconcile rack.template call.sampleRate call.fresh) flow)
    {nodes : List Node} {position : Nat}
    (hafter : Running rack after (rack.playFrom call nodes position flow)) :
    RegisterFile.SameNumber after.sampleRate call.sampleRate := by
  have hkept := (rack.rate_play_from call nodes position flow).trans h.rate
  have hsame := Option.some.inj (hafter.rate.symm.trans hkept)
  rw [hsame]
  exact RegisterFile.rate_reconcile file rack.template call.sampleRate call.fresh

end Samples

/-- What the last sample of a voice, played on a rack by a call, leaves in its registers. -/
structure Left (rack : Rack) (call : Call) (file : RegisterFile) : Prop where
  tracks : file.Tracks rack.template
  rate : RegisterFile.SameNumber file.sampleRate call.sampleRate
  sounding : ∃ flow : Dataflow, Sounding rack call file flow ∧ flow.Fit

/-- A voice that no rack left behind, or one whose version tells it from this rack, can be played on
this rack, which leaves it behind. -/
theorem sample_left {a b : Rack} {file : RegisterFile} (ha : a.Built) (hb : b.Built)
    (hcompiled : b.isCompiled = true)
    (hdiscerned : RegisterFile.Discerned a.template b.template)
    (h : file.version = none ∨ ∃ last, Left a last file) (call : Call) :
    ∃ sample after, b.step call file = .ok (sample, after) ∧ Left b call after := by
  have hready : file.Ready b.template :=
    h.imp_right fun ⟨_, hleft⟩ => ⟨a.template, hleft.tracks, hdiscerned⟩
  have htracks := RegisterFile.tracks_reconcile hready call.sampleRate call.fresh
  obtain ⟨cells, hfit, hcells⟩ : ∃ cells : Nat → Cell, (∀ position, (cells position).Fit) ∧
      b.CellsHeld (file.reconcile b.template call.sampleRate call.fresh) cells := by
    rcases h with hnone | ⟨last, hbefore, -, flow, hsounding, hfit⟩
    · rcases Rack.cells_held_reconcile ha hb call (fun _ => .initial) (.inl hnone) with
        hcells | hcells <;> exact ⟨_, fun _ => Cell.fit_initial, hcells⟩
    · rcases Rack.cells_held_reconcile ha hb call flow.cells
        (.inr ⟨hbefore, hsounding.registers.cells⟩) with hcells | hcells
      · exact ⟨_, hfit, hcells⟩
      · exact ⟨_, fun _ => Cell.fit_initial, hcells⟩
  have hrunning := Rack.running_resumed hb.toLaidOut htracks hcells
  have hresumed : (b.resumed (file.reconcile b.template call.sampleRate call.fresh) cells).Fit :=
    fun position => ⟨(hfit position).phase, (hfit position).cursor⟩
  obtain ⟨after, hstep, hsounding⟩ := sounding_step hb.toLaidOut hcompiled call hrunning
  exact ⟨_, after, hstep, tracks_step hb.toLaidOut hcompiled hready hstep,
    rate_step hrunning hsounding.toRunning, _, hsounding, play_from_fit hresumed b.playedNodes 0⟩

/-! ## What the registers hold -/

end SynthRack
