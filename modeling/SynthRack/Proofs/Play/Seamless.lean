import Mathlib
import SynthRack.Proofs.Play.Journal
import SynthRack.Proofs.Rack.HotEdit

/-!
# Edits that a sounding voice does not notice

A rack is edited and compiled between two samples of a voice. When the edit is a `HotEdit`, or a chain
of them, every node finds its output, its private state and its noise as it left them; its constants
are the new ones; and its delay memory is untouched unless the duration changed. `hot_edits_seamless`
proves this after any history.
-/

namespace SynthRack

namespace RegisterFile

variable {file : RegisterFile} {rack : Rack} {sampleRate : Float32}

/-- At a rate that is no number, the buffer of a node holds nothing, as a new one would. -/
theorem held_line_of_nan (h : file.Tracks rack.template) (hlaid : rack.LaidOut) {node : Node}
    (hnode : node ∈ rack.nodes) (hfile : file.sampleRate.isNaN = true)
    (hrate : sampleRate.isNaN = true) :
    (file.held node).line = (Held.initial node sampleRate).line := by
  rw [Float32.isNaN_eq_decide_eq_nan, decide_eq_true_iff] at hfile hrate
  have hneed := hlaid.buffer_home hnode
  simp only [held, Held.initial]
  generalize node.buffer = buffer at hneed ⊢
  generalize node.effect.bufferNeed? = need at hneed ⊢
  cases hneed with
  | none => rfl
  | @some index seconds hseconds =>
      have hcapacity := congrArg (·[index]?) h.capacities
      simp only [Array.getElem?_map, hseconds, Option.map_some, hfile, samples_for_nan] at hcapacity
      obtain ⟨line, hline, hempty⟩ := Option.map_eq_some_iff.1 hcapacity
      obtain ⟨samples⟩ := line
      have hsilent : (⟨samples⟩ : DelayLine) = .silent 0 := by
        obtain rfl : samples = #[] := Array.size_eq_zero_iff.1 hempty
        rfl
      rw [Option.bind_some, hline, Option.map_some, hrate, samples_for_nan, hsilent]

end RegisterFile

/-- A voice goes on, on a rack that was compiled anew, as if nothing had happened but that constants
have other values. -/
structure Seamless (old done : Rack) (before after : RegisterFile) (sampleRate : Float32) : Prop where
  ids : done.nodes.map (·.id) = old.nodes.map (·.id)
  /-- Every node has the registers and the buffer that it had. -/
  homes : done.nodes.map (·.home) = old.nodes.map (·.home)
  outputs : ∀ (position : Nat) (x y : Node), old.nodes[position]? = some x →
    done.nodes[position]? = some y → (after.held y).output = (before.held x).output
  states : ∀ (position : Nat) (x y : Node), old.nodes[position]? = some x →
    done.nodes[position]? = some y → (after.held y).state = (before.held x).state
  /-- A buffer is replaced by a silent one when the duration changed, and otherwise kept. -/
  lines : ∀ (position : Nat) (x y : Node), old.nodes[position]? = some x →
    done.nodes[position]? = some y → (after.held y).line =
      if x.effect.bufferNeed? = y.effect.bufferNeed? then (before.held x).line
      else y.effect.bufferNeed?.map fun seconds => .silent (samplesFor seconds sampleRate)
  noise : after.noise = before.noise
  constants : ∀ node ∈ done.nodes, ∀ p ∈ node.effect.withDefaults.params,
    ∀ value, p.1.binding.ownValue? p.2 = some value → after.Reads p.1 value

section Edits

variable {a b : Rack} {file : RegisterFile} {sampleRate : Float32}

/-- When the rate is the one of the last sample, a buffer is kept exactly if its duration stayed. -/
theorem line_at_same_rate (h : file.Tracks a.template) (ha : a.LaidOut)
    (hrate : RegisterFile.SameNumber file.sampleRate sampleRate) {x y : Node} (hx : x ∈ a.nodes)
    {after : RegisterFile} (hgoes : RegisterFile.GoesOn file after sampleRate x y) :
    (after.held y).line =
      if x.effect.bufferNeed? = y.effect.bufferNeed? then (file.held x).line
      else y.effect.bufferNeed?.map fun seconds => .silent (samplesFor seconds sampleRate) := by
  rw [hgoes.line]
  rcases hrate with hsame | ⟨hfile, hnan⟩
  · have hdiffers : file.rateDiffers sampleRate = false := by
      simpa [RegisterFile.rateDiffers, bne] using hsame
    simp only [hdiffers, and_true, RegisterFile.Held.initial]
  · -- No rate: buffers are replaced, but neither the old one nor the new one holds anything.
    have hempty := RegisterFile.held_line_of_nan h ha hx hfile hnan
    simp only [RegisterFile.Held.initial] at hempty ⊢
    by_cases hneed : x.effect.bufferNeed? = y.effect.bufferNeed?
    · simp only [hempty, hneed, ite_self]
    · simp only [hneed, false_and, if_false]

/-- A voice that tracks a rack does not notice a hot edit that is compiled later. -/
theorem seamless_hot_edit (h : file.Tracks a.template) (ha : a.Built) (hb : b.Built)
    (hedit : a.HotEdit b) (hlater : file.compilationDiffers b.template = true)
    (hready : file.Ready b.template)
    (hrate : RegisterFile.SameNumber file.sampleRate sampleRate) :
    Seamless a b file (file.reconcile b.template sampleRate false) sampleRate := by
  have hlayout := hedit.same_layout ha.toLaidOut hb.toLaidOut
  have hgoes {position : Nat} {x y : Node} (hx : a.nodes[position]? = some x)
      (hy : b.nodes[position]? = some y) :
      RegisterFile.GoesOn file (file.reconcile b.template sampleRate false) sampleRate x y :=
    RegisterFile.goes_on h ha hb hlayout hlater hx hy
  refine ⟨hedit.ids, ?homes, fun position x y hx hy => (hgoes hx hy).output,
    fun position x y hx hy => (hgoes hx hy).state, ?lines, RegisterFile.noise_reconcile .., ?constants⟩
  case homes =>
    refine (map_eq_of_forall₂ (List.forall₂_iff_get.2 ⟨hlayout.length, fun position hx hy => ?_⟩)).symm
    exact ha.same_home hb.toLaidOut hlayout (List.getElem?_eq_getElem hx)
      (List.getElem?_eq_getElem hy)
  case lines =>
    intro position x y hx hy
    exact line_at_same_rate h ha.toLaidOut hrate (List.mem_of_getElem? hx) (hgoes hx hy)
  case constants =>
    intro node hnode p hp value hvalue
    obtain ⟨register, hregister, -, hge, hslot⟩ := hb.own_slot hnode hp hvalue
    have htracks := RegisterFile.tracks_reconcile hready sampleRate false
    exact ⟨register, hregister, htracks.constants register value hge hslot⟩

end Edits

namespace Journal

open Studio

/-- After any history, when the rack that a voice was last played on is edited in place and compiled,
any number of times, the voice goes on seamlessly at the rate of its last sample. -/
theorem hot_edits_seamless (actions : List Action) :
    ∃ journal, start.run actions = .ok journal ∧ Studio.start.run actions = .ok journal.studio ∧
      ∀ voice played, journal.last voice = some played →
        ∀ edited, played.rack.HotEdited edited →
          ∀ version, journal.studio.nextVersion ≤ version →
            let done := edited.compile version
            let before := (journal.studio.voices voice).registers
            Seamless played.rack done before
              (before.reconcile done.template played.call.sampleRate false)
              played.call.sampleRate := by
  obtain ⟨journal, hrun, hstudio, catalog, hrecords⟩ := run_sound actions
  refine ⟨journal, hrun, hstudio, ?_⟩
  intro voice played hlast edited hedited version hversion done before
  obtain ⟨hrack, hleft⟩ := hrecords voice played hlast
  have hlaid := hrack.laid_out
  exact seamless_hot_edit hleft.tracks hrack.built (edited.built_compile version)
    ((hedited.direct hlaid).compile hlaid version)
    (hrack.differs_later hleft.tracks hversion edited)
    (hrack.ready_later hleft.tracks hversion edited) hleft.rate

/-- An oscillator gets another shape and another pitch while it is heard through a delay, and the delay
another length and another signal. -/
theorem hot_edits_seamless_delay :
    let sound (shape : Waveform) (pitch : Binding) : Effect Binding :=
      .oscillator ⟨shape, .constant 1, .builtin .keyFrequency, pitch, .unset, .unset⟩
    let nodes := [{ Node.ofEffect (sound .triangle (.constant 2)) with id := some 0 },
      { Node.ofEffect (.delay ⟨.builtin .signal, .constant 0.001⟩) with
        id := some 1, enabled := false }]
    let actions : List Action := [
      .edit 0 "" [.ofEffect (sound .square .unset),
        .ofEffect (.delay ⟨.node 0, .constant 0.003⟩)] none,
      .compile 0, .noteOn 0 440, .next 0 0 1000, .next 0 0 1000]
    ∃ journal played, start.run actions = .ok journal ∧ journal.last 0 = some played ∧
      let edited := { played.rack with name := "edited", nodes, cursor := some 0 }
      let done := edited.compile journal.studio.nextVersion
      let before := (journal.studio.voices 0).registers
      Seamless played.rack done before
        (before.reconcile done.template played.call.sampleRate false) played.call.sampleRate := by
  intro sound nodes actions
  obtain ⟨journal, hrun, -, h⟩ := hot_edits_seamless actions
  have hlast : (start.run actions).map (fun journal => (journal.last 0).map fun played =>
      decide (played.rack.HotEdit { played.rack with nodes })) = .ok (some true) := by
    decide +kernel
  rw [hrun] at hlast
  obtain ⟨played, hplayed, hedit⟩ := Option.map_eq_some_iff.1 (Except.ok.inj hlast)
  obtain ⟨hids, hkept, htypes, hownership, hreferences⟩ := of_decide_eq_true hedit
  refine ⟨journal, played, hrun, hplayed, ?_⟩
  intro edited done before
  have hedited : played.rack.HotEdit edited :=
    ⟨hids, hkept, htypes, hownership, hreferences⟩
  exact h 0 played hplayed edited (.edit hedited) _ le_rfl

end Journal

end SynthRack
