import Mathlib
import SynthRack.Proofs.Play.Journal
import SynthRack.Proofs.Rack.References

/-!
# A voice on a rack whose nodes were rearranged

Nodes are pushed, marked for deletion and moved between two samples of a voice: `Rearranged`. What a
node then goes on from is decided by positions, not by IDs. In a rack of another layout every node
starts over; in a rack of the same layout every node goes on from what the node at its position held,
which is of its kind. `state_stays_in_place` proves this after any history, and `state_moves_on` shows
a pushed node that goes on from the state of a node that was deleted.
-/

namespace SynthRack

namespace Rack

/-- What becomes of a rack when nodes are pushed, marked for deletion and put in another order. -/
inductive Rearranged (rack : Rack) : Rack → Prop where
  | unchanged : Rearranged rack rack
  | push {edited : Rack} (h : Rearranged rack edited) (effect : Effect Binding) :
    Rearranged rack (edited.push effect)
  | markDeleted {edited : Rack} (h : Rearranged rack edited) (id : Nat) :
    Rearranged rack (edited.markDeleted id).1
  | reorder {edited : Rack} (h : Rearranged rack edited) {nodes : List Node}
    (hperm : edited.nodes.Perm nodes) : Rearranged rack { edited with nodes }

variable {rack edited : Rack}

/-- Marking changes one node at most, which then does not stay. -/
theorem mem_mark_deleted {id : Nat} {node : Node} (h : node ∈ (edited.markDeleted id).1.nodes)
    (hkept : node.toDelete = false) : node ∈ edited.nodes := by
  rw [markDeleted] at h
  split at h
  case h_1 position _ =>
    obtain ⟨index, hindex⟩ := List.mem_iff_getElem?.1 h
    rw [List.getElem?_modify] at hindex
    obtain ⟨old, hold, hmark⟩ := Option.map_eq_some_iff.1 hindex
    split at hmark
    · subst hmark
      cases hkept
    · exact hmark ▸ List.mem_of_getElem? hold
  case h_2 => exact h

/-- What stays of a rearranged rack are nodes of the rack, as they were, and pushed ones. -/
theorem Rearranged.origin (h : rack.Rearranged edited) {node : Node} (hnode : node ∈ edited.nodes)
    (hkept : node.toDelete = false) :
    node ∈ rack.nodes ∨ ∃ effect, node = .ofEffect effect := by
  induction h with
  | unchanged => exact .inl hnode
  | push h effect ih =>
      rcases List.mem_append.1 hnode with hold | hpushed
      · exact ih hold
      · exact .inr ⟨effect, List.mem_singleton.1 hpushed⟩
  | markDeleted h id ih => exact ih (mem_mark_deleted hnode hkept)
  | reorder h hperm ih => exact ih (hperm.mem_iff.2 hnode)

end Rack

/-- What a voice that was played on a rack goes on from, once the rack was rearranged and compiled. -/
structure CarriedOver (rack edited done : Rack) (before after : RegisterFile)
    (sampleRate : Float32) : Prop where
  origin : ∀ node ∈ edited.survivors, node ∈ rack.nodes ∨ ∃ effect, node = .ofEffect effect
  kept : List.Forall₂ (fun before after : Node => after.enabled = before.enabled ∧
    after.effect.form = before.effect.form) edited.survivors done.nodes
  same : rack.SameLayout done → ∀ (position : Nat) (old new : Node),
    rack.nodes[position]? = some old → done.nodes[position]? = some new →
      RegisterFile.GoesOn before after sampleRate old new
  other : ¬ rack.SameLayout done →
    ∀ node ∈ done.nodes, after.held node = .initial node sampleRate

namespace Journal

open Studio

/-- After any history, when the rack that a voice was last played on is rearranged and compiled, every
node goes on from what the node of its kind at its position held, if the layout is the same, and
starts over otherwise. -/
theorem state_stays_in_place (actions : List Action) :
    ∃ journal, start.run actions = .ok journal ∧ Studio.start.run actions = .ok journal.studio ∧
      ∀ voice played, journal.last voice = some played →
        ∀ edited, played.rack.Rearranged edited →
          ∀ version, journal.studio.nextVersion ≤ version → ∀ sampleRate,
            let done := edited.compile version
            let before := (journal.studio.voices voice).registers
            CarriedOver played.rack edited done before
              (before.reconcile done.template sampleRate false) sampleRate := by
  obtain ⟨journal, hrun, hstudio, catalog, hrecords⟩ := run_sound actions
  refine ⟨journal, hrun, hstudio, ?_⟩
  intro voice played hlast edited hedited version hversion sampleRate done before
  obtain ⟨hrack, hleft⟩ := hrecords voice played hlast
  have hdone : done.Built := edited.built_compile version
  have hlater := hrack.differs_later hleft.tracks hversion edited
  refine ⟨?origin, edited.survivors_compile version, ?same, ?other⟩
  case origin =>
    intro node hnode
    obtain ⟨hmem, hkept⟩ := List.mem_filter.1 hnode
    exact hedited.origin hmem (by simpa using hkept)
  case same =>
    intro hlayout position old new hold hnew
    exact RegisterFile.goes_on hleft.tracks hrack.built hdone hlayout hlater hold hnew
  case other =>
    intro hlayout node hnode
    refine RegisterFile.held_reset hdone ?_ hnode
    by_contra hsame
    exact hlayout ((hleft.tracks.layout_differs_iff hrack.built hdone).1 (Bool.not_eq_true _ ▸ hsame))

/-- A voice of two nodes, one of which is deleted while another is pushed. -/
theorem state_stays_in_place_pushed :
    let actions : List Action := [
      .edit 0 "" [.ofEffect (Effect.new .biquad), .ofEffect (Effect.new .envelope)] none,
      .compile 0, .noteOn 0 440, .next 0 0 44100]
    ∃ journal played, start.run actions = .ok journal ∧ journal.last 0 = some played ∧
      played.rack.nodes.length = 2 ∧
        let edited := (played.rack.markDeleted 0).1.push (Effect.new .biquad)
        let done := edited.compile journal.studio.nextVersion
        let before := (journal.studio.voices 0).registers
        CarriedOver played.rack edited done before
          (before.reconcile done.template 44100 false) 44100 := by
  intro actions
  obtain ⟨journal, hrun, -, h⟩ := state_stays_in_place actions
  have hlast : (start.run actions).map (fun journal =>
      (journal.last 0).map fun played => played.rack.nodes.length) = .ok (some 2) := by
    decide +kernel
  rw [hrun] at hlast
  obtain ⟨played, hplayed, hcount⟩ := Option.map_eq_some_iff.1 (Except.ok.inj hlast)
  refine ⟨journal, played, hrun, hplayed, hcount, ?_⟩
  exact h 0 played hplayed _ (.push (.markDeleted .unchanged 0) _) _ le_rfl 44100

/-- A filter is deleted and another one pushed. The layout is the same, so the pushed filter goes on
from the output and the taps of the one that is gone, and not from zeros. -/
theorem state_moves_on :
    let filter : Effect Binding :=
      .biquad ⟨.constant 1, .constant 0, .constant 0, .constant 1, .constant 0, .constant 0⟩
    let rack := (Rack.empty.push filter).compile 1
    let edited := (rack.markDeleted 0).1.push (Effect.new .biquad)
    let done := edited.compile 2
    ∃ sample file, rack.step ⟨440, 1, 44100, true⟩ (.ofSeed 0) = .ok (sample, file) ∧
      edited.survivors = [.ofEffect (Effect.new .biquad)] ∧ done.nodes.length = 1 ∧
      ∀ node ∈ done.nodes,
        (file.reconcile done.template 44100 false).held node ≠ .initial node 44100 := by
  intro filter rack edited done
  have hmoved : (rack.step ⟨440, 1, 44100, true⟩ (.ofSeed 0)).map (fun result =>
      decide (∀ node ∈ done.nodes,
        (result.2.reconcile done.template 44100 false).held node ≠ .initial node 44100)) =
      .ok true := by
    decide +kernel
  cases hstep : rack.step ⟨440, 1, 44100, true⟩ (.ofSeed 0) with
  | error fault =>
      rw [hstep] at hmoved
      cases hmoved
  | ok result =>
      rw [hstep] at hmoved
      have hfilters := of_decide_eq_true (Except.ok.inj hmoved)
      exact ⟨result.1, result.2, rfl, by decide +kernel, by decide +kernel, hfilters⟩

end Journal

end SynthRack
