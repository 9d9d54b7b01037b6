import Mathlib
import SynthRack.Proofs.Play.Studio
import SynthRack.Proofs.Rack.Content

/-!
# Versions grow

The counter of a studio never goes back, whatever is done (`next_version_le_run`). So a rack that is
compiled again, however much later and with no edit in between, gets a later version; and nothing else
about it changes: `compile_again`.
-/

namespace SynthRack

namespace Studio

variable {studio after : Studio}

/-- No action takes a version back. -/
theorem next_version_le_perform {action : Action} (h : studio.perform action = .ok after) :
    studio.nextVersion ≤ after.nextVersion := by
  cases action with
  | compile name =>
      cases h
      exact Nat.le_succ _
  | load name text =>
      rw [perform] at h
      split at h <;> cases h
      · exact Nat.le_succ _
      · exact le_rfl
  | next name target sampleRate =>
      simp only [perform] at h
      split at h
      · split at h <;> cases h
        exact le_rfl
      · cases h
        exact le_rfl
  | step name target call =>
      simp only [perform] at h
      split at h
      · split at h <;> cases h
        exact le_rfl
      · cases h
        exact le_rfl
  | _ =>
      cases h
      exact le_rfl

/-- No history takes a version back. -/
theorem next_version_le_run {actions : List Action} (h : studio.run actions = .ok after) :
    studio.nextVersion ≤ after.nextVersion := by
  induction actions generalizing studio with
  | nil =>
      cases h
      exact le_rfl
  | cons action rest ih =>
      rw [run, List.foldlM_cons] at h
      cases hperform : studio.perform action with
      | error fault =>
          rw [hperform] at h
          cases h
      | ok next =>
          rw [hperform] at h
          exact (next_version_le_perform hperform).trans (ih h)

/-- A rack that is compiled, left as it is while anything else goes on, and compiled again, is the same
in every respect but its version, which is later. -/
theorem compile_again (studio : Studio) (name : Nat) :
    ∃ once, studio.perform (.compile name) = .ok once ∧
      (once.racks name).rack = (studio.racks name).rack.compile studio.nextVersion ∧
      ∀ (between : List Action) (idle : Studio), once.run between = .ok idle →
        (idle.racks name).rack = (once.racks name).rack →
        ∃ twice, idle.perform (.compile name) = .ok twice ∧
          let first := (once.racks name).rack
          let second := (twice.racks name).rack
          second = { first with
            template := { first.template with version := second.template.version } } ∧
          first.template.version < second.template.version := by
  have hpublished (studio : Studio) (rack : Rack) :
      ((studio.publish name rack).racks name).rack = rack := by
    simp only [publish, setRack, Function.update_self]
  refine ⟨_, rfl, hpublished _ _, fun between idle hrun hkept => ⟨_, rfl, ?_⟩⟩
  simp only [hpublished, hkept, Rack.compile_compile]
  exact ⟨trivial, Nat.lt_of_succ_le (next_version_le_run hrun)⟩

/-- A rack with a node to delete, references to that node and to one that never was, a delay of the
standard length and one that is driven by a node, is compiled twice; another rack is compiled and a
note starts in between. -/
theorem compile_again_demoted :
    let nodes := [{ Node.ofEffect (.new .noise) with id := some 3, toDelete := true },
      { Node.ofEffect (.delay ⟨.node 3, .unset⟩) with id := some 3 },
      .ofEffect (.delay ⟨.node 8, .node 3⟩)]
    let studio : Studio :=
      start.setRack 0 ⟨{ Rack.empty with nodes, cursor := some 1 }, false⟩
    let between : List Action := [.compile 1, .noteOn 0 440]
    ∃ once idle twice, studio.perform (.compile 0) = .ok once ∧ once.run between = .ok idle ∧
      (idle.racks 0).rack = (once.racks 0).rack ∧ idle.perform (.compile 0) = .ok twice ∧
      let first := (once.racks 0).rack
      let second := (twice.racks 0).rack
      second = { first with template := { first.template with version := second.template.version } } ∧
      first.template.version < second.template.version := by
  intro nodes studio between
  obtain ⟨once, honce, -, h⟩ := compile_again studio 0
  obtain ⟨twice, htwice, hsame, hlater⟩ := h between _ rfl rfl
  exact ⟨once, _, twice, honce, rfl, rfl, htwice, hsame, hlater⟩

end Studio

end SynthRack
