import Mathlib
import SynthRack.Proofs.Play.Kinds
import SynthRack.Proofs.Play.Studio

/-!
# What every voice was last played on

A `Journal` is a studio together with a record, for every voice, of its last sample: the rack as it
was then, and the call. `kinds_hold` says that after any history the registers of every voice hold
values of their kinds, as seen from the rack and the call in its record.
-/

namespace SynthRack

/-- The call that plays the next sample of a voice. -/
def Voice.call (voice : Voice) (sampleRate : Float32) : Call :=
  ⟨voice.frequency, voice.signal, sampleRate, voice.retrigger⟩

/-- A sample that was played. -/
structure Played where
  /-- The rack as it was then. -/
  rack : Rack
  call : Call

/-- A studio and the last sample of every voice; none for a voice that was never played. -/
structure Journal where
  studio : Studio
  last : Nat → Option Played

namespace Journal

/-- Nothing was played. -/
def start : Journal := ⟨.start, fun _ => none⟩

/-- The records after an action. A new voice has none, and a clone takes over that of its source. -/
def note (journal : Journal) : Action → Nat → Option Played
  | .newVoice name _ => Function.update journal.last name none
  | .cloneVoice source target => Function.update journal.last target (journal.last source)
  | .next name target sampleRate =>
    let ⟨rack, current⟩ := journal.studio.racks target
    if current then
      Function.update journal.last name
        (some ⟨rack, (journal.studio.voices name).call sampleRate⟩)
    else journal.last
  | .step name target call =>
    let ⟨rack, current⟩ := journal.studio.racks target
    if current then Function.update journal.last name (some ⟨rack, call⟩) else journal.last
  | _ => journal.last

/-- Performs an action in the studio and notes the sample, if it plays one. -/
def perform (journal : Journal) (action : Action) : Except Fault Journal :=
  (journal.studio.perform action).map fun studio => ⟨studio, journal.note action⟩

/-- Performs actions one after another. -/
def run (journal : Journal) (actions : List Action) : Except Fault Journal :=
  actions.foldlM perform journal

open Studio

/-- A voice without a record saw no template, and any other was left as it is by a rack of the
catalog. -/
def Recorded (catalog : Nat → Rack) (next : Nat) (record : Option Played) (voice : Voice) : Prop :=
  match record with
  | none => voice.registers.version = none
  | some played => CompiledIn catalog next played.rack ∧ Left played.rack played.call voice.registers

/-- The studio is sound, and all records are right. -/
structure Sound (catalog : Nat → Rack) (journal : Journal) : Prop where
  studio : journal.studio.Sound catalog
  records : ∀ name, Recorded catalog journal.studio.nextVersion (journal.last name)
    (journal.studio.voices name)

variable {catalog extended : Nat → Rack} {journal : Journal} {next last : Nat}

/-- Before anything happened, all racks and voices are as they should be. -/
theorem sound_start (catalog : Nat → Rack) : Sound catalog start :=
  ⟨Studio.sound_start catalog, fun _ => rfl⟩

/-- A record stays true when more racks are compiled. -/
theorem Recorded.grow {record : Option Played} {voice : Voice}
    (h : Recorded catalog next record voice) (hgrows : Grows catalog next extended last) :
    Recorded extended last record voice := by
  cases record with
  | none => exact h
  | some played => exact ⟨hgrows _ h.1, h.2⟩

/-- All records stay right when one of them is replaced together with its voice. -/
theorem recorded_update {records : Nat → Option Played} {voices : Nat → Voice}
    (h : ∀ name, Recorded catalog next (records name) (voices name)) (name : Nat)
    {record : Option Played} {voice : Voice} (hnew : Recorded catalog next record voice)
    (other : Nat) :
    Recorded catalog next (Function.update records name record other)
      (Function.update voices name voice other) := by
  by_cases hother : other = name
  · subst hother
    simpa only [Function.update_self] using hnew
  · simpa only [Function.update_of_ne hother] using h other

/-- Changing the key or the gate of a voice leaves its registers and its record alone. -/
theorem recorded_note (h : Sound catalog journal) (name : Nat) {voice : Voice}
    (hregisters : voice.registers = (journal.studio.voices name).registers) (other : Nat) :
    Recorded catalog journal.studio.nextVersion (journal.last other)
      (Function.update journal.studio.voices name voice other) := by
  have hrecord : Recorded catalog journal.studio.nextVersion (journal.last name) voice := by
    have hold := h.records name
    unfold Recorded at hold ⊢
    rwa [hregisters]
  have hall := recorded_update h.records name hrecord other
  rwa [Function.update_eq_self] at hall

/-- Racks of a studio are told apart by their versions and layouts. -/
theorem discerned_compiled {a b : Rack} (ha : CompiledIn catalog next a)
    (hb : CompiledIn catalog next b) : RegisterFile.Discerned a.template b.template := by
  obtain ⟨version, cursor, -, -, rfl⟩ := ha
  obtain ⟨other, otherCursor, -, -, rfl⟩ := hb
  refine discerned_compile ?_
  rintro rfl
  rfl

/-- A rack of the studio plays a sample of every voice, and the new record is right. -/
theorem recorded_sample {rack : Rack} {record : Option Played} {voice : Voice}
    (hrack : CompiledIn catalog next rack) (h : Recorded catalog next record voice) (call : Call) :
    ∃ sample registers, rack.step call voice.registers = .ok (sample, registers) ∧
      ∀ after : Voice, after.registers = registers →
        Recorded catalog next (some ⟨rack, call⟩) after := by
  obtain ⟨sample, registers, hstep, hleft⟩ :
      ∃ sample registers, rack.step call voice.registers = .ok (sample, registers) ∧
        Left rack call registers := by
    cases record with
    | none =>
        exact sample_left hrack.built hrack.built hrack.is_compiled
          (discerned_compiled hrack hrack) (.inl h) call
    | some played =>
        exact sample_left h.1.built hrack.built hrack.is_compiled
          (discerned_compiled h.1 hrack) (.inr ⟨played.call, h.2⟩) call
  refine ⟨sample, registers, hstep, ?_⟩
  rintro after rfl
  exact ⟨hrack, hleft⟩

/-- No action faults, and the records are right after it. -/
theorem perform_sound (h : Sound catalog journal) (action : Action) :
    ∃ extended after, journal.perform action = .ok after ∧ Sound extended after := by
  obtain ⟨extended, studio, hperform, hstudio, hgrows⟩ := Studio.perform_sound h.studio action
  refine ⟨extended, ⟨studio, journal.note action⟩, by rw [perform, hperform]; rfl, hstudio, ?_⟩
  suffices hrecords : ∀ name, Recorded catalog journal.studio.nextVersion (journal.note action name)
      (studio.voices name) from fun name => (hrecords name).grow hgrows
  cases action with
  | newRack | edit | moveCursor | compile | cloneRack =>
      cases hperform
      exact h.records
  | load name text =>
      have hvoices : studio.voices = journal.studio.voices := by
        rw [Studio.perform] at hperform
        split at hperform <;> cases hperform <;> rfl
      rw [hvoices]
      exact h.records
  | newVoice name seed =>
      cases hperform
      exact recorded_update h.records name rfl
  | cloneVoice source target =>
      cases hperform
      exact recorded_update h.records target (h.records source)
  | noteOn name | noteOff name | setFrequency name | setSignal name =>
      cases hperform
      exact recorded_note h name rfl
  | next name target sampleRate =>
      cases hcurrent : (journal.studio.racks target).current with
      | false =>
          simp only [Studio.perform, note, hcurrent] at hperform ⊢
          cases hperform
          exact h.records
      | true =>
          obtain ⟨sample, registers, hstep, hrecord⟩ :=
            recorded_sample (h.studio.racks target hcurrent) (h.records name)
              ((journal.studio.voices name).call sampleRate)
          simp only [Studio.perform, note, hcurrent, if_true, Voice.next_ok hstep] at hperform ⊢
          cases hperform
          exact recorded_update h.records name (hrecord _ rfl)
  | step name target call =>
      cases hcurrent : (journal.studio.racks target).current with
      | false =>
          simp only [Studio.perform, note, hcurrent] at hperform ⊢
          cases hperform
          exact h.records
      | true =>
          obtain ⟨sample, registers, hstep, hrecord⟩ :=
            recorded_sample (h.studio.racks target hcurrent) (h.records name) call
          simp only [Studio.perform, note, hcurrent, if_true, hstep] at hperform ⊢
          cases hperform
          exact recorded_update h.records name (hrecord _ rfl)

/-- Keeping records changes nothing about what happens in the studio. -/
theorem studio_run (journal : Journal) (actions : List Action) :
    (journal.run actions).map (·.studio) = journal.studio.run actions := by
  induction actions generalizing journal with
  | nil => rfl
  | cons action rest ih =>
      rw [run, Studio.run, List.foldlM_cons, List.foldlM_cons, perform]
      cases journal.studio.perform action with
      | error fault => rfl
      | ok studio => exact ih ⟨studio, journal.note action⟩

/-- No history faults. After it, every voice with a record was left as it is by the rack in its record,
which was compiled in the history. -/
theorem run_sound (actions : List Action) :
    ∃ journal, start.run actions = .ok journal ∧ Studio.start.run actions = .ok journal.studio ∧
      ∃ catalog, ∀ voice played, journal.last voice = some played →
        CompiledIn catalog journal.studio.nextVersion played.rack ∧
          Left played.rack played.call (journal.studio.voices voice).registers := by
  have hstep (journal : Journal) (h : ∃ catalog, Sound catalog journal) (action : Action) :
      ∃ after, journal.perform action = .ok after ∧ ∃ catalog, Sound catalog after := by
    obtain ⟨catalog, h⟩ := h
    obtain ⟨extended, after, hperform, hafter⟩ := perform_sound h action
    exact ⟨after, hperform, extended, hafter⟩
  obtain ⟨journal, hrun, catalog, hsound⟩ :=
    foldl_m_invariant hstep ⟨fun _ => .empty, sound_start _⟩ actions
  have hstudio := studio_run start actions
  rw [run, hrun] at hstudio
  refine ⟨journal, hrun, hstudio.symm, catalog, fun voice played hlast => ?_⟩
  have hrecord := hsound.records voice
  rw [hlast] at hrecord
  exact hrecord

end Journal

end SynthRack
