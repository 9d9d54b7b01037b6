import Mathlib
import SynthRack.Proofs.Play.Studio
import SynthRack.Proofs.Rack.Framing

/-!
# Register files in use

A register file can be reconciled, written, ticked, resized and asked for noise in any order. `InUse`
keeps, beside a file, what became of its registers since they were last brought in line: from where
on they were cut off, and which of them were changed. `Kept.perform` is the step: the registers that
were neither are as the template last seen has them. `reconcile_restores` says what a file is like
after it was reconciled: whatever was done before, it has the size of the template, and the flags
and constants of all registers that were not cut off or changed since. The constants are only
brought in line when there is something to notice, so a changed constant stays through any number of
calls on the same compilation (`changed_constant_stays`).
-/

namespace SynthRack

namespace RegisterFile

/-- What can be done to a register file. -/
inductive Use where
  /-- Brings the file in line with the template of a compilation. -/
  | reconcile (version : Nat) (sampleRate : Float32) (fresh : Bool)
  | write (register : Nat) (value : Float32)
  | tick (buffer : Nat) (input : Float32) (cursor length : Nat)
  | resize (size : Nat)
  | draw

/-- A register file and what became of its registers. -/
structure InUse where
  file : RegisterFile
  /-- The registers below this one were not cut off since the file took over a layout. -/
  attached : Nat
  /-- The registers below this one were not cut off since the constants were refreshed. -/
  refreshed : Nat
  /-- The registers that were changed since the constants were refreshed. -/
  changed : List Nat

namespace InUse

/-- A new file. -/
def new (seed : UInt64) : InUse := ⟨ofSeed seed, 0, 0, []⟩

/-- Does something to the file. Reconciling takes over the layout of the template if the file was
built for another, and refreshes the constants if it was, if the template is from another compilation
and at a fresh trigger. -/
def perform (catalog : Nat → Rack) (s : InUse) : Use → Except Fault InUse
  | .reconcile version sampleRate fresh =>
    let t := Studio.templateOf catalog version
    let takesOver := s.file.layoutDiffers t
    let refreshes := takesOver || fresh || s.file.compilationDiffers t
    .ok {
      file := s.file.reconcile t sampleRate fresh
      attached := if takesOver then t.size else s.attached
      refreshed := if refreshes then t.size else s.refreshed
      changed := if refreshes then [] else s.changed }
  | .write register value =>
    (s.file.write (some register) value).map fun file =>
      { s with
        file
        changed :=
          if s.file.values[register]? = some value then s.changed else register :: s.changed }
  | .tick buffer input cursor length =>
    (s.file.tickBuffer (some buffer) input cursor length).map fun (_, file) => { s with file }
  | .resize size =>
    .ok { s with
      file := s.file.resizeTo size
      attached := min s.attached size
      refreshed := min s.refreshed size }
  | .draw => .ok { s with file := s.file.drawNoise.2 }

/-- Does one thing after another to the file. -/
def run (catalog : Nat → Rack) (s : InUse) (uses : List Use) : Except Fault InUse :=
  uses.foldlM (perform catalog) s

/-- The template last seen, and the flags and constants that are as this template has them. -/
structure Follows (s : InUse) (t : Template) : Prop where
  version : s.file.version = some t.version
  fingerprint : s.file.fingerprint = t.fingerprint
  flags : ∀ register, register < s.attached → s.file.persisted[register]? = t.persisted[register]?
  /-- Wherever it comes from, the flag of a constant is never set. -/
  unset : ∀ register : Nat, t.persisted[register]? = some false →
    s.file.persisted[register]? ≠ some true
  constants : ∀ (register : Nat) (value : Float32), t.slots[register]? = some ⟨value, false⟩ →
    register < s.refreshed → register ∉ s.changed → s.file.Holds register value

/-- What every use of a file keeps. -/
structure Kept (catalog : Nat → Rack) (s : InUse) : Prop where
  sizes : s.file.persisted.size = s.file.values.size
  attached : s.attached ≤ s.file.size
  refreshed : s.refreshed ≤ s.file.size
  follows : s.file.version = none ∨ ∃ version, s.Follows (Studio.templateOf catalog version)

variable {catalog : Nat → Rack} {s : InUse}

/-- A new file has what every use keeps. -/
theorem kept_new (catalog : Nat → Rack) (seed : UInt64) : (new seed).Kept catalog :=
  ⟨rfl, Nat.le_refl _, Nat.le_refl _, .inl rfl⟩

/-! ## Use by use -/

/-- Between two calls that reconcile, what is kept is that the template last seen is followed. -/
theorem Kept.of_follows (h : s.Kept catalog) {after : InUse}
    (hsizes : after.file.persisted.size = after.file.values.size)
    (hattached : after.attached ≤ after.file.size) (hrefreshed : after.refreshed ≤ after.file.size)
    (hversion : after.file.version = s.file.version)
    (hfollows : ∀ t, s.Follows t → after.Follows t) : after.Kept catalog :=
  ⟨hsizes, hattached, hrefreshed,
    h.follows.imp hversion.trans (Exists.imp fun _ => hfollows _)⟩

/-- Resizing a file keeps what every use keeps. -/
theorem Kept.resize (h : s.Kept catalog) (size : Nat) {after : InUse}
    (hafter : s.perform catalog (.resize size) = .ok after) : after.Kept catalog := by
  obtain rfl := Except.ok.inj hafter
  have hsize : (s.file.resizeTo size).size = size := size_resize ..
  refine h.of_follows (by simp [resizeTo]) ((min_le_right ..).trans hsize.ge)
    ((min_le_right ..).trans hsize.ge) rfl fun t hfollows => ?_
  refine ⟨hfollows.version, hfollows.fingerprint, ?flags, ?unset, ?constants⟩
  case flags =>
    intro register hlt
    obtain ⟨hattached, hkept⟩ := lt_min_iff.1 hlt
    rw [← hfollows.flags register hattached]
    exact resize_stays _ _ hkept (h.sizes ▸ hattached.trans_le h.attached)
  case unset =>
    intro register hconstant
    have hunset := hfollows.unset register hconstant
    show (SynthRack.resize s.file.persisted size false)[register]? ≠ some true
    rw [get_elem_resize]
    split
    · cases hflag : s.file.persisted[register]? with
      | none => simp
      | some flag => simpa [hflag] using hunset
    · simp
  case constants =>
    intro register value hslot hlt hchanged
    obtain ⟨hrefreshed, hkept⟩ := lt_min_iff.1 hlt
    exact (resize_stays _ _ hkept (hrefreshed.trans_le h.refreshed)).trans
      (hfollows.constants register value hslot hrefreshed hchanged)

/-- Writing a register keeps what every use keeps. -/
theorem Kept.write (h : s.Kept catalog) {register : Nat} {value : Float32} {after : InUse}
    (hafter : s.perform catalog (.write register value) = .ok after) : after.Kept catalog := by
  by_cases hlt : register < s.file.values.size
  case neg => simp [perform, RegisterFile.write, dif_neg hlt, Except.map] at hafter
  simp only [perform, RegisterFile.write, dif_pos hlt, Except.map, Except.ok.injEq] at hafter
  subst hafter
  refine h.of_follows (by simpa using h.sizes) (by simpa [size] using h.attached)
    (by simpa [size] using h.refreshed) rfl fun t hfollows => ?_
  refine ⟨hfollows.version, hfollows.fingerprint, hfollows.flags, hfollows.unset, ?_⟩
  intro other constant hslot hrefreshed hchanged
  show (s.file.values.set register value)[other]? = some constant
  by_cases hsame : s.file.values[register]? = some value
  · -- What is written is there already.
    obtain ⟨_, rfl⟩ := Array.getElem?_eq_some_iff.1 hsame
    rw [Array.set_getElem_self]
    exact hfollows.constants other constant hslot hrefreshed (by simpa [hsame] using hchanged)
  · simp only [if_neg hsame, List.mem_cons, not_or] at hchanged
    rw [Array.getElem?_set_ne _ (Ne.symm hchanged.1)]
    exact hfollows.constants other constant hslot hrefreshed hchanged.2

/-- What becomes of the buffers and the noise is of no concern. -/
theorem Kept.of_same (h : s.Kept catalog) {file : RegisterFile}
    (hvalues : file.values = s.file.values) (hpersisted : file.persisted = s.file.persisted)
    (hversion : file.version = s.file.version)
    (hfingerprint : file.fingerprint = s.file.fingerprint) : { s with file }.Kept catalog := by
  have hsize : file.size = s.file.size := congrArg Array.size hvalues
  refine h.of_follows (by rw [hpersisted, hvalues, h.sizes]) (hsize ▸ h.attached)
    (hsize ▸ h.refreshed) hversion fun t hfollows => ?_
  refine ⟨hversion.trans hfollows.version, hfingerprint.trans hfollows.fingerprint, ?_, ?_, ?_⟩
  · rw [hpersisted]
    exact hfollows.flags
  · rw [hpersisted]
    exact hfollows.unset
  · intro register value hslot hrefreshed hchanged
    exact (congrArg (·[register]?) hvalues).trans
      (hfollows.constants register value hslot hrefreshed hchanged)

/-- Playing a buffer keeps what every use keeps. -/
theorem Kept.tick (h : s.Kept catalog) {buffer : Nat} {input : Float32} {cursor length : Nat}
    {after : InUse} (hafter : s.perform catalog (.tick buffer input cursor length) = .ok after) :
    after.Kept catalog := by
  cases hline : s.file.buffers[buffer]? with
  | none =>
      have hout : ¬ buffer < s.file.buffers.size :=
        Nat.not_lt.2 (Array.getElem?_eq_none_iff.1 hline)
      simp [perform, tickBuffer, dif_neg hout, Except.map] at hafter
  | some line =>
      simp only [perform, tick_buffer_ok hline, Except.map, Except.ok.injEq] at hafter
      subst hafter
      exact h.of_same rfl rfl rfl rfl

/-! ## Reconciling -/

/-- Without another layout to take over, the template has the flags of the one last seen. -/
theorem Kept.seen (h : s.Kept catalog) {version : Nat}
    (hlayout : s.file.layoutDiffers (Studio.templateOf catalog version) = false) :
    ∃ seen, s.Follows (Studio.templateOf catalog seen) ∧
      (Studio.templateOf catalog seen).persisted = (Studio.templateOf catalog version).persisted := by
  obtain ⟨hsome, hfingerprint, -⟩ := layout_differs_eq_false hlayout
  obtain hnone | ⟨seen, hfollows⟩ := h.follows
  · exact absurd hnone hsome
  · have hbuilt := (catalog seen).built_compile seen
    exact ⟨seen, hfollows, (hbuilt.same_layout ((catalog version).built_compile version)
      (hfollows.fingerprint.symm.trans hfingerprint)).persisted⟩

/-- After reconciling, the file has the size of the template, and so have its flags. -/
theorem Kept.sizes_reconcile (h : s.Kept catalog) (version : Nat) (sampleRate : Float32)
    (fresh : Bool) :
    let t := Studio.templateOf catalog version
    (s.file.reconcile t sampleRate fresh).values.size = t.size ∧
      (s.file.reconcile t sampleRate fresh).persisted.size = t.size := by
  intro t
  have hvalues : t.values.size = t.size := by simp [Template.values, Template.size]
  have hpersisted : t.persisted.size = t.size := by simp [Template.persisted, Template.size]
  rw [reconcile_eq]
  cases hlayout : s.file.layoutDiffers t with
  | true => simp [reconciledValues, hlayout, hvalues, hpersisted]
  | false =>
      have hsize := (layout_differs_eq_false hlayout).2.2
      refine ⟨?_, by simpa using h.sizes.trans hsize⟩
      cases fresh <;> cases hcompilation : s.file.compilationDiffers t <;>
        simp [reconciledValues, refreshedValues, hlayout, hcompilation, hvalues, hsize, h.sizes]

/-- Without another layout to take over, constants that are refreshed are those of the template, and
where none are refreshed the template is the one last seen. -/
theorem Kept.constants_stay (h : s.Kept catalog) {version : Nat} (fresh : Bool)
    (hlayout : s.file.layoutDiffers (Studio.templateOf catalog version) = false) {register : Nat}
    {value : Float32}
    (hslot : (Studio.templateOf catalog version).slots[register]? = some ⟨value, false⟩)
    (hkept : fresh = false →
      s.file.compilationDiffers (Studio.templateOf catalog version) = false →
        register < s.refreshed ∧ register ∉ s.changed) :
    (s.file.reconciledValues (Studio.templateOf catalog version) fresh)[register]? = some value := by
  obtain ⟨seen, hfollows, hflags⟩ := h.seen hlayout
  have hlt : register < s.file.values.size :=
    (layout_differs_eq_false hlayout).2.2 ▸ (Array.getElem?_eq_some_iff.1 hslot).1
  rw [reconciledValues, hlayout, Bool.false_or]
  split
  case isTrue => exact Template.value_of_slot hslot
  case isFalse hfresh =>
    split
    case isTrue hcompilation =>
      have hunset : s.file.persisted[register]? = some false := by
        have hset := hfollows.unset register (hflags ▸ Template.persisted_of_slot hslot)
        rw [Array.getElem?_eq_getElem (h.sizes ▸ hlt)] at hset ⊢
        simpa using hset
      exact refreshed_values_unset hlt hunset hslot
    case isFalse hcompilation =>
      obtain ⟨hrefreshed, hchanged⟩ := hkept (by simpa using hfresh) (by simpa using hcompilation)
      have hversion : seen = version := by
        have hsame : s.file.version = some (Studio.templateOf catalog version).version := by
          simpa [compilationDiffers] using hcompilation
        exact Option.some.inj (hfollows.version.symm.trans hsame)
      subst hversion
      exact hfollows.constants register value hslot hrefreshed hchanged

/-- After reconciling, the file follows the template. -/
theorem Kept.follows_reconcile (h : s.Kept catalog) {version : Nat} {sampleRate : Float32}
    {fresh : Bool} {after : InUse}
    (hafter : s.perform catalog (.reconcile version sampleRate fresh) = .ok after) :
    after.Follows (Studio.templateOf catalog version) := by
  obtain rfl := Except.ok.inj hafter
  cases hlayout : s.file.layoutDiffers (Studio.templateOf catalog version) with
  | true =>
      -- Everything is taken from the template.
      refine ⟨by rw [reconcile_eq], ?_, ?_, ?_, ?_⟩
      all_goals simp only [reconcile_eq, reconciledValues, hlayout, Holds, Bool.true_or, if_true]
      · exact fun _ _ => trivial
      · intro register hconstant
        simp [hconstant]
      · exact fun register value hslot _ _ => Template.value_of_slot hslot
  | false =>
      obtain ⟨seen, hfollows, hflags⟩ := h.seen hlayout
      refine ⟨by rw [reconcile_eq], ?_, ?_, ?_, ?_⟩
      all_goals simp only [reconcile_eq, hlayout, Holds, Bool.false_or]
      · exact (layout_differs_eq_false hlayout).2.1
      · exact fun register hattached => hflags ▸ hfollows.flags register hattached
      · exact fun register hconstant => hfollows.unset register (hflags ▸ hconstant)
      intro register value hslot hrefreshed hchanged
      refine h.constants_stay fresh hlayout hslot fun hfresh hcompilation => ?_
      exact ⟨by simpa [hfresh, hcompilation] using hrefreshed,
        by simpa [hfresh, hcompilation] using hchanged⟩

/-- Reconciling with any version keeps what every use keeps. -/
theorem Kept.reconcile (h : s.Kept catalog) {version : Nat} {sampleRate : Float32} {fresh : Bool}
    {after : InUse} (hafter : s.perform catalog (.reconcile version sampleRate fresh) = .ok after) :
    after.Kept catalog := by
  have hfollows := h.follows_reconcile hafter
  obtain rfl := Except.ok.inj hafter
  obtain ⟨hvalues, hpersisted⟩ := h.sizes_reconcile version sampleRate fresh
  have hbound {kept : Nat} (hkept : kept ≤ s.file.size) {takes : Bool}
      (htakes : s.file.layoutDiffers (Studio.templateOf catalog version) = true → takes = true) :
      (if takes then (Studio.templateOf catalog version).size else kept) ≤
        (s.file.reconcile (Studio.templateOf catalog version) sampleRate fresh).size := by
    rw [size, hvalues]
    cases takes with
    | true => exact Nat.le_refl _
    | false =>
        have hlayout := eq_false_of_ne_true fun hdiffers => Bool.false_ne_true (htakes hdiffers)
        exact (layout_differs_eq_false hlayout).2.2 ▸ hkept
  refine ⟨hpersisted.trans hvalues.symm, hbound h.attached id, hbound h.refreshed fun hlayout => ?_,
    .inr ⟨version, hfollows⟩⟩
  rw [hlayout]
  rfl

/-- One use of a file, of any of these kinds. -/
theorem Kept.perform (h : s.Kept catalog) {use : Use} {after : InUse}
    (hafter : s.perform catalog use = .ok after) : after.Kept catalog := by
  cases use with
  | reconcile version sampleRate fresh => exact h.reconcile hafter
  | write register value => exact h.write hafter
  | tick buffer input cursor length => exact h.tick hafter
  | resize size => exact h.resize size hafter
  | draw =>
      obtain rfl := Except.ok.inj hafter
      exact h.of_same rfl rfl rfl rfl

/-- Any number of uses, one after another. -/
theorem Kept.run (h : s.Kept catalog) {uses : List Use} {after : InUse}
    (hafter : s.run catalog uses = .ok after) : after.Kept catalog := by
  induction uses generalizing s with
  | nil =>
      obtain rfl := Except.ok.inj hafter
      exact h
  | cons use uses ih =>
      rw [InUse.run, List.foldlM_cons] at hafter
      cases hnext : s.perform catalog use with
      | error fault =>
          rw [hnext] at hafter
          cases hafter
      | ok next =>
          rw [hnext] at hafter
          exact ih (h.perform hnext) hafter

/-! ## After any use -/

/-- However a new file was used, reconciling it succeeds and gives it the size of the template; the
flags of all registers that were not cut off since it took over a layout; and the constants of all
registers that were neither cut off nor changed since they were refreshed. -/
theorem reconcile_restores {seed : UInt64} {uses : List Use} {s : InUse}
    (h : (new seed).run catalog uses = .ok s) (version : Nat) (sampleRate : Float32) (fresh : Bool) :
    let t := Studio.templateOf catalog version
    ∃ after, s.perform catalog (.reconcile version sampleRate fresh) = .ok after ∧
      s.file.checkedReconcile t sampleRate fresh = .ok after.file ∧
      after.file.size = t.size ∧ after.file.persisted.size = t.size ∧
      (t.size ≤ after.attached → after.file.persisted = t.persisted) ∧
      (∀ register, register < after.attached →
        after.file.persisted[register]? = t.persisted[register]?) ∧
      ∀ (register : Nat) (value : Float32), t.slots[register]? = some ⟨value, false⟩ →
        register < after.refreshed → register ∉ after.changed →
          after.file.values[register]? = some value := by
  intro t
  have hkept := (kept_new catalog seed).run h
  obtain ⟨hvalues, hpersisted⟩ := hkept.sizes_reconcile version sampleRate fresh
  have hperform : s.perform catalog (.reconcile version sampleRate fresh) = .ok _ := rfl
  have hfollows := hkept.follows_reconcile hperform
  refine ⟨_, hperform, checked_reconcile_eq .., hvalues, hpersisted, fun hattached => ?_,
    hfollows.flags, hfollows.constants⟩
  have hsize : t.persisted.size = t.size := by simp [Template.persisted, Template.size]
  refine Array.ext_getElem? fun register => ?_
  by_cases hlt : register < t.size
  · exact hfollows.flags register (hlt.trans_le hattached)
  · rw [Array.getElem?_eq_none (hpersisted.trans_le (Nat.le_of_not_lt hlt)),
      Array.getElem?_eq_none (hsize.trans_le (Nat.le_of_not_lt hlt))]

/-- A sum of a constant and a delay, compiled as the first version with one constant and as every
other version with another. -/
def sumAndDelay (version : Nat) : Rack :=
  { Rack.empty with
    nodes := [.ofEffect (.maths ⟨[[.constant (if version = 1 then 3 else 5)]]⟩),
      .ofEffect (.delay ⟨.builtin .signal, .constant 0.001⟩)] }

/-- The constant was overwritten, the file grown and its buffer used, before the other version came. -/
theorem reconcile_restores_sum_and_delay :
    let uses : List Use := [.reconcile 1 1000 false, .write 6 7, .tick 0 1 0 1, .resize 12,
      .reconcile 1 1000 true, .write 6 9, .draw, .reconcile 1 1000 false]
    let t := Studio.templateOf sumAndDelay 2
    ∃ s after, (new 0).run sumAndDelay uses = .ok s ∧ s.changed = [6] ∧
      s.perform sumAndDelay (.reconcile 2 1000 false) = .ok after ∧
      after.file.persisted = t.persisted ∧ t.slots[6]? = some ⟨5, false⟩ ∧
      after.file.values[6]? = some 5 := by
  intro uses t
  have hslot : t.slots[6]? = some ⟨5, false⟩ := by decide +kernel
  have hchanged : ((new 0).run sumAndDelay uses).map (·.changed) = .ok [6] := by decide +kernel
  have hafter : ((new 0).run sumAndDelay uses >>= fun s =>
      s.perform sumAndDelay (.reconcile 2 1000 false)).map
        (fun after => (after.attached, after.refreshed, after.changed)) =
          .ok (t.size, t.size, []) := by decide +kernel
  cases hrun : (new 0).run sumAndDelay uses with
  | error fault =>
      rw [hrun] at hchanged
      cases hchanged
  | ok s =>
      rw [hrun] at hchanged hafter
      obtain ⟨after, hperform, -, -, -, hflags, -, hconstants⟩ :=
        reconcile_restores hrun 2 1000 false
      have hkept : (s.perform sumAndDelay (.reconcile 2 1000 false)).map
          (fun after => (after.attached, after.refreshed, after.changed)) =
            .ok (t.size, t.size, []) := hafter
      rw [hperform] at hkept
      simp only [Except.map, Except.ok.injEq, Prod.mk.injEq] at hkept
      obtain ⟨hattached, hrefreshed, hunchanged⟩ := hkept
      refine ⟨s, after, rfl, Except.ok.inj hchanged, hperform, hflags hattached.ge, hslot, ?_⟩
      refine hconstants 6 5 hslot ?_ (by simp [hunchanged])
      rw [hrefreshed]
      exact (Array.getElem?_eq_some_iff.1 hslot).1

/-- On one compilation a constant that was overwritten stays so, and registers that were cut off and
grown back to the same number go unnoticed: their flags are unset and they hold zeros. -/
theorem changed_constant_stays :
    let t := Studio.templateOf sumAndDelay 1
    let again : Use := .reconcile 1 1000 false
    let final (uses : List Use) := (new 0).run sumAndDelay (uses ++ [again])
    t.slots[6]? = some ⟨3, false⟩ ∧
      (final [again, .write 6 7, again]).map (·.file.values[6]?) = .ok (some 7) ∧
      (final [again, .resize 4, .resize 9]).map (·.file.values[6]?) = .ok (some 0) ∧
      ¬ (final [again, .resize 4, .resize 9]).map (·.file.persisted) = .ok t.persisted := by
  decide +kernel

end InUse

end RegisterFile

end SynthRack
