import Mathlib
import SynthRack.Proofs.Checks
import SynthRack.Proofs.Play.Script
import SynthRack.Proofs.Play.Simulation
import SynthRack.Proofs.Play.Tracking

/-!
# Watching a sample

`Rack.watch` plays one sample with every condition checked: registers and buffers are in range,
slices that are copied have one length, no remainder is taken by zero. It also lists what the nodes
read from their parameters. `step_of_watch` says that a sample that passes all checks is the one that
`Rack.step` plays.
-/

namespace SynthRack

open Checked

/-- What a node read when it read a parameter. -/
structure ParamReading where
  param : Param
  default : Float32
  value : Float32
  deriving DecidableEq

/-- A register file that faults violates a condition. -/
def Checked.ofPlaying {α : Type} : Except Fault α → Checked α
  | .ok a => .ok a
  | .error fault => .error (.fault fault)

/-- A check of a play step succeeds with the result that the step has. -/
theorem Checked.of_playing_eq_ok {α : Type} {result : Except Fault α} {a : α} :
    Checked.ofPlaying result = .ok a ↔ result = .ok a := by
  cases result <;> simp [Checked.ofPlaying]

/-- What follows a checked step is only reached if the step succeeds. -/
theorem Checked.bind_eq_ok {α β : Type} {first : Checked α} {next : α → Checked β} {b : β} :
    first >>= next = .ok b ↔ ∃ a, first = .ok a ∧ next a = .ok b := by
  cases first with
  | ok a => simp
  | error violation =>
      constructor
      · intro h
        cases h
      · rintro ⟨a, h, -⟩
        cases h

/-! ## Buffers -/

/-- One sample over the first places of a ring, with its remainders and its places checked. -/
def DelayLine.checkedTick (line : DelayLine) (input : Float32) (cursor length : Nat) :
    Checked (Float32 × Nat × DelayLine) :=
  let length := min length line.capacity
  if length = 0 then .ok (input, 0, line)
  else do
    let place ← remainder cursor length
    let out ← lookUp line.samples place
    let samples ← store line.samples place input
    let next ← remainder (place + 1) length
    return (out, next, ⟨samples⟩)

/-- A ring is never left, whatever the cursor and the length. -/
theorem DelayLine.checked_tick_eq (line : DelayLine) (input : Float32) (cursor length : Nat) :
    line.checkedTick input cursor length = .ok (line.tick input cursor length) := by
  by_cases hlength : min length line.capacity = 0
  · simp [checkedTick, tick, hlength]
  · have hplace : cursor % min length line.capacity < line.samples.size :=
      (Nat.mod_lt _ (Nat.pos_of_ne_zero hlength)).trans_le (Nat.min_le_right _ _)
    have hout := look_up_eq_ok.2 (Array.getElem?_eq_getElem hplace)
    simp only [checkedTick, tick, hlength, if_false, dif_neg, not_false_eq_true,
      remainder_ok hlength, ok_bind, hout, store_ok hplace]
    rfl

namespace RegisterFile

/-- Plays one sample through a buffer, with the buffer and its places checked. -/
def checkedTick (file : RegisterFile) (buffer : Option Nat) (input : Float32)
    (cursor length : Nat) : Checked ((Float32 × Nat) × RegisterFile) :=
  match buffer with
  | some index => do
    let line ← lookUp file.buffers index
    let (out, next, line) ← line.checkedTick input cursor length
    let buffers ← store file.buffers index line
    return ((out, next), { file with buffers })
  | none => .error (.fault (.bufferOutOfRange none file.buffers.size))

/-- The checks of a tick pass for a buffer that is there, and it ticks as it does unchecked. -/
theorem checked_tick_ok {file : RegisterFile} {index : Nat} {line : DelayLine}
    (hline : file.buffers[index]? = some line) (input : Float32) (cursor length : Nat) :
    let ticked := line.tick input cursor length
    file.checkedTick (some index) input cursor length = .ok ((ticked.1, ticked.2.1),
      { file with buffers := file.buffers.setIfInBounds index ticked.2.2 }) := by
  have hlt := (Array.getElem?_eq_some_iff.1 hline).1
  simp only [checkedTick, look_up_eq_ok.2 hline, ok_bind, DelayLine.checked_tick_eq, store_ok hlt,
    Array.setIfInBounds, hlt, dif_pos]
  rfl

/-- A buffer that passes the checks is played as without them. -/
theorem tick_of_checked {file : RegisterFile} {buffer : Option Nat} {input : Float32}
    {cursor length : Nat} {result : (Float32 × Nat) × RegisterFile}
    (h : file.checkedTick buffer input cursor length = .ok result) :
    file.tickBuffer buffer input cursor length = .ok result := by
  cases buffer with
  | none => cases h
  | some index =>
      obtain ⟨line, hline, -⟩ := Checked.bind_eq_ok.1 h
      rw [look_up_eq_ok] at hline
      have hchecked := checked_tick_ok hline input cursor length
      rw [tick_buffer_ok hline]
      exact congrArg _ (Except.ok.inj (hchecked.symm.trans h))

/-! ## Reconciling -/

/-- A resized array has the size that was asked for. -/
@[simp] theorem size_resize {α : Type} (xs : Array α) (size : Nat) (filler : α) :
    (resize xs size filler).size = size := by
  simp only [resize, Array.size_append, Array.size_extract, Array.size_replicate]
  omega

/-- A resized array keeps what it had room for and fills up the rest. -/
theorem get_elem_resize {α : Type} (xs : Array α) (size : Nat) (filler : α) (index : Nat) :
    (resize xs size filler)[index]? =
      if index < size then some (xs[index]?.getD filler) else none := by
  unfold resize
  grind

/-- Registers that are neither cut off nor filled up stay as they are. -/
theorem resize_stays {α : Type} (xs : Array α) {size : Nat} (filler : α) {index : Nat}
    (hsize : index < size) (hxs : index < xs.size) :
    (resize xs size filler)[index]? = xs[index]? := by
  rw [get_elem_resize, if_pos hsize, Array.getElem?_eq_getElem hxs, Option.getD_some]

/-- Before slices are copied, a file that was built for another layout is cut or filled up. -/
def sizedFor (file : RegisterFile) (t : Template) : RegisterFile :=
  if file.layoutDiffers t then file.resizeTo t.size else file

/-- The flags after reconciling, copied as a slice. -/
def checkedPersisted (file : RegisterFile) (t : Template) : Checked (Array Bool) :=
  if file.layoutDiffers t then copySlice (file.sizedFor t).persisted t.persisted
  else .ok file.persisted

/-- The registers after reconciling, copied as a slice where all of them are replaced. -/
def checkedValues (file : RegisterFile) (t : Template) (fresh : Bool) : Checked (Array Float32) :=
  if file.layoutDiffers t || fresh then copySlice (file.sizedFor t).values t.values
  else .ok (file.reconciledValues t fresh)

/-- Reconciling with the copies of slices checked. -/
def checkedReconcile (file : RegisterFile) (t : Template) (sampleRate : Float32) (fresh : Bool) :
    Checked RegisterFile := do
  let persisted ← file.checkedPersisted t
  let values ← file.checkedValues t fresh
  return { file.reconcile t sampleRate fresh with values, persisted }

/-- The checks of the persistence flags pass, and the flags are those of the template or of the
file. -/
theorem checked_persisted_eq (file : RegisterFile) (t : Template) :
    file.checkedPersisted t =
      .ok (if file.layoutDiffers t then t.persisted else file.persisted) := by
  cases hlayout : file.layoutDiffers t with
  | false => simp [checkedPersisted, hlayout]
  | true =>
      simp only [checkedPersisted, sizedFor, hlayout, if_true]
      exact copy_slice_ok (by simp [resizeTo, Template.persisted, Template.size])

/-- The checks of the values pass, and the values are those of reconciling unchecked. -/
theorem checked_values_eq (file : RegisterFile) (t : Template) (fresh : Bool) :
    file.checkedValues t fresh = .ok (file.reconciledValues t fresh) := by
  have hsize : (file.sizedFor t).values.size = t.values.size := by
    cases hlayout : file.layoutDiffers t with
    | true => simp [sizedFor, hlayout, resizeTo, Template.values, Template.size]
    | false =>
        have hsame := (layout_differs_eq_false hlayout).2.2
        simpa [sizedFor, hlayout, Template.values, Template.size] using hsame
  cases hreset : file.layoutDiffers t || fresh with
  | false => simp [checkedValues, hreset]
  | true =>
      simp only [checkedValues, reconciledValues, hreset, if_true]
      exact copy_slice_ok hsize

/-- Slices that are copied have one length, for every file and every template. -/
theorem checked_reconcile_eq (file : RegisterFile) (t : Template) (sampleRate : Float32)
    (fresh : Bool) :
    file.checkedReconcile t sampleRate fresh = .ok (file.reconcile t sampleRate fresh) := by
  rw [checkedReconcile, checked_persisted_eq, checked_values_eq, reconcile_eq]
  rfl

end RegisterFile

/-! ## Scripts -/

namespace Script

variable {α : Type}

/-- Plays a script with every condition checked, and lists the parameters that are read. -/
def watch : Script α → RegisterFile → Checked (α × List ParamReading × RegisterFile)
  | done result, file => .ok (result, [], file)
  | param p next, file => do
    let value ← ofPlaying (file.read p.1.register)
    let (result, readings, file) ← (next value).watch file
    return (result, ⟨p.1, p.2, value⟩ :: readings, file)
  | read register next, file => do
    let value ← ofPlaying (file.read register)
    (next value).watch file
  | write register value next, file => do
    let file ← ofPlaying (file.write register value)
    next.watch file
  | noise next, file => (next file.drawNoise.1).watch file.drawNoise.2
  | tick buffer input cursor length next, file => do
    let (ticked, file) ← file.checkedTick buffer input cursor length
    (next ticked).watch file

/-- A script that passes the checks is played as without them. -/
theorem play_of_watch {script : Script α} {file after : RegisterFile} {result : α}
    {readings : List ParamReading} (h : script.watch file = .ok (result, readings, after)) :
    script.play file = .ok (result, after) := by
  induction script generalizing file readings with
  | done value =>
      cases h
      rfl
  | param p next ih =>
      obtain ⟨value, hread, h⟩ := bind_eq_ok.1 h
      obtain ⟨⟨last, rest, final⟩, hrest, h⟩ := bind_eq_ok.1 h
      cases h
      have hplay : Play.param p.1 file = .ok (value, file) := by
        rw [Play.param, Play.read, of_playing_eq_ok.1 hread]
      rw [play, Play.bind_ok hplay, ih value hrest]
  | read register next ih =>
      obtain ⟨value, hread, h⟩ := bind_eq_ok.1 h
      have hplay : Play.read register file = .ok (value, file) := by
        rw [Play.read, of_playing_eq_ok.1 hread]
      rw [play, Play.bind_ok hplay, ih value h]
  | write register value next ih =>
      obtain ⟨written, hwrite, h⟩ := bind_eq_ok.1 h
      have hplay : Play.write register value file = .ok ((), written) := by
        rw [Play.write, of_playing_eq_ok.1 hwrite]
      rw [play, Play.bind_ok hplay, ih h]
  | noise next ih =>
      have hplay : Play.noise file = .ok (file.drawNoise.1, file.drawNoise.2) := rfl
      rw [play, Play.bind_ok hplay]
      exact ih _ h
  | tick buffer input cursor length next ih =>
      obtain ⟨⟨ticked, played⟩, htick, h⟩ := bind_eq_ok.1 h
      have hplay : Play.tickBuffer buffer input cursor length file = .ok (ticked, played) :=
        RegisterFile.tick_of_checked htick
      rw [play, Play.bind_ok hplay, ih ticked h]

end Script

/-! ## Samples -/

namespace Rack

/-- The nodes that are played, as a slice that ends at a checked position. -/
def checkedNodes (rack : Rack) : Checked (List Node) :=
  if rack.nodes.isEmpty then return []
  else do
    let last := min (rack.cursor.getD (rack.nodes.length - 1)) (rack.nodes.length - 1)
    let _ ← lookUp rack.nodes.toArray last
    return rack.nodes.take (last + 1)

/-- The last node that is played is one of the rack's. -/
theorem checked_nodes_eq (rack : Rack) : rack.checkedNodes = .ok rack.playedNodes := by
  by_cases hempty : rack.nodes = []
  · cases hcursor : rack.cursor <;> simp [checkedNodes, playedNodes, hempty, hcursor] <;> rfl
  · have hpositive : 0 < rack.nodes.length := List.length_pos_iff.2 hempty
    have hlast : min (rack.cursor.getD (rack.nodes.length - 1)) (rack.nodes.length - 1) <
        rack.nodes.toArray.size := by
      rw [List.size_toArray]
      omega
    have hplayed : rack.nodes.take
        (min (rack.cursor.getD (rack.nodes.length - 1)) (rack.nodes.length - 1) + 1) =
          rack.playedNodes := by
      cases hcursor : rack.cursor with
      | none =>
          simp only [playedNodes, hcursor]
          refine List.take_of_length_le ?_
          rw [Option.getD_none]
          omega
      | some cursor =>
          simp only [playedNodes, hcursor, Option.getD_some]
          rw [List.take_eq_take_iff]
          omega
    simp only [checkedNodes, List.isEmpty_iff, hempty, if_false,
      look_up_eq_ok.2 (Array.getElem?_eq_getElem hlast), ok_bind, hplayed]
    rfl

/-- Plays one sample with every condition checked, and lists the parameters that are read. -/
def watch (rack : Rack) (call : Call) (file : RegisterFile) :
    Checked (Float32 × List ParamReading × RegisterFile) := do
  unless rack.isCompiled do throw (.fault .notCompiled)
  let file ← file.checkedReconcile rack.template call.sampleRate call.fresh
  let played ← rack.checkedNodes
  (Script.sample call played).watch file

/-- Watching a sample is watching its script on the reconciled file. -/
theorem watch_eq {rack : Rack} (hcompiled : rack.isCompiled = true) (call : Call)
    (file : RegisterFile) :
    rack.watch call file = (Script.sample call rack.playedNodes).watch
      (file.reconcile rack.template call.sampleRate call.fresh) := by
  rw [watch, hcompiled, RegisterFile.checked_reconcile_eq, checked_nodes_eq]
  rfl

/-- A sample that passes the checks is played as without them. -/
theorem step_of_watch {rack : Rack} {call : Call} {file after : RegisterFile} {sample : Float32}
    {readings : List ParamReading} (h : rack.watch call file = .ok (sample, readings, after)) :
    rack.step call file = .ok (sample, after) := by
  cases hcompiled : rack.isCompiled with
  | false =>
      rw [watch, hcompiled] at h
      cases h
  | true =>
      rw [watch_eq hcompiled] at h
      have hplay := Script.play_of_watch h
      rw [Script.play_sample] at hplay
      exact (step_eq hcompiled).trans hplay

end Rack

end SynthRack
