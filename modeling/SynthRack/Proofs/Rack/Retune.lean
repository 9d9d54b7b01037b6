import Mathlib
import SynthRack.Play.Step
import SynthRack.Proofs.Rack.HotEdit

/-!
# Edits that only replace constants

`Rack.Retuned` says that constants of a rack were replaced by others and everything else stayed, the
duration of the delay at one position included. Of a compiled rack this is a hot edit
(`Retuned.hot_edit`), and when it is compiled the delay is still played for the same duration
(`Retuned.plays_delay`). Any number of such edits, each compiled as a later version, is one hot edit
again: `retunes_carried`.
-/

namespace SynthRack

/-- A constant was replaced by another, or the binding was left as it is. -/
inductive Binding.Retuned : Binding → Binding → Prop where
  | same (binding : Binding) : Retuned binding binding
  | constant (old new : Float32) : Retuned (.constant old) (.constant new)

/-- Constants of a node were replaced by others, and nothing else changed. -/
structure Node.Retuned (old new : Node) : Prop where
  id : new.id = old.id
  toDelete : new.toDelete = old.toDelete
  enabled : new.enabled = old.enabled
  /-- The effect is the same but for its parameters. -/
  form : new.effect.form = old.effect.form
  bindings : List.Forall₂ Binding.Retuned old.bindings new.bindings

namespace Binding.Retuned

variable {old new : Binding}

/-- Retuning leaves it to a binding whether it owns a register. -/
theorem owns_register (h : Retuned old new) : new.ownsRegister = old.ownsRegister := by
  cases h <;> rfl

/-- Retuning leaves references alone. -/
theorem reference (h : Retuned old new) : new.reference? = old.reference? := by
  cases h <;> rfl

end Binding.Retuned

instance : DecidableRel Binding.Retuned
  | .constant old, .constant new => .isTrue (.constant old new)
  | .constant old, .unset => .isFalse nofun
  | .constant old, .builtin _ => .isFalse nofun
  | .constant old, .node _ => .isFalse nofun
  | .unset, new => decidable_of_iff (new = .unset) ⟨fun h => h ▸ .same _, fun h => by cases h; rfl⟩
  | .builtin input, new =>
    decidable_of_iff (new = .builtin input) ⟨fun h => h ▸ .same _, fun h => by cases h; rfl⟩
  | .node id, new =>
    decidable_of_iff (new = .node id) ⟨fun h => h ▸ .same _, fun h => by cases h; rfl⟩

/-- A retuned node differs in the constants of its parameters alone. -/
theorem Node.retuned_iff {old new : Node} :
    old.Retuned new ↔ new.id = old.id ∧ new.toDelete = old.toDelete ∧ new.enabled = old.enabled ∧
      new.effect.form = old.effect.form ∧
      List.Forall₂ Binding.Retuned old.bindings new.bindings :=
  ⟨fun h => ⟨h.id, h.toDelete, h.enabled, h.form, h.bindings⟩,
    fun ⟨hid, hdelete, henabled, hform, hbindings⟩ => ⟨hid, hdelete, henabled, hform, hbindings⟩⟩

instance : DecidableRel Node.Retuned := fun _ _ => decidable_of_iff _ Node.retuned_iff.symm

/-- A retuned node refers to the same IDs. -/
theorem Node.Retuned.references {old new : Node} (h : Retuned old new) :
    new.bindings.filterMap (·.reference?) = old.bindings.filterMap (·.reference?) := by
  have hbindings := h.bindings
  generalize old.bindings = before at hbindings ⊢
  generalize new.bindings = after at hbindings ⊢
  induction hbindings with
  | nil => rfl
  | cons hbinding _ ih => rw [List.filterMap_cons, List.filterMap_cons, hbinding.reference, ih]

/-- What the duration of a delay is bound to. -/
def Effect.duration? : Effect Param → Option Binding
  | .delay d => some d.seconds.binding
  | _ => none

/-- Only a delay has a duration, the binding of its seconds. -/
theorem Effect.duration_eq_some {effect : Effect Param} {binding : Binding} :
    effect.duration? = some binding ↔ ∃ d, effect = .delay d ∧ d.seconds.binding = binding := by
  cases effect <;> simp [duration?]

/-- The kind of a node and its bindings tell its duration. -/
theorem Node.duration_of_bindings {x y : Node} (htype : x.effect.type = y.effect.type)
    (hbindings : x.bindings = y.bindings) : x.effect.duration? = y.effect.duration? := by
  obtain ⟨_, _, _, _, effect⟩ := x
  obtain ⟨_, _, _, _, other⟩ := y
  cases effect <;> cases other <;>
    simp_all [Effect.type, Effect.duration?, Node.bindings, Effect.params]

namespace Rack

variable {a b rack : Rack} {position : Nat} {seconds : Float32}

/-- What the duration of the delay at a position is bound to. -/
def durationAt? (rack : Rack) (position : Nat) : Option Binding :=
  rack.nodes[position]?.bind (·.effect.duration?)

/-- Constants of parameters were replaced by others, except for the duration of the delay at a
position, and nothing else changed. -/
structure Retuned (position : Nat) (old edited : Rack) : Prop where
  nodes : List.Forall₂ Node.Retuned old.nodes edited.nodes
  cursor : edited.cursor = old.cursor
  duration : edited.durationAt? position = old.durationAt? position

/-- The node at a position is an enabled delay, not past the cursor, and its duration is a constant or
bound to nothing. -/
def PlaysDelay (rack : Rack) (position : Nat) (seconds : Float32) : Prop :=
  ∃ node d, rack.playedNodes[position]? = some node ∧ node.enabled = true ∧
    node.effect = .delay d ∧
    (d.seconds.binding = .constant seconds ∨ d.seconds.binding = .unset ∧ seconds = 0.1)

/-- Whether only constants were replaced can be checked. -/
theorem retuned_iff {old edited : Rack} :
    old.Retuned position edited ↔ List.Forall₂ Node.Retuned old.nodes edited.nodes ∧
      edited.cursor = old.cursor ∧ edited.durationAt? position = old.durationAt? position :=
  ⟨fun h => ⟨h.nodes, h.cursor, h.duration⟩,
    fun ⟨hnodes, hcursor, hduration⟩ => ⟨hnodes, hcursor, hduration⟩⟩

instance (position : Nat) : DecidableRel (Retuned position) :=
  fun _ _ => decidable_of_iff _ retuned_iff.symm

/-- So can be whether a delay is played for a duration. -/
theorem plays_delay_iff :
    rack.PlaysDelay position seconds ↔ ∃ node ∈ rack.playedNodes[position]?, node.enabled = true ∧
      ∃ binding ∈ node.effect.duration?,
        binding = .constant seconds ∨ binding = .unset ∧ seconds = 0.1 := by
  constructor
  · rintro ⟨node, d, hplayed, henabled, heffect, hseconds⟩
    exact ⟨node, hplayed, henabled, _, Effect.duration_eq_some.2 ⟨d, heffect, rfl⟩, hseconds⟩
  · rintro ⟨node, hplayed, henabled, binding, hbinding, hseconds⟩
    obtain ⟨d, heffect, rfl⟩ := Effect.duration_eq_some.1 hbinding
    exact ⟨node, d, hplayed, henabled, heffect, hseconds⟩

instance (rack : Rack) (position : Nat) (seconds : Float32) :
    Decidable (rack.PlaysDelay position seconds) := decidable_of_iff _ plays_delay_iff.symm

/-- The buffer of such a delay has the duration that the delay asks for, within the range of
buffers. -/
theorem buffer_need_of_seconds {node : Node} {d : Delay Param} (heffect : node.effect = .delay d)
    (hseconds : d.seconds.binding = .constant seconds ∨ d.seconds.binding = .unset ∧ seconds = 0.1) :
    node.effect.bufferNeed? = some (bufferedSeconds seconds) := by
  rw [heffect]
  rcases hseconds with hconstant | ⟨hunset, rfl⟩
  · simp only [Effect.bufferNeed?, hconstant, requestedSeconds]
  · simp only [Effect.bufferNeed?, hunset, requestedSeconds]

/-! ## Played nodes -/

/-- A node is played if it is in the rack and not past the cursor. -/
theorem played_iff {node : Node} :
    rack.playedNodes[position]? = some node ↔
      rack.nodes[position]? = some node ∧ ∀ cursor ∈ rack.cursor, position ≤ cursor := by
  cases hcursor : rack.cursor with
  | none => simp [playedNodes, hcursor]
  | some cursor =>
      simp only [playedNodes, hcursor, List.getElem?_take, Option.mem_some_iff, forall_eq']
      split <;> simp <;> omega

/-- Compilation drops a cursor or leaves it where it is. -/
theorem cursor_of_compile {version cursor : Nat} (h : cursor ∈ (rack.compile version).cursor) :
    cursor ∈ rack.cursor := by
  have hsettled : rack.settle.cursor = rack.cursor := by
    rw [settle]
    split <;> rfl
  rw [← hsettled]
  exact (Option.mem_filter_iff.1 h).1

/-! ## Retuning -/

/-- The references of a compiled rack lead to its nodes. -/
theorem LaidOut.reference_leads (h : rack.LaidOut) {id : Nat} (hid : id ∈ rack.references) :
    some id ∈ rack.nodes.map (·.id) := by
  obtain ⟨node, hnode, hid⟩ := List.mem_flatMap.1 hid
  obtain ⟨binding, hbinding, hid⟩ := List.mem_filterMap.1 hid
  obtain ⟨param, hparam, rfl⟩ := List.mem_map.1 hbinding
  obtain ⟨default, hp⟩ := Effect.mem_params_iff.1 hparam
  have hresolved := (h.param_placed hnode hp).binding
  have hsize : rack.positions.size = (rack.nodes.map (·.id)).length := by
    rw [h.positions, positionTable, Array.size_map, Array.size_range]
  refine (h.dense.mem_iff id).2 (hsize ▸ ?_)
  by_contra hout
  cases hbinding : param.binding with
  | node other =>
      rw [hbinding] at hid
      obtain rfl : other = id := Option.some.inj hid
      simp [hbinding, Binding.resolved, hout] at hresolved
  | _ => rw [hbinding] at hid; cases hid

namespace Retuned

/-- Other constants keep the layout. -/
theorem hot_edit (ha : a.LaidOut) (h : Retuned position a b) : a.HotEdit b where
  ids := (map_eq_of_forall₂ (h.nodes.imp fun _ _ hnode => hnode.id.symm)).symm
  kept node hnode := by
    have hflags : a.nodes.map (·.toDelete) = b.nodes.map (·.toDelete) :=
      map_eq_of_forall₂ (h.nodes.imp fun _ _ hnode => hnode.toDelete.symm)
    have hflag : node.toDelete ∈ a.nodes.map (·.toDelete) := hflags ▸ List.mem_map_of_mem hnode
    obtain ⟨other, hother, heq⟩ := List.mem_map.1 hflag
    exact heq.symm.trans (ha.kept other hother)
  types := by
    refine (map_eq_of_forall₂ (h.nodes.imp fun _ _ hnode => ?_)).symm
    rw [← Effect.type_form, ← hnode.form, Effect.type_form]
  ownership := by
    refine (map_eq_of_forall₂ (h.nodes.imp fun _ _ hnode => ?_)).symm
    exact map_eq_of_forall₂ (hnode.bindings.imp fun _ _ hbinding => hbinding.owns_register.symm)
  references id hid := by
    have hreferences : a.references = b.references := by
      rw [references, references, List.flatMap_def, List.flatMap_def]
      exact congrArg _ (map_eq_of_forall₂ (h.nodes.imp fun _ _ hnode => hnode.references.symm))
    exact ha.reference_leads (hreferences ▸ hid)

/-- A delay is played for the same duration after other constants are replaced and compiled. -/
theorem plays_delay (ha : a.LaidOut) (h : Retuned position a b)
    (hplays : a.PlaysDelay position seconds) (version : Nat) : (b.compile version).PlaysDelay position seconds := by
  obtain ⟨node, d, hplayed, henabled, heffect, hseconds⟩ := hplays
  obtain ⟨hnode, hcursor⟩ := played_iff.1 hplayed
  obtain ⟨hlt, rfl⟩ := List.getElem?_eq_some_iff.1 hnode
  have hlt' : position < b.nodes.length := h.nodes.length_eq ▸ hlt
  have hcompiled := (h.hot_edit ha).compiled_nodes ha version
  have hlt'' : position < (b.compile version).nodes.length := hcompiled.length_eq ▸ hlt'
  have hretuned := h.nodes.get hlt hlt'
  obtain ⟨-, htype, hbindings, hswitch⟩ := hcompiled.get hlt' hlt''
  simp only [List.get_eq_getElem] at hretuned htype hbindings hswitch
  have hduration : (b.compile version).nodes[position].effect.duration? = some d.seconds.binding := by
    have hkept := h.duration
    simp only [durationAt?, List.getElem?_eq_getElem hlt, List.getElem?_eq_getElem hlt',
      Option.bind_some, heffect] at hkept
    exact (Node.duration_of_bindings htype hbindings).symm.trans hkept
  obtain ⟨other, hother, hsame⟩ := Effect.duration_eq_some.1 hduration
  refine ⟨_, other, played_iff.2 ⟨List.getElem?_eq_getElem hlt'', fun cursor hmem => ?_⟩,
    hswitch.symm.trans (hretuned.enabled.trans henabled), hother, by rwa [hsame]⟩
  exact hcursor cursor (h.cursor ▸ cursor_of_compile hmem)

end Retuned

/-- One edit of this kind, compiled as a later version. -/
def RetunedTo (position : Nat) (old done : Rack) : Prop :=
  ∃ edited version, old.Retuned position edited ∧ old.template.version < version ∧
    done = edited.compile version

/-- Edits of this kind one after another, none of them or any number. -/
def Retunes (position : Nat) : Rack → Rack → Prop := Relation.ReflTransGen (RetunedTo position)

/-- What is left of a compiled rack that plays a delay, after constants were replaced and compiled. -/
structure Carried (position : Nat) (seconds : Float32) (old done : Rack) : Prop where
  built : done.Built
  compiled : done.isCompiled = true
  plays : done.PlaysDelay position seconds
  /-- Either nothing happened, or the rack was edited in place and compiled later. -/
  later : done = old ∨ old.HotEdit done ∧ old.template.version < done.template.version

/-- Any number of retunings leave a rack that plays the same delay in the same layout. -/
theorem retunes_carried (ha : a.Built) (hcompiled : a.isCompiled = true)
    (hplays : a.PlaysDelay position seconds) (h : Retunes position a b) :
    Carried position seconds a b := by
  induction h with
  | refl => exact ⟨ha, hcompiled, hplays, .inl rfl⟩
  | @tail b c _ hstep ih =>
      obtain ⟨edited, version, hretuned, hversion, rfl⟩ := hstep
      have hlaid := ih.built.toLaidOut
      have hedit := (hretuned.hot_edit hlaid).compile hlaid version
      have hnew : (edited.compile version).template.version = version := rfl
      refine ⟨edited.built_compile version, decide_eq_true (Nat.zero_lt_of_lt hversion),
        hretuned.plays_delay hlaid ih.plays version, .inr ?_⟩
      rcases ih.later with rfl | ⟨hbefore, hlater⟩
      · exact ⟨hedit, hversion⟩
      · exact ⟨hbefore.trans hedit, hlater.trans hversion⟩

end Rack

end SynthRack
