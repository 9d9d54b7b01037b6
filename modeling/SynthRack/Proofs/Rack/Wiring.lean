import Mathlib
import SynthRack.Proofs.Rack.References

/-!
# Where the parameters of a rack get their numbers from

`Rack.wiring` gives the source of each parameter of a node by position: it forgets IDs and
registers. `wiring_compile` says what the wiring of a compiled rack is, in terms of the nodes that
stay and the IDs that assignment gives them: references lead to the nodes that have these IDs, and
to the default of the parameter where no node has them.
-/

namespace SynthRack

/-- Where a parameter gets its number from. -/
inductive Source where
  | constant (value : Float32)
  | input (input : Builtin)
  /-- The output of the node at this position. -/
  | node (position : Nat)
  deriving DecidableEq

/-- The source that a binding chooses among nodes with these IDs. -/
def Binding.sourceAmong (ids : List (Option Nat)) (default : Float32) : Binding → Source
  | .unset => .constant default
  | .constant number => .constant number
  | .builtin input => .input input
  | .node id =>
    match ids.findIdx? (· == some id) with
    | some position => .node position
    | none => .constant default

/-- An effect with the source of each of its parameters among nodes with these IDs. -/
def Effect.wired (ids : List (Option Nat)) (effect : Effect Param) : Effect Source :=
  effect.withDefaults.map fun (param, default) => param.binding.sourceAmong ids default

namespace Rack

/-- The source that a binding chooses; what chooses none has its default. -/
def source (rack : Rack) (default : Float32) : Binding → Source
  | .unset => .constant default
  | .constant number => .constant number
  | .builtin input => .input input
  | .node id =>
    match rack.nodes.findIdx? (·.id == some id) with
    | some position => .node position
    | none => .constant default

/-- An effect with the source of each of its parameters. -/
def wiring (rack : Rack) (node : Node) : Effect Source :=
  node.effect.withDefaults.map fun (param, default) => rack.source default param.binding

/-- The wiring of a node has its kind. -/
theorem type_wiring (rack : Rack) (node : Node) : (rack.wiring node).type = node.effect.type := by
  rw [wiring, Effect.type_map, Effect.type_with_defaults]

variable {rack : Rack}

/-- The source of a binding depends on the IDs of the rack alone. -/
theorem source_eq (rack : Rack) (default : Float32) (binding : Binding) :
    rack.source default binding = binding.sourceAmong (rack.nodes.map (·.id)) default := by
  cases binding with
  | node id =>
      rw [source, Binding.sourceAmong, List.findIdx?_map]
      rfl
  | _ => rfl

/-- The wiring of a node depends on the IDs of the rack alone. -/
theorem wiring_eq (rack : Rack) (node : Node) :
    rack.wiring node = node.effect.wired (rack.nodes.map (·.id)) :=
  Effect.map_congr fun p _ => rack.source_eq p.2 p.1.binding

/-- What a parameter of a compiled rack reads is what it referred to among the nodes that stay. -/
theorem source_of_follows {version : Nat} {before : Param × Float32} {after : Param}
    (h : ParamFollows rack (rack.compile version) before after) :
    (rack.compile version).source before.2 after.binding =
      before.1.binding.sourceAmong (rack.staying.map Prod.snd) before.2 := by
  cases hbinding : before.1.binding with
  | node old =>
      cases hfind : (rack.staying.map Prod.snd).findIdx? (· == some old) with
      | some place =>
          obtain ⟨hlt, hold, -⟩ := List.findIdx?_eq_some_iff_getElem.1 hfind
          rw [List.length_map] at hlt
          have hstays : rack.staying[place]? = some (rack.staying[place].1, some old) := by
            rw [List.getElem_map] at hold
            rw [List.getElem?_eq_getElem hlt, ← eq_of_beq hold]
          obtain ⟨target, new, register, htarget, hid, -, rfl⟩ :=
            h.followed old place _ hbinding hstays
          have hlaid := laid_out_compile rack version
          have hposition := hlaid.id_of_position.2 ⟨target, htarget, hid⟩
          rw [source, Binding.sourceAmong, hlaid.find_id hposition, hfind]
      | none =>
          have hgone : ∀ node, (node, some old) ∉ rack.staying := by
            intro node hmem
            have hne := List.findIdx?_eq_none_iff.1 hfind (some old) (List.mem_map.2 ⟨_, hmem, rfl⟩)
            simp at hne
          obtain ⟨register, rfl, -⟩ := h.demoted old hbinding hgone
          rw [source, Binding.sourceAmong, hfind]
  | _ =>
      rw [h.kept (by simp [hbinding]), hbinding]
      rfl

/-- Lists that are related entry by entry have images that agree. -/
theorem map_zip_defaults {P Q R : Type} {relation : P × Float32 → Q → Prop} {f : Q → Float32 → R}
    {g : P × Float32 → R} {befores : List (P × Float32)} {afters : List Q}
    (h : List.Forall₂ relation befores afters)
    (hsame : ∀ before after, relation before after → f after before.2 = g before) :
    (afters.zip (befores.map Prod.snd)).map (fun p => f p.1 p.2) = befores.map g := by
  induction h with
  | nil => rfl
  | cons hhead _ ih =>
      rw [List.map_cons, List.zip_cons_cons, List.map_cons, List.map_cons, ih, hsame _ _ hhead]

/-- The wiring of a node of a compiled rack. -/
theorem wiring_of_follows {version : Nat} {before : Node × Option Nat} {after : Node}
    (h : NodeFollows rack (rack.compile version) before after) :
    (rack.compile version).wiring after =
      before.1.effect.wired (rack.staying.map Prod.snd) := by
  have hdefaults : after.effect.withDefaults.params =
      after.effect.params.zip (before.1.effect.withDefaults.params.map Prod.snd) := by
    rw [← Effect.defaults_of_form h.form]
    conv_rhs => rw [← Effect.map_fst_params_with_defaults after.effect]
    rw [List.zip_map', List.map_id']
  refine Effect.ext_form ?_ ?_
  · rw [wiring, Effect.wired, Effect.form_map, Effect.form_map, Effect.form_with_defaults,
      Effect.form_with_defaults, h.form]
  · rw [wiring, Effect.wired, Effect.params_map, Effect.params_map, hdefaults]
    exact map_zip_defaults (f := fun after default => (rack.compile version).source default
      after.binding) h.params fun _ _ => source_of_follows

/-- A compiled rack is wired as its nodes were before, by the IDs that assignment gave them. -/
theorem wiring_compile (rack : Rack) (version : Nat) :
    (rack.compile version).nodes.map (rack.compile version).wiring =
      rack.staying.map fun before => before.1.effect.wired (rack.staying.map Prod.snd) := by
  have hlength : (rack.compile version).nodes.length = rack.staying.length := by
    rw [length_compile, (nodes_settled rack).length_eq]
  refine List.ext_getElem (by simpa using hlength) ?_
  intro place hafter hbefore
  rw [List.length_map] at hafter hbefore
  rw [List.getElem_map, List.getElem_map]
  exact wiring_of_follows (node_follows_at (List.getElem?_eq_getElem hbefore)
    (List.getElem?_eq_getElem hafter))

end Rack

end SynthRack
