import Mathlib
import SynthRack.Proofs.Document.Stored
import SynthRack.Proofs.Rack.Recompile
import SynthRack.Proofs.Rack.References

/-!
# Writing a rack and reading it again

A compiled rack has only IDs below its number of nodes, so with at most `2 ^ 32` nodes its text is
read (`decode_compiled`). With finite constants it is read as the same rack with its registers
forgotten, and compiling that finds every register again: `decode_serialize`.
-/

namespace SynthRack

/-! ## Finite constants -/

/-- A binding to a finite constant, or to no constant. -/
def Binding.Finite (b : Binding) : Prop := ∀ value, b = .constant value → value.isFinite = true

/-- All constants in the rack are finite. -/
def Rack.Finite (rack : Rack) : Prop :=
  ∀ node ∈ rack.nodes, ∀ param ∈ node.effect.params, param.binding.Finite

namespace Binding

instance (b : Binding) : Decidable b.Finite :=
  match b with
  | .constant value => decidable_of_iff (value.isFinite = true)
      ⟨fun h _ hvalue => Binding.constant.inj hvalue ▸ h, fun h => h value rfl⟩
  | .unset | .builtin _ | .node _ => isTrue fun _ hvalue => nomatch hvalue

variable {b : Binding} {default : Float32}

/-- A finite number is a finite constant. -/
theorem finite_constant (h : default.isFinite = true) : (constant default).Finite := by
  intro value hvalue
  obtain rfl := Binding.constant.inj hvalue
  exact h

/-- A reference to a node is no constant, and so no infinite one. -/
theorem finite_node (id : Nat) : (node id).Finite := by
  intro value hvalue
  cases hvalue

/-- Resolving a reference to nothing leaves a finite default in its place. -/
theorem Finite.resolved (h : b.Finite) (hdefault : default.isFinite = true)
    (positions : Array Nat) : (b.resolved positions default).Finite := by
  cases b with
  | node id =>
      show (if id < positions.size then node id else constant default).Finite
      by_cases hid : id < positions.size
      · rw [if_pos hid]
        exact h
      · rw [if_neg hid]
        exact finite_constant hdefault
  | _ => exact h

/-- Renumbering references brings no infinite constants. -/
theorem Finite.renumber (h : b.Finite) (hdefault : default.isFinite = true)
    (survivors : List Node) : (SynthRack.renumber survivors b default).Finite := by
  cases b with
  | node id =>
      simp only [SynthRack.renumber]
      cases newId? survivors id with
      | none => exact finite_constant hdefault
      | some new => exact finite_node new
  | _ => exact h

/-- A binding with no infinite constant is read as it was written. -/
theorem Finite.stored (h : b.Finite) : b.stored = b := by
  cases b with
  | constant value => exact if_pos (h value rfl)
  | _ => rfl

end Binding

/-- Every default is finite. -/
theorem Effect.defaults_finite {P : Type} (e : Effect P) :
    ∀ p ∈ e.withDefaults.params, p.2.isFinite = true := by
  have hdefaults : ∀ default ∈ ([0, 1, 440, 0.02, 0.1, 0.2] : List Float32),
      default.isFinite = true := by decide
  simp only [List.forall_mem_cons] at hdefaults
  cases e with
  | maths m =>
      intro p hp
      obtain ⟨term, hterm, hp⟩ := List.mem_flatten.1 hp
      obtain ⟨original, -, rfl⟩ := List.mem_map.1 hterm
      obtain ⟨coefficient, -, rfl⟩ := List.mem_map.1 hp
      simp [hdefaults]
  | switch s =>
      intro p hp
      rcases List.mem_append.1 hp with hp | hp
      · obtain ⟨condition, hcondition, hp⟩ := List.mem_flatMap.1 hp
        obtain ⟨original, -, rfl⟩ := List.mem_map.1 hcondition
        rw [Condition.params_map] at hp
        obtain ⟨operand, -, rfl⟩ := List.mem_map.1 hp
        simp [hdefaults]
      · obtain rfl := List.mem_singleton.1 hp
        simp [hdefaults]
  | _ => simp [withDefaults, params, hdefaults]

/-- A property of the left elements that the relation carries over holds of the right ones. -/
theorem forall_mem_right {α β : Type} {r : α → β → Prop} {p : α → Prop} {q : β → Prop}
    {as : List α} {bs : List β} (h : List.Forall₂ r as bs) (hp : ∀ a ∈ as, p a)
    (hcarry : ∀ a b, p a → r a b → q b) : ∀ b ∈ bs, q b := by
  induction h with
  | nil => simp
  | @cons a b as bs hhead _ ih =>
      simp only [List.forall_mem_cons] at hp ⊢
      exact ⟨hcarry a b hp.1 hhead, ih hp.2⟩

namespace Rack

instance (rack : Rack) : Decidable rack.Finite :=
  inferInstanceAs (Decidable (∀ node ∈ rack.nodes, ∀ param ∈ node.effect.params,
    param.binding.Finite))

variable {rack : Rack}

/-- The parameters of an effect with finite constants are finite next to their defaults. -/
theorem finite_with_defaults {e : Effect Param} (h : ∀ param ∈ e.params, param.binding.Finite) :
    ∀ p ∈ e.withDefaults.params, p.1.binding.Finite ∧ p.2.isFinite = true := by
  intro p hp
  exact ⟨h p.1 (Effect.mem_params_iff.2 ⟨p.2, hp⟩), e.defaults_finite p hp⟩

/-- Settling the IDs and references of a rack brings no infinite constants. -/
theorem Finite.settle (h : rack.Finite) : rack.settle.Finite := by
  have hstaying : ∀ before ∈ rack.staying, before.1 ∈ rack.nodes := by
    intro before hbefore
    exact (List.of_mem_zip (List.mem_filter.1 hbefore).1).1
  refine forall_mem_right (nodes_settled rack) hstaying ?_
  intro before after hbefore hsettled param hparam
  rw [hsettled.effect, Effect.params_map] at hparam
  obtain ⟨p, hp, rfl⟩ := List.mem_map.1 hparam
  obtain ⟨hfinite, hdefault⟩ := finite_with_defaults (h before.1 hbefore) p hp
  show (rack.settledBinding p.1.binding p.2).Finite
  unfold settledBinding
  split
  · exact hfinite.renumber hdefault _
  · exact hfinite

/-- Compilation only adds constants that are finite. -/
theorem Finite.compile (h : rack.Finite) (version : Nat) : (rack.compile version).Finite := by
  intro node hnode
  obtain ⟨position, hposition⟩ := List.mem_iff_getElem?.1 hnode
  obtain ⟨before, hbefore, hplaced⟩ := placed_of_position hposition
  have hfinite := h.settle before (List.mem_of_getElem? hbefore)
  refine forall_mem_right hplaced.params (finite_with_defaults hfinite) ?_
  intro p after hp hparam
  rw [hparam.binding]
  exact hp.1.resolved hp.2 _

/-- What is read of a rack with finite constants is the rack with its registers forgotten. -/
theorem Finite.stored (h : rack.Finite) : rack.stored = rack.uncompiled := by
  have hnodes : rack.nodes.map Node.stored = rack.nodes.map Node.uncompiled := by
    refine List.map_congr_left ?_
    intro node hnode
    unfold Node.stored Node.uncompiled
    rw [Effect.map_congr fun param hparam => by rw [(h node hnode param hparam).stored]]
  unfold Rack.stored Rack.uncompiled
  rw [hnodes]

/-! ## IDs -/

/-- A compiled rack has no IDs beyond its number of nodes. -/
theorem LaidOut.fits (h : rack.LaidOut) (hcount : rack.nodes.length ≤ UInt32.size) :
    ∀ node ∈ rack.nodes, node.Fits := by
  intro node hnode
  refine ⟨?_, ?_⟩
  · intro id hid
    have hmem : some id ∈ rack.nodes.map (·.id) := List.mem_map.2 ⟨node, hnode, hid⟩
    have hlt := (h.dense.mem_iff id).1 hmem
    rw [List.length_map] at hlt
    omega
  · intro param hparam
    rw [← Effect.map_fst_params_with_defaults] at hparam
    obtain ⟨p, hp, rfl⟩ := List.mem_map.1 hparam
    have hbinding := (h.param_placed hnode hp).binding
    -- A reference that survived placement names an ID within the table of positions.
    cases hid : p.1.binding with
    | node id =>
        rw [hid] at hbinding
        have hlt : id < rack.positions.size := by
          by_contra hge
          have hresolved : (Binding.node id).resolved rack.positions p.2 = .constant p.2 := if_neg hge
          rw [hresolved] at hbinding
          cases hbinding
        have hsize : rack.positions.size = rack.nodes.length := by
          rw [h.positions]
          simp [positionTable]
        show id < UInt32.size
        omega
    | _ => trivial

/-- The text of a compiled rack is read, up to constants that are not finite. -/
theorem decode_compiled (rack : Rack) (version : Nat)
    (hcount : (rack.compile version).nodes.length ≤ UInt32.size) :
    decode (rack.serialize version).1 = .ok (rack.compile version).stored :=
  decode_print ((laid_out_compile rack version).fits hcount)

/-- With finite constants, what is read of a written rack is the rack as compilation left it, with
its registers forgotten; compiling it finds every register, every position and the template
again. IDs have 32 bits, which is what bounds the number of nodes. -/
theorem decode_serialize (rack : Rack) (version : Nat) (hfinite : rack.Finite)
    (hcount : (rack.compile version).nodes.length ≤ UInt32.size) :
    decode (rack.serialize version).1 = .ok (rack.serialize version).2.uncompiled ∧
      ∀ later, (rack.serialize version).2.uncompiled.compile later =
        { (rack.serialize version).2 with
          template := { (rack.serialize version).2.template with version := later }
          cursor := none } := by
  have hdecoded := decode_compiled rack version hcount
  rw [(hfinite.compile version).stored] at hdecoded
  exact ⟨hdecoded, compile_uncompiled rack version⟩

/-- A new node of every kind, and one that listens to the first two. -/
def oneOfEach : Rack :=
  (EffectType.all.foldl (fun rack type => rack.push (.new type)) empty).push
    (.maths ⟨[[.node 0, .constant 0.1], [.node 1, .builtin .signal, .unset]]⟩)

/-- A rack with a node of each kind, and one that listens to two of them, is read as it was
written. -/
theorem decode_serialize_one_of_each :
    decode (oneOfEach.serialize 1).1 = .ok (oneOfEach.serialize 1).2.uncompiled ∧
      (oneOfEach.serialize 1).2.nodes.length = 8 :=
  ⟨(decode_serialize oneOfEach 1 (by decide +kernel) (by decide +kernel)).1, by decide +kernel⟩

end Rack

end SynthRack
