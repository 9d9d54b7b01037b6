import Mathlib
import SynthRack.Document.Write
import SynthRack.Proofs.Json.Survival
import SynthRack.Proofs.Rack.Traversal

/-!
# Reading a written rack

What was written as a binding, a condition, an effect, a node or a rack is read as the same again,
apart from registers, which are not written, and from constants that are not finite: they are
written as null, which chooses nothing. `stored` says so for each of them, and
`Rack.decode_print` for the text of a rack. All IDs have to fit 32 bits.
-/

namespace SynthRack

open Json (Readable)

/-! ## Bindings -/

namespace Binding

/-- The binding that is read where one was written. -/
def stored : Binding → Binding
  | constant value => if value.isFinite then constant value else unset
  | other => other

/-- A reference to an ID of 32 bits, or no reference. -/
def Fits : Binding → Prop
  | node id => id < UInt32.size
  | _ => True

end Binding

/-- A written number is readable at any depth, also one that is infinite. -/
theorem readable_number (x : Float32) (height : Nat) : Readable height (numberJson x) := by
  unfold numberJson
  by_cases hfinite : x.isFinite = true
  · obtain ⟨y, hreads, -⟩ := number_survives hfinite
    rw [if_pos hfinite]
    exact .float hreads
  · rw [if_neg hfinite]
    exact .null

/-- A written number is read as itself, what is not finite as nothing. -/
theorem number_back (x : Float32) :
    Shape.nullable Shape.number (numberJson x).readBack =
      .ok (if x.isFinite then some x else none) := by
  unfold numberJson
  by_cases hfinite : x.isFinite = true
  · obtain ⟨y, hreads, hnarrow⟩ := number_survives hfinite
    rw [if_pos hfinite, if_pos hfinite, Json.readBack, hreads.back]
    show Except.ok (some y.narrow) = _
    rw [hnarrow]
  · rw [if_neg hfinite, if_neg hfinite]
    simp only [Json.readBack]
    rfl

/-- A written natural number of 32 bits is readable at any depth. -/
theorem readable_natural {n : Nat} (h : n < UInt32.size) (height : Nat) :
    Readable height (naturalJson n) :=
  .natural (h.trans (by decide))

/-- A natural number is read back as an integer. -/
@[simp] theorem natural_back (n : Nat) : (naturalJson n).readBack = .integer n := by
  simp [naturalJson, Json.readBack]

/-- An integer within the bounds passes the reader of bounded integers. -/
theorem integer_back {low high : Int} {n : Nat} (expected : String) (hlow : low ≤ n)
    (hhigh : n ≤ high) : Shape.integer low high expected (.integer n) = .ok (n : Int) :=
  if_pos ⟨hlow, hhigh⟩

/-- A natural number of 32 bits is read back as itself. -/
theorem word_back {n : Nat} (h : n < UInt32.size) : Shape.word (.integer n) = .ok n := by
  have hlow : (0 : Int) ≤ n := Int.natCast_nonneg n
  have hhigh : (n : Int) ≤ UInt32.size - 1 := by omega
  unfold Shape.word
  rw [integer_back "u32" hlow hhigh]
  rfl

/-- After a step that succeeds, the next one goes on from its result. -/
theorem ok_bind {ε α β : Type} (a : α) (f : α → Except ε β) : (Except.ok a >>= f) = f a := rfl

/-- A number that names a member of a closed set is read as that member. -/
theorem tagged_back {α : Type} {ofTag? : Nat → Option α} {tag : Nat} {member : α}
    (what : String) (hlt : tag < UInt8.size) (h : ofTag? tag = some member) :
    Shape.tagged what ofTag? (.integer tag) = .ok member := by
  have hlow : (0 : Int) ≤ tag := Int.natCast_nonneg tag
  have hhigh : (tag : Int) ≤ UInt8.size - 1 := by omega
  have hbyte : Shape.byte (.integer tag) = .ok tag := by
    unfold Shape.byte
    rw [integer_back "u8" hlow hhigh]
    rfl
  unfold Shape.tagged
  rw [hbyte, ok_bind]
  simp only [h]

/-- Elements are read one by one. -/
theorem map_m_back {ε α β : Type} {shape : Json → Except ε β} {toJson : α → Json} {view : α → β}
    {as : List α} (h : ∀ a ∈ as, shape (toJson a).readBack = .ok (view a)) :
    ((as.map toJson).map Json.readBack).mapM shape = .ok (as.map view) := by
  induction as with
  | nil => rfl
  | cons a as ih =>
      have hfirst := h a (List.mem_cons_self ..)
      have hrest := ih fun a ha => h a (List.mem_cons_of_mem _ ha)
      simp only [List.map_cons, List.mapM_cons, hfirst, hrest]
      rfl

/-- If every element is read back as its view, so is the list. -/
theorem list_back {α β : Type} {shape : Shape β} {toJson : α → Json} {view : α → β} {as : List α}
    (h : ∀ a ∈ as, shape (toJson a).readBack = .ok (view a)) :
    Shape.list shape (Json.array (as.map toJson)).readBack = .ok (as.map view) := by
  rw [Json.array_back]
  exact map_m_back h

/-- A member is read from what was written under its name. -/
theorem member_back {α : Type} (members : List (String × Json)) (name : String) (shape : Shape α)
    (default : α) : Shape.member (Json.membersBack members) name shape default =
      Shape.optional shape default ((Json.lookup? members.reverse name).map Json.readBack) := by
  unfold Shape.member
  rw [Json.lookup_back]

namespace Binding

/-- A written binding is readable and nests at most one level deep. -/
theorem readable {b : Binding} (h : b.Fits) : Readable 1 b.toJson := by
  cases b with
  | unset => exact .object (by simp)
  | constant value => exact .object (by simpa using readable_number value 0)
  | builtin input =>
      have hlt : input.register < UInt32.size := by cases input <;> decide
      exact .object (by simpa using readable_natural hlt 0)
  | node id => exact .object (by simpa using readable_natural h 0)

/-- A written binding is read as itself, but for a constant that is not finite. -/
theorem shape_back {b : Binding} (h : b.Fits) : shape b.toJson.readBack = .ok b.stored := by
  cases b with
  | unset => rw [toJson, Json.object_back]; rfl
  | constant value =>
      simp only [toJson, Json.object_back, shape, member_back, List.reverse_singleton,
        Json.lookup_cons, Json.lookup_nil]
      by_cases hfinite : value.isFinite = true
      · simp [Shape.optional, number_back, ok_bind, stored, hfinite, ofMembers]
      · simp [Shape.optional, number_back, ok_bind, stored, hfinite, ofMembers]
  | builtin input =>
      have hlt : input.register < UInt8.size := by cases input <;> decide
      have hread : Shape.nullable shape.builtin (.integer input.register) = .ok (some input) := by
        show (Shape.tagged _ _ _).map some = _
        rw [tagged_back _ hlt (Builtin.of_tag_register input)]
        rfl
      simp [toJson, Json.object_back, shape, member_back, Json.lookup_cons, Json.lookup_nil,
        Shape.optional, ok_bind, hread, ofMembers, stored]
  | node id =>
      have hread : Shape.nullable Shape.word (.integer id) = .ok (some id) := by
        show (Shape.word _).map some = _
        rw [word_back h]
        rfl
      simp [toJson, Json.object_back, shape, member_back, Json.lookup_cons, Json.lookup_nil,
        Shape.optional, ok_bind, hread, ofMembers, stored]

end Binding

/-! ## Effects -/

namespace Maths

/-- A written term is readable and nests at most three levels deep. -/
theorem readable_term {term : List Binding} (h : ∀ b ∈ term, b.Fits) :
    Readable 3 (termJson term) := by
  refine .object ?_
  simp only [List.mem_singleton, forall_eq]
  refine .array ?_
  intro value hvalue
  obtain ⟨b, hb, rfl⟩ := List.mem_map.1 hvalue
  exact Binding.readable (h b hb)

/-- A term is read back with each of its bindings as it is stored. -/
theorem term_back {term : List Binding} (h : ∀ b ∈ term, b.Fits) :
    termShape (termJson term).readBack = .ok (term.map Binding.stored) := by
  have hread := list_back fun b hb => Binding.shape_back (h b hb)
  simp [termJson, Json.object_back, termShape, member_back, Json.lookup_cons, Shape.optional, hread]

end Maths

/-- The tag of a comparison is a byte. -/
theorem Comparison.tag_lt (c : Comparison) : c.tag < UInt8.size := by
  cases c <;> decide

namespace Condition

/-- A written condition is readable and nests at most two levels deep. -/
theorem readable {c : Condition Binding} (h : ∀ b ∈ c.params, b.Fits) : Readable 2 c.toJson := by
  simp only [params, List.forall_mem_cons] at h
  have htag : c.operator.tag < UInt32.size := c.operator.tag_lt.trans (by decide)
  refine .object ?_
  simp [h, Binding.readable, readable_natural htag]

/-- A condition is read back with each of its bindings as it is stored. -/
theorem shape_back {c : Condition Binding} (h : ∀ b ∈ c.params, b.Fits) :
    shape c.toJson.readBack = .ok (c.map Binding.stored) := by
  simp only [params, List.forall_mem_cons] at h
  have hoperator : operatorShape (.integer c.operator.tag) = .ok c.operator :=
    tagged_back _ c.operator.tag_lt (Comparison.of_tag_tag c.operator)
  simp [toJson, Json.object_back, shape, member_back, Json.lookup_cons, Shape.optional, h,
    Binding.shape_back, hoperator, ok_bind, map]

end Condition

/-- The tag of a waveform is a byte. -/
theorem Waveform.tag_lt (w : Waveform) : w.tag < UInt8.size := by
  cases w <;> decide

/-- A waveform is read back from its tag. -/
theorem Waveform.shape_back (w : Waveform) : shape (.integer w.tag) = .ok w :=
  tagged_back _ w.tag_lt w.of_tag_tag

/-- The tag of a kind has 32 bits. -/
theorem EffectType.tag_lt (t : EffectType) : t.tag < UInt32.size := by
  cases t <;> decide

namespace Effect

/-- The members that are written of an effect. -/
theorem exists_members (e : Effect Binding) : ∃ members, e.toJson = .object members := by
  cases e <;> exact ⟨_, rfl⟩

/-- A written effect is readable and nests at most five levels deep. -/
theorem readable {e : Effect Binding} (h : ∀ b ∈ e.params, b.Fits) : Readable 5 e.toJson := by
  have htype := readable_natural e.type.tag_lt 4
  have hbinding {b : Binding} (hb : b.Fits) : Readable 4 b.toJson :=
    (Binding.readable hb).mono (by omega)
  cases e with
  | oscillator o =>
      have hwaveform := readable_natural (o.waveform.tag_lt.trans (by decide)) 4
      simp only [params, List.forall_mem_cons] at h
      exact .object (by simp [h, hbinding, htype, hwaveform])
  | maths m =>
      have hterms : Readable 4 (.array (m.terms.map Maths.termJson)) := by
        refine .array ?_
        intro value hvalue
        obtain ⟨term, hterm, rfl⟩ := List.mem_map.1 hvalue
        exact Maths.readable_term fun b hb => h b (List.mem_flatten.2 ⟨term, hterm, hb⟩)
      exact .object (by simp [htype, hterms])
  | switch s =>
      have hconditions : Readable 3 (.array (s.conditions.map Condition.toJson)) := by
        refine .array ?_
        intro value hvalue
        obtain ⟨c, hc, rfl⟩ := List.mem_map.1 hvalue
        exact Condition.readable fun b hb =>
          h b (List.mem_append_left _ (List.mem_flatMap.2 ⟨c, hc, hb⟩))
      have hfallback := hbinding (h s.fallback (List.mem_append_right _ (List.mem_singleton_self _)))
      exact .object (by simp [htype, hconditions.mono, hfallback])
  | _ =>
      simp only [params, List.forall_mem_cons] at h
      exact .object (by simp [h, hbinding, htype])

/-- What was written of an effect is read as its settings. -/
theorem settings_back {e : Effect Binding} {members : List (String × Json)}
    (hwritten : e.toJson = .object members) (h : ∀ b ∈ e.params, b.Fits) :
    settings e.type (Json.membersBack members) = .ok (e.map Binding.stored) := by
  cases e with
  | maths m =>
      obtain rfl := Json.object.inj hwritten
      have hterms := list_back fun term hterm => Maths.term_back fun b hb =>
        h b (List.mem_flatten.2 ⟨term, hterm, hb⟩)
      simp [settings, type, new, member_back, Json.lookup_cons, Shape.optional, hterms, map]
  | switch s =>
      obtain rfl := Json.object.inj hwritten
      have hconditions := list_back fun c hc => Condition.shape_back fun b hb =>
        h b (List.mem_append_left _ (List.mem_flatMap.2 ⟨c, hc, hb⟩))
      have hfallback := Binding.shape_back
        (h s.fallback (List.mem_append_right _ (List.mem_singleton_self _)))
      simp [settings, type, new, member_back, Json.lookup_cons, Shape.optional, hconditions,
        hfallback, ok_bind, map]
  | _ =>
      obtain rfl := Json.object.inj hwritten
      simp only [params, List.forall_mem_cons] at h
      simp [settings, type, new, member_back, Json.lookup_cons, Shape.optional, h,
        Binding.shape_back, Waveform.shape_back, ok_bind, map]

/-- The kind of an effect is found in what is read back of it. -/
theorem type_back {e : Effect Binding} {members : List (String × Json)}
    (hwritten : e.toJson = .object members) :
    Json.lookup? (Json.membersBack members) "type" = some (.integer e.type.tag) := by
  rw [Json.lookup_back]
  cases e <;> obtain rfl := Json.object.inj hwritten <;> simp [Json.lookup_cons]

/-- A written effect is read as itself, but for constants that are not finite. -/
theorem of_json_back {e : Effect Binding} (h : ∀ b ∈ e.params, b.Fits) :
    ofJson e.toJson.readBack = .ok (e.map Binding.stored) := by
  obtain ⟨members, hwritten⟩ := e.exists_members
  have htype : typeOf? (.integer e.type.tag) = some e.type := EffectType.of_tag_tag e.type
  rw [hwritten, Json.object_back, ofJson, type_back hwritten]
  simp only [htype, settings_back hwritten h, liftMismatch]

end Effect

/-! ## Nodes and racks -/

namespace Node

/-- The node that is read where one was written. -/
def stored (node : Node) : Node :=
  { node with home := none, effect := node.effect.map fun p => .ofBinding p.binding.stored }

/-- All IDs in the node have 32 bits. -/
structure Fits (node : Node) : Prop where
  id : ∀ id, node.id = some id → id < UInt32.size
  bindings : ∀ param ∈ node.effect.params, param.binding.Fits

variable {node : Node}

/-- The references of a node whose IDs have 32 bits have 32 bits. -/
theorem Fits.params (h : node.Fits) : ∀ b ∈ (node.effect.map (·.binding)).params, b.Fits := by
  intro b hb
  rw [Effect.params_map] at hb
  obtain ⟨param, hparam, rfl⟩ := List.mem_map.1 hb
  exact h.bindings param hparam

/-- A written node is readable and nests at most six levels deep. -/
theorem readable (h : node.Fits) : Readable 6 node.toJson := by
  have heffect := Effect.readable h.params
  have hid : Readable 5 ((node.id.map naturalJson).getD .null) := by
    cases hid : node.id with
    | none => exact .null
    | some id => exact readable_natural (h.id id hid) 5
  refine .object ?_
  simp [heffect, hid, Readable.bool]

/-- A natural number of 32 bits is stored as itself. -/
theorem stored_id_natural {id : Nat} (h : id < UInt32.size) : storedId id = some id :=
  if_pos ⟨Int.natCast_nonneg id, Int.ofNat_lt.2 h⟩

/-- A written ID is read back. -/
theorem id_back (h : node.Fits) :
    ∃ id, Shape.nullable Shape.signedLong ((node.id.map naturalJson).getD .null).readBack =
      .ok id ∧ id.bind storedId = node.id := by
  cases hid : node.id with
  | none =>
      refine ⟨none, ?_, rfl⟩
      simp only [Option.map_none, Option.getD_none, Json.readBack]
      rfl
  | some id =>
      have hlt : id < UInt32.size := h.id id hid
      have hsize : UInt32.size < UInt64.size / 2 := by decide
      have hread : Shape.signedLong (.integer id) = .ok (id : Int) :=
        integer_back "i64" (by omega) (by omega)
      refine ⟨some id, ?_, by rw [Option.bind_some, stored_id_natural hlt]⟩
      simp only [Option.map_some, Option.getD_some, natural_back, Shape.nullable, hread]
      rfl

/-- A written node is read as itself, but for registers and constants that are not finite. -/
theorem of_json_back (h : node.Fits) : ofJson node.toJson.readBack = .ok node.stored := by
  have heffect := Effect.of_json_back h.params
  obtain ⟨id, hread, hid⟩ := id_back h
  have htoDelete : Shape.bool (Json.bool node.toDelete).readBack = .ok node.toDelete := by
    simp only [Json.readBack, Shape.bool]
  have henabled : Shape.bool (Json.bool node.enabled).readBack = .ok node.enabled := by
    simp only [Json.readBack, Shape.bool]
  simp [toJson, Json.object_back, ofJson, Json.lookup_back, member_back, Json.lookup_cons,
    Shape.optional, heffect, hread, htoDelete, henabled, liftMismatch, ok_bind, hid, ofEffect, stored]

end Node

namespace Rack

/-- The rack that is read where one was written. -/
def stored (rack : Rack) : Rack := { empty with name := rack.name, nodes := rack.nodes.map .stored }

variable {rack : Rack}

/-- A written rack is readable and nests at most eight levels deep. -/
theorem readable (h : ∀ node ∈ rack.nodes, node.Fits) : Readable 8 rack.toJson := by
  have hnodes : Readable 7 (.array (rack.nodes.map Node.toJson)) := by
    refine .array ?_
    intro value hvalue
    obtain ⟨node, hnode, rfl⟩ := List.mem_map.1 hvalue
    exact Node.readable (h node hnode)
  refine .object ?_
  simp [hnodes, Readable.string]

/-- The text of a rack is read as that rack, but for registers and constants that are not finite. -/
theorem decode_print (h : ∀ node ∈ rack.nodes, node.Fits) :
    decode rack.toJson.print = .ok rack.stored := by
  have hnodes := map_m_back fun node hnode => Node.of_json_back (h node hnode)
  have hname : Shape.string (Json.string rack.name).readBack = .ok rack.name := by
    simp only [Json.readBack, Shape.string]
  unfold decode
  rw [Json.parse_print (readable h) (by decide)]
  rw [List.map_map] at hnodes
  simp [toJson, Json.object_back, Json.array_back, ofJson, Json.lookup_back, member_back,
    Json.lookup_cons, Shape.optional, hname, liftMismatch, ok_bind, stored, hnodes]

end Rack

end SynthRack
