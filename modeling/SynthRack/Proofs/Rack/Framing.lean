import Mathlib
import SynthRack.Proofs.Rack.SameLayout

/-!
# A fingerprint is read in one way

The kinds of the nodes come first in a fingerprint, one word each, and nothing says how many there
are. `Built.no_more_kinds` says that there is only one way to read it all the same: where the kinds
of one rack end and those of the other go on, its number of registers would have to be the number of
a kind, and its flags the numbers of others. With the count the rest of the fingerprint is read field
by field, and `homes_of_fingerprint` finds in it where every node keeps its state.
-/

namespace SynthRack

/-! ## Words -/

/-- The lowest byte of a word. -/
theorem head_word_bytes (n : Nat) : (wordBytes n)[0]? = some n.toUInt8 := by
  simp [wordBytes, littleEndian]

/-- Numbers written as the same word have the same lowest byte. -/
theorem mod_of_word_bytes {m n : Nat} (h : wordBytes m = wordBytes n) : m % 256 = n % 256 := by
  have hbyte : m.toUInt8 = n.toUInt8 := by
    rw [← Option.some_inj, ← head_word_bytes, ← head_word_bytes, h]
  simpa using congrArg UInt8.toNat hbyte

/-- Where texts start with a word each, the words agree in their lowest bytes. -/
theorem word_bytes_append_eq {m n : Nat} {bytes others : List UInt8}
    (h : wordBytes m ++ bytes = wordBytes n ++ others) : m % 256 = n % 256 ∧ bytes = others := by
  obtain ⟨hfirst, hrest⟩ := List.append_inj h (by rw [length_word_bytes, length_word_bytes])
  exact ⟨mod_of_word_bytes hfirst, hrest⟩

namespace EffectType

/-- The tags of kinds are below their number. -/
theorem tag_lt_length (type : EffectType) : type.tag < all.length := by
  cases type <;> decide

/-- Behind its lowest byte the number of a kind is zero. -/
theorem high_byte_tag (type : EffectType) : (wordBytes type.tag)[4]? = some 0 := by
  cases type <;> decide

end EffectType

namespace Rack

/-- The bytes of the kinds of nodes. -/
def kindBytes (types : List EffectType) : List UInt8 := types.flatMap fun type => wordBytes type.tag

/-- The bytes of the flags of registers. -/
def flagBytes (flags : List Bool) : List UInt8 := flags.map fun flag => if flag then 1 else 0

/-- What follows the kinds of the nodes in a fingerprint. -/
def sizeBytes (t : Template) : List UInt8 :=
  wordBytes t.size ++ (wordBytes t.size ++
    (flagBytes t.persisted.toList ++ wordBytes t.bufferSeconds.size))

/-- The kinds take a word each. -/
theorem length_kind_bytes (types : List EffectType) : (kindBytes types).length = 8 * types.length := by
  simp [kindBytes, List.length_flatMap, length_word_bytes, Nat.mul_comm]

/-- The sizes take three words, and a flag for each register. -/
theorem length_size_bytes (t : Template) : (sizeBytes t).length = t.size + 24 := by
  simp [sizeBytes, flagBytes, length_word_bytes, Template.persisted, Template.size]
  omega

/-- Every kind that follows takes the place of eight registers. -/
theorem size_of_more_kinds {types : List EffectType} {t u : Template}
    (h : sizeBytes u = kindBytes types ++ sizeBytes t) : u.size = 8 * types.length + t.size := by
  have hlength := congrArg List.length h
  rw [List.length_append, length_kind_bytes, length_size_bytes, length_size_bytes] at hlength
  omega

/-- The first kind stands in front. -/
theorem kind_bytes_cons (type : EffectType) (types : List EffectType) :
    kindBytes (type :: types) = wordBytes type.tag ++ kindBytes types := rfl

/-- More kinds stand behind. -/
theorem kind_bytes_append (types others : List EffectType) :
    kindBytes (types ++ others) = kindBytes types ++ kindBytes others := by
  simp [kindBytes]

variable {a b : Rack}

/-- The fingerprint of a built rack is the words of its kinds and then its sizes. -/
theorem Built.fingerprint_eq (h : a.Built) :
    a.template.fingerprint = kindBytes (a.nodes.map (·.effect.type)) ++ sizeBytes a.template := by
  rw [h.is_sealed.fingerprint]
  simp [layoutFingerprint, kindBytes, sizeBytes, flagBytes, Template.draft, Template.size,
    Template.persisted]

/-- The registers of the inputs come first and are not persisted. -/
theorem LaidOut.head_flag (h : a.LaidOut) : (flagBytes a.template.persisted.toList)[0]? = some 0 := by
  rw [h.persisted_eq]
  rfl

/-- The first register behind those of the inputs is an output, which is persisted. -/
theorem LaidOut.output_flag (h : a.LaidOut) (hnodes : a.nodes ≠ []) :
    (flagBytes a.template.persisted.toList)[4]? = some 1 := by
  obtain ⟨node, nodes, hcons⟩ := List.exists_cons_of_ne_nil hnodes
  rw [h.persisted_eq, hcons]
  rfl

/-- A rack without nodes has the registers of the inputs only. -/
theorem LaidOut.size_of_no_nodes (h : a.LaidOut) (hnodes : a.nodes = []) :
    a.template.size = Builtin.count := by
  have hflags := congrArg List.length h.persisted_eq
  rw [hnodes] at hflags
  simpa [Template.persisted, Template.size] using hflags

/-- What stands in front stays where it is. -/
theorem get_elem_append_of_some {bytes : List UInt8} {index : Nat} {byte : UInt8}
    (h : bytes[index]? = some byte) (rest : List UInt8) : (bytes ++ rest)[index]? = some byte := by
  rw [List.getElem?_append_left (List.getElem?_eq_some_iff.1 h).1, h]

/-- What follows the kinds of all nodes cannot be read as the kinds of more nodes. -/
theorem Built.no_more_kinds (h : a.Built) {types : List EffectType} {t : Template}
    (hbytes : sizeBytes a.template = kindBytes types ++ sizeBytes t) : types = [] := by
  have hsize := size_of_more_kinds hbytes
  match types with
  | [] => rfl
  | [first] =>
    -- The number of registers stands where the other has its own, which is smaller by eight.
    rw [kind_bytes_cons, List.append_assoc] at hbytes
    obtain ⟨-, hrest⟩ := word_bytes_append_eq hbytes
    obtain ⟨hsame, -⟩ := word_bytes_append_eq hrest
    simp only [List.length_cons, List.length_nil] at hsize
    omega
  | [first, second] =>
    -- The number of registers is the number of a kind, and the flag of an input, a zero, stands where
    -- the other has its number of registers, which is smaller by sixteen.
    rw [kind_bytes_cons, kind_bytes_cons, List.append_assoc, List.append_assoc] at hbytes
    obtain ⟨hkind, hrest⟩ := word_bytes_append_eq hbytes
    obtain ⟨-, hflags⟩ := word_bytes_append_eq hrest
    have hlt : first.tag < 7 := first.tag_lt_length
    have hflag : some (0 : UInt8) = some t.size.toUInt8 := by
      rw [← get_elem_append_of_some h.head_flag, hflags]
      exact get_elem_append_of_some (head_word_bytes t.size) _
    have hzero := congrArg UInt8.toNat (Option.some.inj hflag)
    simp only [UInt8.toNat_zero, Nat.toUInt8_eq, UInt8.toNat_ofNat'] at hzero
    simp only [List.length_cons, List.length_nil] at hsize
    omega
  | first :: second :: third :: rest =>
    -- The flag of an output, a one, stands behind the lowest byte of the number of a kind.
    rw [kind_bytes_cons, kind_bytes_cons, kind_bytes_cons, List.append_assoc, List.append_assoc,
      List.append_assoc] at hbytes
    obtain ⟨-, hrest⟩ := word_bytes_append_eq hbytes
    obtain ⟨-, hflags⟩ := word_bytes_append_eq hrest
    have hnodes : a.nodes ≠ [] := by
      intro hnone
      have hfew : a.template.size = 4 := h.size_of_no_nodes hnone
      simp only [List.length_cons] at hsize
      omega
    have hflag : some (1 : UInt8) = some 0 := by
      rw [← get_elem_append_of_some (h.output_flag hnodes), hflags]
      exact get_elem_append_of_some third.high_byte_tag _
    cases hflag

/-- Racks with one fingerprint: one does not have fewer nodes than the other. -/
theorem Built.node_count_le (ha : a.Built) (hb : b.Built)
    (h : a.template.fingerprint = b.template.fingerprint) : b.nodes.length ≤ a.nodes.length := by
  by_contra hlt
  let types := b.nodes.map (·.effect.type)
  have hsplit : kindBytes (a.nodes.map (·.effect.type)) ++ sizeBytes a.template =
      kindBytes (types.take a.nodes.length) ++
        (kindBytes (types.drop a.nodes.length) ++ sizeBytes b.template) := by
    rw [← List.append_assoc, ← kind_bytes_append, List.take_append_drop, ← ha.fingerprint_eq, h,
      hb.fingerprint_eq]
  obtain ⟨-, hrest⟩ := List.append_inj hsplit (by
    rw [length_kind_bytes, length_kind_bytes, List.length_map, List.length_take, List.length_map]
    omega)
  have hnone := congrArg List.length (ha.no_more_kinds hrest)
  simp only [types, List.length_drop, List.length_map, List.length_nil] at hnone
  omega

/-- Racks with one fingerprint have one layout. -/
theorem Built.same_layout (ha : a.Built) (hb : b.Built)
    (h : a.template.fingerprint = b.template.fingerprint) : a.SameLayout b := by
  have hcount : a.nodes.length = b.nodes.length :=
    (hb.node_count_le ha h.symm).antisymm (ha.node_count_le hb h)
  refine (same_layout_iff ha.is_sealed hb.is_sealed).1 ⟨h, ?_⟩
  have hlength := congrArg List.length h
  rw [ha.fingerprint_eq, hb.fingerprint_eq, List.length_append, List.length_append,
    length_kind_bytes, length_kind_bytes, length_size_bytes, length_size_bytes, List.length_map,
    List.length_map] at hlength
  omega

/-- The fingerprint of a compiled rack tells the kinds of its nodes, the number of its registers and
which of them are persisted, the number of its buffers, and for every node its output, its private
registers and its buffer. -/
theorem homes_of_fingerprint (source other : Rack) (v w : Nat)
    (h : (source.compile v).template.fingerprint = (other.compile w).template.fingerprint) :
    let a := source.compile v
    let b := other.compile w
    a.nodes.length = b.nodes.length ∧
      a.nodes.map (·.effect.type) = b.nodes.map (·.effect.type) ∧
      a.template.size = b.template.size ∧
      a.template.persisted = b.template.persisted ∧
      a.template.bufferSeconds.size = b.template.bufferSeconds.size ∧
      ∀ (position : Nat) (x y : Node),
        a.nodes[position]? = some x → b.nodes[position]? = some y →
          ∃ home, x.home = some home ∧ y.home = some home ∧
            home.output = outputRegister position ∧
            home.state.length = x.effect.type.stateCount ∧
            (home.buffer.isSome = true ↔ x.effect.type = .delay) := by
  intro a b
  have ha : a.Built := source.built_compile v
  have hb : b.Built := other.built_compile w
  have hlayout := ha.same_layout hb h
  refine ⟨hlayout.length, hlayout.types, hlayout.size, hlayout.persisted,
    ha.same_buffer_count hb.toLaidOut hlayout, fun position x y hx hy => ?_⟩
  obtain ⟨state, buffer, hhome, hcount, -⟩ := (ha.placed position x hx).home
  have hbuffer := ha.buffer_is_some (List.mem_of_getElem? hx)
  rw [Node.buffer, hhome] at hbuffer
  refine ⟨_, hhome, ?_, rfl, hcount, hbuffer⟩
  rw [← ha.same_home hb.toLaidOut hlayout hx hy, hhome]

/-- In two racks the constants are distributed differently: over the terms of two sums, and over an
oscillator and the sum behind it. -/
theorem homes_of_fingerprint_shifted :
    let sum (terms : List (List Binding)) := Node.ofEffect (.maths ⟨terms⟩)
    let tone (frequency : Binding) := Node.ofEffect (.oscillator {
      waveform := .sine, amplitude := .unset, frequency, frequencyMult := .constant 2
      phase := .constant 0, offset := .constant 0 })
    let few := { empty with
      nodes := [sum [[.constant 3, .unset]], sum [], tone (.constant 440), sum []] }
    let many := { empty with
      nodes := [sum [[.constant 5]], sum [[.node 2], [.unset]], tone (.node 2), sum [[.constant 7]]] }
    let constants (rack : Rack) :=
      rack.nodes.map fun node => node.effect.params.countP (·.binding.ownsRegister)
    (few.compile 1).template.fingerprint = (many.compile 2).template.fingerprint ∧
      constants (few.compile 1) = [2, 0, 5, 0] ∧ constants (many.compile 2) = [1, 1, 4, 1] ∧
      ∀ (position : Nat) (x y : Node), (few.compile 1).nodes[position]? = some x →
        (many.compile 2).nodes[position]? = some y → x.home = y.home := by
  intro sum tone few many constants
  have h : (few.compile 1).template.fingerprint = (many.compile 2).template.fingerprint := by
    decide +kernel
  refine ⟨h, by decide +kernel, by decide +kernel, fun position x y hx hy => ?_⟩
  obtain ⟨-, -, -, -, -, hhomes⟩ := homes_of_fingerprint few many 1 2 h
  obtain ⟨home, hhome, hsame, -⟩ := hhomes position x y hx hy
  rw [hhome, hsame]

end Rack

end SynthRack
