import Mathlib
import SynthRack.Proofs.Rack.Ownership

/-!
# What a fingerprint tells

The fingerprint of a template is a string of bytes without separators. `layout_of_fingerprint` says
that among templates with equally many registers it determines the kinds of the nodes, the
persistence of every register and the number of buffers.
-/

namespace SynthRack

/-- The template is sealed for nodes of these kinds: its fingerprint is that of their layout, and
every delay has a buffer. -/
structure Template.SealedFor (t : Template) (types : List EffectType) : Prop where
  fingerprint : t.fingerprint = layoutFingerprint types t.draft
  buffers : t.bufferSeconds.size = types.countP (· = .delay)

/-- A word has eight bytes. -/
theorem length_word_bytes (n : Nat) : (wordBytes n).length = 8 := length_little_endian 8 n

/-- The words of two kinds differ. -/
theorem word_bytes_tag_injective {a b : EffectType} (h : wordBytes a.tag = wordBytes b.tag) :
    a = b := by
  revert a b
  have hall : ∀ a ∈ EffectType.all, ∀ b ∈ EffectType.all, wordBytes a.tag = wordBytes b.tag →
      a = b := by
    decide
  have hmem (a : EffectType) : a ∈ EffectType.all := by cases a <;> decide
  exact fun {a b} h => hall a (hmem a) b (hmem b) h

/-- The words of equally many kinds tell which kinds they are. -/
theorem types_of_bytes {types others : List EffectType} (hlength : types.length = others.length)
    (h : types.flatMap (fun type => wordBytes type.tag) =
      others.flatMap fun type => wordBytes type.tag) : types = others := by
  induction types generalizing others with
  | nil => exact (List.length_eq_zero_iff.1 hlength.symm).symm
  | cons type types ih =>
      cases others with
      | nil => cases hlength
      | cons other others =>
          simp only [List.flatMap_cons] at h
          obtain ⟨hfirst, hrest⟩ := List.append_inj h (by rw [length_word_bytes, length_word_bytes])
          rw [word_bytes_tag_injective hfirst, ih (Nat.succ.inj hlength) hrest]

/-- The length of a fingerprint, from the counts of nodes and of registers. -/
theorem length_layout_fingerprint (types : List EffectType) (draft : Draft) :
    (layoutFingerprint types draft).length = 8 * types.length + draft.slots.size + 24 := by
  simp [layoutFingerprint, length_word_bytes, List.length_flatMap]
  omega

/-- Flags written as bytes are read back from them. -/
theorem persisted_of_bytes {slots others : Array Slot}
    (h : slots.toList.map (fun slot => if slot.persisted then (1 : UInt8) else 0) =
      others.toList.map fun slot => if slot.persisted then 1 else 0) :
    slots.map (·.persisted) = others.map (·.persisted) := by
  have hflag (slot : Slot) :
      slot.persisted = ((if slot.persisted then (1 : UInt8) else 0) == 1) := by
    cases slot.persisted <;> rfl
  have hflags (slots : Array Slot) : (slots.map (·.persisted)).toList =
      (slots.toList.map fun slot => if slot.persisted then (1 : UInt8) else 0).map (· == 1) := by
    rw [Array.toList_map, List.map_map]
    exact List.map_congr_left fun slot _ => hflag slot
  refine Array.toList_inj.1 ?_
  rw [hflags, hflags, h]

/-- Templates of one size with one fingerprint have one layout. -/
theorem layout_of_fingerprint {t u : Template} {types others : List EffectType}
    (ht : t.SealedFor types) (hu : u.SealedFor others) (hsize : t.size = u.size)
    (h : t.fingerprint = u.fingerprint) :
    types = others ∧ t.persisted = u.persisted ∧ t.bufferSeconds.size = u.bufferSeconds.size := by
  have hslots : t.draft.slots.size = u.draft.slots.size := hsize
  have hbytes : layoutFingerprint types t.draft = layoutFingerprint others u.draft := by
    rw [← ht.fingerprint, ← hu.fingerprint, h]
  -- The sizes are equal, so the length of the whole tells how many nodes there are.
  have hcount : types.length = others.length := by
    have hlength := congrArg List.length hbytes
    rw [length_layout_fingerprint, length_layout_fingerprint] at hlength
    omega
  simp only [layoutFingerprint, List.append_assoc] at hbytes
  obtain ⟨htypes, hrest⟩ := List.append_inj hbytes
    (by simp [List.length_flatMap, length_word_bytes, hcount])
  obtain ⟨-, hrest⟩ := List.append_inj hrest (by rw [length_word_bytes, length_word_bytes])
  obtain ⟨-, hrest⟩ := List.append_inj hrest (by rw [length_word_bytes, length_word_bytes])
  obtain ⟨hflags, -⟩ := List.append_inj hrest (by simpa using hslots)
  have hsame := types_of_bytes hcount htypes
  refine ⟨hsame, persisted_of_bytes hflags, ?_⟩
  rw [ht.buffers, hu.buffers, hsame]

/-- The template of a compiled rack is sealed for the kinds of its nodes. -/
theorem sealed_compile (rack : Rack) (version : Nat) :
    (rack.compile version).template.SealedFor
      ((rack.compile version).nodes.map (·.effect.type)) where
  fingerprint := rfl
  buffers := by
    rw [(rack.laid_out_compile version).buffer_count, List.countP_map]
    rfl

end SynthRack
