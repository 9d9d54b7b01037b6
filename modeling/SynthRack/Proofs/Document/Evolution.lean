import Mathlib
import SynthRack.Proofs.Document.Accepted
import SynthRack.Proofs.Document.Foreign
import SynthRack.Proofs.Document.Omissible

/-!
# Older and newer documents

A document written before a member existed lacks it; one written later, or by another program, has
members that are not known here. Both are read: `Rack.evolution_transparent`.
-/

namespace SynthRack

open Json (Path Step)

namespace Rack

/-- A document that is accepted may lack any set of omissible members that it has: it is accepted
without them, as the same rack but for these members, which are as their constructors make them. And
it may have any set of foreign members besides, which change nothing. What only a compiled rack has
is foreign wherever it stands. -/
theorem evolution_transparent {document : Json} {rack : Rack} (h : ofJson document = .ok rack) :
    (∀ gone : Path → Bool,
      (∀ path, gone path = true → Omissible path ∧ (document.at? path).isSome) →
        ofJson (document.without gone) = .ok (rack.without gone)) ∧
    (∀ (later : Json) (added : Path → Bool), (∀ path, added path = true → Foreign later path) →
      later.without added = document → ofJson later = .ok rack) ∧
    ∀ name ∈ privateNames, ForeignName name := by
  obtain ⟨⟨hrack, hids⟩, rfl⟩ := (of_json_meets document rack).1 h
  refine ⟨?_, ?_, private_names_foreign⟩
  · intro gone hgone
    exact (of_json_meets _ _).2 (json_without hgone hrack hids)
  · rintro later added hadded rfl
    obtain ⟨hrackIff, hidsIff, hdescribed⟩ := ignores hadded
    exact (of_json_meets _ _).2 ⟨⟨hrackIff.1 hrack, hidsIff.1 hids⟩, hdescribed.symm⟩

/-- A sum of one term, and an oscillator that may be off. -/
def sumDriven (name : String) (id : Option Nat) (term : List Binding) (enabled : Bool)
    (frequency : Binding) : Rack :=
  { empty with
    name
    nodes := [{ Node.ofEffect (.maths ⟨[term]⟩) with id },
      { Node.ofEffect (.oscillator {
          waveform := .sine, amplitude := .constant 1, frequency, frequencyMult := .constant 1
          phase := .constant 0, offset := .constant 0 }) with enabled }] }

/-- The document of such a rack, with further members in some of its objects. -/
def sumDrivenDocument (root node sum term binding : List (String × Json)) : Json :=
  .object (root ++ [("name", .string "pluck"), ("effects", .array [
    .object (node ++ [("id", .integer 7), ("value", .object (sum ++ [("type", .integer 2),
      ("terms", .array [.object (term ++ [("coefficients", .array [.object [
        ("effectId", .integer 7)]])])])]))]),
    .object [("enabled", .bool false), ("value", .object [("type", .integer 0),
      ("frequency", .object (binding ++ [("effectId", .integer 7)]))])]])])

/-- The rack comes without its name, an ID, a list of coefficients, a switch and a frequency, and
with members named after what a compiled rack keeps to itself. -/
theorem evolution_transparent_sum_driven :
    let effect (position : Nat) (path : Path) : Path :=
      .member "effects" :: .index position :: path
    let gone : List Path := [[.member "name"], effect 0 [.member "id"],
      effect 0 [.member "value", .member "terms", .index 0, .member "coefficients"],
      effect 1 [.member "enabled"], effect 1 [.member "value", .member "frequency"]]
    let document := sumDrivenDocument [] [] [] [] []
    let later := sumDrivenDocument [("template", .null)] [("buffer", .integer 1)]
      [("stage", .bool true)] [("positions", .array [])] [("reg", .integer 9)]
    ofJson document = .ok (sumDriven "pluck" (some 7) [.node 7] false (.node 7)) ∧
      ofJson (document.without fun path => decide (path ∈ gone)) =
        .ok (sumDriven "" none [.constant 1] true (.builtin .keyFrequency)) ∧
      ofJson later = .ok (sumDriven "pluck" (some 7) [.node 7] false (.node 7)) := by
  intro effect gone document later
  have hread : ofJson document = .ok (sumDriven "pluck" (some 7) [.node 7] false (.node 7)) := rfl
  obtain ⟨homitted, hadded, -⟩ := evolution_transparent hread
  refine ⟨hread, ?_, ?_⟩
  · refine homitted _ fun path hpath => ?_
    have hmem : path ∈ gone := of_decide_eq_true hpath
    simp only [gone, effect, List.mem_cons, List.not_mem_nil, or_false] at hmem
    rcases hmem with rfl | rfl | rfl | rfl | rfl
    · exact ⟨rfl, rfl⟩
    · exact ⟨⟨rfl, .inl rfl⟩, rfl⟩
    · exact ⟨⟨rfl, rfl, .inl rfl⟩, rfl⟩
    · exact ⟨⟨rfl, .inr (.inr rfl)⟩, rfl⟩
    · exact ⟨⟨rfl, rfl, (by decide : "frequency" ≠ "type")⟩, rfl⟩
  · let added : List Path := [[.member "template"], effect 0 [.member "buffer"],
      effect 0 [.member "value", .member "stage"],
      effect 0 [.member "value", .member "terms", .index 0, .member "positions"],
      effect 1 [.member "value", .member "frequency", .member "reg"]]
    refine hadded later (fun path => decide (path ∈ added)) (fun path hpath => ?_) rfl
    have hmem : path ∈ added := of_decide_eq_true hpath
    simp only [added, effect, List.mem_cons, List.not_mem_nil, or_false] at hmem
    rcases hmem with rfl | rfl | rfl | rfl | rfl
    · exact (by decide : "template" ∉ ["name", "effects"])
    · refine ⟨by decide, rfl, 0, _, _, rfl, rfl, ?_⟩
      exact (by decide : "buffer" ∉ ["id", "toDelete", "enabled", "value"])
    · refine ⟨by decide, rfl, 0, _, _, rfl, rfl, by decide, rfl, _, rfl, .maths, rfl, ?_⟩
      exact (by decide : "stage" ∉ ["type", "terms"])
    · refine ⟨by decide, rfl, 0, _, _, rfl, rfl, by decide, rfl, _, rfl, .maths, rfl,
        by decide, .terms, List.mem_singleton_self _, ?_⟩
      exact (by decide : "positions" ∉ ["coefficients"])
    · refine ⟨by decide, rfl, 1, _, _, rfl, rfl, by decide, rfl, _, rfl, .oscillator, rfl,
        by decide, .parameter, by simp [EffectType.settings], ?_⟩
      exact (by decide : "reg" ∉ ["value", "regIdx", "effectId"])

end Rack

end SynthRack
