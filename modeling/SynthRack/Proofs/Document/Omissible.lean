import Mathlib
import SynthRack.Proofs.Json.Path
import SynthRack.Proofs.Document.Grammar
import SynthRack.Proofs.Rack.Traversal

/-!
# Members that a document may lack

`Rack.Omissible` gives the paths of the members of a document that have a default, level by level.
`Rack.without` is what becomes of a rack when some of them are taken out of its document: what they
said is as the constructor of its part makes it. `Rack.json_without` says that the document without
them is a rack, and that one.
-/

namespace SynthRack

open Json (Path Step orElse beyond IfPresent)

/-! ## Paths to omissible members -/

/-- Paths to the members that an effect may lack. -/
def Effect.Omissible : Path → Prop
  | [.member name] => name ≠ "type"
  | [.member name, .index _, .member _] => name = "terms" ∨ name = "conditions"
  | _ => False

/-- Paths to the members that a node may lack. -/
def Node.Omissible : Path → Prop
  | [.member name] => name = "id" ∨ name = "toDelete" ∨ name = "enabled"
  | .member name :: path => name = "value" ∧ Effect.Omissible path
  | _ => False

/-- Paths to the members that a rack may lack. -/
def Rack.Omissible : Path → Prop
  | [.member name] => name = "name"
  | .member name :: .index _ :: path => name = "effects" ∧ Node.Omissible path
  | _ => False

section

variable (gone : Path → Bool)

/-- What a part has once its member of a name is gone: what it was made with. -/
def remade {α : Type} (name : String) (made kept : α) : α :=
  if gone [.member name] then made else kept

/-- A condition without some members. -/
def Condition.without (c : Condition Binding) : Condition Binding where
  a := remade gone "a" new.a c.a
  operator := remade gone "operator" new.operator c.operator
  b := remade gone "b" new.b c.b
  result := remade gone "then" new.result c.result

/-- An effect without some members, given the effect of its kind as it is first made. -/
def Effect.withoutFrom : Effect Binding → Effect Binding → Effect Binding
  | .oscillator made, .oscillator o => .oscillator {
      waveform := remade gone "waveform" made.waveform o.waveform
      amplitude := remade gone "amplitude" made.amplitude o.amplitude
      frequency := remade gone "frequency" made.frequency o.frequency
      frequencyMult := remade gone "frequencyMult" made.frequencyMult o.frequencyMult
      phase := remade gone "phase" made.phase o.phase
      offset := remade gone "offset" made.offset o.offset }
  | .envelope made, .envelope e => .envelope {
      signal := remade gone "signal" made.signal e.signal
      attack := remade gone "attack" made.attack e.attack
      decay := remade gone "decay" made.decay e.decay
      sustain := remade gone "sustain" made.sustain e.sustain
      release := remade gone "release" made.release e.release
      toModulate := remade gone "toModulate" made.toModulate e.toModulate }
  | .maths made, .maths m => .maths {
      terms := remade gone "terms" made.terms <| m.terms.mapIdx fun position term =>
        remade (beyond (beyond gone (.member "terms")) (.index position)) "coefficients"
          Maths.newTerm term }
  | .switch made, .switch s => .switch {
      conditions := remade gone "conditions" made.conditions <|
        s.conditions.mapIdx fun position c =>
          c.without (beyond (beyond gone (.member "conditions")) (.index position))
      fallback := remade gone "default" made.fallback s.fallback }
  | .noise made, .noise n => .noise {
      amplitude := remade gone "amplitude" made.amplitude n.amplitude }
  | .delay made, .delay d => .delay {
      signal := remade gone "signal" made.signal d.signal
      seconds := remade gone "seconds" made.seconds d.seconds }
  | .biquad made, .biquad b => .biquad {
      signal := remade gone "signal" made.signal b.signal
      a1 := remade gone "a1" made.a1 b.a1
      a2 := remade gone "a2" made.a2 b.a2
      b0 := remade gone "b0" made.b0 b.b0
      b1 := remade gone "b1" made.b1 b.b1
      b2 := remade gone "b2" made.b2 b.b2 }
  | _, e => e

/-- An effect without some members. -/
def Effect.without (e : Effect Binding) : Effect Binding := withoutFrom gone (new e.type) e

/-- A node that was just read, without some members of its document. -/
def Node.without (node : Node) : Node :=
  let made := ofEffect (.new node.effect.type)
  let effect := (node.effect.map (·.binding)).without (beyond gone (.member "value"))
  { node with
    id := remade gone "id" made.id node.id
    toDelete := remade gone "toDelete" made.toDelete node.toDelete
    enabled := remade gone "enabled" made.enabled node.enabled
    effect := effect.map Param.ofBinding }

/-- A rack that was just read, without some members of its document. -/
def Rack.without (rack : Rack) : Rack :=
  { rack with
    name := remade gone "name" empty.name rack.name
    nodes := rack.nodes.mapIdx fun position node =>
      node.without (beyond (beyond gone (.member "effects")) (.index position)) }

end

/-! ## Omissible members are remade -/

section

variable {gone : Path → Bool} {members : List (String × Json)} {name : String}

/-- A member that is taken out is absent, and a part of one that stays may be taken out. -/
theorem or_else_without {α : Type} (members : List (String × Json)) (gone : Path → Bool)
    (name : String) (read : Json → α) (default : α) :
    orElse (Json.membersWithout members gone) name read default = remade gone name default
      (orElse members name (fun value => read (value.without (beyond gone (.member name))))
        default) := by
  unfold Json.orElse remade
  rw [Json.lookup_without]
  split
  · rfl
  · cases Json.lookup? members name <;> rfl

/-- A member keeps its form if its value does without what is taken out of it. -/
theorem if_present_without {form : Json → Prop} (h : IfPresent members name form)
    (hkeeps : ∀ value, Json.lookup? members name = some value → form value →
      form (value.without (beyond gone (.member name)))) :
    IfPresent (Json.membersWithout members gone) name form := by
  intro value hvalue
  rw [Json.lookup_without] at hvalue
  split at hvalue
  · cases hvalue
  · obtain ⟨before, hbefore, rfl⟩ := Option.map_eq_some_iff.1 hvalue
    exact hkeeps before hbefore (h before hbefore)

/-- Nothing is taken out of a member, though the member itself may be. -/
def Untouched (gone : Path → Bool) (name : String) : Prop :=
  ∀ step path, gone (.member name :: step :: path) = false

/-- A value that nothing is taken out of is as it was. -/
theorem Untouched.without_eq (h : Untouched gone name) (value : Json) :
    value.without (beyond gone (.member name)) = value :=
  Json.without_eq_self value h

/-- An untouched member is read as before, or as the default if it is gone itself. -/
theorem Untouched.or_else {α : Type} (h : Untouched gone name) (members : List (String × Json))
    (read : Json → α) (default : α) : orElse (Json.membersWithout members gone) name read default =
      remade gone name default (orElse members name read default) := by
  simp only [or_else_without, h.without_eq]

/-- An untouched member that is left has the form it had. -/
theorem Untouched.if_present {form : Json → Prop} (h : Untouched gone name)
    (hform : IfPresent members name form) :
    IfPresent (Json.membersWithout members gone) name form :=
  if_present_without hform fun value _ hvalue => (h.without_eq value).symm ▸ hvalue

end

/-- All places are parts of a value, at paths of some kind. -/
def PartsAt (kind : Path → Prop) (gone : Path → Bool) (json : Json) : Prop :=
  ∀ path, gone path = true → kind path ∧ (json.at? path).isSome

/-- A path to a member of the value itself. -/
def OwnMember (path : Path) : Prop := ∃ name, path = [.member name]

section

variable {gone : Path → Bool}

namespace PartsAt

variable {kind : Path → Prop} {json : Json} {members : List (String × Json)} {name : String}

/-- Places inside a part are of the kind that they are as places of the whole. -/
theorem inside (h : PartsAt kind gone json) {step : Step} {part : Json}
    (hpart : json.at? [step] = some part) :
    PartsAt (fun path => kind (step :: path)) (beyond gone step) part := by
  intro path hpath
  obtain ⟨hkind, hpresent⟩ := h _ hpath
  have hsteps := json.at_append [step] path
  rw [hpart] at hsteps
  exact ⟨hkind, (congrArg Option.isSome hsteps).symm.trans hpresent⟩

/-- What is taken out of a member lies at paths through that member. -/
theorem inside_member (h : PartsAt kind gone (.object members)) {value : Json}
    (hvalue : Json.lookup? members name = some value) :
    PartsAt (fun path => kind (.member name :: path)) (beyond gone (.member name)) value :=
  h.inside (by simp [Json.at?, hvalue])

/-- Parts at paths of one kind are parts at paths of a wider kind. -/
theorem mono {wider : Path → Prop} (h : PartsAt kind gone json)
    (hkinds : ∀ path, kind path → wider path) : PartsAt wider gone json := by
  intro path hpath
  exact ⟨hkinds path (h path hpath).1, (h path hpath).2⟩

/-- Where the kind has no paths inside a member, nothing is taken out of it. -/
theorem untouched (h : PartsAt kind gone json)
    (hnone : ∀ step path, ¬kind (.member name :: step :: path)) : Untouched gone name := by
  intro step path
  exact eq_false_of_ne_true fun hpath => hnone step path (h _ hpath).1

/-- A member that is not of the kind stays, less what is taken out inside it. -/
theorem lookup_stays (h : PartsAt kind gone (.object members)) (hstays : ¬kind [.member name]) :
    Json.lookup? (Json.membersWithout members gone) name =
      (Json.lookup? members name).map (·.without (beyond gone (.member name))) :=
  Json.lookup_stays (eq_false_of_ne_true fun hgoes => hstays (h _ hgoes).1) members

end PartsAt

/-- Where only members of the value itself go, nothing is taken out of those that stay. -/
theorem PartsAt.untouched_own {json : Json} (h : PartsAt OwnMember gone json) (name : String) :
    Untouched gone name := by
  refine h.untouched fun step path hplace => ?_
  obtain ⟨_, hplace⟩ := hplace
  cases hplace

/-- Only an object has members of its own. -/
theorem PartsAt.object_or_none {json : Json} (h : PartsAt OwnMember gone json) :
    (∃ members, json = .object members) ∨ ∀ path, gone path = false := by
  cases json with
  | object members => exact .inl ⟨members, rfl⟩
  | _ =>
      refine .inr fun path => eq_false_of_ne_true fun hpath => ?_
      obtain ⟨⟨name, rfl⟩, hpresent⟩ := h path hpath
      cases hpresent

/-- A term without its coefficients is read as a new term. -/
theorem Maths.term_without {json : Json} (h : PartsAt OwnMember gone json) (hterm : json.IsTerm) :
    (json.without gone).IsTerm ∧
      termDescribed (json.without gone) =
        remade gone "coefficients" newTerm (termDescribed json) := by
  obtain ⟨members, rfl⟩ | hnone := h.object_or_none
  · obtain ⟨_, hrecord, hcoefficients⟩ := hterm
    obtain rfl := Option.some.inj hrecord
    have huntouched := h.untouched_own "coefficients"
    exact ⟨⟨_, rfl, huntouched.if_present hcoefficients⟩, huntouched.or_else members _ _⟩
  · rw [Json.without_eq_self json fun _ _ => hnone _, remade, hnone, if_neg (by decide)]
    exact ⟨hterm, rfl⟩

/-- A condition is read without the members that are gone as one that never had them. -/
theorem Condition.json_without {json : Json} (h : PartsAt OwnMember gone json)
    (hcondition : json.IsCondition) : (json.without gone).IsCondition ∧
      described (json.without gone) = (described json).without gone := by
  obtain ⟨members, rfl⟩ | hnone := h.object_or_none
  · obtain ⟨_, hrecord, ha, hoperator, hb, hresult⟩ := hcondition
    obtain rfl := Option.some.inj hrecord
    have hwhole := h.untouched_own
    refine ⟨⟨_, rfl, (hwhole _).if_present ha, (hwhole _).if_present hoperator,
      (hwhole _).if_present hb, (hwhole _).if_present hresult⟩, ?_⟩
    show ofFields (Json.membersWithout members gone) = _
    simp only [ofFields, (hwhole _).or_else, without]
    rfl
  · have hsame (c : Condition Binding) : c.without gone = c := by
      simp only [without, remade, hnone]
      rfl
    rw [Json.without_eq_self json fun _ _ => hnone _, hsame]
    exact ⟨hcondition, rfl⟩

/-- If every element keeps its form and is read as `after` says, so is the list. -/
theorem list_without {α : Type} {form : Json → Prop} {read : Json → α} {after : Nat → α → α}
    {value : Json} (hlist : Json.IsListOf form value)
    (h : ∀ position element, value.at? [.index position] = some element → form element →
      form (element.without (beyond gone (.index position))) ∧
        read (element.without (beyond gone (.index position))) = after position (read element)) :
    Json.IsListOf form (value.without gone) ∧
      (value.without gone).elements.map read = (value.elements.map read).mapIdx after := by
  cases value with
  | array elements =>
      have helement {position : Nat} {element : Json}
          (hposition : elements[position]? = some element) :=
        h position element (by simp [Json.at?, hposition])
          (hlist _ (List.mem_of_getElem? hposition))
      simp only [Json.without, Json.IsListOf, Json.elements, Json.elements_without, Nat.zero_add]
      constructor
      · intro element hmem
        obtain ⟨position, hlt, rfl⟩ := List.mem_mapIdx.1 hmem
        exact (helement (List.getElem?_eq_getElem hlt)).1
      · refine List.ext_getElem? fun position => ?_
        simp only [List.getElem?_map, List.getElem?_mapIdx, Option.map_map]
        exact Option.map_congr fun element hposition => (helement hposition).2
  | _ => exact hlist.elim

/-- What is left of a list that is a member. -/
theorem member_list_without {α : Type} {members : List (String × Json)} {name : String}
    {form : Json → Prop} {read : Json → α} {after : Nat → α → α} {default : List α}
    (hlist : IfPresent members name (Json.IsListOf form))
    (hdefault : default.mapIdx after = default)
    (h : ∀ value position element, Json.lookup? members name = some value →
      value.at? [.index position] = some element → form element →
        form (element.without (beyond (beyond gone (.member name)) (.index position))) ∧
          read (element.without (beyond (beyond gone (.member name)) (.index position))) =
            after position (read element)) :
    IfPresent (Json.membersWithout members gone) name (Json.IsListOf form) ∧
      orElse (Json.membersWithout members gone) name (·.elements.map read) default =
        remade gone name default
          ((orElse members name (·.elements.map read) default).mapIdx after) := by
  have hleft (value : Json) (hvalue : Json.lookup? members name = some value)
      (hform : Json.IsListOf form value) := list_without hform fun position element =>
    h value position element hvalue
  constructor
  · exact if_present_without hlist fun value hvalue hform => (hleft value hvalue hform).1
  · rw [or_else_without]
    refine congrArg _ ?_
    unfold Json.orElse
    cases hlookup : Json.lookup? members name with
    | none => exact hdefault.symm
    | some value => exact (hleft value hlookup (hlist value hlookup)).2

end

namespace Effect

variable {gone : Path → Bool} {members : List (String × Json)}

/-- Inside the members of an effect, only those of elements of the two lists are omissible. -/
theorem omissible_inside {name : String} {step : Step} {path : Path}
    (h : Omissible (.member name :: step :: path)) :
    (name = "terms" ∨ name = "conditions") ∧
      ∃ position part, step = .index position ∧ path = [.member part] := by
  unfold Omissible at h
  split at h
  · rename_i hplace
    cases hplace
  · rename_i hplace
    cases hplace
    exact ⟨h, _, _, rfl, rfl⟩
  · exact h.elim

/-- Nothing is taken out of the settings of an effect but for its terms and its conditions. -/
theorem untouched (h : PartsAt Omissible gone (.object members)) {name : String}
    (hterms : name ≠ "terms") (hconditions : name ≠ "conditions") : Untouched gone name :=
  h.untouched fun _ _ hinside => (omissible_inside hinside).1.elim hterms hconditions

/-- Of an element of a list, only members of its own may be taken out. -/
theorem own_members (h : PartsAt Omissible gone (.object members)) {name : String}
    {value element : Json} {position : Nat} (hvalue : Json.lookup? members name = some value)
    (helement : value.at? [.index position] = some element) :
    PartsAt OwnMember (beyond (beyond gone (.member name)) (.index position)) element := by
  refine ((h.inside_member hvalue).inside helement).mono fun path hpath => ?_
  obtain ⟨-, _, part, -, rfl⟩ := omissible_inside hpath
  exact ⟨part, rfl⟩

/-- The terms without omissible members: new ones if all are gone, else each without its own. -/
theorem terms_without (h : PartsAt Omissible gone (.object members))
    (hterms : IfPresent members "terms" (Json.IsListOf Json.IsTerm)) :
    IfPresent (Json.membersWithout members gone) "terms" (Json.IsListOf Json.IsTerm) ∧
      orElse (Json.membersWithout members gone) "terms" (·.elements.map Maths.termDescribed) [] =
        remade gone "terms" []
          ((orElse members "terms" (·.elements.map Maths.termDescribed) []).mapIdx fun position =>
            remade (beyond (beyond gone (.member "terms")) (.index position)) "coefficients"
              Maths.newTerm) :=
  member_list_without hterms rfl fun _ _ _ hvalue helement =>
    Maths.term_without (own_members h hvalue helement)

/-- The conditions without omissible members: a new one if all are gone, else each without its
own. -/
theorem conditions_without (h : PartsAt Omissible gone (.object members))
    (hconditions : IfPresent members "conditions" (Json.IsListOf Json.IsCondition)) :
    IfPresent (Json.membersWithout members gone) "conditions" (Json.IsListOf Json.IsCondition) ∧
      orElse (Json.membersWithout members gone) "conditions" (·.elements.map Condition.described)
          [Condition.new] =
        remade gone "conditions" [Condition.new]
          ((orElse members "conditions" (·.elements.map Condition.described)
            [Condition.new]).mapIdx fun position =>
              Condition.without
                (beyond (beyond gone (.member "conditions")) (.index position))) := by
  have hnew (inner : Path → Bool) : Condition.new.without inner = Condition.new := by
    simp only [Condition.without, remade, ite_self]
  refine member_list_without hconditions ?_ fun _ _ _ hvalue helement =>
    Condition.json_without (own_members h hvalue helement)
  exact congrArg (fun c => [c]) (hnew _)

/-- The settings of an effect are read without omissible members as those of the effect without
them. -/
theorem settings_without {type : EffectType} (h : PartsAt Omissible gone (.object members))
    (hfits : ∀ setting ∈ type.settings, IfPresent members setting.1 setting.2.Form) :
    (∀ setting ∈ type.settings,
        IfPresent (Json.membersWithout members gone) setting.1 setting.2.Form) ∧
      settingsDescribed type (Json.membersWithout members gone) =
        (settingsDescribed type members).without gone := by
  -- Only the elements of the two lists may lose members; other settings go or stay as a whole.
  have hform {name : String} {form : Json → Prop} (hterms : name ≠ "terms")
      (hconditions : name ≠ "conditions") (hsetting : IfPresent members name form) :=
    (untouched h hterms hconditions).if_present hsetting
  have hread {α : Type} {name : String} (hterms : name ≠ "terms")
      (hconditions : name ≠ "conditions") (read : Json → α) (default : α) :=
    (untouched h hterms hconditions).or_else members read default
  cases type with
  | maths =>
      simp only [EffectType.settings, List.forall_mem_cons, Setting.Form] at hfits ⊢
      have hterms := terms_without h hfits.1
      simp [hterms, settingsDescribed, new, Effect.without, withoutFrom, Effect.type]
  | switch =>
      simp only [EffectType.settings, List.forall_mem_cons, Setting.Form] at hfits ⊢
      have hconditions := conditions_without h hfits.1
      simp [hform, hfits, hread, hconditions, settingsDescribed, new, Effect.without, withoutFrom,
        Effect.type]
  | _ =>
      simp only [EffectType.settings, List.forall_mem_cons, Setting.Form] at hfits ⊢
      simp [hform, hfits, hread, settingsDescribed, new, Effect.without, withoutFrom, Effect.type]

/-- An effect without omissible members is an effect, with these as they are first made. -/
theorem json_without {json : Json} (h : PartsAt Omissible gone json) (heffect : json.IsEffect) :
    (json.without gone).IsEffect ∧
      described (json.without gone) = (described json).without gone := by
  cases json with
  | object members =>
      obtain ⟨type, htype, hfits⟩ := heffect
      have hafter : Json.lookup? (Json.membersWithout members gone) "type" =
          some (.integer type.tag) := by
        rw [h.lookup_stays fun hgoes => hgoes rfl, htype]
        rfl
      show (Json.object (Json.membersWithout members gone)).IsEffect ∧
        described (.object (Json.membersWithout members gone)) = _
      rw [is_effect_iff hafter, described_eq hafter, described_eq htype]
      exact settings_without h hfits
  | _ => exact heffect.elim

end Effect

namespace Node

/-- A node without omissible members is a node, with these as they are first made. -/
theorem json_without {json : Json} {gone : Path → Bool} (h : PartsAt Omissible gone json)
    (hnode : json.IsNode) (hid : json.IdFits) :
    ((json.without gone).IsNode ∧ (json.without gone).IdFits) ∧
      described (json.without gone) = (described json).without gone := by
  cases json with
  | object members =>
      obtain ⟨⟨body, hbody, heffect⟩, hdelete, henabled⟩ := hnode
      have hwhole {name : String} (hname : name ≠ "value") : Untouched gone name :=
        h.untouched fun _ _ hinside => hname hinside.1
      have hwholeId : Untouched gone "id" := hwhole (by decide)
      have hwholeDelete : Untouched gone "toDelete" := hwhole (by decide)
      have hwholeEnabled : Untouched gone "enabled" := hwhole (by decide)
      have hstays : ¬Omissible [.member "value"] := by simp [Omissible]
      have hafter : Json.lookup? (Json.membersWithout members gone) "value" =
          some (body.without (beyond gone (.member "value"))) := by
        rw [h.lookup_stays hstays, hbody, Option.map_some]
      have hinside : PartsAt Effect.Omissible (beyond gone (.member "value")) body := by
        refine (h.inside_member hbody).mono fun path hpath => ?_
        cases path with
        | nil => exact absurd hpath hstays
        | cons step path => exact hpath.2
      obtain ⟨hform, hread⟩ := Effect.json_without hinside heffect
      refine ⟨⟨⟨⟨_, hafter, hform⟩, hwholeDelete.if_present hdelete,
        hwholeEnabled.if_present henabled⟩, hwholeId.if_present hid⟩, ?_⟩
      show ofFields (Json.membersWithout members gone) = (ofFields members).without gone
      -- An ID is remade as none before or after it is cut to 32 bits.
      have hid (id : Option Int) : (remade gone "id" none id).bind storedId =
          remade gone "id" none (id.bind storedId) := by
        unfold remade
        split <;> rfl
      have hbindings : ((Effect.described body).map Param.ofBinding).map (·.binding) =
          Effect.described body := by
        rw [Effect.map_map]
        exact Effect.map_id _
      unfold ofFields Node.without
      rw [Json.or_else_some hafter, Json.or_else_some hbody, hread, hwholeId.or_else,
        hwholeDelete.or_else, hwholeEnabled.or_else, hid]
      simp only [ofEffect, hbindings]
  | _ => exact hnode.elim

end Node

namespace Rack

/-- A rack without omissible members is a rack, with these as they are first made. -/
theorem json_without {json : Json} {gone : Path → Bool} (h : PartsAt Omissible gone json)
    (hrack : json.IsRack) (hids : json.IdsFit) :
    ((json.without gone).IsRack ∧ (json.without gone).IdsFit) ∧
      described (json.without gone) = (described json).without gone := by
  cases json with
  | object members =>
      obtain ⟨hname, nodes, heffects, hnodes⟩ := hrack
      have huntouched : Untouched gone "name" := by
        refine h.untouched fun step path hinside => ?_
        cases step with
        | member => exact hinside
        | index => exact absurd hinside.1 (by decide)
      have hafter : Json.lookup? (Json.membersWithout members gone) "effects" =
          some ((Json.array nodes).without (beyond gone (.member "effects"))) := by
        rw [h.lookup_stays (by simp [Omissible]), heffects, Option.map_some]
      have hleft : Json.IsListOf (fun json => json.IsNode ∧ json.IdFits)
            ((Json.array nodes).without (beyond gone (.member "effects"))) ∧
          ((Json.array nodes).without (beyond gone (.member "effects"))).elements.map
              Node.described =
            (nodes.map Node.described).mapIdx fun position =>
              Node.without (beyond (beyond gone (.member "effects")) (.index position)) := by
        refine list_without
          (fun node hnode => ⟨hnodes node hnode, hids nodes heffects node hnode⟩) ?_
        intro position node hposition hnode
        have hinside := ((h.inside_member heffects).inside hposition).mono fun _ hpath => hpath.2
        exact Node.json_without hinside hnode.1 hnode.2
      refine ⟨⟨⟨huntouched.if_present hname, _, hafter, fun node hnode => (hleft.1 node hnode).1⟩,
        ?_⟩, ?_⟩
      · intro elements helements node hnode
        obtain rfl : Json.elementsWithout nodes 0 (beyond gone (.member "effects")) = elements :=
          Json.array.inj (Option.some.inj (hafter.symm.trans helements))
        exact (hleft.1 node hnode).2
      · show ofFields (Json.membersWithout members gone) = (ofFields members).without gone
        unfold ofFields Rack.without
        rw [Json.or_else_some hafter, Json.or_else_some heffects, hleft.2, huntouched.or_else]
        rfl
  | _ => exact hrack.elim

end Rack

end SynthRack
