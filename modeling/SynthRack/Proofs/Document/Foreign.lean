import Mathlib
import SynthRack.Proofs.Json.Path
import SynthRack.Proofs.Document.Grammar

/-!
# Members that no reader knows

A foreign member is one with a name that its object has no use for. `Rack.Foreign` gives the paths
of the foreign members of a document, level by level; the names of what only a compiled rack has are
foreign everywhere (`private_names_foreign`). Foreign members count for nothing: `Ignores` says so of
a form and a reading, and is kept from scalars through records and lists to `Rack.ignores`.
-/

namespace SynthRack

open Json (Path Step orElse beyond IfPresent)

/-! ## Paths to foreign members -/

/-- A path to a member of an object that has none of the names, or a path inside a named one. -/
def InObject (names : List String) (inside : String → Path → Prop) : Path → Prop
  | [.member name] => name ∉ names
  | .member name :: path => name ∈ names ∧ inside name path
  | _ => False

/-- A path to a member of a record that has none of the names, or a path inside a named one. A
record that is listed in an array has no other members. -/
def InRecord (names : List String) (inside : String → Path → Prop) : Path → Prop
  | .index position :: path => ∃ name, names[position]? = some name ∧ inside name path
  | path => InObject names inside path

/-- A path inside an element of an array. -/
def InElement (inside : Path → Prop) : Path → Prop
  | .index _ :: path => inside path
  | _ => False

/-- Foreign members of a parameter. -/
def Binding.Foreign : Path → Prop := InRecord ["value", "regIdx", "effectId"] fun _ _ => False

/-- Foreign members of a term. -/
def Maths.TermForeign : Path → Prop :=
  InRecord ["coefficients"] fun _ => InElement Binding.Foreign

/-- Foreign members of a condition. -/
def Condition.Foreign : Path → Prop :=
  InRecord ["a", "operator", "b", "then"] fun name path =>
    name ≠ "operator" ∧ Binding.Foreign path

/-- Foreign members of a setting. -/
def Setting.Foreign : Setting → Path → Prop
  | parameter => Binding.Foreign
  | waveform => fun _ => False
  | terms => InElement Maths.TermForeign
  | conditions => InElement Condition.Foreign

/-- Foreign members of an effect of a kind. -/
def EffectType.Foreign (type : EffectType) : Path → Prop :=
  InObject ("type" :: type.settings.map (·.1)) fun name path =>
    ∃ setting, (name, setting) ∈ type.settings ∧ setting.Foreign path

/-- Foreign members of an effect. -/
def Effect.Foreign (json : Json) (path : Path) : Prop :=
  ∃ type : EffectType, json.at? [.member "type"] = some (.integer type.tag) ∧ type.Foreign path

/-- Foreign members of a node. -/
def Node.Foreign (json : Json) : Path → Prop :=
  InObject ["id", "toDelete", "enabled", "value"] fun name path =>
    name = "value" ∧ ∃ body, json.at? [.member "value"] = some body ∧ Effect.Foreign body path

/-- Foreign members of a rack. -/
def Rack.Foreign (json : Json) : Path → Prop :=
  InObject ["name", "effects"] fun name path =>
    name = "effects" ∧ ∃ position node rest, path = .index position :: rest ∧
      json.at? [.member "effects", .index position] = some node ∧ Node.Foreign node rest

/-- A name that is foreign to every object of a document. -/
structure ForeignName (name : String) : Prop where
  binding : Binding.Foreign [.member name]
  term : Maths.TermForeign [.member name]
  condition : Condition.Foreign [.member name]
  effect : ∀ json type, json.at? [.member "type"] = some (.integer (EffectType.tag type)) →
    Effect.Foreign json [.member name]
  node : ∀ json, Node.Foreign json [.member name]
  rack : ∀ json, Rack.Foreign json [.member name]

/-- What only a compiled rack has: registers and buffers, positions and the template. -/
def privateNames : List String :=
  ["t", "stage", "dst", "cursor", "buffer", "z1", "z2", "reg", "positions", "template"]

/-- No object of a document has a member for what only a compiled rack has. -/
theorem private_names_foreign : ∀ name ∈ privateNames, ForeignName name := by
  intro name hname
  have hother (names : List String) (hnames : ∀ name ∈ privateNames, name ∉ names) :
      name ∉ names := hnames name hname
  have hsettings (type : EffectType) : name ∉ "type" :: type.settings.map (·.1) :=
    hother _ (by cases type <;> decide)
  exact {
    binding := hother ["value", "regIdx", "effectId"] (by decide)
    term := hother ["coefficients"] (by decide)
    condition := hother ["a", "operator", "b", "then"] (by decide)
    effect := fun _ type htype => ⟨type, htype, hsettings type⟩
    node := fun _ => hother ["id", "toDelete", "enabled", "value"] (by decide)
    rack := fun _ => hother ["name", "effects"] (by decide) }

/-! ## Foreign members are ignored -/

/-- All places lie within some paths. -/
def Within (gone : Path → Bool) (inside : Path → Prop) : Prop :=
  ∀ path, gone path = true → inside path

/-- A part is as it was but for foreign members inside. -/
def Alike (foreign : Path → Prop) (after before : Option Json) : Prop :=
  ∃ gone, Within gone foreign ∧ after = before.map (·.without gone)

/-- Parts that are alike but for some foreign members are alike but for more of them. -/
theorem Alike.mono {narrow wide : Path → Prop} {after before : Option Json}
    (h : Alike narrow after before) (hsubset : ∀ path, narrow path → wide path) :
    Alike wide after before := by
  obtain ⟨gone, hgone, hafter⟩ := h
  exact ⟨gone, fun path hpath => hsubset path (hgone path hpath), hafter⟩

/-- Where nothing is foreign, a part is as it was. -/
theorem Alike.eq {after before : Option Json} (h : Alike (fun _ => False) after before) :
    after = before := by
  obtain ⟨gone, hgone, rfl⟩ := h
  have hself (json : Json) : json.without gone = json :=
    Json.without_eq_self json fun step path => eq_false_of_ne_true (hgone (step :: path))
  simp only [hself, Option.map_id']

section

variable {after before : List (String × Json)} {name : String}

/-- A member that nothing is taken out of has its form after as before. -/
theorem Alike.if_present
    (h : Alike (fun _ => False) (Json.lookup? after name) (Json.lookup? before name))
    (form : Json → Prop) : IfPresent after name form ↔ IfPresent before name form := by
  unfold IfPresent
  rw [h.eq]

/-- A member that nothing is taken out of is read after as before. -/
theorem Alike.or_else {α : Type}
    (h : Alike (fun _ => False) (Json.lookup? after name) (Json.lookup? before name))
    (read : Json → α) (default : α) :
    orElse after name read default = orElse before name read default := by
  unfold Json.orElse
  rw [h.eq]

end

section

variable {gone : Path → Bool} {elements : List Json}

/-- If each element keeps its form without the foreign members in it, so do all. -/
theorem forall_without_iff {form : Json → Prop}
    (h : ∀ position element, elements[position]? = some element →
      (form (element.without (beyond gone (.index position))) ↔ form element)) :
    (∀ element ∈ Json.elementsWithout elements 0 gone, form element) ↔
      ∀ element ∈ elements, form element := by
  simp only [Json.elements_without, List.mem_mapIdx, Nat.zero_add]
  constructor
  · intro hforms element helement
    obtain ⟨position, hlt, rfl⟩ := List.getElem_of_mem helement
    exact (h _ _ (List.getElem?_eq_getElem hlt)).1 (hforms _ ⟨position, hlt, rfl⟩)
  · rintro hforms _ ⟨position, hlt, rfl⟩
    exact (h _ _ (List.getElem?_eq_getElem hlt)).2 (hforms _ (List.getElem_mem hlt))

/-- If each element is read alike without the foreign members in it, so is the list. -/
theorem map_without_eq {α : Type} {read : Json → α}
    (h : ∀ position element, elements[position]? = some element →
      read (element.without (beyond gone (.index position))) = read element) :
    (Json.elementsWithout elements 0 gone).map read = elements.map read := by
  rw [Json.elements_without]
  refine List.ext_getElem? fun position => ?_
  simp only [List.getElem?_map, List.getElem?_mapIdx, Option.map_map, Nat.zero_add]
  exact Option.map_congr fun element helement => h position element helement

end

/-- A form and a reading do not depend on foreign members. -/
structure Ignores {α : Type} (form : Json → Prop) (read : Json → α) (foreign : Path → Prop) :
    Prop where
  form_iff : ∀ {gone : Path → Bool} {json : Json}, Within gone foreign →
    (form (json.without gone) ↔ form json)
  read_eq : ∀ {gone : Path → Bool} {json : Json}, Within gone foreign →
    read (json.without gone) = read json

namespace Ignores

variable {α : Type} {form : Json → Prop} {read : Json → α} {foreign : Path → Prop}

section

variable {after before : List (String × Json)} {name : String}

/-- A member that differs in what its form ignores has the form after as before. -/
theorem if_present (h : Ignores form read foreign)
    (halike : Alike foreign (Json.lookup? after name) (Json.lookup? before name)) :
    IfPresent after name form ↔ IfPresent before name form := by
  obtain ⟨gone, hgone, hafter⟩ := halike
  unfold IfPresent
  rw [hafter]
  cases Json.lookup? before name with
  | none => simp
  | some value => simp [h.form_iff hgone]

/-- A member that differs in what its reader ignores is read after as before. -/
theorem or_else (h : Ignores form read foreign)
    (halike : Alike foreign (Json.lookup? after name) (Json.lookup? before name)) (default : α) :
    orElse after name read default = orElse before name read default := by
  obtain ⟨gone, hgone, hafter⟩ := halike
  unfold Json.orElse
  rw [hafter]
  cases Json.lookup? before name with
  | none => rfl
  | some value => exact h.read_eq hgone

end

/-- A list ignores what each of its elements ignores. -/
theorem list (h : Ignores form read foreign) :
    Ignores (Json.IsListOf form) (·.elements.map read) (InElement foreign) := by
  have hinside {gone : Path → Bool} (hgone : Within gone (InElement foreign)) (position : Nat) :
      Within (beyond gone (.index position)) foreign := fun path hpath => hgone _ hpath
  constructor
  · intro gone json hgone
    cases json with
    | array elements => exact forall_without_iff fun _ _ _ => h.form_iff (hinside hgone _)
    | _ => rfl
  · intro gone json hgone
    cases json with
    | array elements => exact map_without_eq fun _ _ _ => h.read_eq (hinside hgone _)
    | _ => rfl

end Ignores

section

variable {names : List String} {inside : String → Path → Prop} {gone : Path → Bool} {name : String}

/-- A named member of an object loses only what is foreign inside it. -/
theorem alike_members (hgone : ∀ name path, gone (.member name :: path) = true →
      InObject names inside (.member name :: path)) (hname : name ∈ names)
    (members : List (String × Json)) : Alike (inside name)
      (Json.lookup? (Json.membersWithout members gone) name) (Json.lookup? members name) := by
  have hstays : gone [.member name] = false :=
    eq_false_of_ne_true fun hgoes => hgone name [] hgoes hname
  refine ⟨beyond gone (.member name), ?_, ?_⟩
  · intro path hpath
    cases path with
    | nil => exact absurd hname (hgone name [] hpath)
    | cons step path => exact (hgone name (step :: path) hpath).2
  · exact Json.lookup_stays hstays members

/-- A member of a record that is listed loses only what is foreign inside it. -/
theorem alike_elements (hnames : names.Nodup) (hgone : Within gone (InRecord names inside))
    (hname : name ∈ names) (elements : List Json) : Alike (inside name)
      (Json.lookup? (names.zip (Json.elementsWithout elements 0 gone)) name)
      (Json.lookup? (names.zip elements) name) := by
  obtain ⟨index, hindex⟩ := List.mem_iff_getElem?.1 hname
  refine ⟨beyond gone (.index index), ?_, ?_⟩
  · intro path hpath
    obtain ⟨other, hother, hinside⟩ := hgone _ hpath
    rw [hindex] at hother
    exact Option.some.inj hother ▸ hinside
  · rw [Json.lookup_zip hnames hindex, Json.lookup_zip hnames hindex, Json.elements_without,
      List.getElem?_mapIdx, Nat.zero_add]

/-- A record ignores what its named members ignore, and all members with other names. -/
theorem Ignores.record {α : Type} {fits : List (String × Json) → Prop}
    {read : List (String × Json) → α} (hnames : names.Nodup)
    (h : ∀ after before, (∀ name ∈ names, Alike (inside name) (Json.lookup? after name)
      (Json.lookup? before name)) → (fits after ↔ fits before) ∧ read after = read before) :
    Ignores (Json.IsRecord names fits) (fun json => read (json.fields names))
      (InRecord names inside) := by
  have hlength (elements : List Json) (gone : Path → Bool) :
      (Json.elementsWithout elements 0 gone).length = elements.length := by
    rw [Json.elements_without, List.length_mapIdx]
  have hobject {gone : Path → Bool} (members : List (String × Json))
      (hgone : Within gone (InRecord names inside)) :=
    h (Json.membersWithout members gone) members fun name hname =>
      alike_members (fun _ _ hpath => hgone _ hpath) hname members
  have harray {gone : Path → Bool} (elements : List Json)
      (hgone : Within gone (InRecord names inside)) :=
    h _ _ fun name hname => alike_elements hnames hgone hname elements
  constructor
  · intro gone json hgone
    cases json with
    | object members =>
        simpa [Json.without, Json.IsRecord, Json.record?] using (hobject members hgone).1
    | array elements =>
        have hfits := (harray elements hgone).1
        simpa [Json.without, Json.IsRecord, Json.record?, hlength] using fun _ => hfits
    | _ => rfl
  · intro gone json hgone
    cases json with
    | object members => exact (hobject members hgone).2
    | array elements =>
        simp only [Json.without, Json.fields, Json.record?, hlength]
        split
        · exact (harray elements hgone).2
        · rfl
    | _ => rfl

end

/-- A parameter ignores members with other names than its own. -/
theorem Binding.ignores : Ignores Json.IsParameter described Foreign := by
  refine .record (by decide) ?_
  intro after before h
  have hvalue := h "value" (by decide)
  have hinput := h "regIdx" (by decide)
  have hid := h "effectId" (by decide)
  constructor
  · rw [hvalue.if_present, hinput.if_present, hid.if_present]
  · unfold ofFields
    rw [hvalue.or_else, hinput.or_else, hid.or_else]

/-- A term ignores foreign members, its own and those of its coefficients. -/
theorem Maths.term_ignores : Ignores Json.IsTerm termDescribed TermForeign := by
  refine .record (by decide) ?_
  intro after before h
  have hcoefficients := h "coefficients" (by decide)
  have hlist := Binding.ignores.list
  exact ⟨hlist.if_present hcoefficients, hlist.or_else hcoefficients _⟩

/-- A condition ignores foreign members, its own and those of its parameters. -/
theorem Condition.ignores : Ignores Json.IsCondition described Foreign := by
  have hparam := Binding.ignores
  refine .record (by decide) ?_
  intro after before h
  have ha := (h "a" (by decide)).mono fun _ => And.right
  have hoperator := (h "operator" (by decide)).mono fun _ hinside => hinside.1 rfl
  have hb := (h "b" (by decide)).mono fun _ => And.right
  have hresult := (h "then" (by decide)).mono fun _ => And.right
  constructor
  · rw [hparam.if_present ha, hoperator.if_present, hparam.if_present hb, hparam.if_present hresult]
  · unfold ofFields
    rw [hparam.or_else ha, hoperator.or_else, hparam.or_else hb, hparam.or_else hresult]

namespace Effect

/-- What settings describe does not depend on foreign members. -/
theorem settings_ignore {type : EffectType} {after before : List (String × Json)}
    (h : ∀ setting ∈ type.settings, Alike setting.2.Foreign (Json.lookup? after setting.1)
      (Json.lookup? before setting.1)) :
    ((∀ setting ∈ type.settings, IfPresent after setting.1 setting.2.Form) ↔
      ∀ setting ∈ type.settings, IfPresent before setting.1 setting.2.Form) ∧
    settingsDescribed type after = settingsDescribed type before := by
  constructor
  · refine forall₂_congr fun setting hsetting => ?_
    have halike := h setting hsetting
    obtain ⟨name, setting⟩ := setting
    cases setting with
    | parameter => exact Binding.ignores.if_present halike
    | waveform => exact Alike.if_present halike _
    | terms => exact Maths.term_ignores.list.if_present halike
    | conditions => exact Condition.ignores.list.if_present halike
  · have hparam {name : String} (halike : Alike Binding.Foreign _ _) (default : Binding) :
        orElse after name Binding.described default = orElse before name _ default :=
      Binding.ignores.or_else halike default
    have hwaveform (halike : Alike (fun _ => False) _ _) (default : Waveform) :
        orElse after "waveform" Waveform.described default = orElse before _ _ default :=
      Alike.or_else halike _ default
    have hterms (halike : Alike (InElement Maths.TermForeign) _ _) (default : List (List Binding)) :
        orElse after "terms" (·.elements.map Maths.termDescribed) default =
          orElse before _ _ default :=
      Maths.term_ignores.list.or_else halike default
    have hconditions (halike : Alike (InElement Condition.Foreign) _ _)
        (default : List (Condition Binding)) :
        orElse after "conditions" (·.elements.map Condition.described) default =
          orElse before _ _ default :=
      Condition.ignores.list.or_else halike default
    cases type <;>
      simp only [EffectType.settings, List.forall_mem_cons, Setting.Foreign] at h <;>
      simp [settingsDescribed, new, hparam, hwaveform, hterms, hconditions, h]

/-- No two settings of a kind have one name. -/
theorem settings_nodup (type : EffectType) : (type.settings.map (·.1)).Nodup := by
  cases type <;> decide

/-- Foreign members change neither whether a value is an effect nor which one. -/
theorem ignores {json : Json} {gone : Path → Bool} (hgone : Within gone (Foreign json)) :
    ((json.without gone).IsEffect ↔ json.IsEffect) ∧
      described (json.without gone) = described json := by
  by_cases htype : ∃ type : EffectType, json.at? [.member "type"] = some (.integer type.tag)
  · obtain ⟨type, htype⟩ := htype
    obtain ⟨members, rfl⟩ : ∃ members, json = .object members := by
      cases json with
      | object members => exact ⟨members, rfl⟩
      | _ => cases htype
    have hbefore : Json.lookup? members "type" = some (.integer type.tag) := by
      simpa [Json.at?] using htype
    have hplace : Within gone type.Foreign := by
      intro path hpath
      obtain ⟨other, hother, hforeign⟩ := hgone path hpath
      rw [htype] at hother
      obtain rfl := number_inj.1 (Option.some.inj hother)
      exact hforeign
    have halike {name : String} (hname : name ∈ "type" :: type.settings.map (·.1)) :=
      alike_members (fun _ _ hpath => hplace _ hpath) hname members
    have hafter : Json.lookup? (Json.membersWithout members gone) "type" =
        some (.integer type.tag) := by
      obtain ⟨inner, -, hlookup⟩ := halike (List.mem_cons_self ..)
      rw [hlookup, hbefore]
      rfl
    show ((Json.object (Json.membersWithout members gone)).IsEffect ↔ _) ∧
      described (.object (Json.membersWithout members gone)) = _
    rw [is_effect_iff hafter, is_effect_iff hbefore, described_eq hafter, described_eq hbefore]
    refine settings_ignore fun setting hsetting => ?_
    refine (halike (List.mem_cons_of_mem _ (List.mem_map_of_mem hsetting))).mono ?_
    rintro path ⟨other, hother, hforeign⟩
    have hsame := List.inj_on_of_nodup_map (settings_nodup type) hother hsetting rfl
    exact hsame ▸ hforeign
  · have hself : json.without gone = json := by
      refine Json.without_eq_self json fun step path => eq_false_of_ne_true ?_
      intro hpath
      obtain ⟨type, hnamed, -⟩ := hgone _ hpath
      exact htype ⟨type, hnamed⟩
    rw [hself]
    exact ⟨Iff.rfl, rfl⟩

/-- The same of an effect that is a member of another value. -/
theorem ignores_member {after before : Option Json}
    (h : Alike (fun path => ∃ body, before = some body ∧ Foreign body path) after before) :
    ((∃ body, after = some body ∧ body.IsEffect) ↔ ∃ body, before = some body ∧ body.IsEffect) ∧
      ∀ default, after.elim default described = before.elim default described := by
  obtain ⟨gone, hgone, rfl⟩ := h
  cases before with
  | none => exact ⟨Iff.rfl, fun _ => rfl⟩
  | some body =>
      have hinside : Within gone (Foreign body) := by
        intro path hpath
        obtain ⟨_, hbody, hforeign⟩ := hgone path hpath
        exact Option.some.inj hbody ▸ hforeign
      simp [ignores hinside]

end Effect

/-- Foreign members change neither whether a value is a node nor which one. -/
theorem Node.ignores {json : Json} {gone : Path → Bool} (hgone : Within gone (Foreign json)) :
    ((json.without gone).IsNode ↔ json.IsNode) ∧ ((json.without gone).IdFits ↔ json.IdFits) ∧
      described (json.without gone) = described json := by
  cases json with
  | object members =>
      have halike {name : String} (hname : name ∈ ["id", "toDelete", "enabled", "value"]) :=
        alike_members (fun _ _ hpath => hgone _ hpath) hname members
      have hflag {name : String} (hname : name ∈ ["id", "toDelete", "enabled", "value"])
          (hother : name ≠ "value") := (halike hname).mono fun _ hinside => hother hinside.1
      have hid := hflag (by decide : "id" ∈ _) (by decide)
      have hdelete := hflag (by decide : "toDelete" ∈ _) (by decide)
      have henabled := hflag (by decide : "enabled" ∈ _) (by decide)
      have hbody := Effect.ignores_member <| (halike (by decide : "value" ∈ _)).mono <| by
        rintro path ⟨-, body, hbody, hforeign⟩
        exact ⟨body, by simpa [Json.at?] using hbody, hforeign⟩
      refine ⟨?_, hid.if_present _, ?_⟩
      · show _ ∧ _ ∧ _ ↔ _ ∧ _ ∧ _
        rw [hbody.1, hdelete.if_present, henabled.if_present]
      · show ofFields (Json.membersWithout members gone) = ofFields members
        unfold ofFields Json.orElse
        rw [hbody.2, hid.eq, hdelete.eq, henabled.eq]
  | _ => exact ⟨Iff.rfl, Iff.rfl, rfl⟩

/-- The same of the nodes that are the elements of a member of another value. -/
theorem Node.ignores_elements {after before : Option Json}
    (h : Alike (fun path => ∃ position node rest, path = .index position :: rest ∧
      before.bind (·.at? [.index position]) = some node ∧ Foreign node rest) after before) :
    ((∃ nodes, after = some (.array nodes) ∧ ∀ node ∈ nodes, node.IsNode) ↔
        ∃ nodes, before = some (.array nodes) ∧ ∀ node ∈ nodes, node.IsNode) ∧
      ((∀ nodes, after = some (.array nodes) → ∀ node ∈ nodes, node.IdFits) ↔
        ∀ nodes, before = some (.array nodes) → ∀ node ∈ nodes, node.IdFits) ∧
      ∀ default, after.elim default (·.elements.map described) =
        before.elim default (·.elements.map described) := by
  obtain ⟨gone, hgone, rfl⟩ := h
  cases before with
  | none => exact ⟨Iff.rfl, Iff.rfl, fun _ => rfl⟩
  | some value =>
      cases value with
      | array nodes =>
          have hinside (position : Nat) (node : Json) (hnode : nodes[position]? = some node) :
              Within (beyond gone (.index position)) (Foreign node) := by
            intro path hpath
            obtain ⟨_, other, _, hplace, hother, hforeign⟩ := hgone _ hpath
            cases hplace
            have hsame : node = other := by simpa [Json.at?, hnode] using hother
            exact hsame ▸ hforeign
          simp only [Option.map_some, Json.without, Option.some.injEq, Json.array.injEq,
            exists_eq_left', forall_eq', Option.elim_some, Json.elements, forall_const]
          exact ⟨forall_without_iff fun _ _ hnode => (ignores (hinside _ _ hnode)).1,
            forall_without_iff fun _ _ hnode => (ignores (hinside _ _ hnode)).2.1,
            map_without_eq fun _ _ hnode => (ignores (hinside _ _ hnode)).2.2⟩
      | _ => simp [Json.without, Json.elements]

namespace Rack

/-- Foreign members change neither whether a value is a rack nor which one. -/
theorem ignores {json : Json} {gone : Path → Bool} (hgone : Within gone (Foreign json)) :
    ((json.without gone).IsRack ↔ json.IsRack) ∧ ((json.without gone).IdsFit ↔ json.IdsFit) ∧
      described (json.without gone) = described json := by
  cases json with
  | object members =>
      have halike {name : String} (hname : name ∈ ["name", "effects"]) :=
        alike_members (fun _ _ hpath => hgone _ hpath) hname members
      have hname : Alike (fun _ => False) _ _ :=
        (halike (by decide : "name" ∈ _)).mono fun _ hinside => absurd hinside.1 (by decide)
      have hnodes := Node.ignores_elements <| (halike (by decide : "effects" ∈ _)).mono <| by
        rintro path ⟨-, position, node, rest, hpath, hnode, hforeign⟩
        refine ⟨position, node, rest, hpath, ?_, hforeign⟩
        simpa [Json.at?] using hnode
      refine ⟨?_, hnodes.2.1, ?_⟩
      · exact and_congr (hname.if_present _) hnodes.1
      · show ofFields (Json.membersWithout members gone) = ofFields members
        unfold ofFields Json.orElse
        rw [hname.eq, hnodes.2.2]
  | _ => exact ⟨Iff.rfl, Iff.rfl, rfl⟩

end Rack

end SynthRack
