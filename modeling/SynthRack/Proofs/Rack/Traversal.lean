import Mathlib
import SynthRack.Rack.Effect

/-!
# Traversing the parameters of an effect

An effect is its form, which is what is left when every parameter is forgotten, together with the
list of its parameters. `Effect.ext_form` puts the two back together, so a fact about `map` or
`mapM` is proved on lists and carried over to effects. `Effect.params_map_m` says that a traversal
visits the parameters in the order of `params`, and `Effect.form_map_m` that it changes nothing
else.
-/

namespace SynthRack

variable {P Q R : Type}

namespace Condition

/-- A condition without its parameters. -/
def form (c : Condition P) : Condition Unit := c.map fun _ => ()

/-- Mapping a condition twice is mapping it once. -/
theorem map_map (g : Q → R) (f : P → Q) (c : Condition P) :
    (c.map f).map g = c.map fun p => g (f p) := rfl

/-- The parameters of a mapped condition are its mapped parameters. -/
@[simp] theorem params_map (f : P → Q) (c : Condition P) : (c.map f).params = c.params.map f := rfl

/-- Only the parameters of a condition matter to what it is mapped to. -/
theorem map_congr {f g : P → Q} {c : Condition P} (h : ∀ p ∈ c.params, f p = g p) :
    c.map f = c.map g := by
  simp only [params, List.forall_mem_cons] at h
  simp only [map, h.1, h.2.1, h.2.2.1]

/-- A condition is its comparison and its parameters. -/
theorem ext_form {c d : Condition P} (hform : c.form = d.form) (hparams : c.params = d.params) :
    c = d := by
  cases c
  cases d
  simp_all [form, map, params]

/-- A traversal of a condition is a traversal of the list of its parameters. -/
theorem params_map_m {m : Type → Type} [Monad m] [LawfulMonad m] (f : P → m Q) (c : Condition P) :
    params <$> c.mapM f = c.params.mapM f := by
  simp [mapM, params, List.mapM_cons]

/-- A traversal of a condition keeps its comparison. -/
theorem form_map_m {σ : Type} (f : P → StateM σ Q) (c : Condition P) (s : σ) :
    ((c.mapM f).run s).1.form = c.form := rfl

end Condition

namespace Effect

/-- An effect without its parameters. -/
def form (e : Effect P) : Effect Unit := e.map fun _ => ()

/-! ## Rebuilding -/

/-- Mapping an effect twice is mapping it once. -/
@[simp] theorem map_map (g : Q → R) (f : P → Q) (e : Effect P) :
    (e.map f).map g = e.map fun p => g (f p) := by
  cases e <;> simp [map, Condition.map_map, Function.comp_def]

/-- Mapping every parameter to itself changes nothing. -/
@[simp] theorem map_id (e : Effect P) : (e.map fun p => p) = e := by
  cases e <;> simp [map, Condition.map]

/-- The parameters of a mapped effect are its mapped parameters. -/
@[simp] theorem params_map (f : P → Q) (e : Effect P) : (e.map f).params = e.params.map f := by
  cases e <;> simp [map, params, List.map_flatten, List.flatMap_map, List.map_flatMap]

/-- Mapping parameters keeps the kind. -/
@[simp] theorem type_map (f : P → Q) (e : Effect P) : (e.map f).type = e.type := by
  cases e <;> rfl

/-- Mapping parameters keeps all but the parameters. -/
@[simp] theorem form_map (f : P → Q) (e : Effect P) : (e.map f).form = e.form := by
  simp [form]

/-- The kind of an effect does not depend on its parameters. -/
theorem type_form (e : Effect P) : e.form.type = e.type := type_map _ e

/-- Only the values at the parameters of the effect count for `map`. -/
theorem map_congr {f g : P → Q} {e : Effect P} (h : ∀ p ∈ e.params, f p = g p) :
    e.map f = e.map g := by
  cases e with
  | maths m =>
      have hterm (term : List P) (hterm : term ∈ m.terms) : term.map f = term.map g :=
        List.map_congr_left fun p hp => h p (List.mem_flatten.2 ⟨term, hterm, hp⟩)
      simp only [map, List.map_congr_left hterm]
  | switch s =>
      have hcondition (c : Condition P) (hc : c ∈ s.conditions) : c.map f = c.map g :=
        Condition.map_congr fun p hp =>
          h p (List.mem_append_left _ (List.mem_flatMap.2 ⟨c, hc, hp⟩))
      have hfallback : f s.fallback = g s.fallback := h _ (by simp [params])
      simp only [map, List.map_congr_left hcondition, hfallback]
  | _ => simp_all [map, params]

/-- Conditions of equal forms with the same parameters, in one list, are the same. -/
theorem conditions_ext {cs ds : List (Condition P)} {x y : P}
    (hform : cs.map Condition.form = ds.map Condition.form)
    (hparams : cs.flatMap Condition.params ++ [x] = ds.flatMap Condition.params ++ [y]) :
    cs = ds ∧ x = y := by
  induction cs generalizing ds with
  | nil =>
      obtain rfl : ds = [] := by simpa using hform.symm
      exact ⟨rfl, by simpa using hparams⟩
  | cons c cs ih =>
      obtain ⟨d, ds, rfl⟩ : ∃ d ds', ds = d :: ds' := by
        cases ds with
        | nil => simp at hform
        | cons d ds => exact ⟨d, ds, rfl⟩
      simp only [List.map_cons, List.cons.injEq] at hform
      simp only [List.flatMap_cons, List.append_assoc] at hparams
      obtain ⟨hhead, htail⟩ := List.append_inj hparams rfl
      obtain ⟨rfl, hlast⟩ := ih hform.2 htail
      exact ⟨by rw [Condition.ext_form hform.1 hhead], hlast⟩

/-- An effect is determined by its form and its parameters. -/
theorem ext_form {e d : Effect P} (hform : e.form = d.form) (hparams : e.params = d.params) :
    e = d := by
  cases e <;> cases d <;> simp only [form, map, reduceCtorEq, maths.injEq, switch.injEq] at hform
  case maths.maths m n =>
    have hlengths : m.terms.map List.length = n.terms.map List.length := by
      simpa [Function.comp_def] using congrArg (List.map List.length) (Maths.mk.inj hform)
    have hterms : m.terms = n.terms := (List.eq_iff_flatten_eq).2 ⟨hparams, hlengths⟩
    cases m
    cases n
    simp_all
  case switch.switch s t =>
    obtain ⟨hconditions, hfallback⟩ :=
      conditions_ext (Switch.mk.inj hform).1 hparams
    cases s
    cases t
    simp_all
  all_goals simp_all [params]
  all_goals rename_i a b; cases a; cases b; simp_all

/-! ## Defaults -/

/-- Dropping the defaults that were put to the parameters leaves the effect. -/
@[simp] theorem with_defaults_map_fst (e : Effect P) : (e.withDefaults.map fun p => p.1) = e := by
  cases e <;> simp [withDefaults, map, Condition.map, Function.comp_def]

/-- Putting defaults to the parameters keeps all but the parameters. -/
@[simp] theorem form_with_defaults (e : Effect P) : e.withDefaults.form = e.form := by
  cases e <;> simp [withDefaults, form, map, Condition.map, Function.comp_def]

/-- Putting defaults to the parameters keeps the kind. -/
@[simp] theorem type_with_defaults (e : Effect P) : e.withDefaults.type = e.type := by
  cases e <;> rfl

/-- The default of a parameter does not depend on what the parameter is. -/
theorem with_defaults_map (f : P → Q) (e : Effect P) :
    (e.map f).withDefaults = e.withDefaults.map fun p => (f p.1, p.2) := by
  cases e <;> simp [withDefaults, map, Condition.map, Function.comp_def]

/-- The defaults of parameters that have defaults are the same. -/
theorem with_defaults_with_defaults (e : Effect P) :
    e.withDefaults.withDefaults = e.withDefaults.map fun p => (p, p.2) := by
  cases e <;> simp [withDefaults, map, Condition.map, Function.comp_def]

/-- The parameters that stand with their defaults are those of the effect. -/
theorem map_fst_params_with_defaults (e : Effect P) :
    e.withDefaults.params.map Prod.fst = e.params := by
  rw [← params_map]
  exact congrArg params e.with_defaults_map_fst

/-- The parameters are those that have a default. -/
theorem mem_params_iff {e : Effect P} {param : P} :
    param ∈ e.params ↔ ∃ default, (param, default) ∈ e.withDefaults.params := by
  rw [← map_fst_params_with_defaults]
  simp

/-! ## Traversing -/

section Monads

variable {m : Type → Type} [Monad m] [LawfulMonad m]

/-- Traversing lists one after another is traversing them joined. -/
theorem map_m_flatten (f : P → m Q) (lists : List (List P)) :
    List.flatten <$> lists.mapM (·.mapM f) = lists.flatten.mapM f := by
  induction lists with
  | nil => simp
  | cons list lists ih => simp [List.mapM_cons, List.mapM_append, ← ih, map_bind]

/-- A traversal of conditions is a traversal of the list of their parameters. -/
theorem map_m_conditions (f : P → m Q) (conditions : List (Condition P)) :
    List.flatMap Condition.params <$> conditions.mapM (·.mapM f) =
      (conditions.flatMap Condition.params).mapM f := by
  induction conditions with
  | nil => simp
  | cons c conditions ih =>
      simp [List.mapM_cons, List.mapM_append, ← ih, ← Condition.params_map_m, map_bind]

/-- A traversal visits the parameters in the order of `params`. -/
theorem params_map_m (f : P → m Q) (e : Effect P) : params <$> e.mapM f = e.params.mapM f := by
  cases e with
  | maths e => simp [mapM, params, ← map_m_flatten, Functor.map_map]
  | switch s => simp [mapM, params, List.mapM_append, ← map_m_conditions]
  | _ => simp [mapM, params, List.mapM_cons]

end Monads

section States

variable {σ : Type}

/-- What a traversal of a list leaves is found element by element, when it does not depend on the
state. -/
theorem map_run_map_m {α β γ : Type} {f : α → StateM σ β} {view : β → γ} {expected : α → γ}
    (h : ∀ a s, view ((f a).run s).1 = expected a) (as : List α) (s : σ) :
    ((as.mapM f).run s).1.map view = as.map expected := by
  induction as generalizing s with
  | nil => rfl
  | cons a as ih =>
      rw [List.mapM_cons]
      exact congrArg₂ List.cons (h a s) (ih _)

/-- A traversal with a state keeps the form. -/
theorem form_map_m (f : P → StateM σ Q) (e : Effect P) (s : σ) :
    ((e.mapM f).run s).1.form = e.form := by
  cases e with
  | maths e =>
      have hterm (term : List P) (s : σ) :
          ((term.mapM f).run s).1.map (fun _ => ()) = term.map fun _ => () :=
        map_run_map_m (fun _ _ => rfl) term s
      exact congrArg (fun terms => maths ⟨terms⟩) (map_run_map_m hterm e.terms s)
  | switch e =>
      exact congrArg (fun conditions => switch ⟨conditions, ()⟩)
        (map_run_map_m (Condition.form_map_m f) e.conditions s)
  | _ => rfl

/-- The parameters after a traversal, and the state it ends in. -/
theorem run_map_m (f : P → StateM σ Q) (e : Effect P) (s : σ) :
    (((e.mapM f).run s).1.params, ((e.mapM f).run s).2) = (e.params.mapM f).run s := by
  rw [← params_map_m]
  rfl

end States

end Effect

end SynthRack
