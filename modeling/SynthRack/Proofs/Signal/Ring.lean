import Mathlib
import SynthRack.Signal.DelayLine

/-!
# A ring of samples is a delay

A tick reduces its cursor by the length of that very tick, so another length moves it somewhere else
in the ring. `Remembers` says which past inputs lie behind the cursor for one length: every tick of
this length adds its input (`Remembers.tick`), and what is as many ticks old as the ring is long comes
out next. Nothing has to be known of the ring to begin with, so stale contents and stale cursors are
forgotten after one round: `is_delay`.
-/

namespace SynthRack

namespace DelayLine

/-- What a tick is given besides the cursor. -/
structure Tick where
  input : Float32
  /-- The length of the delay in samples. -/
  length : Nat
  deriving DecidableEq

/-- How much of the ring is used for a length. -/
def effective (line : DelayLine) (length : Nat) : Nat := min length line.capacity

/-- The samples that come out of ticks one after another, each of them at the cursor that the one
before returned. -/
def outputs : DelayLine → Nat → List Tick → List Float32
  | _, _, [] => []
  | line, cursor, t :: rest =>
    let (out, next, line) := line.tick t.input cursor t.length
    out :: outputs line next rest

variable {line : DelayLine} {input : Float32} {cursor length n : Nat} {past known : List Float32}

/-! ## One tick -/

/-- A ring of effective length zero passes its input on and remembers nothing. -/
theorem tick_pass (input : Float32) (cursor : Nat) (h : line.effective length = 0) :
    line.tick input cursor length = (input, 0, line) := dif_pos h

/-- A tick takes out what its place holds, stores its input there and moves on by one. -/
theorem tick_stored (input : Float32) (cursor : Nat) (hn : 0 < n) (h : line.effective length = n) :
    ∃ hlt : cursor % n < line.samples.size, line.tick input cursor length =
      (line.samples[cursor % n], (cursor % n + 1) % n, ⟨line.samples.set (cursor % n) input⟩) := by
  subst h
  refine ⟨(Nat.mod_lt _ hn).trans_le (Nat.min_le_right _ _), ?_⟩
  rw [tick, dif_neg (by exact hn.ne')]
  rfl

/-- Ticking a ring keeps its capacity. -/
theorem capacity_tick (line : DelayLine) (input : Float32) (cursor length : Nat) :
    (line.tick input cursor length).2.2.capacity = line.capacity := by
  rcases Nat.eq_zero_or_pos (line.effective length) with hnone | hsome
  · rw [tick_pass _ _ hnone]
  · obtain ⟨hlt, htick⟩ := tick_stored input cursor hsome rfl
    rw [htick, capacity, capacity, Array.size_set]

/-- The next cursor is a place in the part of the ring that was used. -/
theorem cursor_tick (line : DelayLine) (input : Float32) (cursor length : Nat) :
    (line.tick input cursor length).2.1 < line.effective length ∨
      line.effective length = 0 ∧ (line.tick input cursor length).2.1 = 0 := by
  rcases Nat.eq_zero_or_pos (line.effective length) with hnone | hsome
  · exact .inr ⟨hnone, by rw [tick_pass _ _ hnone]⟩
  · obtain ⟨hlt, htick⟩ := tick_stored input cursor hsome rfl
    refine .inl ?_
    rw [htick]
    exact Nat.mod_lt _ hsome

/-! ## What a ring remembers -/

/-- The first `n` places of the ring hold past inputs, the latest just behind the cursor. Of a past
longer than `n` only the latest count. -/
def Remembers (line : DelayLine) (cursor n : Nat) (past : List Float32) : Prop :=
  ∀ age x, age < n → past[age]? = some x → line.samples[(cursor + (n - 1 - age)) % n]? = some x

/-- Every ring remembers that it was not ticked yet. -/
theorem remembers_nil (line : DelayLine) (cursor n : Nat) : line.Remembers cursor n [] :=
  fun _ _ _ hpast => nomatch hpast

/-- A silent ring remembers silence. -/
theorem remembers_silent {capacity : Nat} (hn : 0 < n) (hcapacity : n ≤ capacity) (cursor : Nat) :
    (silent capacity).Remembers cursor n (List.replicate n 0) := by
  intro age x hage hpast
  obtain rfl : 0 = x := by simpa [hage] using hpast
  have hplace : (cursor + (n - 1 - age)) % n < capacity := (Nat.mod_lt _ hn).trans_le hcapacity
  simp [silent, hplace]

/-- What is `n` ticks old lies at the cursor. -/
theorem Remembers.oldest (h : line.Remembers cursor n past) (hn : 0 < n) {x : Float32}
    (hpast : past[n - 1]? = some x) : line.samples[cursor % n]? = some x := by
  have hplace := h (n - 1) x (by omega) hpast
  rwa [Nat.sub_self, Nat.add_zero] at hplace

/-- A tick takes out what is `n` ticks old, and remembers its input. -/
theorem Remembers.tick (h : line.Remembers cursor n past) (hn : 0 < n)
    (hlength : line.effective length = n) (input : Float32) :
    (∀ x, past[n - 1]? = some x → (line.tick input cursor length).1 = x) ∧
      (line.tick input cursor length).2.2.Remembers (line.tick input cursor length).2.1 n
        (input :: past) := by
  obtain ⟨hlt, htick⟩ := tick_stored input cursor hn hlength
  rw [htick]
  refine ⟨fun x hpast => ?_, fun age x hage hpast => ?_⟩
  · have hplace := h.oldest hn hpast
    rwa [Array.getElem?_eq_getElem hlt, Option.some.injEq] at hplace
  · -- Seen from the next cursor, everything is one tick older.
    have hcursor := Nat.mod_lt cursor hn
    have hplace (d : Nat) (hd : d < n) : (cursor + d) % n =
        if n ≤ cursor % n + d then cursor % n + d - n else cursor % n + d := by
      rw [Nat.add_mod_eq_ite, Nat.mod_eq_of_lt hd]
    have hnext (d : Nat) (hd : d < n) : ((cursor % n + 1) % n + d) % n = (cursor + (d + 1)) % n := by
      rw [Nat.add_mod, Nat.mod_mod, ← Nat.add_mod, Nat.add_assoc, Nat.add_comm 1 d, Nat.mod_add_mod]
    show (line.samples.set (cursor % n) input hlt)[_]? = _
    rw [hnext _ (by omega), Array.getElem?_set]
    cases age with
    | zero =>
        have hround : n - 1 - 0 + 1 = n := by omega
        rw [hround, Nat.add_mod_right, if_pos rfl]
        exact hpast
    | succ age =>
        have hback : n - 1 - (age + 1) + 1 = n - 1 - age := by omega
        have hother : cursor % n ≠ (cursor + (n - 1 - age)) % n := by
          rw [hplace _ (by omega)]
          split <;> omega
        rw [hback, if_neg hother]
        exact h age x (by omega) hpast

/-! ## Ticks one after another -/

/-- The outputs of ticks are that of the first and those of the ring after it. -/
theorem outputs_cons (line : DelayLine) (cursor : Nat) (t : Tick) (rest : List Tick) :
    line.outputs cursor (t :: rest) = (line.tick t.input cursor t.length).1 ::
      (line.tick t.input cursor t.length).2.2.outputs (line.tick t.input cursor t.length).2.1 rest :=
  rfl

/-- After some ticks, the others start from a ring of the same size. -/
theorem drop_outputs (line : DelayLine) (cursor : Nat) (ticks : List Tick) (count : Nat) :
    ∃ (later : DelayLine) (next : Nat), later.capacity = line.capacity ∧
      (line.outputs cursor ticks).drop count = later.outputs next (ticks.drop count) := by
  induction ticks generalizing line cursor count with
  | nil => exact ⟨line, cursor, rfl, by rw [outputs, List.drop_nil, List.drop_nil, outputs]⟩
  | cons t rest ih =>
      cases count with
      | zero => exact ⟨line, cursor, rfl, rfl⟩
      | succ count =>
          obtain ⟨later, next, hcapacity, hdrop⟩ :=
            ih (line.tick t.input cursor t.length).2.2 (line.tick t.input cursor t.length).2.1 count
          exact ⟨later, next, hcapacity.trans (capacity_tick ..), hdrop⟩

/-- While the effective length is `n`, a tick returns what is `n` ticks old. -/
theorem Remembers.output {ticks : List Tick} {k : Nat} (h : line.Remembers cursor n past) (hn : 0 < n)
    (hlengths : ∀ j ≤ k, ∀ t, ticks[j]? = some t → line.effective t.length = n)
    (hk : k < ticks.length) {x : Float32}
    (hpast : (((ticks.take k).map (·.input)).reverse ++ past)[n - 1]? = some x) :
    (line.outputs cursor ticks)[k]? = some x := by
  induction ticks generalizing line cursor past k with
  | nil => cases hk
  | cons t rest ih =>
      obtain ⟨hout, hnext⟩ := h.tick hn (hlengths 0 (Nat.zero_le k) t rfl) t.input
      rw [outputs_cons]
      cases k with
      | zero => rw [List.getElem?_cons_zero, hout x hpast]
      | succ k =>
          rw [List.getElem?_cons_succ]
          refine ih hnext (fun j hj other hother => ?_) (Nat.lt_of_succ_lt_succ hk)
            (by simpa using hpast)
          rw [effective, capacity_tick]
          exact hlengths (j + 1) (Nat.succ_le_succ hj) other hother

/-- What is `n` ticks old after some inputs: one of them, or what was old before. -/
theorem past_get_elem (inputs past : List Float32) (hn : 0 < n) :
    (inputs.reverse ++ past)[n - 1]? =
      if n ≤ inputs.length then inputs[inputs.length - n]? else past[n - 1 - inputs.length]? := by
  split
  case isTrue hle =>
    have hback : inputs.length - 1 - (n - 1) = inputs.length - n := by omega
    rw [List.getElem?_append_left (by rw [List.length_reverse]; omega),
      List.getElem?_reverse (by omega), hback]
  case isFalse hlt =>
    rw [List.getElem?_append_right (by rw [List.length_reverse]; omega), List.length_reverse]

/-- Nothing comes out that was not put in or in the ring before. -/
theorem mem_of_output {ticks : List Tick} {k : Nat} {x : Float32}
    (hknown : ∀ s ∈ line.samples, s ∈ known) (hx : (line.outputs cursor ticks)[k]? = some x) :
    x ∈ known ∨ x ∈ (ticks.take (k + 1)).map (·.input) := by
  -- Every tick makes its input known to the later ones.
  induction ticks generalizing line cursor known k with
  | nil => cases hx
  | cons t rest ih =>
      have htick : ((line.tick t.input cursor t.length).1 ∈ t.input :: known) ∧
          ∀ s ∈ (line.tick t.input cursor t.length).2.2.samples, s ∈ t.input :: known := by
        rcases Nat.eq_zero_or_pos (line.effective t.length) with hnone | hsome
        · rw [tick_pass _ _ hnone]
          exact ⟨List.mem_cons_self, fun s hs => List.mem_cons_of_mem _ (hknown s hs)⟩
        · obtain ⟨hlt, htick⟩ := tick_stored t.input cursor hsome rfl
          rw [htick]
          refine ⟨List.mem_cons_of_mem _ (hknown _ (Array.getElem_mem hlt)), fun s hs => ?_⟩
          rcases Array.mem_or_eq_of_mem_set (w := hlt) hs with hold | rfl
          · exact List.mem_cons_of_mem _ (hknown s hold)
          · exact List.mem_cons_self
      rw [outputs_cons] at hx
      cases k with
      | zero =>
          obtain rfl := Option.some.inj hx
          rcases List.mem_cons.1 htick.1 with hinput | hold
          · exact .inr (by simp [hinput])
          · exact .inl hold
      | succ k =>
          rcases ih htick.2 hx with hold | hinput
          · rcases List.mem_cons.1 hold with rfl | hold
            · exact .inr (by simp)
            · exact .inl hold
          · exact .inr (List.mem_cons_of_mem _ hinput)

/-- A ring that is ticked, from any cursor on and with whatever lengths, delays by the effective length
and by nothing else. -/
structure IsDelay (line : DelayLine) (cursor : Nat) (ticks : List Tick) : Prop where
  /-- When the effective length was `n` now and in the `n` ticks before, the input of `n` ticks ago
  comes out, whatever happened earlier. -/
  delayed : ∀ k n, 0 < n → n ≤ k → k < ticks.length →
    (∀ j, k - n ≤ j → j ≤ k → ∀ t, ticks[j]? = some t → line.effective t.length = n) →
    (line.outputs cursor ticks)[k]? = ticks[k - n]?.map (·.input)
  /-- From a silent ring comes silence first. -/
  silence : ∀ k n, k < n → k < ticks.length →
    (∀ j ≤ k, ∀ t, ticks[j]? = some t → line.effective t.length = n) →
    (line.clear.outputs cursor ticks)[k]? = some 0
  pass : ∀ t : Tick, line.effective t.length = 0 →
    line.tick t.input cursor t.length = (t.input, 0, line)
  next : ∀ t : Tick, (line.tick t.input cursor t.length).2.1 < line.effective t.length ∨
    line.effective t.length = 0 ∧ (line.tick t.input cursor t.length).2.1 = 0
  /-- From a silent ring comes nothing that was not put in by then. -/
  heard : ∀ k x, (line.clear.outputs cursor ticks)[k]? = some x →
    x = 0 ∨ x ∈ (ticks.take (k + 1)).map (·.input)

/-- A delay line is a delay of exactly the effective length. -/
theorem is_delay (line : DelayLine) (cursor : Nat) (ticks : List Tick) :
    line.IsDelay cursor ticks where
  delayed k n hn hle hk hlengths := by
    obtain ⟨later, next, hcapacity, hdrop⟩ := drop_outputs line cursor ticks (k - n)
    have hoff : k - n + n = k := Nat.sub_add_cancel hle
    have hfirst : k - n < ticks.length := by omega
    -- The ring is in whatever state the earlier ticks left it in; nothing is known of its contents.
    have hout : (later.outputs next (ticks.drop (k - n)))[n]? = some ticks[k - n].input := by
      refine (remembers_nil later next n).output hn (fun j hj t ht => ?lengths) ?count ?past
      case lengths =>
        rw [List.getElem?_drop] at ht
        rw [effective, hcapacity]
        exact hlengths (k - n + j) (by omega) (by omega) t ht
      case count => rw [List.length_drop]; omega
      case past =>
        have hcount : (((ticks.drop (k - n)).take n).map (·.input)).length = n := by simp; omega
        rw [past_get_elem _ _ hn, if_pos hcount.ge, hcount, Nat.sub_self, List.getElem?_map,
          List.getElem?_take, if_pos hn, List.getElem?_drop, Nat.add_zero,
          List.getElem?_eq_getElem hfirst, Option.map_some]
    rw [← hdrop, List.getElem?_drop, hoff] at hout
    rw [hout, List.getElem?_eq_getElem hfirst, Option.map_some]
  silence k n hkn hk hlengths := by
    have hn : 0 < n := by omega
    have hfits : n ≤ line.capacity :=
      (hlengths k le_rfl _ (List.getElem?_eq_getElem hk)).symm.trans_le (Nat.min_le_right _ _)
    refine (remembers_silent hn hfits cursor).output hn (fun j hj t ht => ?lengths) hk ?past
    case lengths =>
      rw [← hlengths j hj t ht]
      simp [effective, capacity, silent]
    case past =>
      have hcount : ((ticks.take k).map (·.input)).length = k := by simp; omega
      rw [past_get_elem _ _ hn, if_neg (by omega), List.getElem?_replicate, if_pos (by omega)]
  pass t h := tick_pass t.input cursor h
  next t := cursor_tick line t.input cursor t.length
  heard k x hx := by
    have hknown : ∀ s ∈ line.clear.samples, s ∈ [(0 : Float32)] := by
      intro s hs
      simpa using (Array.mem_replicate.1 hs).2
    simpa using mem_of_output hknown hx

/-- A ring with stale contents and a cursor beyond it, after ticks of lengths beyond its capacity, of
one and of none, delays by two as soon as its length was two for three ticks. -/
theorem is_delay_after_modulation :
    let line : DelayLine := ⟨#[9, 8, 7]⟩
    let ticks : List Tick := [⟨1, 5⟩, ⟨2, 1⟩, ⟨3, 0⟩, ⟨4, 2⟩, ⟨5, 2⟩, ⟨6, 2⟩]
    (∀ j, 3 ≤ j → j ≤ 5 → ∀ t, ticks[j]? = some t → line.effective t.length = 2) ∧
      (line.outputs 10 ticks)[5]? = some 4 := by
  intro line ticks
  have hlengths : ∀ j, 3 ≤ j → j ≤ 5 → ∀ t, ticks[j]? = some t → line.effective t.length = 2 := by
    intro j hlow hhigh t ht
    interval_cases j <;> cases ht <;> rfl
  exact ⟨hlengths, (is_delay line 10 ticks).delayed 5 2 (by decide) (by decide) (by decide) hlengths⟩

end DelayLine

end SynthRack
