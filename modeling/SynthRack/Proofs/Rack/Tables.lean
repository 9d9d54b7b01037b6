import Mathlib
import SynthRack.Proofs.Checks
import SynthRack.Proofs.Rack.References

/-!
# Compiling with tables

Compilation done with tables that are indexed by ID: the IDs in use, the positions, the new IDs and
the outputs. Every use of a table is checked, the search for a free ID included, which has no bound
of its own. `checked_compile_eq` proves that for every rack all checks hold and the result is that of
`Rack.compile`. A free ID is always found because as many IDs are free as nodes have none.
-/

namespace SynthRack

open Checked

/-! ## The IDs in use -/

/-- Whether each ID below a count is one of a list. -/
def marked (count : Nat) (ids : List Nat) : Array Bool :=
  (Array.range count).map fun id => decide (id ∈ ids)

/-- The IDs below a count that are none of a list. -/
def unmarked (count : Nat) (ids : List Nat) : List Nat :=
  (List.range count).filter fun id => id ∉ ids

/-- Keeps an ID that is in range and free, and marks it as taken. -/
def keepId : Option Nat → StateT (Array Bool) Checked (Option Nat)
  | none => return none
  | some id => do
    let taken ← get
    let used ← if id < taken.size then lookUp taken id else return none
    if used then return none
    set (← store taken id true)
    return some id

/-- The first free ID from a place on. The search ends where the table does. -/
def findFree (taken : Array Bool) (next : Nat) : Checked Nat :=
  if next < taken.size then do
    if ← lookUp taken next then findFree taken (next + 1) else return next
  else .error (.index next taken.size)
termination_by taken.size - next

/-- Gives a node that has no ID the first free one; the search goes on from there. -/
def numberId : Option Nat → StateT (Array Bool × Nat) Checked (Option Nat)
  | some id => return some id
  | none => do
    let (taken, next) ← get
    let free ← findFree taken next
    set (← store taken free true, free)
    return some free

/-- Assigns IDs with a table of those in use, and checks that in the end all are. -/
def checkedIds (ids : List (Option Nat)) : Checked (List (Option Nat)) := do
  let (kept, taken) ← (ids.mapM keepId).run (Array.replicate ids.length false)
  let (assigned, taken, _) ← (kept.mapM numberId).run (taken, 0)
  if taken.all id then return assigned else .error .sparseIds

section Marks

variable {count : Nat} {ids : List Nat}

/-- A table of marks has an entry for each ID below the count. -/
theorem size_marked (count : Nat) (ids : List Nat) : (marked count ids).size = count := by
  simp [marked]

/-- Looking up an ID below the count tells whether it is marked. -/
theorem look_up_marked {id : Nat} (h : id < count) :
    lookUp (marked count ids) id = .ok (decide (id ∈ ids)) := by
  rw [look_up_eq_ok]
  simp [marked, h]

/-- Storing a mark adds the ID to those that are marked. -/
theorem store_marked {id : Nat} (h : id < count) :
    store (marked count ids) id true = .ok (marked count (id :: ids)) := by
  rw [store_ok (by rwa [size_marked])]
  congr 1
  refine Array.ext (by simp [marked]) ?_
  intro other hother _
  rw [Array.getElem_set]
  by_cases heq : id = other
  · simp [marked, heq]
  · simp [marked, heq, Ne.symm heq]

/-- Marking the first unmarked ID leaves the others unmarked. -/
theorem unmarked_cons_self {id : Nat} {rest : List Nat} (h : unmarked count ids = id :: rest) :
    unmarked count (id :: ids) = rest := by
  have hnodup : (id :: rest).Nodup := h ▸ List.nodup_range.filter _
  have hfilter : unmarked count (id :: ids) = (unmarked count ids).filter (· ≠ id) := by
    simp [unmarked, List.filter_filter, not_or]
  rw [hfilter, h, List.filter_cons_of_neg (by simp)]
  refine List.filter_eq_self.2 ?_
  rintro other hother
  simpa using fun heq : other = id => (List.nodup_cons.1 hnodup).1 (heq ▸ hother)

/-- The first free ID is the least. -/
theorem unmarked_least {id : Nat} {rest : List Nat} (h : unmarked count ids = id :: rest) :
    id < count ∧ id ∉ ids ∧ ∀ other < id, other ∈ ids := by
  have hid : id ∈ unmarked count ids := h ▸ List.mem_cons_self ..
  simp only [unmarked, List.mem_filter, List.mem_range, decide_eq_true_eq] at hid
  refine ⟨hid.1, hid.2, fun other hlt => ?_⟩
  by_contra hother
  have hsorted : (id :: rest).Pairwise (· < ·) := h ▸ List.pairwise_lt_range.filter _
  have hmem : other ∈ id :: rest := h ▸ by simp [unmarked, hother, hlt.trans hid.1]
  rcases List.mem_cons.1 hmem with rfl | hrest
  · exact lt_irrefl _ hlt
  · exact lt_asymm hlt (List.rel_of_pairwise_cons hsorted hrest)

/-- The search finds the first free ID if there is one and none before the place is free. -/
theorem find_free_ok {next id : Nat} {rest : List Nat} (hfree : unmarked count ids = id :: rest)
    (hbefore : ∀ other < next, other ∈ ids) : findFree (marked count ids) next = .ok id := by
  obtain ⟨hid, hunused, hleast⟩ := unmarked_least hfree
  have hle : next ≤ id := by
    by_contra hgt
    exact hunused (hbefore id (by omega))
  induction hgap : id - next generalizing next with
  | zero =>
      obtain rfl : next = id := by omega
      rw [findFree, size_marked, if_pos hid, look_up_marked hid, decide_eq_false hunused]
      rfl
  | succ gap ih =>
      have hlt : next < count := by omega
      have htaken : next ∈ ids := hleast next (by omega)
      have hrest : findFree (marked count ids) (next + 1) = .ok id := by
        refine ih (fun other hother => ?_) (by omega) (by omega)
        rcases Nat.lt_succ_iff_lt_or_eq.1 hother with hlt | rfl
        · exact hbefore other hlt
        · exact htaken
      rw [findFree, size_marked, if_pos hlt, look_up_marked hlt, decide_eq_true htaken]
      exact hrest

/-- Keeping an ID is what `keptIds` does with the first of a list. -/
theorem keep_id_ok (count : Nat) (taken : List Nat) (id : Option Nat) (rest : List (Option Nat)) :
    ∃ (kept : Option Nat) (now : List Nat),
      (keepId id).run (marked count taken) = .ok (kept, marked count now) ∧
        (∀ other, other ∈ now ↔ kept = some other ∨ other ∈ taken) ∧
        keptIds count taken (id :: rest) = kept :: keptIds count now rest := by
  cases id with
  | none => exact ⟨none, taken, rfl, by simp, rfl⟩
  | some id =>
      by_cases hlt : id < count
      · by_cases htaken : id ∈ taken
        · refine ⟨none, taken, ?_, by simp, by simp [keptIds, htaken]⟩
          simp [keepId, size_marked, hlt, look_up_marked, htaken]
          rfl
        · refine ⟨some id, id :: taken, ?_, by simp [eq_comm], by simp [keptIds, hlt, htaken]⟩
          simp [keepId, size_marked, hlt, look_up_marked, htaken, store_marked]
      · refine ⟨none, taken, ?_, by simp, by simp [keptIds, hlt]⟩
        simp [keepId, size_marked, hlt]
        rfl

/-- Running a traversal whose first step succeeds. -/
theorem run_map_m_cons {α β σ : Type} {f : α → StateT σ Checked β} {a : α} {b : β} {s t : σ}
    (h : (f a).run s = .ok (b, t)) (as : List α) :
    ((a :: as).mapM f).run s = ((as.mapM f).run t).map fun (bs, last) => (b :: bs, last) := by
  rw [List.mapM_cons, StateT.run_bind, h]
  show (StateT.run (List.mapM f as >>= fun bs => pure (b :: bs)) t) = _
  rw [StateT.run_bind]
  cases (as.mapM f).run t <;> rfl

/-- Keeping IDs passes all checks, and marks those that it keeps. -/
theorem keep_ids_ok (count : Nat) (taken : List Nat) (ids : List (Option Nat)) :
    ∃ now, (ids.mapM keepId).run (marked count taken) =
        .ok (keptIds count taken ids, marked count now) ∧
      ∀ id, id ∈ now ↔ some id ∈ keptIds count taken ids ∨ id ∈ taken := by
  induction ids generalizing taken with
  | nil => exact ⟨taken, rfl, by simp [keptIds]⟩
  | cons id rest ih =>
      obtain ⟨kept, next, hrun, hnext, hkept⟩ := keep_id_ok count taken id rest
      obtain ⟨now, hrest, hnow⟩ := ih next
      refine ⟨now, ?_, fun other => ?_⟩
      · rw [run_map_m_cons hrun, hrest, hkept]
        rfl
      · rw [hnow, hnext, hkept, List.mem_cons, eq_comm (a := some other)]
        tauto

/-- With one free ID for every node that has none, numbering finds them all. -/
theorem number_ids_ok {kept : List (Option Nat)} {taken : List Nat} {next : Nat}
    (hbefore : ∀ other < next, other ∈ taken)
    (hcount : (unmarked count taken).length = (kept.filter Option.isNone).length) :
    ∃ now last, (kept.mapM numberId).run (marked count taken, next) =
      .ok (fillIds (unmarked count taken) kept, marked count now, last) ∧ unmarked count now = [] := by
  induction kept generalizing taken next with
  | nil =>
      have hnone : unmarked count taken = [] := List.length_eq_zero_iff.1 (by simpa using hcount)
      exact ⟨taken, next, by rw [hnone]; rfl, hnone⟩
  | cons id rest ih =>
      cases id with
      | some id =>
          obtain ⟨now, last, hrun, hnow⟩ := ih hbefore (by simpa using hcount)
          refine ⟨now, last, ?_, hnow⟩
          rw [run_map_m_cons (b := some id) (t := (marked count taken, next)) rfl, hrun]
          cases unmarked count taken <;> rfl
      | none =>
          obtain ⟨id, free, hfree⟩ : ∃ id free, unmarked count taken = id :: free := by
            cases hfree : unmarked count taken with
            | nil => simp [hfree] at hcount
            | cons id free => exact ⟨id, free, rfl⟩
          obtain ⟨hid, -, hleast⟩ := unmarked_least hfree
          have hstep : (numberId none).run (marked count taken, next) =
              .ok (some id, marked count (id :: taken), id) := by
            simp [numberId, find_free_ok hfree hbefore, store_marked hid]
          have hmarked : ∀ other < id, other ∈ id :: taken := fun other hlt =>
            List.mem_cons_of_mem _ (hleast other hlt)
          obtain ⟨now, last, hrun, hnow⟩ := ih hmarked (by
            rw [unmarked_cons_self hfree]
            simpa [hfree] using hcount)
          refine ⟨now, last, ?_, hnow⟩
          rw [run_map_m_cons hstep, hrun, unmarked_cons_self hfree, hfree]
          rfl

end Marks

/-- Assignment with a table neither leaves the table nor leaves an ID over. -/
theorem checked_ids_eq (ids : List (Option Nat)) : checkedIds ids = .ok (assignedIds ids) := by
  have hstart : Array.replicate ids.length false = marked ids.length [] :=
    Array.ext (by simp [marked]) (by simp [marked])
  obtain ⟨taken, hkept, htaken⟩ := keep_ids_ok ids.length [] ids
  have hfree : unmarked ids.length taken = freeIds ids.length (keptIds ids.length [] ids) := by
    simp [unmarked, freeIds, htaken]
  have hcount : (unmarked ids.length taken).length =
      ((keptIds ids.length [] ids).filter Option.isNone).length := by
    rw [hfree]
    exact free_ids_count ids
  have hbefore : ∀ other < 0, other ∈ taken := by simp
  obtain ⟨now, last, hnumbered, hnow⟩ := number_ids_ok hbefore hcount
  have hall : (marked ids.length now).all id = true := by
    have hused : ∀ id < ids.length, id ∈ now := by simpa [unmarked] using hnow
    rw [Array.all_eq_true]
    intro id hid
    rw [size_marked] at hid
    simpa [marked] using hused id hid
  rw [checkedIds, hstart, hkept]
  show (List.mapM numberId _).run (marked ids.length taken, 0) >>= _ = _
  rw [hnumbered, hfree]
  show (if (marked ids.length now).all id then _ else _) = _
  rw [if_pos hall]
  rfl

/-! ## Positions -/

/-- No node has this position. -/
def noPosition : Nat := UInt64.size - 1

/-- Fills in the position of every node by its ID. -/
def checkedPositions (ids : List (Option Nat)) : Checked (Array Nat) :=
  storeAll (Array.replicate ids.length noPosition)
    (ids.zipIdx.filterMap fun (id, position) => id.map (·, position))

/-- The table of positions has an entry for each ID, at the position that has it. -/
theorem mem_position_entries {ids : List (Option Nat)} {id position : Nat} :
    (id, position) ∈ ids.zipIdx.filterMap (fun (id, position) => id.map (·, position)) ↔
      ids[position]? = some (some id) := by
  simp only [List.mem_filterMap, Prod.exists, Option.map_eq_some_iff, Prod.mk.injEq]
  constructor
  · rintro ⟨_, _, hmem, _, rfl, rfl, rfl⟩
    exact List.mem_zipIdx_iff_getElem?.1 hmem
  · intro h
    exact ⟨some id, position, List.mem_zipIdx_iff_getElem?.2 h, id, rfl, rfl, rfl⟩

/-- The IDs under which positions are filled in are those of the nodes. -/
theorem keys_position_entries (ids : List (Option Nat)) :
    (ids.zipIdx.filterMap fun (id, position) => id.map (·, position)).map Prod.fst =
      ids.reduceOption := by
  have hfst : (ids.zipIdx.filterMap fun (id, position) => id.map (·, position)).map Prod.fst =
      (ids.zipIdx.map Prod.fst).reduceOption := by
    rw [List.map_filterMap, List.reduceOption, List.filterMap_map]
    congr 1
    funext ⟨id, position⟩
    cases id <;> rfl
  rw [hfst, List.zipIdx_map_fst]

/-- For dense IDs the checks of the table of positions pass. -/
theorem checked_positions_eq {ids : List (Option Nat)} (h : DenseIds ids) :
    checkedPositions ids = .ok (positionTable ids) := by
  obtain ⟨table, htable, hsize, hentries, -⟩ := store_all_ok
    (Array.replicate ids.length noPosition)
    (ids.zipIdx.filterMap fun (id, position) => id.map (·, position))
    (by
      rw [keys_position_entries]
      intro id hid
      simpa using (h.mem_iff id).1 (List.reduceOption_mem_iff.1 hid))
    (by rw [keys_position_entries]; exact h.reduce_option_nodup)
  rw [checkedPositions, htable]
  congr 1
  refine Array.ext (by simp [hsize, positionTable]) ?_
  intro id hid hid'
  have hposition := Array.getElem?_eq_getElem hid'
  rw [position_table_eq_some_iff h] at hposition
  exact Option.some.inj ((Array.getElem?_eq_getElem hid).symm.trans
    (hentries id _ (mem_position_entries.2 hposition)))

/-! ## Removing nodes -/

/-- A binding after renumbering by a table of new IDs. -/
def renumberBy (remap : Array (Option Nat)) (default : Float32) : Binding → Binding
  | .node old =>
    match remap[old]?.join with
    | some new => .node new
    | none => .constant default
  | other => other

namespace Rack

/-- For every old ID, the new one of a node that stays. -/
def checkedRemap (rack : Rack) : Checked (Array (Option Nat)) :=
  storeAll (Array.replicate rack.nodes.length none)
    ((rack.survivors.filterMap (·.id)).zipIdx.map fun (old, new) => (old, some new))

/-- Removes the marked nodes, with a table of new IDs. -/
def checkedCompact (rack : Rack) : Checked Rack := do
  let remap ← rack.checkedRemap
  let nodes ← rack.survivors.mapM fun node => do
    let id ←
      match node.id with
      | some old => lookUp remap old
      | none => .ok none
    return { node with
      id
      effect := node.effect.withDefaults.map fun (param, default) =>
        { param with binding := renumberBy remap default param.binding } }
  let positions ← checkedPositions (nodes.map (·.id))
  return { rack with nodes, positions }

/-- The IDs of nodes that all have one. -/
theorem map_id_eq {nodes : List Node} (h : ∀ node ∈ nodes, node.id ≠ none) :
    nodes.map (·.id) = (nodes.filterMap (·.id)).map some := by
  induction nodes with
  | nil => rfl
  | cons node nodes ih =>
      rw [List.forall_mem_cons] at h
      obtain ⟨id, hid⟩ := Option.ne_none_iff_exists'.1 h.1
      simp [hid, ih h.2]

/-- The nodes that stay leave the old IDs in their order. -/
theorem survivor_ids_sublist (rack : Rack) :
    (rack.survivors.filterMap (·.id)).Sublist (rack.nodes.map (·.id)).reduceOption := by
  have hfilter := (List.filter_sublist (l := rack.nodes) (p := (! ·.toDelete))).filterMap (·.id)
  simpa [survivors, List.reduceOption, List.filterMap_map] using hfilter

/-- A node that stays has an old ID, which stands where the node does. -/
theorem id_of_survivor {rack : Rack} (h : DenseIds (rack.nodes.map (·.id))) {position : Nat}
    {node : Node} (hnode : rack.survivors[position]? = some node) :
    ∃ old, node.id = some old ∧ (rack.survivors.filterMap (·.id))[position]? = some old := by
  have hall : ∀ node ∈ rack.survivors, node.id ≠ none := fun node hnode hnone =>
    h.none_not_mem (List.mem_map.2 ⟨node, (List.mem_filter.1 hnode).1, hnone⟩)
  have hid := congrArg (·[position]?) (map_id_eq hall)
  simp only [List.getElem?_map, hnode, Option.map_some] at hid
  obtain ⟨old, hold, hsome⟩ := Option.map_eq_some_iff.1 hid.symm
  exact ⟨old, hsome.symm, hold⟩

/-- A new ID is the place of the old one among those of the nodes that stay. -/
theorem old_id_of_new {rack : Rack} (h : DenseIds (rack.nodes.map (·.id))) {old position : Nat}
    (hnew : newId? rack.survivors old = some position) :
    (rack.survivors.filterMap (·.id))[position]? = some old := by
  obtain ⟨hlt, hid, -⟩ := List.findIdx?_eq_some_iff_getElem.1 hnew
  obtain ⟨other, hother, hold⟩ := id_of_survivor h (List.getElem?_eq_getElem hlt)
  obtain rfl : other = old := by simpa [hother] using hid
  exact hold

/-- An ID without a new one is none of those of the nodes that stay. -/
theorem not_mem_of_new_id_none {survivors : List Node} {old : Nat}
    (hnew : newId? survivors old = none) : old ∉ survivors.filterMap (·.id) := by
  intro hmem
  obtain ⟨node, hnode, hid⟩ := List.mem_filterMap.1 hmem
  simpa [hid] using List.findIdx?_eq_none_iff.1 hnew node hnode

/-- The table of new IDs holds what `newId?` finds among the nodes that stay. -/
theorem checked_remap_ok {rack : Rack} (h : DenseIds (rack.nodes.map (·.id))) :
    ∃ remap, rack.checkedRemap = .ok remap ∧
      (∀ old, remap[old]?.join = newId? rack.survivors old) ∧
      ∀ (position : Nat) (node : Node), rack.survivors[position]? = some node →
        ∃ old, node.id = some old ∧ remap[old]? = some (some position) := by
  let olds := rack.survivors.filterMap (·.id)
  have hkeys : (olds.zipIdx.map fun (old, new) => (old, some new)).map Prod.fst = olds := by
    rw [List.map_map]
    exact List.zipIdx_map_fst ..
  have hrange : ∀ old ∈ olds, old < rack.nodes.length := by
    intro old hold
    have hmem := List.reduceOption_mem_iff.1 (rack.survivor_ids_sublist.subset hold)
    simpa using (h.mem_iff old).1 hmem
  have hnodup : olds.Nodup := h.reduce_option_nodup.sublist rack.survivor_ids_sublist
  obtain ⟨remap, hremap, -, hentries, hothers⟩ := store_all_ok
    (Array.replicate rack.nodes.length (none : Option Nat))
    (olds.zipIdx.map fun (old, new) => (old, some new))
    (by rwa [hkeys, Array.size_replicate]) (by rwa [hkeys])
  have hentry {old position : Nat} (hold : olds[position]? = some old) :
      remap[old]? = some (some position) := by
    refine hentries old _ (List.mem_map.2 ⟨(old, position), ?_, rfl⟩)
    exact List.mem_zipIdx_iff_getElem?.2 hold
  refine ⟨remap, hremap, fun old => ?_, fun position node hnode => ?_⟩
  · cases hnew : newId? rack.survivors old with
    | some position =>
        rw [hentry (old_id_of_new h hnew)]
        rfl
    | none =>
        rw [hothers old (hkeys.symm ▸ not_mem_of_new_id_none hnew), Array.getElem?_replicate]
        split <;> rfl
  · obtain ⟨old, hid, hold⟩ := id_of_survivor h hnode
    exact ⟨old, hid, hentry hold⟩

/-- For dense IDs the checks of renumbering pass. -/
theorem checked_compact_eq {rack : Rack} (h : DenseIds (rack.nodes.map (·.id))) :
    rack.checkedCompact = .ok rack.compact.locate := by
  obtain ⟨remap, hremap, hnew, hstays⟩ := checked_remap_ok h
  have hbinding (default : Float32) (binding : Binding) :
      renumberBy remap default binding = renumber rack.survivors binding default := by
    cases binding with
    | node old =>
        cases hfound : newId? rack.survivors old <;>
          simp only [renumberBy, renumber, hnew, hfound]
    | _ => rfl
  have hpositions : checkedPositions (rack.compact.nodes.map (·.id)) =
      .ok (positionTable (rack.compact.nodes.map (·.id))) := by
    refine checked_positions_eq ?_
    rw [ids_compact]
    exact .range _
  rw [checkedCompact, hremap, ok_bind, map_m_ok rack.compact.nodes, ok_bind, hpositions]
  · rfl
  refine List.forall₂_iff_get.2 ⟨by simp [compact], fun position hlt hlt' => ?_⟩
  have hnode := List.getElem?_eq_getElem hlt
  obtain ⟨old, hid, hlookup⟩ := hstays position _ hnode
  simp only [List.get_eq_getElem] at hid hlookup ⊢
  simp only [hid, look_up_eq_ok.2 hlookup, ok_bind, hbinding, compact, List.getElem_mapIdx]
  rfl

end Rack

/-! ## Placing -/

/-- A step that has nothing to check. -/
def unchecked {α σ : Type} (step : StateM σ α) : StateT σ Checked α := fun s => .ok (step.run s)

/-- Finds or adds the register a parameter reads, with a table of outputs. -/
def checkedResolve (positions outputs : Array Nat) (param : Param) (default : Float32) :
    StateT Draft Checked Param :=
  match param.binding with
  | .node id =>
    match positions[id]? with
    | some position => do return ⟨.node id, some (← lookUp outputs position)⟩
    | none => unchecked (resolve positions param default)
  | _ => unchecked (resolve positions param default)

/-- Places the node at a position, with a table of outputs. -/
def checkedPlace (positions outputs : Array Nat) (node : Node) (position : Nat) :
    StateT Draft Checked Node := do
  let state ← unchecked (Draft.states node.effect.type.stateCount)
  let effect ← node.effect.withDefaults.mapM fun (param, default) =>
    checkedResolve positions outputs param default
  let buffer ← unchecked (placeBuffer effect)
  return { node with effect, home := some ⟨outputRegister position, state, buffer⟩ }

section Unchecked

variable {P Q α β σ : Type}

/-- Steps with nothing to check, one after another, have nothing to check. -/
theorem unchecked_bind (step : StateM σ α) (next : α → StateM σ β) :
    unchecked (step >>= next) = unchecked step >>= fun a => unchecked (next a) := rfl

/-- Returning has nothing to check. -/
theorem unchecked_pure (a : α) : unchecked (pure a : StateM σ α) = pure a := rfl

/-- Steps for the entries of a list have nothing to check if none of them has. -/
theorem unchecked_map_m (f : α → StateM σ β) (as : List α) :
    (as.mapM fun a => unchecked (f a)) = unchecked (as.mapM f) := by
  induction as with
  | nil => rfl
  | cons a as ih => simp only [List.mapM_cons, ih, unchecked_bind, unchecked_pure]

/-- Steps for the parameters of a condition have nothing to check if none of them has. -/
theorem unchecked_condition (f : P → StateM σ Q) (c : Condition P) :
    (c.mapM fun p => unchecked (f p)) = unchecked (c.mapM f) := rfl

/-- A traversal whose steps have nothing to check has nothing to check. -/
theorem unchecked_effect (f : P → StateM σ Q) (e : Effect P) :
    (e.mapM fun p => unchecked (f p)) = unchecked (e.mapM f) := by
  cases e with
  | maths m => simp only [Effect.mapM, unchecked_map_m, unchecked_bind, unchecked_pure]
  | switch s =>
      simp only [Effect.mapM, unchecked_condition, unchecked_map_m, unchecked_bind, unchecked_pure]
  | _ => rfl

end Unchecked

/-- The table of outputs has an entry for every position in the table of positions. -/
theorem checked_resolve_eq {positions outputs : Array Nat}
    (h : ∀ id position : Nat, positions[id]? = some position →
      outputs[position]? = some (outputRegister position)) (param : Param) (default : Float32) :
    checkedResolve positions outputs param default =
      unchecked (resolve positions param default) := by
  obtain ⟨binding, register⟩ := param
  cases binding with
  | node id =>
      cases hid : positions[id]? with
      | none => simp only [checkedResolve, hid]
      | some position =>
          simp only [checkedResolve, resolve, hid, look_up_eq_ok.2 (h id position hid)]
          rfl
  | _ => rfl

/-- The checks of placing a node pass where the table of outputs agrees with that of positions. -/
theorem checked_place_eq {positions outputs : Array Nat}
    (h : ∀ id position : Nat, positions[id]? = some position →
      outputs[position]? = some (outputRegister position)) (node : Node) (position : Nat) :
    checkedPlace positions outputs node position = unchecked (place positions node position) := by
  simp only [checkedPlace, checked_resolve_eq h, unchecked_effect]
  rfl

namespace Rack

/-- Gives every node its ID and finds their positions. -/
def checkedIdentify (rack : Rack) : Checked Rack := do
  let ids ← checkedIds (rack.nodes.map fun node => node.id)
  let positions ← checkedPositions ids
  let nodes := List.zipWith (fun (node : Node) id => { node with id }) rack.nodes ids
  return { rack with nodes, positions }

/-- Places every node and seals the template with a version. -/
def checkedAllocate (rack : Rack) (version : Nat) : Checked Rack := do
  let outputs := (Array.range rack.nodes.length).map outputRegister
  let (nodes, draft) ← (rack.nodes.zipIdx.mapM fun (node, position) =>
    checkedPlace rack.positions outputs node position).run (.start rack.nodes.length)
  return { rack with
    nodes
    template := {
      slots := draft.slots
      bufferSeconds := draft.bufferSeconds
      version
      fingerprint := layoutFingerprint (nodes.map (·.effect.type)) draft } }

/-- Assigns IDs and removes deleted nodes. -/
def checkedSettle (rack : Rack) : Checked Rack := do
  let identified ← rack.checkedIdentify
  if identified.hasDeleted then identified.checkedCompact else return identified

/-- Assigns IDs, removes deleted nodes, and allocates every register, with all tables checked. -/
def checkedCompile (rack : Rack) (version : Nat) : Checked Rack := do
  let settled ← rack.checkedSettle
  let allocated ← settled.checkedAllocate version
  return allocated.clampCursor

/-- The checks of assignment pass for every rack. -/
theorem checked_identify_eq (rack : Rack) : rack.checkedIdentify = .ok rack.identify.locate := by
  rw [checkedIdentify, checked_ids_eq, ok_bind, checked_positions_eq (assigned_ids_dense _),
    ok_bind, locate, ids_identify]
  rfl

/-- The checks of settling pass for every rack. -/
theorem checked_settle_eq (rack : Rack) : rack.checkedSettle = .ok rack.settle := by
  have hdense : DenseIds (rack.identify.locate.nodes.map (·.id)) := rack.ids_identify_dense
  rw [checkedSettle, checked_identify_eq, ok_bind, checked_compact_eq hdense]
  show (if rack.identify.hasDeleted then _ else _) = _
  cases hdeleted : rack.identify.hasDeleted <;> simp only [settle, hdeleted] <;> rfl

/-- The checks of allocation pass where every ID has the position of a node. -/
theorem checked_allocate_eq {rack : Rack}
    (h : ∀ id position : Nat, rack.positions[id]? = some position → position < rack.nodes.length)
    (version : Nat) : rack.checkedAllocate version = .ok (rack.allocate version) := by
  have houtputs (id position : Nat) (hid : rack.positions[id]? = some position) :
      ((Array.range rack.nodes.length).map outputRegister)[position]? =
        some (outputRegister position) := by
    simp [h id position hid]
  simp only [checkedAllocate, checked_place_eq houtputs, unchecked_map_m]
  rfl

/-- With tables every rack compiles, and to what it compiles to without them. -/
theorem checked_compile_eq (rack : Rack) (version : Nat) :
    rack.checkedCompile version = .ok (rack.compile version) := by
  have hpositions (id position : Nat) (hid : rack.settle.positions[id]? = some position) :
      position < rack.settle.nodes.length := by
    have hlaid := rack.laid_out_compile version
    have hlt := hlaid.position_lt hid
    rwa [length_compile] at hlt
  rw [checkedCompile, checked_settle_eq, ok_bind, checked_allocate_eq hpositions, ok_bind]
  rfl

end Rack

end SynthRack
