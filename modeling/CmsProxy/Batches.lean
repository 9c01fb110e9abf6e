/-
What a row of updates does to the state store, however it is cut into calls.

`Contents` is the store without its time stamp, and `Contents.update` is what one
update does to it. A call of `apply` or `applyBatch` applies its updates one
after the other (`contents_run`), so of a row of calls only the row of updates
counts, and of the row of updates the order of neighbours that write different
things does not (`batching_transparent`).

The time stamp is another matter. It is written when a field was assigned, and
the entry of an LRAD is created before any field of it is looked at. A call that
creates an entry and assigns nothing has changed the store and is not stamped;
every other change is (`timestamped_iff`).
-/
import CmsProxy.StateMerge

set_option autoImplicit false

namespace CmsProxy.Batches

open BigEndian (Bytes)
open Interfaces JsonValue
open State (SystemState applyNext applyAllUnlocked assignLrad assignsLrad)
open StateMerge (Call LradField writesField stateAfter updatesOf lradStates_applyUnlocked
  systemMode_applyUnlocked get_assignLrad)

/-! ## The contents of the store -/

/-- A snapshot without its time stamp. -/
@[ext]
structure Contents where
  systemMode : Bytes
  lradStates : Std.ExtTreeMap UInt16 StateUpdate

/-- What `getSnapshot` returns of it. -/
def contents (s : SystemState) : Contents where
  systemMode := s.getSnapshot.systemMode
  lradStates := s.getSnapshot.lradStates

/-- One update. -/
def Contents.update (c : Contents) (u : StateUpdate) : Contents where
  systemMode := u.systemMode.getD c.systemMode
  lradStates :=
    match u.lradId with
    | none => c.lradStates
    | some id => c.lradStates.insert id (assignLrad u (c.lradStates.getD id {}))

theorem contents_applyUnlocked (s : SystemState) (u : StateUpdate) :
    contents (s.applyUnlocked u).1 = (contents s).update u := by
  apply Contents.ext
  · have hmode := systemMode_applyUnlocked s u
    show (s.applyUnlocked u).1.systemMode_ = u.systemMode.getD s.systemMode_
    cases hu : u.systemMode with
    | none =>
        rw [hu] at hmode
        exact Option.some.inj hmode
    | some mode =>
        rw [hu] at hmode
        exact Option.some.inj hmode
  · exact lradStates_applyUnlocked s u

/-! ## The flag -/

/-- The update makes `applyUnlocked` assign something. -/
def assigns (u : StateUpdate) : Bool := u.systemMode.isSome || u.lradId.isSome && assignsLrad u

theorem applyUnlocked_snd (s : SystemState) (u : StateUpdate) :
    (s.applyUnlocked u).2 = assigns u := by
  rw [SystemState.applyUnlocked, assigns]
  cases u.systemMode <;> cases u.lradId <;> rfl

theorem lastUpdatedMs_applyUnlocked (s : SystemState) (u : StateUpdate) :
    (s.applyUnlocked u).1.lastUpdatedMs_ = s.lastUpdatedMs_ := by
  rw [SystemState.applyUnlocked]
  cases u.systemMode <;> cases u.lradId <;> rfl

/-- What the loop of `applyBatch` is after some updates, from any state and flag. -/
theorem foldl_applyNext (updates : List StateUpdate) (s : SystemState) (changed : Bool) :
    contents (updates.foldl applyNext (s, changed)).1 =
        updates.foldl Contents.update (contents s) ∧
      (updates.foldl applyNext (s, changed)).1.lastUpdatedMs_ = s.lastUpdatedMs_ ∧
      (updates.foldl applyNext (s, changed)).2 = (updates.any assigns || changed) := by
  induction updates generalizing s changed with
  | nil => exact ⟨rfl, rfl, rfl⟩
  | cons u updates ih =>
      have hnext : applyNext (s, changed) u =
          ((s.applyUnlocked u).1, (s.applyUnlocked u).2 || changed) := rfl
      obtain ⟨hcontents, hstamp, hflag⟩ := ih (s.applyUnlocked u).1 (assigns u || changed)
      rw [List.foldl_cons, hnext, applyUnlocked_snd]
      refine ⟨?_, ?_, ?_⟩
      · rw [hcontents, contents_applyUnlocked, List.foldl_cons]
      · rw [hstamp, lastUpdatedMs_applyUnlocked]
      · rw [hflag, List.any_cons, ← Bool.or_assoc, Bool.or_comm (updates.any assigns)]

/-! ## One call -/

/-- The call at another clock value. -/
def atClock (nowMs : UInt64) : Call → Call
  | .apply _ update => .apply nowMs update
  | .applyBatch _ updates => .applyBatch nowMs updates

/-- A call applies its updates one after the other, and stamps the store when one
of them was an assignment. -/
theorem run_spec (s : SystemState) (c : Call) (nowMs : UInt64) :
    contents ((atClock nowMs c).run s) = c.updates.foldl Contents.update (contents s) ∧
      ((atClock nowMs c).run s).lastUpdatedMs_ =
        if c.updates.any assigns then nowMs else s.lastUpdatedMs_ := by
  have hflag : ∀ (changed : Bool) (s : SystemState),
      contents (if changed then s.touch nowMs else s) = contents s ∧
        (if changed then s.touch nowMs else s).lastUpdatedMs_ =
          if changed then nowMs else s.lastUpdatedMs_ := by
    intro changed s
    cases changed with
    | true => exact ⟨rfl, rfl⟩
    | false => exact ⟨rfl, rfl⟩
  cases c with
  | apply now update =>
      obtain ⟨hcontents, hstamp⟩ := hflag (s.applyUnlocked update).2 (s.applyUnlocked update).1
      rw [contents_applyUnlocked] at hcontents
      refine ⟨hcontents, hstamp.trans ?_⟩
      rw [applyUnlocked_snd, lastUpdatedMs_applyUnlocked, Call.updates, List.any_cons,
        List.any_nil, Bool.or_false]
  | applyBatch now updates =>
      obtain ⟨hcontents, hstamp, hchanged⟩ := foldl_applyNext updates s false
      rw [Bool.or_false] at hchanged
      obtain ⟨hcontents', hstamp'⟩ := hflag (applyAllUnlocked updates s).2
        (applyAllUnlocked updates s).1
      refine ⟨hcontents'.trans hcontents, hstamp'.trans ?_⟩
      rw [applyAllUnlocked, hchanged, hstamp, Call.updates]

/-- The call executes `touch`: the clock value of the call is the time stamp
afterwards, whatever it is. -/
def Touches (s : SystemState) (c : Call) : Prop :=
  ∀ nowMs, ((atClock nowMs c).run s).lastUpdatedMs_ = nowMs

theorem touches_iff (s : SystemState) (c : Call) :
    Touches s c ↔ ∃ u ∈ c.updates, assigns u = true := by
  rw [← List.any_eq_true]
  constructor
  · intro htouches
    by_contra hany
    have hnone := Bool.eq_false_iff.mpr hany
    -- a clock value that is not the old time stamp
    have hstamp := (run_spec s c (s.lastUpdatedMs_ + 1)).2
    rw [htouches, hnone, if_neg Bool.false_ne_true] at hstamp
    have hval := congrArg UInt64.toBitVec hstamp
    rw [UInt64.toBitVec_add] at hval
    exact absurd hval (by simp)
  · intro hany nowMs
    rw [(run_spec s c nowMs).2, if_pos hany]

/-- The clock is not part of the contents. -/
theorem contents_run (s : SystemState) (c : Call) :
    contents (c.run s) = c.updates.foldl Contents.update (contents s) := by
  cases c with
  | apply nowMs update => exact (run_spec s (.apply nowMs update) nowMs).1
  | applyBatch nowMs updates => exact (run_spec s (.applyBatch nowMs updates) nowMs).1

/-- A row of calls does to the contents what the row of its updates does. -/
theorem contents_calls (calls : List Call) (s : SystemState) :
    contents (calls.foldl Call.run s) = (updatesOf calls).foldl Contents.update (contents s) := by
  induction calls generalizing s with
  | nil => rfl
  | cons c calls ih =>
      have hsplit : updatesOf (c :: calls) = c.updates ++ updatesOf calls := List.flatMap_cons
      rw [List.foldl_cons, ih, contents_run, hsplit, List.foldl_append]

/-! ## Changes and the time stamp -/

/-- What a call changes of the contents, it stamps. -/
def Timestamped (s : SystemState) (c : Call) : Prop :=
  contents (c.run s) ≠ contents s → Touches s c

/-- Updates that assign nothing leave an entry as it is. -/
theorem assignLrad_eq {u : StateUpdate} (h : assignsLrad u = false) (state : StateUpdate) :
    assignLrad u state = state := by
  simp only [assignsLrad, Bool.or_eq_false_iff, Option.isSome_eq_false_iff,
    Option.isNone_iff_eq_none] at h
  simp only [assignLrad, h, Option.none_or]

/-- Every LRAD the updates name has an entry. -/
def Known (c : Contents) (updates : List StateUpdate) : Prop :=
  ∀ u ∈ updates, ∀ id, u.lradId = some id → id ∈ c.lradStates

/-- An update that assigns nothing changes nothing, but for an entry that is not
there yet. -/
theorem update_eq {c : Contents} {u : StateUpdate} (h : assigns u = false)
    (hknown : ∀ id, u.lradId = some id → id ∈ c.lradStates) : c.update u = c := by
  obtain ⟨hmode, hlrad⟩ := Bool.or_eq_false_iff.mp h
  apply Contents.ext
  · show u.systemMode.getD c.systemMode = c.systemMode
    rw [Option.isNone_iff_eq_none.mp (Option.isSome_eq_false_iff.mp hmode)]
    rfl
  · rw [Contents.update]
    cases hid : u.lradId with
    | none => rfl
    | some id =>
        rw [hid, Option.isSome_some, Bool.true_and] at hlrad
        obtain ⟨state, hstate⟩ : ∃ state, c.lradStates[id]? = some state :=
          Option.isSome_iff_exists.mp (Std.ExtTreeMap.isSome_getElem?_iff_mem.mpr (hknown id hid))
        show c.lradStates.insert id (assignLrad u (c.lradStates.getD id {})) = c.lradStates
        rw [assignLrad_eq hlrad, Std.ExtTreeMap.getD_eq_getD_getElem?, hstate, Option.getD_some]
        apply Std.ExtTreeMap.ext_getElem?
        intro id'
        rw [Std.ExtTreeMap.getElem?_insert]
        split_ifs with heq
        · rw [← Std.LawfulEqCmp.eq_of_compare heq, hstate]
        · rfl

/-- An update creates the entry of the LRAD it names, and removes none. -/
theorem mem_update_iff {c : Contents} {u : StateUpdate} {id : UInt16} :
    id ∈ (c.update u).lradStates ↔ id ∈ c.lradStates ∨ u.lradId = some id := by
  rw [Contents.update]
  cases hid : u.lradId with
  | none => exact (or_iff_left (Option.some_ne_none id).symm).symm
  | some id' =>
      show id ∈ c.lradStates.insert id' _ ↔ _
      rw [Std.ExtTreeMap.mem_insert, Std.LawfulEqCmp.compare_eq_iff_eq, Option.some.injEq]
      exact or_comm

theorem mem_foldl_update_iff {updates : List StateUpdate} {c : Contents} {id : UInt16} :
    id ∈ (updates.foldl Contents.update c).lradStates ↔
      id ∈ c.lradStates ∨ ∃ u ∈ updates, u.lradId = some id := by
  induction updates generalizing c with
  | nil => simp
  | cons u updates ih =>
      rw [List.foldl_cons, ih, mem_update_iff, or_assoc, List.exists_mem_cons_iff]

theorem foldl_update_eq {updates : List StateUpdate} {c : Contents}
    (h : ∀ u ∈ updates, assigns u = false) (hknown : Known c updates) :
    updates.foldl Contents.update c = c := by
  induction updates with
  | nil => rfl
  | cons u updates ih =>
      rw [List.forall_mem_cons] at h
      obtain ⟨hu, hupdates⟩ := List.forall_mem_cons.mp hknown
      rw [List.foldl_cons, update_eq h.1 hu, ih h.2 hupdates]

/-- A call stamps what it changes if it assigns something, or if every LRAD it names
had an entry before; otherwise it creates an entry and leaves the time stamp as it was. -/
theorem stamps_iff (s : SystemState) (c : Call) :
    Timestamped s c ↔
      (∃ u ∈ c.updates, assigns u = true) ∨ Known (contents s) c.updates := by
  rw [Timestamped, touches_iff, contents_run]
  constructor
  · intro hstamped
    by_cases hassigns : ∃ u ∈ c.updates, assigns u = true
    · exact Or.inl hassigns
    · -- nothing was changed then, so the entries are those of before
      have hsame := not_imp_comm.mp hstamped hassigns
      refine Or.inr (fun u hu id hid => ?_)
      rw [← hsame]
      exact mem_foldl_update_iff.mpr (Or.inr ⟨u, hu, hid⟩)
  · rintro (hassigns | hknown) hchanged
    · exact hassigns
    · by_contra hnone
      apply hchanged
      refine foldl_update_eq (fun u hu => ?_) hknown
      exact Bool.eq_false_iff.mpr (fun h => hnone ⟨u, hu, h⟩)

/-- The LRADs with an entry are those that a call before has named. -/
theorem known_stateAfter_iff (before : List Call) (updates : List StateUpdate) :
    Known (contents (stateAfter before)) updates ↔
      ∀ u ∈ updates, ∀ id, u.lradId = some id → ∃ v ∈ updatesOf before, v.lradId = some id := by
  have hmem : ∀ id, id ∈ (contents (stateAfter before)).lradStates ↔
      ∃ v ∈ updatesOf before, v.lradId = some id := by
    intro id
    rw [stateAfter, contents_calls, mem_foldl_update_iff]
    exact or_iff_right Std.ExtTreeMap.not_mem_empty
  simp only [Known, hmem]

/-- **Time stamps.** After any row of calls, a call stamps what it changes if and only
if it assigns something or every LRAD it names was named before. -/
theorem timestamped_iff (before : List Call) (c : Call) :
    Timestamped (stateAfter before) c ↔
      (∃ u ∈ c.updates, assigns u = true) ∨
        ∀ u ∈ c.updates, ∀ id, u.lradId = some id →
          ∃ v ∈ updatesOf before, v.lradId = some id := by
  rw [stamps_iff, known_stateAfter_iff]

/-- An entry without fields, created on a fresh store at any time. -/
theorem entry_not_stamped : ¬ Timestamped {} (.apply 5 { lradId := some 1 }) := by
  rw [stamps_iff]
  rintro (⟨u, hu, hassigns⟩ | hknown)
  · rw [List.mem_singleton.mp hu] at hassigns
    exact absurd hassigns (by decide)
  · exact absurd (hknown _ (List.mem_singleton_self _) 1 rfl) Std.ExtTreeMap.not_mem_empty

/-! ## Order of updates -/

/-- No field is set by both updates. -/
structure Independent (u v : StateUpdate) : Prop where
  mode : u.systemMode = none ∨ v.systemMode = none
  fields : ∀ id f, writesField id f u = none ∨ writesField id f v = none

/-- Entries with the same fields are the same. -/
theorem entry_ext {a b : StateUpdate} (hmode : a.systemMode = b.systemMode)
    (hid : a.lradId = b.lradId) (h : ∀ f : LradField, f.get a = f.get b) : a = b := by
  cases a
  cases b
  simp only [StateUpdate.mk.injEq]
  exact ⟨hmode, hid, h .cueingStatus, h .configuration, h .online, h .engaged, h .audioEnabled,
    h .ladEnabled, h .lrfEnabled, h .inibithionSector1, h .inibithionSector2, h .swVersion⟩

theorem or_left_comm {α : Type} {a b : Option α} (h : a = none ∨ b = none) (c : Option α) :
    a.or (b.or c) = b.or (a.or c) := by
  rcases h with rfl | rfl
  · rfl
  · rfl

/-- Two updates for one LRAD that set different fields. -/
theorem assignLrad_comm {u v : StateUpdate} (h : ∀ f : LradField, f.get u = none ∨ f.get v = none)
    (state : StateUpdate) :
    assignLrad v (assignLrad u state) = assignLrad u (assignLrad v state) := by
  refine @entry_ext (assignLrad v (assignLrad u state)) (assignLrad u (assignLrad v state)) rfl rfl
    (fun f => ?_)
  simp only [get_assignLrad]
  split_ifs
  · exact or_left_comm (h f).symm _
  · rfl

/-- Inserting twice, where each entry is made from the one before. -/
theorem insert_comm {states : Std.ExtTreeMap UInt16 StateUpdate} {id id' : UInt16}
    (f g : StateUpdate → StateUpdate) (h : id = id' → ∀ state, g (f state) = f (g state)) :
    (states.insert id (f (states.getD id {}))).insert id'
        (g ((states.insert id (f (states.getD id {}))).getD id' {})) =
      (states.insert id' (g (states.getD id' {}))).insert id
        (f ((states.insert id' (g (states.getD id' {}))).getD id {})) := by
  apply Std.ExtTreeMap.ext_getElem?
  intro k
  by_cases heq : id = id'
  · subst heq
    simp only [Std.ExtTreeMap.getElem?_insert, Std.ExtTreeMap.getD_insert, Std.ReflCmp.compare_self,
      if_true, h rfl]
    split_ifs
    · rfl
    · rfl
  · -- at most one of the two keys is looked up
    simp only [Std.ExtTreeMap.getElem?_insert, Std.ExtTreeMap.getD_insert,
      Std.LawfulEqCmp.compare_eq_iff_eq, heq, Ne.symm heq, if_false]
    split_ifs with hk' hk
    · exact absurd (hk.trans hk'.symm) heq
    · rfl
    · rfl
    · rfl

/-- Independent updates commute. -/
theorem update_comm {u v : StateUpdate} (h : Independent u v) (c : Contents) :
    (c.update u).update v = (c.update v).update u := by
  apply Contents.ext
  · show v.systemMode.getD (u.systemMode.getD c.systemMode) =
      u.systemMode.getD (v.systemMode.getD c.systemMode)
    rcases h.mode with hu | hv
    · rw [hu]
      rfl
    · rw [hv]
      rfl
  · simp only [Contents.update]
    cases hu : u.lradId with
    | none => rfl
    | some id =>
        cases hv : v.lradId with
        | none => rfl
        | some id' =>
            apply insert_comm (assignLrad u) (assignLrad v)
            rintro rfl state
            apply assignLrad_comm
            intro f
            have hfield := h.fields id f
            rwa [writesField, if_pos hu, writesField, if_pos hv] at hfield

/-- **Batches.** However a row of updates is cut into calls, the contents are the
same. A batch stamps the store, whatever the store and the time, if and only if one of
its updates would by itself, whatever the store and the time. And two neighbours that
set nothing in common can be exchanged. -/
theorem batching_transparent (s : SystemState) :
    (∀ calls calls' : List Call, updatesOf calls = updatesOf calls' →
      contents (calls.foldl Call.run s) = contents (calls'.foldl Call.run s)) ∧
    (∀ (s' : SystemState) (nowMs nowMs' : UInt64) (updates : List StateUpdate),
      Touches s (.applyBatch nowMs updates) ↔ ∃ u ∈ updates, Touches s' (.apply nowMs' u)) ∧
    ∀ (calls calls' : List Call) (before after : List StateUpdate) (u v : StateUpdate),
      Independent u v → updatesOf calls = before ++ u :: v :: after →
      updatesOf calls' = before ++ v :: u :: after →
      contents (calls.foldl Call.run s) = contents (calls'.foldl Call.run s) := by
  refine ⟨?_, ?_, ?_⟩
  · intro calls calls' hsame
    rw [contents_calls, contents_calls, hsame]
  · intro s' nowMs nowMs' updates
    -- whether an update assigns something depends on nothing else
    have halone : ∀ u, Touches s' (.apply nowMs' u) ↔ assigns u = true := by
      intro u
      rw [touches_iff, Call.updates]
      simp only [List.mem_singleton, exists_eq_left]
    simp only [halone]
    exact touches_iff s (.applyBatch nowMs updates)
  · intro calls calls' before after u v hindependent hcalls hcalls'
    rw [contents_calls, contents_calls, hcalls, hcalls']
    simp only [List.foldl_append, List.foldl_cons, update_comm hindependent]

/-- Two fields of one LRAD, in one batch or in two calls the other way round. -/
theorem batching_transparent_two :
    contents (Call.run {} (.applyBatch 1
        [{ lradId := some 1, engaged := some true }, { lradId := some 1, online := some true }])) =
      contents (Call.run (Call.run {} (.apply 2 { lradId := some 1, online := some true }))
        (.apply 3 { lradId := some 1, engaged := some true })) := by
  have hindependent : Independent { lradId := some 1, engaged := some true }
      { lradId := some 1, online := some true } := by
    refine ⟨Or.inl rfl, fun id f => ?_⟩
    cases f with
    | engaged => exact Or.inr (ite_self _)
    | _ => exact Or.inl (ite_self _)
  exact (batching_transparent {}).2.2 [.applyBatch 1 [_, _]] [.apply 2 _, .apply 3 _] [] [] _ _
    hindependent rfl rfl

end CmsProxy.Batches
