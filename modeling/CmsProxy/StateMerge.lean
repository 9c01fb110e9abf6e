/-
The state store as registers.

Seen from outside, every field of the store is a register: the system mode one,
and each field of each LRAD one. `applyUnlocked` merges an update by hand, field
by field, and of the ten fields of an LRAD it assigns eight. For these the store
holds what was written last (`read_field_calls`); `cueingStatus` and
`configuration` it never writes, so an update that carries one of them for some
LRAD is lost (`last_writer_wins_iff`). What an update must not touch, it leaves
alone (`frame_applyUnlocked`).
-/
import CmsProxy.JsonValue
import CmsProxy.Registers
import CmsProxy.State

set_option autoImplicit false

namespace CmsProxy.StateMerge

open BigEndian (Bytes)
open Interfaces JsonValue Registers
open State (SystemState applyNext applyAllUnlocked assignLrad assignsLrad)

/-! ## Fields -/

/-- The fields of an update that belong to an LRAD. -/
inductive LradField where
  | cueingStatus
  | configuration
  | online
  | engaged
  | audioEnabled
  | ladEnabled
  | lrfEnabled
  | inibithionSector1
  | inibithionSector2
  | swVersion
  deriving DecidableEq

/-- The type of a field. -/
abbrev LradField.Value : LradField → Type
  | .cueingStatus => Bytes
  | .configuration => Bytes
  | .online => Bool
  | .engaged => Bool
  | .audioEnabled => Bool
  | .ladEnabled => Bool
  | .lrfEnabled => Bool
  | .inibithionSector1 => double_t
  | .inibithionSector2 => double_t
  | .swVersion => Bytes

/-- The field of an update, or of a stored entry. -/
def LradField.get : (f : LradField) → StateUpdate → Option f.Value
  | .cueingStatus, u => u.cueingStatus
  | .configuration, u => u.configuration
  | .online, u => u.online
  | .engaged, u => u.engaged
  | .audioEnabled, u => u.audioEnabled
  | .ladEnabled, u => u.ladEnabled
  | .lrfEnabled, u => u.lrfEnabled
  | .inibithionSector1, u => u.inibithionSector1
  | .inibithionSector2, u => u.inibithionSector2
  | .swVersion, u => u.swVersion

/-- Whether `applyUnlocked` has an assignment for the field. -/
def LradField.assigned : LradField → Bool
  | .cueingStatus => false
  | .configuration => false
  | _ => true

theorem get_assignLrad (f : LradField) (update state : StateUpdate) :
    f.get (assignLrad update state) =
      if f.assigned then (f.get update).or (f.get state) else f.get state := by
  cases f <;> rfl

/-- A field of the entry of an LRAD; an LRAD without an entry has none. -/
def readField (id : UInt16) (f : LradField) (s : SystemStateSnapshot) : Option f.Value :=
  (s.lradStates[id]?).bind f.get

/-- What an update says about a field of an LRAD. -/
def writesField (id : UInt16) (f : LradField) (u : StateUpdate) : Option f.Value :=
  if u.lradId = some id then f.get u else none

/-! ## One update -/

/-- The entries after an update: at most the one of its LRAD is another. -/
theorem lradStates_applyUnlocked (s : SystemState) (u : StateUpdate) :
    (s.applyUnlocked u).1.lradStates_ =
      match u.lradId with
      | none => s.lradStates_
      | some id => s.lradStates_.insert id (assignLrad u (s.lradStates_.getD id {})) := by
  rw [SystemState.applyUnlocked]
  cases u.systemMode <;> cases u.lradId <;> rfl

theorem systemMode_applyUnlocked (s : SystemState) (u : StateUpdate) :
    some (s.applyUnlocked u).1.systemMode_ = u.systemMode.or (some s.systemMode_) := by
  rw [SystemState.applyUnlocked]
  cases u.systemMode <;> cases u.lradId <;> rfl

/-- An entry that `operator[]` has to create has no fields yet. -/
theorem get_getD (states : Std.ExtTreeMap UInt16 StateUpdate) (id : UInt16) (f : LradField) :
    f.get (states.getD id {}) = (states[id]?).bind f.get := by
  rw [Std.ExtTreeMap.getD_eq_getD_getElem?]
  cases states[id]? with
  | none => cases f <;> rfl
  | some state => rfl

/-- The entries of all other LRADs are as they were. -/
theorem getElem?_applyUnlocked_of_ne {s : SystemState} {u : StateUpdate} {id : UInt16}
    (h : u.lradId ≠ some id) :
    (s.applyUnlocked u).1.lradStates_[id]? = s.lradStates_[id]? := by
  rw [lradStates_applyUnlocked]
  cases hid : u.lradId with
  | none => rfl
  | some id' =>
      have hne : id' ≠ id := fun heq => h (hid.trans (congrArg some heq))
      simp only [Std.ExtTreeMap.getElem?_insert, Std.LawfulEqCmp.compare_eq_iff_eq, hne, if_false]

/-- An update writes the fields it carries for its LRAD, if the store assigns them. -/
theorem readField_applyUnlocked (id : UInt16) (f : LradField) (s : SystemState)
    (u : StateUpdate) :
    readField id f (s.applyUnlocked u).1.getSnapshot =
      (if f.assigned then writesField id f u else none).or (readField id f s.getSnapshot) := by
  show ((s.applyUnlocked u).1.lradStates_[id]?).bind f.get = _
  by_cases hid : u.lradId = some id
  · rw [lradStates_applyUnlocked, hid, writesField, if_pos hid]
    simp only [Std.ExtTreeMap.getElem?_insert_self, Option.bind_some, get_assignLrad, get_getD]
    split_ifs <;> rfl
  · rw [getElem?_applyUnlocked_of_ne hid, writesField, if_neg hid, ite_self, Option.none_or]
    rfl

/-- What an update leaves alone. -/
structure Frame (u : StateUpdate) (s s' : SystemStateSnapshot) : Prop where
  /-- The entries of all other LRADs. -/
  others : ∀ id, u.lradId ≠ some id → s'.lradStates[id]? = s.lradStates[id]?
  /-- Every field it does not carry. -/
  absent : ∀ id f, f.get u = none → readField id f s' = readField id f s
  mode : u.systemMode = none → s'.systemMode = s.systemMode

theorem frame_applyUnlocked (u : StateUpdate) (s : SystemState) :
    Frame u s.getSnapshot (s.applyUnlocked u).1.getSnapshot where
  others _ h := getElem?_applyUnlocked_of_ne h
  absent id f h := by
    have hnone : writesField id f u = none := by
      rw [writesField, h, ite_self]
    rw [readField_applyUnlocked, hnone, ite_self, Option.none_or]
  mode h := by
    have hmode := systemMode_applyUnlocked s u
    rw [h, Option.none_or] at hmode
    exact Option.some.inj hmode

/-! ## Calls -/

/-- A call of the store that changes it, at a clock value. -/
inductive Call where
  | apply (nowMs : UInt64) (update : StateUpdate)
  | applyBatch (nowMs : UInt64) (updates : List StateUpdate)

def Call.run (s : SystemState) : Call → SystemState
  | .apply nowMs update => s.apply nowMs update
  | .applyBatch nowMs updates => s.applyBatch nowMs updates

def Call.updates : Call → List StateUpdate
  | .apply _ update => [update]
  | .applyBatch _ updates => updates

/-- The state after a row of calls on a fresh `SystemState`. -/
def stateAfter (calls : List Call) : SystemState := calls.foldl Call.run {}

/-- All updates of a row of calls, in their order. -/
def updatesOf (calls : List Call) : List StateUpdate := calls.flatMap Call.updates

section

variable {γ : Type} {read : SystemState → Option γ} {write : StateUpdate → Option γ}

/-- The loop of `applyBatch` applies every update. -/
theorem applyAllUnlocked_fst (updates : List StateUpdate) (s : SystemState) :
    (applyAllUnlocked updates s).1 =
      updates.foldl (fun s u => (s.applyUnlocked u).1) s := by
  have loop : ∀ (updates : List StateUpdate) (acc : SystemState × Bool),
      (updates.foldl applyNext acc).1 =
        updates.foldl (fun s u => (s.applyUnlocked u).1) acc.1 := by
    intro updates
    induction updates with
    | nil =>
        intro acc
        rfl
    | cons u updates ih =>
        intro acc
        rw [List.foldl_cons, List.foldl_cons, ih]
        rfl
  exact loop updates (s, false)

/-- A call writes a register as its updates do; the time stamp is no register. -/
theorem read_run (htouch : ∀ nowMs s, read (s.touch nowMs) = read s)
    (hupdate : ∀ s u, read (s.applyUnlocked u).1 = (write u).or (read s))
    (s : SystemState) (c : Call) :
    read (c.run s) = (lastWrite write c.updates).or (read s) := by
  have hflag : ∀ (changed : Bool) (nowMs : UInt64) (s : SystemState),
      read (if changed then s.touch nowMs else s) = read s := by
    intro changed nowMs s
    cases changed with
    | false => rfl
    | true => exact htouch nowMs s
  cases c with
  | apply nowMs update =>
      rw [Call.run, SystemState.apply, hflag, hupdate, Call.updates, lastWrite_cons]
      rfl
  | applyBatch nowMs updates =>
      rw [Call.run, SystemState.applyBatch, hflag, applyAllUnlocked_fst, read_foldl hupdate]
      rfl

/-- The last write of all calls is what a register holds in the end. -/
theorem read_calls (htouch : ∀ nowMs s, read (s.touch nowMs) = read s)
    (hupdate : ∀ s u, read (s.applyUnlocked u).1 = (write u).or (read s)) (calls : List Call) :
    read (stateAfter calls) = (lastWrite write (updatesOf calls)).or (read {}) := by
  have hlast : ∀ calls : List Call,
      lastWrite (fun c : Call => lastWrite write c.updates) calls =
        lastWrite write (updatesOf calls) := by
    intro calls
    induction calls with
    | nil => rfl
    | cons c calls ih =>
        have hsplit : updatesOf (c :: calls) = c.updates ++ updatesOf calls := List.flatMap_cons
        rw [lastWrite_cons, ih, hsplit, lastWrite_append]
  rw [stateAfter, read_foldl (read_run htouch hupdate), hlast]

end

/-- What the store holds of a field, after any calls. -/
theorem read_field_calls (calls : List Call) (id : UInt16) (f : LradField) :
    readField id f (stateAfter calls).getSnapshot =
      if f.assigned then lastWrite (writesField id f) (updatesOf calls) else none := by
  have h := @read_calls f.Value (fun s => readField id f s.getSnapshot)
    (fun u => if f.assigned then writesField id f u else none) (fun _ _ => rfl)
    (readField_applyUnlocked id f) calls
  have hfresh : readField id f ({} : SystemState).getSnapshot = none := by
    show ((∅ : Std.ExtTreeMap UInt16 StateUpdate)[id]?).bind f.get = none
    rw [Std.ExtTreeMap.getElem?_empty, Option.bind_none]
  rw [h, hfresh, Option.or_none]
  cases f.assigned with
  | true => rfl
  | false => exact lastWrite_none _

theorem systemMode_calls (calls : List Call) :
    some (stateAfter calls).systemMode_ =
      (lastWrite StateUpdate.systemMode (updatesOf calls)).or (some []) :=
  @read_calls Bytes (fun s => some s.systemMode_) StateUpdate.systemMode (fun _ _ => rfl)
    systemMode_applyUnlocked calls

/-! ## Last writer wins -/

/-- Every field of the snapshot is what was written to it last. -/
structure LastWriterWins (calls : List Call) : Prop where
  systemMode : (stateAfter calls).getSnapshot.systemMode =
    (lastWrite StateUpdate.systemMode (updatesOf calls)).getD []
  fields : ∀ id f, readField id f (stateAfter calls).getSnapshot =
    lastWrite (writesField id f) (updatesOf calls)

/-- An update for an LRAD with one of the two fields the store does not assign. -/
def Loses (u : StateUpdate) : Prop :=
  u.lradId ≠ none ∧ (u.cueingStatus ≠ none ∨ u.configuration ≠ none)

/-- **Last writer wins** after exactly those calls none of whose updates carries a
`cueingStatus` or a `configuration` for an LRAD. No update alters what it does
not carry. -/
theorem last_writer_wins_iff (calls : List Call) :
    (∀ u s, Frame u s.getSnapshot (SystemState.applyUnlocked u s).1.getSnapshot) ∧
    (LastWriterWins calls ↔ ∀ u ∈ updatesOf calls, ¬ Loses u) := by
  refine ⟨frame_applyUnlocked, ?_⟩
  constructor
  · rintro hwins u hu ⟨hid, hfield⟩
    obtain ⟨id, hid⟩ := Option.ne_none_iff_exists'.mp hid
    -- a field without an assignment stays empty, so nothing may have been written to it
    have hnone : ∀ f : LradField, f.assigned = false → f.get u = none := by
      intro f hf
      have hread := hwins.fields id f
      rw [read_field_calls, hf, if_neg Bool.false_ne_true] at hread
      have hwrite := lastWrite_eq_none_iff.mp hread.symm u hu
      rwa [writesField, if_pos hid] at hwrite
    exact hfield.elim (fun h => h (hnone .cueingStatus rfl)) (fun h => h (hnone .configuration rfl))
  · intro hkeeps
    constructor
    · have hmode := systemMode_calls calls
      show (stateAfter calls).systemMode_ = _
      cases hlast : lastWrite StateUpdate.systemMode (updatesOf calls) with
      | none =>
          rw [hlast] at hmode
          exact Option.some.inj hmode
      | some mode =>
          rw [hlast] at hmode
          exact Option.some.inj hmode
    · intro id f
      rw [read_field_calls]
      cases hf : f.assigned with
      | true => rfl
      | false =>
          -- the two fields are never written, and nothing was to be written to them
          refine (lastWrite_eq_none_iff.mpr ?_).symm
          intro u hu
          rw [writesField]
          split_ifs with hid
          · by_contra hfield
            have hlost : u.cueingStatus ≠ none ∨ u.configuration ≠ none := by
              cases f with
              | cueingStatus => exact Or.inl hfield
              | configuration => exact Or.inr hfield
              | _ => exact nomatch hf
            exact hkeeps u hu ⟨by rw [hid]; exact Option.some_ne_none id, hlost⟩
          · rfl

/-- A cueing status that is applied and is not there afterwards. -/
theorem cueingStatus_lost :
    ¬ LastWriterWins [.apply 0 { lradId := some 1, cueingStatus := some (str "TRACK") }] := by
  intro hwins
  have hread := hwins.fields 1 .cueingStatus
  rw [read_field_calls] at hread
  exact nomatch hread

end CmsProxy.StateMerge
