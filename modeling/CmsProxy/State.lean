/-
`SystemState.cpp`: the state store and its partial updates.

The mutex of the original makes each member function one step; what the model
keeps is the state between two steps. The clock value `touch()` reads is an
argument of the two functions that call it.
-/
import CmsProxy.Interfaces

set_option autoImplicit false

namespace CmsProxy.State

open BigEndian (Bytes)
open Interfaces

/-- `SystemState`, without its mutex. -/
structure SystemState where
  systemMode_ : Bytes := []
  lradStates_ : Std.ExtTreeMap UInt16 StateUpdate := ∅
  lastUpdatedMs_ : UInt64 := 0

/-- `touch`, at the clock value `nowMs`. -/
def SystemState.touch (nowMs : UInt64) (s : SystemState) : SystemState :=
  { s with lastUpdatedMs_ := nowMs }

/-- `getSnapshot`. -/
def SystemState.getSnapshot (s : SystemState) : SystemStateSnapshot where
  systemMode := s.systemMode_
  lradStates := s.lradStates_
  timestampMs := s.lastUpdatedMs_

/-- The assignments under `if (update.lradId.has_value())`, field by field in
the order of the source. `cueingStatus` and `configuration` are not among them. -/
def assignLrad (update state : StateUpdate) : StateUpdate :=
  { state with
    online := update.online.or state.online
    engaged := update.engaged.or state.engaged
    audioEnabled := update.audioEnabled.or state.audioEnabled
    ladEnabled := update.ladEnabled.or state.ladEnabled
    lrfEnabled := update.lrfEnabled.or state.lrfEnabled
    inibithionSector1 := update.inibithionSector1.or state.inibithionSector1
    inibithionSector2 := update.inibithionSector2.or state.inibithionSector2
    swVersion := update.swVersion.or state.swVersion }

/-- Whether one of those assignments is executed. -/
def assignsLrad (update : StateUpdate) : Bool :=
  update.online.isSome || update.engaged.isSome || update.audioEnabled.isSome
    || update.ladEnabled.isSome || update.lrfEnabled.isSome || update.inibithionSector1.isSome
    || update.inibithionSector2.isSome || update.swVersion.isSome

/-- `applyUnlocked`: the new state and the `changed` flag. The entry of an LRAD
is created by `operator[]` before any field of it is looked at. -/
def SystemState.applyUnlocked (update : StateUpdate) (s : SystemState) : SystemState × Bool :=
  let (s, changed) :=
    match update.systemMode with
    | some mode => ({ s with systemMode_ := mode }, true)
    | none => (s, false)
  match update.lradId with
  | none => (s, changed)
  | some id =>
      let state := s.lradStates_.getD id {}
      ({ s with lradStates_ := s.lradStates_.insert id (assignLrad update state) },
        changed || assignsLrad update)

/-- `apply`. -/
def SystemState.apply (nowMs : UInt64) (update : StateUpdate) (s : SystemState) : SystemState :=
  let (s, changed) := s.applyUnlocked update
  if changed then s.touch nowMs else s

/-- The body of the loop of `applyBatch`: `changed = applyUnlocked(update) || changed`. -/
def applyNext (acc : SystemState × Bool) (update : StateUpdate) : SystemState × Bool :=
  let (s, changed) := acc.1.applyUnlocked update
  (s, changed || acc.2)

/-- The loop. Every update is applied, whatever the flag is. -/
def applyAllUnlocked (updates : List StateUpdate) (s : SystemState) : SystemState × Bool :=
  updates.foldl applyNext (s, false)

/-- `applyBatch`. -/
def SystemState.applyBatch (nowMs : UInt64) (updates : List StateUpdate) (s : SystemState) :
    SystemState :=
  let (s, changed) := applyAllUnlocked updates s
  if changed then s.touch nowMs else s

end CmsProxy.State
