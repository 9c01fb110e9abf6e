/-
A cueing order on its way through the converter, in any arithmetic.

The coordinates of the order are turned into two angles (`handedAngles`), and the
angles into one of two commands: `MOVE` with the wrapped angles as they are, or
`DELTA` with the wrapped angles rounded and cut to 16 bits. Which numbers a command
holds follows from the wrap alone (`move_command`, `delta_command`), and the packet
that is sent has the text of the command (`cueing_emits`). What the numbers are is
left to the modules that fix an arithmetic.
-/
import CmsProxy.Acceptance
import CmsProxy.Commands

set_option autoImplicit false

namespace CmsProxy.Cueing

open BigEndian Interfaces JsonValue CueingMath Converter Orders
open Acceptance (serialize_returns_iff)

section

variable {F : Type} [CFloat F] {rt : Runtime F} {data : Bytes} {snapshot : SystemStateSnapshot}

/-! ## The packet -/

/-- The datagram becomes one packet with the text of this document. -/
def Emits (rt : Runtime F) (data : Bytes) (snapshot : SystemStateSnapshot) (j : Json F) : Prop :=
  ∃ r p, convert rt { data := data } snapshot = .ok r ∧ r.packets = [p] ∧
    p.destinationLradId = u16At data 20 ∧ rt.dump j = some p.data ∧
    rt.parse p.data = some (j.reread rt.floatBack)

/-- The datagram is made into at least one packet. -/
def Accepted (rt : Runtime F) (data : Bytes) (snapshot : SystemStateSnapshot) : Prop :=
  ∃ r, convert rt { data := data } snapshot = .ok r ∧ r.packets ≠ []

theorem Emits.accepted {j : Json F} (h : Emits rt data snapshot j) : Accepted rt data snapshot := by
  obtain ⟨r, p, hr, hp, -⟩ := h
  refine ⟨r, hr, ?_⟩
  rw [hp]
  exact List.cons_ne_nil p []

/-- A handler that makes one message for the LRAD at offset 20 makes one packet. -/
theorem emits_of_handler (hjson : rt.JsonLaws) {k : Kind} (hk : messageKind data = some k)
    {m : ConvertedMessage F} {updates : List StateUpdate}
    (hhandler : handlerOf F k rt { data := data } snapshot [] = .ok ([m], updates))
    (hlrad : m.destinationLradId = u16At data 20) {a : Option (Json F)}
    (hdoc : Document a true m.payload) : Emits rt data snapshot m.payload := by
  obtain ⟨p, hp⟩ := (serialize_returns_iff hjson).mpr hdoc.utf8Ok
  obtain ⟨hdump, hdest⟩ := serialize_eq_ok.mp hp
  have hparse := hjson.parse_dump _ _ hdoc.sorted hdump
  have hconvert := @convert_eq F _ rt { data := data } snapshot
  rw [hk] at hconvert
  simp only [hhandler, ok_bind, List.mapM_cons, List.mapM_nil, hp, pure_eq_ok] at hconvert
  exact ⟨_, p, hconvert, rfl, hdest.symm.trans hlrad, hdump, hparse⟩

/-- An order of a single message that is accepted is complete. -/
theorem size_of_accepted {k : Kind} (hk : messageKind data = some k)
    (hsingle : k ≠ .change_configuration) (h : Accepted rt data snapshot) :
    k.size ≤ data.length := by
  obtain ⟨r, hr, hne⟩ := h
  have horders : ordersOf data ≠ [] := fun h => hne ((convert_ok hr).packets_eq_nil_iff.mpr h)
  rw [ordersOf_single hk hsingle] at horders
  by_contra hsize
  exact horders (if_neg hsize)

/-! ## The angles -/

/-- The angles `cartesian2target` hands to the two commands. -/
def handedAngles (rt : Runtime F) (data : Bytes) : Except Fault (F × F) :=
  let (x, y, z, hasCartesianCoordinates) := coordinatesAt F data (u16At data 36)
  cueing_angles rt x y z hasCartesianCoordinates

/-- Whether the datagram has the coordinates of its kinematics type. -/
def hasCoordinates (data : Bytes) : Bool :=
  if u16At data 36 = 1 ∨ u16At data 36 = 2 then decide (52 ≤ data.length)
  else if u16At data 36 = 3 ∨ u16At data 36 = 4 then decide (48 ≤ data.length)
  else false

theorem coordinatesAt_present (data : Bytes) :
    (coordinatesAt F data (u16At data 36)).2.2.2 = hasCoordinates data := by
  rw [coordinatesAt, hasCoordinates]
  split_ifs with h12 h52 h34 h48
  · exact (decide_eq_true h52).symm
  · exact (decide_eq_false h52).symm
  · exact (decide_eq_true h48).symm
  · exact (decide_eq_false h48).symm
  · rfl

/-- The message of a cueing order is the command, with the order's fields added. -/
theorem cueing_handled (hsize : 38 ≤ data.length) {azimuthDeg elevationDeg : F}
    (hangles : handedAngles rt data = .ok (azimuthDeg, elevationDeg)) {command : Json F}
    (hcommand : cueing_order_json rt (u16At data 22) (hasCoordinates data) azimuthDeg
      elevationDeg = .ok command) :
    handlerOf F .cueing_order rt { data := data } snapshot [] = .ok ([{
      payload := Json.set (str "meta") (cueingMeta data) command
      destinationLradId := u16At data 20 }], []) := by
  have hmessage : cueingMessage rt data = .ok {
      payload := command |> Json.set (str "meta") (cueingMeta data)
      destinationLradId := u16At data 20 } := by
    rw [← @coordinatesAt_present F] at hcommand
    unfold handedAngles at hangles
    unfold cueingMessage
    simp only [hangles, hcommand, ok_bind, pure_eq_ok]
  have hhandler := handle_cueing_spec rt { data := data } snapshot
  rw [if_pos hsize, hmessage] at hhandler
  exact hhandler

/-- It is what is sent. -/
theorem cueing_emits (hjson : rt.JsonLaws) (hk : messageKind data = some .cueing_order)
    (hsize : 38 ≤ data.length) {azimuthDeg elevationDeg : F}
    (hangles : handedAngles rt data = .ok (azimuthDeg, elevationDeg)) {command : Json F}
    (hcommand : cueing_order_json rt (u16At data 22) (hasCoordinates data) azimuthDeg
      elevationDeg = .ok command) :
    Emits rt data snapshot (Json.set (str "meta") (cueingMeta data) command) :=
  emits_of_handler hjson hk (cueing_handled hsize hangles hcommand) rfl
    (cueing_document _ _ _ _ _ hcommand)

/-! ## The two commands -/

/-- The document is a `MOVE` command with these values. -/
structure Move (j : Json F) (goTo : Bytes) (az el : F) : Prop where
  header : j.at? [str "header"] = some (.string (str "MOVE"))
  goTo : j.at? [str "param", str "goTo"] = some (.string goTo)
  az : j.at? [str "param", str "az"] = some (.number_float az)
  el : j.at? [str "param", str "el"] = some (.number_float el)

/-- The document is a `DELTA` command with these values. -/
structure Delta (j : Json F) (az el : ℕ) : Prop where
  header : j.at? [str "header"] = some (.string (str "DELTA"))
  az : j.at? [str "param", str "az"] = some (.number_unsigned az)
  el : j.at? [str "param", str "el"] = some (.number_unsigned el)

variable {azimuthDeg elevationDeg az el : F}

theorem move_command (haz : normalize_0_360 rt azimuthDeg = some az)
    (hel : normalize_0_360 rt elevationDeg = some el) (hasCartesianCoordinates : Bool)
    (rest : Json F) : ∃ command,
      cueing_order_json rt 1 hasCartesianCoordinates azimuthDeg elevationDeg = .ok command ∧
      Move (Json.set (str "meta") rest command)
        (if hasCartesianCoordinates then str "ABS" else str "HOME") az el := by
  rw [cueing_order_json, haz, hel]
  refine ⟨_, rfl, ?_⟩
  constructor <;> simp [Json.at?, findMember]

theorem delta_command {cueingType : UInt16} (hne : cueingType ≠ 1)
    (haz : normalize_0_360 rt azimuthDeg = some az)
    (hel : normalize_0_360 rt elevationDeg = some el) (hasCartesianCoordinates : Bool)
    (rest : Json F) : ∃ command,
      cueing_order_json rt cueingType hasCartesianCoordinates azimuthDeg elevationDeg =
        .ok command ∧
      Delta (Json.set (str "meta") rest command) (UInt16.ofInt (rt.lround az)).toNat
        (UInt16.ofInt (rt.lround el)).toNat := by
  rw [cueing_order_json, encode_delta_u16, encode_delta_u16, haz, hel]
  simp only [finished, ok_bind, if_neg hne, Option.bind_eq_bind, Option.bind_some]
  refine ⟨_, rfl, ?_⟩
  constructor <;> simp [Json.at?, findMember]

end

end CmsProxy.Cueing
