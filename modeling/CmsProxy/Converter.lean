/-
`BinaryConverter.cpp`: from a datagram to JSON commands, and from an outcome to
an ACK frame.

Every function is translated in the order its original does things. A call that
may end other than by returning is in `Except Fault`: the read helpers of the
original do no range check, so a read past the end is a fault here and not a
default value; `dump()` may throw; a loop may still be running. That none of
these happens where it must not is proved elsewhere, it is not built in.

Three things of the source are left out, because nothing calls or reads them:
the message ids that are not in the dispatch table, `payload_to_hex` and
`mapMasterMode`.
-/
import CmsProxy.CueingMath

set_option autoImplicit false

namespace CmsProxy.Converter

open BigEndian Interfaces JsonValue CueingMath

/-! ## Constants -/

def HeaderSize : ℕ := 16

def MessageId_CS_LRAS_change_configuration_order_INS : UInt32 := 1679949825
def MessageId_CS_LRAS_cueing_order_cancellation_INS : UInt32 := 1679949826
def MessageId_CS_LRAS_cueing_order_INS : UInt32 := 1679949827
def MessageId_CS_LRAS_emission_control_INS : UInt32 := 1679949828

def AckHeaderSize : ℕ := 16
def AckMessageSize : ℕ := 28
def MsgId_LRAS_CS_ack_INS : UInt32 := 576879045
def AckAccepted : UInt16 := 1
def NackNotExecuted : UInt16 := 2

/-! ## Reading a datagram -/

/-- The big-endian words of a byte string, where they are known to lie in it. -/
def u16At (data : Bytes) (offset : ℕ) : UInt16 := UInt16.ofNat (wordAt 2 offset data)

def u32At (data : Bytes) (offset : ℕ) : UInt32 := UInt32.ofNat (wordAt 4 offset data)

/-- `read_u16_be`, and the two-byte `memcpy` followed by `ntohs`. -/
def read_u16_be (data : Bytes) (offset : ℕ) : Except Fault UInt16 :=
  if offset + 2 ≤ data.length then .ok (u16At data offset) else .error .outOfRange

/-- `read_u32_be`, and the four-byte `memcpy` followed by `ntohl`. -/
def read_u32_be (data : Bytes) (offset : ℕ) : Except Fault UInt32 :=
  if offset + 4 ≤ data.length then .ok (u32At data offset) else .error .outOfRange

/-- `data[i]`. -/
def read_byte (data : Bytes) (i : ℕ) : Except Fault UInt8 :=
  match data[i]? with
  | some b => .ok b
  | none => .error .outOfRange

structure ParsedHeader where
  messageId : UInt32
  messageLength : UInt16

/-- `parseHeader`; `none` is its `false`. -/
def parseHeader (input : RawPacket) : Except Fault (Option ParsedHeader) := do
  if input.data.length < HeaderSize then return none
  let id ← read_u32_be input.data 0
  let word1 ← read_u32_be input.data 4
  let out : ParsedHeader := { messageId := id, messageLength := (word1 &&& 0xFFFF).toUInt16 }
  return if HeaderSize + out.messageLength.toNat ≤ input.data.length then some out else none

section

variable {F : Type} [CFloat F]

/-- `read_f32_be`. -/
def read_f32_be (F : Type) [CFloat F] (data : Bytes) (offset : ℕ) : Except Fault F :=
  (read_u32_be data offset).map CFloat.ofBits

/-- The value of a computation with loops in it. -/
def finished {α : Type} (result : Option α) : Except Fault α :=
  match result with
  | some a => .ok a
  | none => .error .stillRunning

/-! ## The ACK frame -/

/-- `map_nack_reason`. The error code is rebuilt in the system category. -/
def map_nack_reason (asio : AsioErrors) (sr : SendResult) : UInt16 :=
  if sr.success then 0
  else
    let ec : ErrorCode := { value := sr.error_value, category := .system }
    let is (value : ℤ) : Bool := ec = { value := value, category := .system }
    if is asio.invalid_argument || is asio.bad_descriptor
        || sr.error_category == str "resolver" || sr.error_category == str "engine" then 2
    else if is asio.already_started || is asio.in_progress || is asio.operation_aborted then 3
    else if is asio.timed_out || is asio.try_again || is asio.would_block
        || is asio.not_connected then 4
    else if is asio.connection_refused || is asio.connection_reset || is asio.host_unreachable
        || is asio.network_unreachable || is asio.network_down || is asio.broken_pipe
        || decide (ec = { value := asio.eof, category := .misc }) then 5
    else 0

/-- `build_ack_packet`. -/
def build_ack_packet (asio : AsioErrors) (action_id source_message_id : UInt32)
    (sr : SendResult) : RawPacket :=
  let ack_nack := if sr.success then AckAccepted else NackNotExecuted
  let nack_reason := if sr.success then 0 else map_nack_reason asio sr
  let bytes : Bytes := List.replicate AckMessageSize 0
  let bytes := memcpy bytes 0 (toBytes 4 MsgId_LRAS_CS_ack_INS.toNat)
  let bytes := memcpy bytes 4 (toBytes 4 (AckMessageSize - AckHeaderSize))
  let bytes := memcpy bytes 8 (toBytes 4 0)
  let bytes := memcpy bytes 12 (toBytes 4 0)
  let bytes := memcpy bytes 16 (toBytes 4 action_id.toNat)
  let bytes := memcpy bytes 20 (toBytes 4 source_message_id.toNat)
  let bytes := memcpy bytes 24 (toBytes 2 ack_nack.toNat)
  let bytes := memcpy bytes 26 (toBytes 2 nack_reason.toNat)
  { data := bytes }

/-! ## The four handlers -/

/-- `ConvertedMessage`. -/
structure ConvertedMessage (F : Type) where
  payload : Json F
  destinationLradId : UInt16

/-- What a handler returns and what it leaves in `stateUpdates`. -/
abbrev HandlerResult (F : Type) := List (ConvertedMessage F) × List StateUpdate

/-- The command of one change-configuration block. -/
def change_configuration_json (rawConfig : UInt16) : Json F :=
  Json.null
    |> Json.set (str "header") (.string (str "MASTER"))
    |> Json.set (str "type") (.string (str "CMD"))
    |> Json.set (str "sender") (.string (str "CMS"))
    |> Json.set (str "param") (Json.ofMembers
        [(str "mode", .string (if rawConfig = 0 then str "RELEASE" else str "REQ"))])

/-- The size of a block: action id, LRAD id, configuration. -/
def BlockSize : ℕ := 8

/-- The `while` loop of the handler. Each round moves `offset` on by a block, so
the rounds are fewer than the bytes. -/
def change_configuration_loop (packet : RawPacket) :
    ℕ → ℕ → HandlerResult F → Except Fault (HandlerResult F)
  | 0, _, _ => .error .stillRunning
  | rounds + 1, offset, (results, stateUpdates) =>
      if offset + BlockSize ≤ packet.data.length then do
        let _actionId ← read_u32_be packet.data offset
        let lradId ← read_u16_be packet.data (offset + 4)
        let rawConfig ← read_u16_be packet.data (offset + 6)
        let message : ConvertedMessage F :=
          { payload := change_configuration_json rawConfig, destinationLradId := lradId }
        let delta : StateUpdate := { lradId := some lradId, engaged := some (rawConfig != 0) }
        change_configuration_loop packet rounds (offset + BlockSize)
          (results ++ [message], stateUpdates ++ [delta])
      else .ok (results, stateUpdates)

/-- `handle_CS_LRAS_change_configuration_order_INS`. -/
def handle_CS_LRAS_change_configuration_order_INS (_rt : Runtime F) (packet : RawPacket)
    (_snapshot : SystemStateSnapshot) (stateUpdates : List StateUpdate) :
    Except Fault (HandlerResult F) :=
  change_configuration_loop packet (packet.data.length + 1) 16 ([], stateUpdates)

/-- The command of a cancellation. -/
def cueing_order_cancellation_json : Json F :=
  Json.null
    |> Json.set (str "header") (.string (str "TRCK"))
    |> Json.set (str "type") (.string (str "CMD"))
    |> Json.set (str "sender") (.string (str "CMS"))
    |> Json.set (str "param") (Json.ofMembers
        [(str "mode", .string (str "READY")), (str "target", .array [])])

/-- `handle_CS_LRAS_cueing_order_cancellation_INS`. -/
def handle_CS_LRAS_cueing_order_cancellation_INS (_rt : Runtime F) (packet : RawPacket)
    (_snapshot : SystemStateSnapshot) (stateUpdates : List StateUpdate) :
    Except Fault (HandlerResult F) := do
  if packet.data.length < 16 + 6 then return ([], stateUpdates)
  let _actionId ← read_u32_be packet.data 16
  let lradId ← read_u16_be packet.data (16 + 4)
  return ([{ payload := cueing_order_cancellation_json, destinationLradId := lradId }],
    stateUpdates)

/-- The `switch` over the kinematics type: the coordinates, and whether the
datagram has them. -/
def read_coordinates (F : Type) [CFloat F] (packet : RawPacket) (kinematicsType : UInt16) :
    Except Fault (F × F × F × Bool) := do
  if kinematicsType = 1 ∨ kinematicsType = 2 then
    if 52 ≤ packet.data.length then
      let x ← read_f32_be F packet.data 40
      let y ← read_f32_be F packet.data 44
      let z ← read_f32_be F packet.data 48
      return (x, y, z, true)
    else return (whole F 0, whole F 0, whole F 0, false)
  else if kinematicsType = 3 ∨ kinematicsType = 4 then
    if 48 ≤ packet.data.length then
      let x ← read_f32_be F packet.data 40
      let y ← read_f32_be F packet.data 44
      return (x, y, whole F 0, true)
    else return (whole F 0, whole F 0, whole F 0, false)
  else return (whole F 0, whole F 0, whole F 0, false)

/-- `azimuthDeg` and `elevationDeg`: 0 without coordinates. -/
def cueing_angles (rt : Runtime F) (x y z : F) (hasCartesianCoordinates : Bool) :
    Except Fault (F × F) := do
  if hasCartesianCoordinates then
    let t ← finished (cartesian2target rt x y z (whole F 0) false
      (whole F 0) (whole F 0) (whole F 0) (whole F 0))
    return (t.az, t.el)
  else return (whole F 0, whole F 0)

/-- The `MOVE` or `DELTA` part of a cueing command. -/
def cueing_order_json (rt : Runtime F) (cueingType : UInt16) (hasCartesianCoordinates : Bool)
    (azimuthDeg elevationDeg : F) : Except Fault (Json F) := do
  let azimuth360 ← finished (normalize_0_360 rt azimuthDeg)
  let elevation360 ← finished (normalize_0_360 rt elevationDeg)
  if cueingType = 1 then
    return Json.null
      |> Json.set (str "header") (.string (str "MOVE"))
      |> Json.set (str "type") (.string (str "CMD"))
      |> Json.set (str "sender") (.string (str "CC"))
      |> Json.set (str "param") (Json.ofMembers
          [(str "goTo", .string (if hasCartesianCoordinates then str "ABS" else str "HOME")),
            (str "az", .number_float azimuth360),
            (str "el", .number_float elevation360)])
  else
    let az ← finished (encode_delta_u16 rt azimuthDeg)
    let el ← finished (encode_delta_u16 rt elevationDeg)
    return Json.null
      |> Json.set (str "header") (.string (str "DELTA"))
      |> Json.set (str "type") (.string (str "CMD"))
      |> Json.set (str "sender") (.string (str "CC"))
      |> Json.set (str "param") (Json.ofMembers
          [(str "az", .number_unsigned az.toNat), (str "el", .number_unsigned el.toNat)])

/-- `handle_CS_LRAS_cueing_order_INS`. -/
def handle_CS_LRAS_cueing_order_INS (rt : Runtime F) (packet : RawPacket)
    (_snapshot : SystemStateSnapshot) (stateUpdates : List StateUpdate) :
    Except Fault (HandlerResult F) := do
  -- the smallest field that is always read ends at 38
  if packet.data.length < HeaderSize + 22 then return ([], stateUpdates)
  let actionId ← read_u32_be packet.data 16
  let lradId ← read_u16_be packet.data 20
  let cueingType ← read_u16_be packet.data 22
  let cstn ← read_u32_be packet.data 24
  let kinematicsType ← read_u16_be packet.data 36
  let (x, y, z, hasCartesianCoordinates) ← read_coordinates F packet kinematicsType
  let (azimuthDeg, elevationDeg) ← cueing_angles rt x y z hasCartesianCoordinates
  let j ← cueing_order_json rt cueingType hasCartesianCoordinates azimuthDeg elevationDeg
  let j := j |> Json.set (str "meta") (Json.ofMembers
    [(str "action_id", .number_unsigned actionId.toNat),
      (str "lrad_id", .number_unsigned lradId.toNat),
      (str "cueing_type", .number_unsigned cueingType.toNat),
      (str "cstn", .number_unsigned cstn.toNat),
      (str "kinematics_type", .number_unsigned kinematicsType.toNat)])
  return ([{ payload := j, destinationLradId := lradId }], stateUpdates)

/-- The free text: the bytes from `i` on, `count` at most, up to the first NUL. -/
def read_free_text (data : Bytes) : ℕ → ℕ → Except Fault Bytes
  | _, 0 => .ok []
  | i, count + 1 => do
      let c ← read_byte data i
      if c = 0 then return []
      let rest ← read_free_text data (i + 1) count
      return c :: rest

/-- The fields of an emission-control order, under the handler's names. -/
structure EmissionControl (F : Type) where
  actionId : UInt32
  lradId : UInt16
  audioModeValidity : UInt16
  volumeLevel : UInt16
  audioVolumeDb : F
  mute : UInt16
  audioMode : UInt16
  recordedMessageId : UInt32
  recordedLanguage : UInt16
  recordedLoop : UInt16
  freeTextLanguageIn : UInt16
  freeTextLanguageOut : UInt16
  freeTextMessage : Bytes
  freeTextLoop : UInt16
  laserModeValidity : UInt16
  laserMode : UInt16
  lightModeValidity : UInt16
  lightPower : UInt16
  lightZoom : UInt16
  lrfModeValidity : UInt16
  lrfOnOff : UInt16
  cameraZoomValidity : UInt16
  cameraZoom : UInt16
  horizontalReferenceValidity : UInt16
  horizontalReference : UInt16

/-- A 16-bit or 32-bit field as a JSON number. -/
def num16 (v : UInt16) : Json F := .number_unsigned v.toNat

def num32 (v : UInt32) : Json F := .number_unsigned v.toNat

/-- The command of an emission-control order. -/
def emission_control_json (e : EmissionControl F) : Json F :=
  Json.null
    |> Json.set (str "header") (.string (str "EMISS"))
    |> Json.set (str "type") (.string (str "CMD"))
    |> Json.set (str "sender") (.string (str "CMS"))
    |> Json.set (str "message_name") (.string (str "CS_LRAS_emission_control_INS"))
    |> Json.set (str "message_id") (num32 MessageId_CS_LRAS_emission_control_INS)
    |> Json.set (str "param") (Json.ofMembers
        [(str "action_id", num32 e.actionId),
          (str "lrad_id", num16 e.lradId),
          (str "audio_mode_validity", num16 e.audioModeValidity),
          (str "audio_mode", Json.ofMembers
            [(str "volume_mode", Json.ofMembers
              [(str "level", num16 e.volumeLevel),
                (str "audio_volume_db", .number_float e.audioVolumeDb),
                (str "mute", num16 e.mute),
                (str "audio_mode", num16 e.audioMode)]),
              (str "recorded_message_tone", Json.ofMembers
                [(str "message_id", num32 e.recordedMessageId),
                  (str "language", num16 e.recordedLanguage),
                  (str "loop", num16 e.recordedLoop)]),
              (str "free_text", Json.ofMembers
                [(str "text", Json.ofMembers
                  [(str "language_in", num16 e.freeTextLanguageIn),
                    (str "language_out", num16 e.freeTextLanguageOut),
                    (str "message_text", .string e.freeTextMessage)]),
                  (str "loop", num16 e.freeTextLoop)])]),
          (str "laser_mode_validity", num16 e.laserModeValidity),
          (str "laser_mode", num16 e.laserMode),
          (str "light_mode_validity", num16 e.lightModeValidity),
          (str "light_mode", Json.ofMembers
            [(str "light_power", num16 e.lightPower), (str "light_zoom", num16 e.lightZoom)]),
          (str "lrf_mode_validity", num16 e.lrfModeValidity),
          (str "lrf_on_off", num16 e.lrfOnOff),
          (str "camera_zoom_validity", num16 e.cameraZoomValidity),
          (str "camera_zoom", num16 e.cameraZoom),
          (str "horizontal_reference_validity", num16 e.horizontalReferenceValidity),
          (str "horizontal_reference", num16 e.horizontalReference)])

/-- The reads of the emission-control handler, in its order. -/
def read_emission_control (F : Type) [CFloat F] (data : Bytes) :
    Except Fault (EmissionControl F) := do
  let actionId ← read_u32_be data 16
  let lradId ← read_u16_be data 20
  let audioModeValidity ← read_u16_be data 22
  let volumeLevel ← read_u16_be data 24
  let audioVolumeDb ← read_f32_be F data 26
  let mute ← read_u16_be data 30
  let audioMode ← read_u16_be data 32
  let recordedMessageId ← read_u32_be data 34
  let recordedLanguage ← read_u16_be data 38
  let recordedLoop ← read_u16_be data 40
  let freeTextLanguageIn ← read_u16_be data 42
  let freeTextLanguageOut ← read_u16_be data 44
  let freeTextMessage ← read_free_text data 46 768
  let freeTextLoop ← read_u16_be data 814
  let laserModeValidity ← read_u16_be data 816
  let laserMode ← read_u16_be data 818
  let lightModeValidity ← read_u16_be data 820
  let lightPower ← read_u16_be data 822
  let lightZoom ← read_u16_be data 824
  let lrfModeValidity ← read_u16_be data 826
  let lrfOnOff ← read_u16_be data 828
  let cameraZoomValidity ← read_u16_be data 830
  let cameraZoom ← read_u16_be data 832
  let horizontalReferenceValidity ← read_u16_be data 834
  let horizontalReference ← read_u16_be data 836
  return ⟨actionId, lradId, audioModeValidity, volumeLevel, audioVolumeDb, mute, audioMode,
    recordedMessageId, recordedLanguage, recordedLoop, freeTextLanguageIn, freeTextLanguageOut,
    freeTextMessage, freeTextLoop, laserModeValidity, laserMode, lightModeValidity, lightPower,
    lightZoom, lrfModeValidity, lrfOnOff, cameraZoomValidity, cameraZoom,
    horizontalReferenceValidity, horizontalReference⟩

/-- `handle_CS_LRAS_emission_control_INS`. -/
def handle_CS_LRAS_emission_control_INS (_rt : Runtime F) (packet : RawPacket)
    (_snapshot : SystemStateSnapshot) (stateUpdates : List StateUpdate) :
    Except Fault (HandlerResult F) := do
  if packet.data.length < 838 then return ([], stateUpdates)
  let e ← read_emission_control F packet.data
  return ([{ payload := emission_control_json e, destinationLradId := e.lradId }], stateUpdates)

/-! ## Dispatch -/

/-- `HandlerFunc`. -/
abbrev HandlerFunc (F : Type) :=
  Runtime F → RawPacket → SystemStateSnapshot → List StateUpdate → Except Fault (HandlerResult F)

/-- `MessageMapping`. -/
structure MessageMapping (F : Type) where
  messageId : UInt32
  handler : HandlerFunc F
  ack_builder : AckBuilderFunc
  ack_only : Bool

/-- `initializeDispatcher`: the contents of `dispatchTable`. -/
def dispatchTable (rt : Runtime F) : List (MessageMapping F) :=
  let standard_ack : AckBuilderFunc := fun action_id source_message_id sr =>
    build_ack_packet rt.asio action_id source_message_id sr
  [⟨MessageId_CS_LRAS_change_configuration_order_INS,
      handle_CS_LRAS_change_configuration_order_INS, standard_ack, false⟩,
    ⟨MessageId_CS_LRAS_cueing_order_cancellation_INS,
      handle_CS_LRAS_cueing_order_cancellation_INS, standard_ack, true⟩,
    ⟨MessageId_CS_LRAS_cueing_order_INS,
      handle_CS_LRAS_cueing_order_INS, standard_ack, false⟩,
    ⟨MessageId_CS_LRAS_emission_control_INS,
      handle_CS_LRAS_emission_control_INS, standard_ack, false⟩]

/-- One turn of the loop that serializes the messages. -/
def serialize (rt : Runtime F) (message : ConvertedMessage F) : Except Fault RawPacket :=
  match rt.dump message.payload with
  | some s => .ok { data := s, destinationLradId := message.destinationLradId }
  | none => .error .invalidUtf8

/-- `BinaryConverter::convert`. -/
def convert (rt : Runtime F) (input : RawPacket) (snapshot : SystemStateSnapshot) :
    Except Fault ConversionResult := do
  let header ← parseHeader input
  match header with
  | none => return {}
  | some header =>
      match (dispatchTable rt).find? (fun m => m.messageId == header.messageId) with
      | none => return {}
      | some mapping =>
          let (convertedMessages, stateUpdates) ← mapping.handler rt input snapshot []
          let packets ← convertedMessages.mapM (serialize rt)
          return {
            packets := packets
            ack_builder := some mapping.ack_builder
            ack_only := mapping.ack_only
            state_updates := stateUpdates }

end

end CmsProxy.Converter
