/-
What a datagram says, and that the converter reads it so.

The first half is a description of the wire format that does not mention the
converter: a datagram has a kind, and a kind and a size determine its orders. All
four kinds put an order's action id and LRAD id in the same place, four and two
bytes at the start of the order, so an `Order` is just these two; a
change-configuration datagram is a row of 8-byte blocks, each an order with a
configuration word.

The second half is one spec lemma for each function of the converter, in the
order of its file. The read helpers succeed inside the datagram
(`read_u16_be_ok` and its siblings), the block loop returns the row of blocks
(`change_configuration_loop_spec`), each handler returns one message per order
(`Carries`). Nothing after this file unfolds a handler.
-/
import CmsProxy.Converter

set_option autoImplicit false

namespace CmsProxy.Orders

open BigEndian Interfaces JsonValue Converter
open CueingMath (whole)

/-! ## The content of a datagram -/

/-- The four kinds of messages the dispatcher knows. -/
inductive Kind where
  | change_configuration
  | cueing_order_cancellation
  | cueing_order
  | emission_control
  deriving DecidableEq

/-- The kind of a message id. -/
def kindOf (id : UInt32) : Option Kind :=
  if id = MessageId_CS_LRAS_change_configuration_order_INS then some .change_configuration
  else if id = MessageId_CS_LRAS_cueing_order_cancellation_INS then some .cueing_order_cancellation
  else if id = MessageId_CS_LRAS_cueing_order_INS then some .cueing_order
  else if id = MessageId_CS_LRAS_emission_control_INS then some .emission_control
  else none

/-- The fields every order starts with. -/
structure Order where
  actionId : UInt32
  lradId : UInt16
  deriving DecidableEq

/-- A block of a change-configuration datagram. -/
structure Block extends Order where
  configuration : UInt16
  deriving DecidableEq

def orderAt (data : Bytes) (offset : ℕ) : Order where
  actionId := u32At data offset
  lradId := u16At data (offset + 4)

/-- The `i`-th block. -/
def blockAt (data : Bytes) (i : ℕ) : Block where
  toOrder := orderAt data (16 + 8 * i)
  configuration := u16At data (16 + 8 * i + 6)

/-- How many whole blocks fit behind the header. -/
def blockCount (data : Bytes) : ℕ := (data.length - 16) / 8

def blocks (data : Bytes) : List Block := (List.range (blockCount data)).map (blockAt data)

/-- The low 16 bits of the second header word. -/
def declaredLength (data : Bytes) : ℕ := (u32At data 4 &&& 0xFFFF).toUInt16.toNat

/-- The datagram reaches as far as its header says. -/
def HeaderOk (data : Bytes) : Prop := 16 + declaredLength data ≤ data.length

instance instDecidableHeaderOk (data : Bytes) : Decidable (HeaderOk data) :=
  inferInstanceAs (Decidable (_ ≤ _))

/-- The kind of a datagram whose header is in order. -/
def messageKind (data : Bytes) : Option Kind :=
  if HeaderOk data then kindOf (u32At data 0) else none

/-- The size from which a single-order message is complete. -/
def Kind.size : Kind → ℕ
  | .change_configuration => 24
  | .cueing_order_cancellation => 22
  | .cueing_order => 38
  | .emission_control => 838

/-- The orders of a datagram, in the order of its bytes. -/
def ordersOf (data : Bytes) : List Order :=
  match messageKind data with
  | none => []
  | some .change_configuration => (blocks data).map Block.toOrder
  | some k => if k.size ≤ data.length then [orderAt data 16] else []

/-- The update of the system state a block asks for. -/
def Block.update (b : Block) : StateUpdate where
  lradId := some b.lradId
  engaged := some (b.configuration != 0)

/-- The updates a datagram asks for. -/
def updatesOf (data : Bytes) : List StateUpdate :=
  if messageKind data = some .change_configuration then (blocks data).map Block.update else []

/-- The free text of an emission-control order: 768 bytes cut at the first NUL. -/
def freeText (data : Bytes) : Bytes := ((data.drop 46).take 768).takeWhile (· ≠ 0)

/-- The message holds text that cannot become a JSON string. -/
def TextInvalid (data : Bytes) : Prop :=
  messageKind data = some .emission_control ∧ 838 ≤ data.length ∧ validUtf8 (freeText data) = false

instance instDecidableTextInvalid (data : Bytes) : Decidable (TextInvalid data) :=
  inferInstanceAs (Decidable (_ ∧ _))

/-! ## Reading -/

section

variable {data : Bytes} {offset : ℕ}

theorem read_u16_be_ok (h : offset + 2 ≤ data.length) :
    read_u16_be data offset = .ok (u16At data offset) := if_pos h

theorem read_u32_be_ok (h : offset + 4 ≤ data.length) :
    read_u32_be data offset = .ok (u32At data offset) := if_pos h

theorem read_f32_be_ok (F : Type) [CFloat F] (h : offset + 4 ≤ data.length) :
    read_f32_be F data offset = .ok (CFloat.ofBits (u32At data offset)) := by
  rw [read_f32_be, read_u32_be_ok h, Except.map]

/-- The text is read byte by byte, and stops at the first NUL. -/
theorem read_free_text_ok {i count : ℕ} (h : i + count ≤ data.length) :
    read_free_text data i count = .ok (((data.drop i).take count).takeWhile (· ≠ 0)) := by
  induction count generalizing i with
  | zero => rw [read_free_text, List.take_zero, List.takeWhile_nil]
  | succ count ih =>
      have hi : i < data.length := by omega
      rw [List.drop_eq_getElem_cons hi, List.take_succ_cons, List.takeWhile_cons, read_free_text,
        read_byte, List.getElem?_eq_getElem hi]
      -- a NUL ends the text; anything else is followed by the rest
      by_cases h0 : data[i] = 0
      · simp only [h0, ok_bind, if_true, ne_eq, not_true_eq_false, decide_false,
          Bool.false_eq_true, if_false, pure_eq_ok]
      · simp only [h0, ok_bind, if_false, ih (by omega : i + 1 + count ≤ data.length), ne_eq,
          not_false_eq_true, decide_true, if_true, pure_eq_ok]

theorem parseHeader_eq (input : RawPacket) :
    parseHeader input = .ok (if HeaderOk input.data then
      some {
        messageId := u32At input.data 0
        messageLength := (u32At input.data 4 &&& 0xFFFF).toUInt16 }
      else none) := by
  rw [parseHeader]
  by_cases h16 : input.data.length < HeaderSize
  · -- a header that is cut off declares nothing
    have hno : ¬ HeaderOk input.data := by
      intro h
      have : 16 ≤ input.data.length := (Nat.le_add_right _ _).trans h
      exact absurd h16 (not_lt.mpr this)
    rw [if_pos h16, if_neg hno]
    rfl
  · have hlen : 16 ≤ input.data.length := not_lt.mp h16
    rw [if_neg h16, read_u32_be_ok (by omega), read_u32_be_ok (by omega)]
    rfl

end

/-! ## The change-configuration handler -/

section

variable {F : Type} [CFloat F]

/-- The message of a block. -/
def Block.message (F : Type) [CFloat F] (b : Block) : ConvertedMessage F where
  payload := change_configuration_json b.configuration
  destinationLradId := b.lradId

/-- The loop reads the blocks from the `i`-th on, and appends a message and an
update for each. The induction is on the rounds, which outnumber the blocks. -/
theorem change_configuration_loop_spec (packet : RawPacket) (rounds : ℕ) {i : ℕ}
    (acc : HandlerResult F) (hi : i ≤ blockCount packet.data)
    (hr : blockCount packet.data < i + rounds) :
    change_configuration_loop packet rounds (16 + 8 * i) acc =
      .ok (acc.1 ++ ((List.range' i (blockCount packet.data - i)).map (blockAt packet.data)).map
          (Block.message F),
        acc.2 ++ ((List.range' i (blockCount packet.data - i)).map (blockAt packet.data)).map
          Block.update) := by
  induction rounds generalizing i acc with
  | zero => omega
  | succ rounds ih =>
      obtain ⟨results, stateUpdates⟩ := acc
      have hcount : blockCount packet.data = (packet.data.length - 16) / 8 := rfl
      have hsize : BlockSize = 8 := rfl
      rw [change_configuration_loop]
      by_cases hlast : i < blockCount packet.data
      · -- a whole block is left: one round, and the rest by induction
        have hfits : 16 + 8 * i + BlockSize ≤ packet.data.length := by omega
        obtain ⟨rest, hrest⟩ : ∃ rest, blockCount packet.data - i = rest + 1 :=
          ⟨blockCount packet.data - i - 1, by omega⟩
        have hnext : 16 + 8 * i + BlockSize = 16 + 8 * (i + 1) := by omega
        have hrest' : blockCount packet.data - (i + 1) = rest := by omega
        rw [if_pos hfits, read_u32_be_ok (by omega), read_u16_be_ok (by omega),
          read_u16_be_ok (by omega), ok_bind, ok_bind, ok_bind, hnext, ih _ hlast (by omega),
          hrest, hrest', List.range'_succ]
        simp only [List.map_cons, List.append_assoc, List.singleton_append]
        rfl
      · -- less than a block is left, and the loop ends
        have hdone : blockCount packet.data - i = 0 := by omega
        rw [if_neg (by omega), hdone]
        simp only [List.range'_zero, List.map_nil, List.append_nil]

/-- The handler returns one message and one update for each block. -/
theorem handle_change_configuration_spec (rt : Runtime F) (packet : RawPacket)
    (snapshot : SystemStateSnapshot) :
    handle_CS_LRAS_change_configuration_order_INS rt packet snapshot [] =
      .ok ((blocks packet.data).map (Block.message F), (blocks packet.data).map Block.update) := by
  have hcount : blockCount packet.data = (packet.data.length - 16) / 8 := rfl
  have h := change_configuration_loop_spec packet (packet.data.length + 1)
    (([], []) : HandlerResult F) (Nat.zero_le _) (by omega)
  rw [Nat.sub_zero, ← List.range_eq_range'] at h
  exact h

end

/-! ## The documents

Of each command: it is a well-formed document, which of its strings are not
literals, and whether `param` has an `action_id`. -/

section

variable {F : Type}

/-- What a command carries from the order it was made for. -/
structure Document (action_id : Option (Json F)) (textOk : Bool) (j : Json F) : Prop where
  sorted : j.Sorted
  utf8Ok : j.utf8Ok = textOk
  at_action_id : Json.at? [str "param", str "action_id"] j = action_id

theorem change_configuration_document (rawConfig : UInt16) :
    Document none true (change_configuration_json rawConfig : Json F) where
  sorted := by simp [change_configuration_json, Json.Sorted, SortedMembers]
  utf8Ok := by
    have hmode : validUtf8 (if rawConfig = 0 then str "RELEASE" else str "REQ") = true := by
      split_ifs <;> exact validUtf8_str _
    simp [change_configuration_json, Json.utf8Ok, utf8OkMembers, hmode]
  at_action_id := by simp [Json.at?, change_configuration_json, findMember]

theorem cancellation_document : Document none true (cueing_order_cancellation_json : Json F) where
  sorted := by simp [cueing_order_cancellation_json, Json.Sorted, SortedMembers, SortedItems]
  utf8Ok := by simp [cueing_order_cancellation_json, Json.utf8Ok, utf8OkMembers, utf8OkItems]
  at_action_id := by simp [Json.at?, cueing_order_cancellation_json, findMember]

/-- The only string of the command that is not a literal is the free text. -/
theorem emission_control_document (e : EmissionControl F) :
    Document (some (num32 e.actionId)) (validUtf8 e.freeTextMessage) (emission_control_json e) where
  sorted := by simp [emission_control_json, num16, num32, Json.Sorted, SortedMembers]
  utf8Ok := by simp [emission_control_json, num16, num32, Json.utf8Ok, utf8OkMembers]
  at_action_id := by simp [Json.at?, emission_control_json, findMember]

end

section

variable {F : Type} [CFloat F]

/-- A cueing command has its action id under `meta`, not under `param`. -/
theorem cueing_document {rt : Runtime F} {cueingType : UInt16} {hasCartesianCoordinates : Bool}
    {azimuthDeg elevationDeg : F} {j : Json F} (actionId lradId ct cstn kt : ℕ)
    (h : cueing_order_json rt cueingType hasCartesianCoordinates azimuthDeg elevationDeg = .ok j) :
    Document none true (j |> Json.set (str "meta") (Json.ofMembers
      [(str "action_id", .number_unsigned actionId), (str "lrad_id", .number_unsigned lradId),
        (str "cueing_type", .number_unsigned ct), (str "cstn", .number_unsigned cstn),
        (str "kinematics_type", .number_unsigned kt)])) := by
  rw [cueing_order_json] at h
  obtain ⟨azimuth360, -, h⟩ := bind_eq_ok.mp h
  obtain ⟨elevation360, -, h⟩ := bind_eq_ok.mp h
  by_cases hmove : cueingType = 1
  · rw [if_pos hmove] at h
    obtain rfl := Except.ok.inj h
    -- `goTo` is one of two literals
    have hgoTo : validUtf8 (if hasCartesianCoordinates = true then str "ABS" else str "HOME")
        = true := by
      split_ifs <;> exact validUtf8_str _
    constructor
    · simp [Json.Sorted, SortedMembers]
    · simp [Json.utf8Ok, utf8OkMembers, hgoTo]
    · simp [Json.at?, findMember]
  · rw [if_neg hmove] at h
    obtain ⟨az, -, h⟩ := bind_eq_ok.mp h
    obtain ⟨el, -, h⟩ := bind_eq_ok.mp h
    obtain rfl := Except.ok.inj h
    constructor
    · simp [Json.Sorted, SortedMembers]
    · simp [Json.utf8Ok, utf8OkMembers]
    · simp [Json.at?, findMember]

/-! ## The handlers -/

/-- The fields of an emission-control order, at their offsets. -/
def emissionAt (F : Type) [CFloat F] (data : Bytes) : EmissionControl F where
  actionId := u32At data 16
  lradId := u16At data 20
  audioModeValidity := u16At data 22
  volumeLevel := u16At data 24
  audioVolumeDb := CFloat.ofBits (u32At data 26)
  mute := u16At data 30
  audioMode := u16At data 32
  recordedMessageId := u32At data 34
  recordedLanguage := u16At data 38
  recordedLoop := u16At data 40
  freeTextLanguageIn := u16At data 42
  freeTextLanguageOut := u16At data 44
  freeTextMessage := freeText data
  freeTextLoop := u16At data 814
  laserModeValidity := u16At data 816
  laserMode := u16At data 818
  lightModeValidity := u16At data 820
  lightPower := u16At data 822
  lightZoom := u16At data 824
  lrfModeValidity := u16At data 826
  lrfOnOff := u16At data 828
  cameraZoomValidity := u16At data 830
  cameraZoom := u16At data 832
  horizontalReferenceValidity := u16At data 834
  horizontalReference := u16At data 836

theorem read_emission_control_ok {data : Bytes} (h : 838 ≤ data.length) :
    read_emission_control F data = .ok (emissionAt F data) := by
  have htext : read_free_text data 46 768 = .ok (freeText data) := read_free_text_ok (by omega)
  rw [read_emission_control, htext]
  simp (disch := omega) only [read_u32_be_ok, read_u16_be_ok, read_f32_be_ok, ok_bind]
  rfl

/-- The handler of a kind. -/
def handlerOf (F : Type) [CFloat F] : Kind → HandlerFunc F
  | .change_configuration => handle_CS_LRAS_change_configuration_order_INS
  | .cueing_order_cancellation => handle_CS_LRAS_cueing_order_cancellation_INS
  | .cueing_order => handle_CS_LRAS_cueing_order_INS
  | .emission_control => handle_CS_LRAS_emission_control_INS

/-- The coordinates of a cueing order, and whether the datagram has them. -/
def coordinatesAt (F : Type) [CFloat F] (data : Bytes) (kinematicsType : UInt16) :
    F × F × F × Bool :=
  if kinematicsType = 1 ∨ kinematicsType = 2 then
    if 52 ≤ data.length then
      (CFloat.ofBits (u32At data 40), CFloat.ofBits (u32At data 44), CFloat.ofBits (u32At data 48),
        true)
    else (whole F 0, whole F 0, whole F 0, false)
  else if kinematicsType = 3 ∨ kinematicsType = 4 then
    if 48 ≤ data.length then
      (CFloat.ofBits (u32At data 40), CFloat.ofBits (u32At data 44), whole F 0, true)
    else (whole F 0, whole F 0, whole F 0, false)
  else (whole F 0, whole F 0, whole F 0, false)

/-- The coordinates are only read where the datagram has them. -/
theorem read_coordinates_ok (packet : RawPacket) (kinematicsType : UInt16) :
    read_coordinates F packet kinematicsType =
      .ok (coordinatesAt F packet.data kinematicsType) := by
  rw [read_coordinates, coordinatesAt]
  by_cases h12 : kinematicsType = 1 ∨ kinematicsType = 2
  · rw [if_pos h12, if_pos h12]
    by_cases hsize : 52 ≤ packet.data.length
    · rw [if_pos hsize, if_pos hsize, read_f32_be_ok F (by omega), read_f32_be_ok F (by omega),
        read_f32_be_ok F (by omega)]
      rfl
    · rw [if_neg hsize, if_neg hsize, pure_eq_ok]
  · rw [if_neg h12, if_neg h12]
    by_cases h34 : kinematicsType = 3 ∨ kinematicsType = 4
    · rw [if_pos h34, if_pos h34]
      by_cases hsize : 48 ≤ packet.data.length
      · rw [if_pos hsize, if_pos hsize, read_f32_be_ok F (by omega), read_f32_be_ok F (by omega)]
        rfl
      · rw [if_neg hsize, if_neg hsize, pure_eq_ok]
    · rw [if_neg h34, if_neg h34, pure_eq_ok]

/-- The `meta` part of a cueing command. -/
def cueingMeta (data : Bytes) : Json F :=
  Json.ofMembers
    [(str "action_id", .number_unsigned (u32At data 16).toNat),
      (str "lrad_id", .number_unsigned (u16At data 20).toNat),
      (str "cueing_type", .number_unsigned (u16At data 22).toNat),
      (str "cstn", .number_unsigned (u32At data 24).toNat),
      (str "kinematics_type", .number_unsigned (u16At data 36).toNat)]

/-- The message of a cueing order. Only its angles are computed. -/
def cueingMessage (rt : Runtime F) (data : Bytes) : Except Fault (ConvertedMessage F) := do
  let (x, y, z, hasCartesianCoordinates) := coordinatesAt F data (u16At data 36)
  let (azimuthDeg, elevationDeg) ← cueing_angles rt x y z hasCartesianCoordinates
  let j ← cueing_order_json rt (u16At data 22) hasCartesianCoordinates azimuthDeg elevationDeg
  return {
    payload := j |> Json.set (str "meta") (cueingMeta data)
    destinationLradId := u16At data 20 }

section

variable (rt : Runtime F) (packet : RawPacket) (snapshot : SystemStateSnapshot)

omit [CFloat F] in
/-- A cancellation is complete from 22 bytes on. -/
theorem handle_cancellation_spec :
    handle_CS_LRAS_cueing_order_cancellation_INS rt packet snapshot [] =
      .ok (if 22 ≤ packet.data.length then
        [{ payload := cueing_order_cancellation_json, destinationLradId := u16At packet.data 20 }]
        else [], []) := by
  rw [handle_CS_LRAS_cueing_order_cancellation_INS]
  by_cases hsize : 22 ≤ packet.data.length
  · rw [if_neg (by omega), if_pos hsize, read_u32_be_ok (by omega), read_u16_be_ok (by omega)]
    rfl
  · rw [if_pos (by omega), if_neg hsize, pure_eq_ok]

/-- An emission-control order is complete from 838 bytes on. -/
theorem handle_emission_control_spec :
    handle_CS_LRAS_emission_control_INS rt packet snapshot [] =
      .ok (if 838 ≤ packet.data.length then
        [{ payload := emission_control_json (emissionAt F packet.data)
           destinationLradId := u16At packet.data 20 }]
        else [], []) := by
  rw [handle_CS_LRAS_emission_control_INS]
  by_cases hsize : 838 ≤ packet.data.length
  · rw [if_neg (by omega), if_pos hsize, read_emission_control_ok hsize]
    rfl
  · rw [if_pos (by omega), if_neg hsize, pure_eq_ok]

/-- A cueing order is complete from 38 bytes on. -/
theorem handle_cueing_spec :
    handle_CS_LRAS_cueing_order_INS rt packet snapshot [] =
      if 38 ≤ packet.data.length then (cueingMessage rt packet.data).map fun m => ([m], [])
      else .ok ([], []) := by
  rw [handle_CS_LRAS_cueing_order_INS]
  by_cases hsize : 38 ≤ packet.data.length
  · have hheader : HeaderSize = 16 := rfl
    rw [if_neg (by omega), if_pos hsize, cueingMessage]
    simp (disch := omega) only [read_u32_be_ok, read_u16_be_ok, ok_bind, read_coordinates_ok]
    -- the angles and the document are computed in the same order
    cases cueing_angles rt _ _ _ _ with
    | error e => rfl
    | ok angles =>
        simp only [ok_bind]
        cases cueing_order_json rt _ _ _ _ <;> rfl
  · have hheader : HeaderSize = 16 := rfl
    rw [if_pos (by omega), if_neg hsize, pure_eq_ok]

end

/-- A message made for an order. -/
structure Carries (data : Bytes) (o : Order) (m : ConvertedMessage F) : Prop where
  destination : m.destinationLradId = o.lradId
  document : Document
    (if messageKind data = some .emission_control then some (num32 o.actionId) else none)
    (!decide (TextInvalid data)) m.payload

/-- What a handler is to return: a message for each order, and the updates. -/
structure Handled (data : Bytes) (r : HandlerResult F) : Prop where
  messages : List.Forall₂ (Carries data) (ordersOf data) r.1
  updates : r.2 = updatesOf data

section

variable {rt : Runtime F} {packet : RawPacket} {snapshot : SystemStateSnapshot}
variable {r : HandlerResult F}

theorem handled_change_configuration (hk : messageKind packet.data = some .change_configuration) :
    ∃ r, handlerOf F .change_configuration rt packet snapshot [] = .ok r ∧
      Handled packet.data r := by
  refine ⟨_, handle_change_configuration_spec rt packet snapshot, ?_, ?_⟩
  · -- blocks hold no text
    have hvalid : ¬ TextInvalid packet.data := fun h => by
      rw [TextInvalid, hk] at h
      exact nomatch h.1
    rw [ordersOf, hk]
    simp only [List.forall₂_map_left_iff, List.forall₂_map_right_iff, List.forall₂_same]
    intro b _
    refine ⟨rfl, ?_⟩
    rw [hk, if_neg (by decide), decide_eq_false hvalid]
    exact change_configuration_document b.configuration
  · rw [updatesOf, if_pos hk]

/-- The kinds with one order: none when the datagram is too short for it. -/
theorem ordersOf_single {data : Bytes} {k : Kind} (hk : messageKind data = some k)
    (hne : k ≠ .change_configuration) :
    ordersOf data = if k.size ≤ data.length then [orderAt data 16] else [] := by
  rw [ordersOf, hk]
  -- the `match` of `ordersOf` goes the same way for the other three kinds
  cases k with
  | change_configuration => exact absurd rfl hne
  | _ => rfl

omit [CFloat F] in
/-- A handler for one order is right if it returns nothing on a short datagram
and one message on the others. -/
theorem handled_single {data : Bytes} {k : Kind} (hk : messageKind data = some k)
    (hne : k ≠ .change_configuration) {ms : List (ConvertedMessage F)}
    (hshort : data.length < k.size → ms = [])
    (hfull : k.size ≤ data.length → ∃ m, ms = [m] ∧ Carries data (orderAt data 16) m) :
    Handled data (ms, []) := by
  refine ⟨?_, ?_⟩
  · rw [ordersOf_single hk hne]
    by_cases hsize : k.size ≤ data.length
    · obtain ⟨m, rfl, hm⟩ := hfull hsize
      rw [if_pos hsize]
      exact List.Forall₂.cons hm List.Forall₂.nil
    · rw [if_neg hsize, hshort (not_le.mp hsize)]
      exact List.Forall₂.nil
  · rw [updatesOf, if_neg (fun h => hne (Option.some.inj (hk.symm.trans h)))]

omit [CFloat F] in
/-- A datagram that is not an emission-control order has no text to be invalid. -/
theorem carries_plain {data : Bytes} {k : Kind} {o : Order} {m : ConvertedMessage F}
    (hk : messageKind data = some k) (hne : k ≠ .emission_control)
    (hdest : m.destinationLradId = o.lradId) (hdoc : Document none true m.payload) :
    Carries data o m := by
  have hkind : messageKind data ≠ some .emission_control :=
    fun h => hne (Option.some.inj (hk.symm.trans h))
  refine ⟨hdest, ?_⟩
  rw [if_neg hkind, decide_eq_false (fun h : TextInvalid data => hkind h.1)]
  exact hdoc

theorem handled_cancellation (hk : messageKind packet.data = some .cueing_order_cancellation) :
    ∃ r, handlerOf F .cueing_order_cancellation rt packet snapshot [] = .ok r ∧
      Handled packet.data r := by
  refine ⟨_, handle_cancellation_spec rt packet snapshot, handled_single hk (by decide) ?_ ?_⟩
  · intro hshort
    exact if_neg (not_le.mpr hshort)
  · intro hfull
    exact ⟨_, if_pos hfull, carries_plain hk (by decide) rfl cancellation_document⟩

theorem handled_emission_control (hk : messageKind packet.data = some .emission_control) :
    ∃ r, handlerOf F .emission_control rt packet snapshot [] = .ok r ∧
      Handled packet.data r := by
  refine ⟨_, handle_emission_control_spec rt packet snapshot, handled_single hk (by decide) ?_ ?_⟩
  · intro hshort
    exact if_neg (not_le.mpr hshort)
  · intro hfull
    refine ⟨_, if_pos hfull, rfl, ?_⟩
    -- of a complete emission-control order only the text can be invalid
    have htext : (!decide (TextInvalid packet.data)) = validUtf8 (freeText packet.data) := by
      cases hvalid : validUtf8 (freeText packet.data) with
      | true =>
          rw [decide_eq_false (fun h => Bool.false_ne_true (h.2.2.symm.trans hvalid)),
            Bool.not_false]
      | false => rw [decide_eq_true ⟨hk, hfull, hvalid⟩, Bool.not_true]
    rw [if_pos hk, htext]
    exact emission_control_document (emissionAt F packet.data)

/-- The cueing handler may still be computing an angle; when it returns, it has
done what it should. -/
theorem handled_cueing (hk : messageKind packet.data = some .cueing_order)
    (h : handlerOf F .cueing_order rt packet snapshot [] = .ok r) : Handled packet.data r := by
  rw [handlerOf, handle_cueing_spec] at h
  by_cases hsize : 38 ≤ packet.data.length
  · rw [if_pos hsize] at h
    obtain ⟨m, hm, rfl⟩ := map_eq_ok.mp h
    -- whatever the angles are, the rest of the document is known
    obtain ⟨angles, -, hm⟩ := bind_eq_ok.mp hm
    obtain ⟨j, hj, hm⟩ := bind_eq_ok.mp hm
    obtain rfl := Except.ok.inj hm
    exact handled_single hk (by decide) (fun hshort => absurd hsize (not_le.mpr hshort))
      (fun _ => ⟨_, rfl, carries_plain hk (by decide) rfl (cueing_document _ _ _ _ _ hj)⟩)
  · rw [if_neg hsize] at h
    obtain rfl := Except.ok.inj h
    exact handled_single hk (by decide) (fun _ => rfl) (fun hfull => absurd hfull hsize)

/-- Only the cueing handler computes anything that could go on; the others return. -/
theorem handled_of_ne_cueing {k : Kind} (hk : messageKind packet.data = some k)
    (hne : k ≠ .cueing_order) :
    ∃ r, handlerOf F k rt packet snapshot [] = .ok r ∧ Handled packet.data r := by
  cases k with
  | change_configuration => exact handled_change_configuration hk
  | cueing_order_cancellation => exact handled_cancellation hk
  | cueing_order => exact absurd rfl hne
  | emission_control => exact handled_emission_control hk

/-- **Handlers.** Whatever a handler returns is right. -/
theorem handled_of_ok {k : Kind} (hk : messageKind packet.data = some k)
    (h : handlerOf F k rt packet snapshot [] = .ok r) : Handled packet.data r := by
  by_cases hne : k = .cueing_order
  · subst hne
    exact handled_cueing hk h
  · obtain ⟨r', hr', hgood⟩ := @handled_of_ne_cueing F _ rt packet snapshot k hk hne
    exact Except.ok.inj (hr'.symm.trans h) ▸ hgood

end

/-! ## Dispatch and serialization -/

/-- The entry of a kind in the dispatch table. -/
def mappingOf (rt : Runtime F) (k : Kind) : MessageMapping F where
  messageId := match k with
    | .change_configuration => MessageId_CS_LRAS_change_configuration_order_INS
    | .cueing_order_cancellation => MessageId_CS_LRAS_cueing_order_cancellation_INS
    | .cueing_order => MessageId_CS_LRAS_cueing_order_INS
    | .emission_control => MessageId_CS_LRAS_emission_control_INS
  handler := handlerOf F k
  ack_builder := build_ack_packet rt.asio
  ack_only := k == .cueing_order_cancellation

/-- Looking an id up in the dispatch table finds the entry of its kind. -/
theorem dispatchTable_find? (rt : Runtime F) (id : UInt32) :
    (dispatchTable rt).find? (fun m => m.messageId == id) = (kindOf id).map (mappingOf rt) := by
  rw [dispatchTable, kindOf]
  simp only [List.find?_cons, List.find?_nil]
  split_ifs with h1 h2 h3 h4
  · subst h1
    rfl
  · subst h2
    rfl
  · subst h3
    rfl
  · subst h4
    rfl
  · -- an id that is not in the table is no kind
    have hne : ∀ {id' : UInt32}, id ≠ id' → (id' == id) = false :=
      fun h => beq_false_of_ne (Ne.symm h)
    rw [hne h1, hne h2, hne h3, hne h4]
    rfl

variable {rt : Runtime F} {input : RawPacket} {snapshot : SystemStateSnapshot}

/-- `convert` as a function of the kind. -/
theorem convert_eq : convert rt input snapshot =
    match messageKind input.data with
    | none => .ok {}
    | some k => do
        let (convertedMessages, stateUpdates) ← handlerOf F k rt input snapshot []
        let packets ← convertedMessages.mapM (serialize rt)
        return {
          packets := packets
          ack_builder := some (build_ack_packet rt.asio)
          ack_only := k == .cueing_order_cancellation
          state_updates := stateUpdates } := by
  rw [convert, parseHeader_eq, ok_bind, messageKind]
  -- `parseHeader` decides first, the table second
  by_cases hheader : HeaderOk input.data
  · rw [if_pos hheader, if_pos hheader]
    simp only [dispatchTable_find?]
    cases kindOf (u32At input.data 0) with
    | none => rfl
    | some k => rfl
  · rw [if_neg hheader, if_neg hheader]
    rfl

/-- No handler looks at the snapshot. -/
theorem convert_snapshot (snapshot snapshot' : SystemStateSnapshot) :
    convert rt input snapshot = convert rt input snapshot' := by
  rw [convert_eq, convert_eq]
  cases messageKind input.data with
  | none => rfl
  | some k => cases k <;> rfl

/-- A packet made for an order. -/
structure CarriesText (rt : Runtime F) (data : Bytes) (o : Order) (p : RawPacket) : Prop where
  destination : p.destinationLradId = o.lradId
  text : ∃ j, rt.dump j = some p.data ∧ Document
    (if messageKind data = some .emission_control then some (num32 o.actionId) else none)
    (!decide (TextInvalid data)) j

/-- What `convert` is to return: a packet for each order, and the updates. -/
structure Converted (rt : Runtime F) (data : Bytes) (r : ConversionResult) : Prop where
  packets : List.Forall₂ (CarriesText rt data) (ordersOf data) r.packets
  builder : r.packets ≠ [] → r.ack_builder = some (build_ack_packet rt.asio)
  ack_only : r.ack_only = true ↔ messageKind data = some .cueing_order_cancellation
  updates : r.state_updates = updatesOf data

omit [CFloat F] in
theorem serialize_eq_ok {m : ConvertedMessage F} {p : RawPacket} :
    serialize rt m = .ok p ↔
      rt.dump m.payload = some p.data ∧ m.destinationLradId = p.destinationLradId := by
  obtain ⟨data, destinationLradId⟩ := p
  rw [serialize]
  cases rt.dump m.payload with
  | none => simp only [reduceCtorEq, false_and]
  | some s => simp only [Except.ok.injEq, RawPacket.mk.injEq, Option.some.injEq]

/-- **Conversion.** Whatever `convert` returns is right. -/
theorem convert_ok {r : ConversionResult} (h : convert rt input snapshot = .ok r) :
    Converted rt input.data r := by
  rw [convert_eq] at h
  cases hk : messageKind input.data with
  | none =>
      rw [hk] at h
      obtain rfl := Except.ok.inj h
      refine ⟨?_, fun hne => absurd rfl hne, ?_, ?_⟩
      · rw [ordersOf, hk]
        exact List.Forall₂.nil
      · rw [hk]
        constructor <;> exact fun h => nomatch h
      · rw [updatesOf, hk]
        rfl
  | some k =>
      rw [hk] at h
      obtain ⟨⟨convertedMessages, stateUpdates⟩, hhandler, h⟩ := bind_eq_ok.mp h
      obtain ⟨packets, hpackets, h⟩ := bind_eq_ok.mp h
      obtain rfl := Except.ok.inj h
      obtain ⟨hmessages, hupdates⟩ := handled_of_ok hk hhandler
      refine ⟨?_, fun _ => rfl, ?_, hupdates⟩
      · -- serializing takes the place of each message and keeps its destination
        apply forall₂_of_mapM hmessages hpackets
        intro o m p hm hp
        obtain ⟨hdump, hdest⟩ := serialize_eq_ok.mp hp
        exact ⟨hdest.symm.trans hm.destination, m.payload, hdump, hm.document⟩
      · rw [hk, beq_iff_eq, Option.some.injEq]

omit [CFloat F] in
/-- There is nothing to send exactly when there are no orders. -/
theorem Converted.packets_eq_nil_iff {data : Bytes} {r : ConversionResult}
    (hr : Converted rt data r) : r.packets = [] ↔ ordersOf data = [] := by
  rw [← List.length_eq_zero_iff, ← hr.packets.length_eq, List.length_eq_zero_iff]

/-- A datagram with orders has a header in order. -/
theorem headerOk_of_orders_ne_nil {data : Bytes} (hne : ordersOf data ≠ []) : HeaderOk data := by
  by_contra hheader
  exact hne (by rw [ordersOf, messageKind, if_neg hheader])

end

end CmsProxy.Orders
