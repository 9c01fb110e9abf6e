/-
What `convert` returns, message by message.

`Orders.lean` says of every packet which order it is for. This file says what is
in it: `convert_messages` hands a result back to the handler of its kind, so that
a fact about the messages of a handler becomes a fact about packets. One such
fact is here. The commands and the state updates of a change-configuration
datagram are two lists, built by one loop and consumed apart, and the `i`-th
entries of both speak of the `i`-th block (`commands_match_updates`).
-/
import CmsProxy.Orders
import CmsProxy.Reference

set_option autoImplicit false

namespace CmsProxy.Commands

open BigEndian Interfaces JsonValue Converter Orders
open JsonText (isNumber)

section

variable {F : Type} [CFloat F] {rt : Runtime F} {input : RawPacket}
variable {snapshot : SystemStateSnapshot} {r : ConversionResult}

/-! ## From packets to messages -/

/-- The messages of a handler become the packets of the result, one by one. -/
theorem convert_messages {k : Kind} (hk : messageKind input.data = some k)
    (h : convert rt input snapshot = .ok r) :
    ∃ messages, handlerOf F k rt input snapshot [] = .ok (messages, r.state_updates) ∧
      List.Forall₂ (fun m p => serialize rt m = .ok p) messages r.packets := by
  rw [convert_eq, hk] at h
  obtain ⟨⟨messages, updates⟩, hhandler, h⟩ := bind_eq_ok.mp h
  obtain ⟨packets, hpackets, h⟩ := bind_eq_ok.mp h
  obtain rfl := Except.ok.inj h
  exact ⟨messages, hhandler, mapM_eq_ok.mp hpackets⟩

/-- A datagram that is accepted has a kind, which its message id determines. -/
theorem kind_of_accepted (h : convert rt input snapshot = .ok r) (hne : r.packets ≠ []) :
    ∃ k, messageKind input.data = some k ∧ kindOf (u32At input.data 0) = some k := by
  have hheader := headerOk_of_orders_ne_nil (mt (convert_ok h).packets_eq_nil_iff.mpr hne)
  have hkind : messageKind input.data = kindOf (u32At input.data 0) := if_pos hheader
  cases hk : kindOf (u32At input.data 0) with
  | some k => exact ⟨k, hkind.trans hk, rfl⟩
  | none =>
      -- without a kind there would be nothing to send
      rw [convert_eq, hkind, hk] at h
      obtain rfl := Except.ok.inj h
      exact absurd rfl hne

theorem kindOf_change_configuration_iff {id : UInt32} :
    kindOf id = some .change_configuration ↔
      id = MessageId_CS_LRAS_change_configuration_order_INS := by
  rw [kindOf]
  split_ifs with h1 h2 h3 h4 <;> simp [h1]

/-! ## Commands and updates -/

/-- The mode a configuration word asks for. -/
def modeOf (configuration : UInt16) : Bytes :=
  if configuration = 0 then str "RELEASE" else str "REQ"

/-- The packet is the text of a document with this `param.mode`. -/
def CarriesMode (rt : Runtime F) (p : RawPacket) (mode : Bytes) : Prop :=
  ∃ j, rt.dump j = some p.data ∧ Json.at? [str "param", str "mode"] j = some (.string mode)

/-- A packet and an update that speak of the `i`-th block. -/
structure SameOrder (rt : Runtime F) (data : Bytes) (i : ℕ) (p : RawPacket) (u : StateUpdate) :
    Prop where
  destination : p.destinationLradId = u16At data (16 + 8 * i + 4)
  mode : CarriesMode rt p (modeOf (u16At data (16 + 8 * i + 6)))
  /-- The LRAD id and the engagement are all the update sets. -/
  update : u = {
    lradId := some p.destinationLradId
    engaged := some (decide (modeOf (u16At data (16 + 8 * i + 6)) = str "REQ")) }

omit [CFloat F] in
theorem change_configuration_mode (rawConfig : UInt16) :
    Json.at? [str "param", str "mode"] (change_configuration_json rawConfig : Json F) =
      some (.string (modeOf rawConfig)) := by
  simp [Json.at?, change_configuration_json, findMember, modeOf]

/-- A block engages its LRAD exactly when it asks for the mode `REQ`. -/
theorem modeOf_eq_req_iff (configuration : UInt16) :
    modeOf configuration = str "REQ" ↔ configuration ≠ 0 := by
  rw [modeOf]
  by_cases hzero : configuration = 0
  · rw [if_pos hzero, str_inj]
    exact iff_of_false (by decide) (fun h => h hzero)
  · rw [if_neg hzero]
    exact iff_of_true rfl hzero

/-- The packet of a block, and its update. -/
theorem sameOrder_block {data : Bytes} {i : ℕ} {p : RawPacket}
    (h : serialize rt (Block.message F (blockAt data i)) = .ok p) :
    SameOrder rt data i p (blockAt data i).update := by
  obtain ⟨hdump, hdestination⟩ := serialize_eq_ok.mp h
  refine ⟨hdestination.symm, ⟨_, hdump, change_configuration_mode _⟩, ?_⟩
  have hreq := modeOf_eq_req_iff (u16At data (16 + 8 * i + 6))
  rw [Block.update, ← hdestination]
  simp only [Block.message, blockAt, orderAt, StateUpdate.mk.injEq, Option.some.injEq, true_and,
    and_true]
  -- the handler compares the word itself with 0
  rw [bne, decide_eq_decide.mpr hreq, decide_not]
  rfl

/-- The two lists of a change-configuration datagram run along its blocks. -/
theorem change_configuration_lists (hk : messageKind input.data = some .change_configuration)
    (h : convert rt input snapshot = .ok r) :
    r.state_updates = (blocks input.data).map Block.update ∧
      List.Forall₂ (fun b p => serialize rt (Block.message F b) = .ok p) (blocks input.data)
        r.packets := by
  obtain ⟨messages, hhandler, hpackets⟩ := convert_messages hk h
  rw [handlerOf, handle_change_configuration_spec] at hhandler
  obtain ⟨rfl, hupdates⟩ := Prod.mk.inj (Except.ok.inj hhandler)
  exact ⟨hupdates.symm, List.forall₂_map_left_iff.mp hpackets⟩

/-- **Commands and updates describe the same orders.** An accepted
change-configuration datagram has a packet and an update for each whole block,
and the `i`-th of each speaks of the `i`-th block; every other datagram that is
accepted has one packet and no update. -/
theorem commands_match_updates (rt : Runtime F) (input : RawPacket)
    (snapshot : SystemStateSnapshot) {r : ConversionResult}
    (h : convert rt input snapshot = .ok r) (hne : r.packets ≠ []) :
    if u32At input.data 0 = MessageId_CS_LRAS_change_configuration_order_INS then
      r.packets.length = (input.data.length - 16) / 8 ∧
      r.state_updates.length = (input.data.length - 16) / 8 ∧
      ∀ i (hp : i < r.packets.length) (hu : i < r.state_updates.length),
        SameOrder rt input.data i r.packets[i] r.state_updates[i]
    else r.packets.length = 1 ∧ r.state_updates = [] := by
  obtain ⟨k, hk, hid⟩ := kind_of_accepted h hne
  by_cases hchange : u32At input.data 0 = MessageId_CS_LRAS_change_configuration_order_INS
  · rw [if_pos hchange]
    rw [kindOf_change_configuration_iff.mpr hchange] at hid
    obtain rfl := Option.some.inj hid
    obtain ⟨hupdates, hpackets⟩ := change_configuration_lists hk h
    have hlength : (blocks input.data).length = (input.data.length - 16) / 8 := by
      rw [blocks, List.length_map, List.length_range, blockCount]
    refine ⟨hpackets.length_eq.symm.trans hlength, ?_, ?_⟩
    · rw [hupdates, List.length_map, hlength]
    · intro i hp hu
      -- the `i`-th entries of both lists come from the `i`-th block
      have hi : i < (blocks input.data).length := hpackets.length_eq ▸ hp
      have hblock : (blocks input.data)[i] = blockAt input.data i := by
        simp only [blocks, List.getElem_map, List.getElem_range]
      have hpacket : serialize rt (Block.message F (blocks input.data)[i]) = .ok r.packets[i] :=
        hpackets.get hi hp
      rw [hblock] at hpacket
      simp only [hupdates, List.getElem_map, hblock]
      exact sameOrder_block hpacket
  · rw [if_neg hchange]
    have hother : k ≠ .change_configuration := by
      rintro rfl
      exact hchange (kindOf_change_configuration_iff.mp hid)
    have hconverted := convert_ok h
    constructor
    · -- one order at most, and there is one
      have hone : r.packets.length = (ordersOf input.data).length :=
        hconverted.packets.length_eq.symm
      have hsome := mt hconverted.packets_eq_nil_iff.mpr hne
      rw [ordersOf_single hk hother] at hone hsome
      split_ifs at hone hsome with hsize
      · exact hone
      · exact absurd rfl hsome
    · rw [hconverted.updates, updatesOf, hk,
        if_neg (fun heq => hother (Option.some.inj heq))]

end

/-- Of the datagram with blocks for the LRADs 1 and 2. -/
theorem commands_match_updates_two : ∃ r : ConversionResult, r.packets.length = 2 ∧
    convert Reference.linux Reference.twoBlocks {} = .ok r ∧
    SameOrder Reference.linux Reference.twoBlocks.data 1 (r.packets.getD 1 { data := [] })
      (r.state_updates.getD 1 {}) := by
  obtain ⟨r, hr, hlength⟩ : ∃ r, convert Reference.linux Reference.twoBlocks {} = .ok r ∧
      r.packets.length = 2 := exists_ok_of_map (by decide +kernel)
  have hne : r.packets ≠ [] := List.ne_nil_of_length_pos (by omega)
  have h := commands_match_updates Reference.linux Reference.twoBlocks {} hr hne
  rw [if_pos (by decide)] at h
  obtain ⟨-, hupdates, hentries⟩ := h
  have htwo : r.state_updates.length = 2 := hupdates.trans (by decide)
  have hentry := hentries 1 (by omega) (by omega)
  refine ⟨r, hlength, hr, ?_⟩
  rw [List.getD_eq_getElem _ _ (by omega), List.getD_eq_getElem _ _ (by omega)]
  exact hentry

end CmsProxy.Commands
