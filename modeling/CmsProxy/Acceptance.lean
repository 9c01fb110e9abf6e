/-
Which datagrams are converted, and which end the delivery thread.

Nothing catches an exception between the converter and the thread that runs it,
so the question of what `convert` returns comes after the question whether it
does. There is one way it does not: the free text of an emission-control order
is put into a JSON document as it was received, and `dump` throws on text that
is not UTF-8 (`processPacket_returns_iff`). Reads past the end, which would be
the other way, do not happen, and the angle computations end.

Whenever `convert` returns, it has made a packet exactly of the datagrams that
follow the message grammar (`convert_accepts_iff`). The grammar asks a cueing
order for its fixed part only: where the coordinates are cut off, the order is
made with default angles.
-/
import CmsProxy.Answers
import CmsProxy.CueingBounds
import CmsProxy.Reference

set_option autoImplicit false

namespace CmsProxy.Acceptance

open BigEndian Interfaces JsonValue CueingMath Converter Orders Engine Answers
open Binary32 (Within)
open CueingBounds (Atan2Range mod360_finishes cartesian2target_finishes Wrapped)
open Reference (linux linux_jsonLaws linux_atan2Range datagram orderBytes)

/-! ## The cueing handler returns -/

section

variable {rt : Runtime Float32}

/-- An angle of a target, or 0. -/
def Angle (a : Float32) : Prop := Within (-360) 699 a

theorem angle_zero : Angle (whole Float32 0) :=
  Or.inr ⟨0, CueingBounds.toRat_0, by norm_num, by norm_num⟩

theorem normalize_returns (hfuel : 2 ≤ rt.fuel) {a : Float32} (ha : Angle a) :
    ∃ r, finished (normalize_0_360 rt a) = .ok r := by
  obtain ⟨r, hr, -⟩ := mod360_finishes hfuel ha
  exact ⟨r, by rw [normalize_0_360, hr, finished]⟩

theorem encode_delta_returns (hfuel : 2 ≤ rt.fuel) {a : Float32} (ha : Angle a) :
    ∃ r, finished (encode_delta_u16 rt a) = .ok r := by
  obtain ⟨r, hr, -⟩ := mod360_finishes hfuel ha
  -- the rounding and the cut to 16 bits always return
  exact ⟨UInt16.ofInt (rt.lround r), by rw [encode_delta_u16, normalize_0_360, hr]; rfl⟩

theorem cueing_angles_returns (hfuel : 2 ≤ rt.fuel) (hatan : Atan2Range rt) (x y z : Float32)
    (hasCartesianCoordinates : Bool) :
    ∃ p, cueing_angles rt x y z hasCartesianCoordinates = .ok p ∧ Angle p.1 ∧ Angle p.2 := by
  rw [cueing_angles]
  cases hasCartesianCoordinates with
  | false => exact ⟨_, rfl, angle_zero, angle_zero⟩
  | true =>
      -- the offsets and the heading are 0 here
      obtain ⟨t, ht, haz, hel⟩ := cartesian2target_finishes hfuel hatan x y z (whole Float32 0)
        (whole Float32 0) (whole Float32 0) (whole Float32 0) (whole Float32 0)
      rw [if_pos rfl, ht, finished, ok_bind]
      exact ⟨_, rfl, haz, hel⟩

theorem cueing_order_json_returns (hfuel : 2 ≤ rt.fuel) (cueingType : UInt16)
    (hasCartesianCoordinates : Bool) {az el : Float32} (haz : Angle az) (hel : Angle el) :
    ∃ j, cueing_order_json rt cueingType hasCartesianCoordinates az el = .ok j := by
  obtain ⟨azimuth360, haz'⟩ := normalize_returns hfuel haz
  obtain ⟨elevation360, hel'⟩ := normalize_returns hfuel hel
  rw [cueing_order_json, haz', hel', ok_bind, ok_bind]
  by_cases hmove : cueingType = 1
  · rw [if_pos hmove]
    exact ⟨_, rfl⟩
  · -- `DELTA` wraps both angles once more
    obtain ⟨deltaAz, hdeltaAz⟩ := encode_delta_returns hfuel haz
    obtain ⟨deltaEl, hdeltaEl⟩ := encode_delta_returns hfuel hel
    rw [if_neg hmove, hdeltaAz, hdeltaEl, ok_bind, ok_bind]
    exact ⟨_, rfl⟩

end

section

variable {rt : Runtime Float32}

theorem cueing_handler_returns (hfuel : 2 ≤ rt.fuel) (hatan : Atan2Range rt) (packet : RawPacket)
    (snapshot : SystemStateSnapshot) :
    ∃ r, handlerOf Float32 .cueing_order rt packet snapshot [] = .ok r := by
  rw [handlerOf, handle_cueing_spec]
  by_cases hsize : 38 ≤ packet.data.length
  · -- the two parts that are more than a read inside the datagram
    obtain ⟨⟨az, el⟩, hangles, haz, hel⟩ := cueing_angles_returns hfuel hatan
      (coordinatesAt Float32 packet.data (u16At packet.data 36)).1
      (coordinatesAt Float32 packet.data (u16At packet.data 36)).2.1
      (coordinatesAt Float32 packet.data (u16At packet.data 36)).2.2.1
      (coordinatesAt Float32 packet.data (u16At packet.data 36)).2.2.2
    obtain ⟨j, hj⟩ := cueing_order_json_returns hfuel (u16At packet.data 22)
      (coordinatesAt Float32 packet.data (u16At packet.data 36)).2.2.2 haz hel
    rw [if_pos hsize, cueingMessage]
    simp only [hangles, hj, ok_bind]
    exact ⟨_, rfl⟩
  · rw [if_neg hsize]
    exact ⟨_, rfl⟩

/-- Every handler returns, on every datagram that reaches it. -/
theorem handler_returns (hfuel : 2 ≤ rt.fuel) (hatan : Atan2Range rt) {packet : RawPacket}
    (snapshot : SystemStateSnapshot) {k : Kind} (hk : messageKind packet.data = some k) :
    ∃ r, handlerOf Float32 k rt packet snapshot [] = .ok r := by
  by_cases hne : k = .cueing_order
  · subst hne
    exact cueing_handler_returns hfuel hatan packet snapshot
  · obtain ⟨r, hr, -⟩ :=
      @handled_of_ne_cueing Float32 _ rt packet snapshot k hk hne
    exact ⟨r, hr⟩

end

/-! ## What is serialized -/

section

variable {F : Type} [CFloat F] {rt : Runtime F}

omit [CFloat F] in
/-- A message is serialized exactly when its strings are valid. -/
theorem serialize_returns_iff (hjson : rt.JsonLaws) {m : ConvertedMessage F} :
    (∃ p, serialize rt m = .ok p) ↔ m.payload.utf8Ok = true := by
  have hdump := hjson.dump_eq_none m.payload
  rw [serialize]
  cases hm : rt.dump m.payload with
  | none =>
      rw [hdump.mp hm]
      simp only [reduceCtorEq, exists_false, Bool.false_eq_true]
  | some s =>
      rw [hm] at hdump
      have hvalid : m.payload.utf8Ok = true := by
        simpa only [reduceCtorEq, false_iff, Bool.not_eq_false] using hdump
      exact ⟨fun _ => hvalid, fun _ => ⟨_, rfl⟩⟩

omit [CFloat F] in
/-- The messages of a datagram are serialized unless its text is invalid. -/
theorem serialized_iff (hjson : rt.JsonLaws) {data : Bytes} {r : HandlerResult F}
    (hr : Handled data r) :
    (∃ packets, r.1.mapM (serialize rt) = .ok packets) ↔ ¬ TextInvalid data := by
  rw [mapM_returns_iff]
  constructor
  · intro hall hinvalid
    -- a datagram with invalid text is complete, so there is a message with this text
    have horder : orderAt data 16 ∈ ordersOf data := by
      have hsize : Kind.emission_control.size ≤ data.length := hinvalid.2.1
      rw [ordersOf_single hinvalid.1 (by decide), if_pos hsize]
      exact List.mem_singleton_self _
    obtain ⟨m, hm, hcarries⟩ := exists_of_forall₂ hr.messages horder
    have hvalid := (serialize_returns_iff hjson).mp (hall m hm)
    rw [hcarries.document.utf8Ok, decide_eq_true hinvalid] at hvalid
    exact Bool.false_ne_true hvalid
  · intro hvalid m hm
    obtain ⟨o, -, hcarries⟩ := exists_of_forall₂ hr.messages.flip hm
    rw [serialize_returns_iff hjson, hcarries.document.utf8Ok, decide_eq_false hvalid,
      Bool.not_false]

/-- Where the handlers return, `convert` does unless the text is invalid. -/
theorem convert_returns_iff (hjson : rt.JsonLaws) {input : RawPacket}
    {snapshot : SystemStateSnapshot}
    (hhandler : ∀ k, messageKind input.data = some k →
      ∃ r, handlerOf F k rt input snapshot [] = .ok r) :
    (∃ r, convert rt input snapshot = .ok r) ↔ ¬ TextInvalid input.data := by
  rw [convert_eq]
  cases hk : messageKind input.data with
  | none =>
      -- a datagram without a kind is discarded before any text is looked at
      have hvalid : ¬ TextInvalid input.data := by
        rw [TextInvalid, hk]
        simp only [reduceCtorEq, false_and, not_false_eq_true]
      exact ⟨fun _ => hvalid, fun _ => ⟨_, rfl⟩⟩
  | some k =>
      obtain ⟨r, hr⟩ := hhandler k hk
      rw [← serialized_iff hjson (handled_of_ok hk hr)]
      simp only [hr, ok_bind, bind_eq_ok, pure_eq_ok]
      constructor
      · rintro ⟨_, packets, hpackets, -⟩
        exact ⟨packets, hpackets⟩
      · rintro ⟨packets, hpackets⟩
        exact ⟨_, packets, hpackets, rfl⟩

end

/-! ## Which datagrams end the thread -/

section

variable {S : Type}

/-- **What ends the thread.** `processPacket` returns exactly if the datagram is
not an emission-control order with text that is not UTF-8. -/
theorem processPacket_returns_iff {eng : ProxyEngine Float32 S} (hjson : eng.rt.JsonLaws)
    (hatan : Atan2Range eng.rt) (hfuel : 2 ≤ eng.rt.fuel) (nowMs : UInt64) (input : RawPacket)
    (st : EngineState S) :
    (∃ st' effects, processPacket eng nowMs input st = .ok (st', effects)) ↔
      ¬ TextInvalid input.data := by
  rw [← @convert_returns_iff Float32 _ eng.rt hjson input st.system_state_.getSnapshot
    fun k hk => handler_returns hfuel hatan _ hk]
  constructor
  · rintro ⟨st', effects, hstep⟩
    obtain ⟨r, hr, -⟩ := processPacket_ok hstep
    exact ⟨r, hr⟩
  · rintro ⟨r, hr⟩
    obtain ⟨st', effects, hstep, -⟩ := @processPacket_of_convert _ _ _ eng nowMs input st r hr
    exact ⟨st', effects, hstep⟩

/-- An emission-control order with a text. -/
def goodText : RawPacket :=
  datagram 1679949828 (toBytes 4 7 ++ toBytes 2 1 ++ List.replicate 24 0 ++ str "HALT" ++
    List.replicate 788 0)

/-- On a complete order with a valid text it returns. -/
theorem processPacket_returns_iff_text : goodText.data.length = 838 ∧
    messageKind goodText.data = some .emission_control ∧ ¬ TextInvalid goodText.data ∧
    ∃ st' effects, processPacket (Reference.engine [1]) 0 goodText { sender := [] }
      = .ok (st', effects) := by
  have hvalid : ¬ TextInvalid goodText.data := by decide +kernel
  exact ⟨by decide +kernel, by decide +kernel, hvalid, (@processPacket_returns_iff _
    (Reference.engine [1]) linux_jsonLaws linux_atan2Range (by decide) 0 goodText
    { sender := [] }).mpr hvalid⟩

/-- An emission-control order whose text is the byte 255. -/
def badText : RawPacket :=
  datagram 1679949828 (toBytes 4 7 ++ toBytes 2 1 ++ List.replicate 24 0 ++ [255] ++
    List.replicate 791 0)

/-- It is of the right size, and for an LRAD in the table. -/
theorem badText_throws :
    ¬ ∃ st effects, processPacket (Reference.engine [1]) 0 badText { sender := [] }
      = .ok (st, effects) := by
  rintro ⟨st, effects, hstep⟩
  obtain ⟨r, hr, -⟩ := processPacket_ok hstep
  -- what is left to show is that the text is invalid
  refine (@convert_returns_iff Float32 _ linux linux_jsonLaws badText _
    fun k hk => handler_returns (by decide) linux_atan2Range _ hk).mp ⟨r, hr⟩ ?_
  decide +kernel

end

/-! ## The message grammar -/

section

/-- The datagram follows the grammar: a header in order, a known kind, and at
least the fixed part of that kind. -/
def Grammar (data : Bytes) : Prop :=
  HeaderOk data ∧ ∃ k, kindOf (u32At data 0) = some k ∧ k.size ≤ data.length

/-- The datagrams that follow the grammar are those with orders. -/
theorem grammar_iff (data : Bytes) : Grammar data ↔ ordersOf data ≠ [] := by
  rw [Grammar]
  by_cases hheader : HeaderOk data
  · have hkind : messageKind data = kindOf (u32At data 0) := if_pos hheader
    rw [← hkind, and_iff_right hheader]
    cases hk : messageKind data with
    | none =>
        have hnone : ordersOf data = [] := by rw [ordersOf, hk]
        simp only [reduceCtorEq, false_and, exists_false, hnone, ne_eq, not_true_eq_false]
    | some k =>
        have hsize : (∃ k', some k = some k' ∧ k'.size ≤ data.length) ↔ k.size ≤ data.length := by
          simp only [Option.some.injEq, exists_eq_left']
        rw [hsize]
        by_cases hne : k = .change_configuration
        · subst hne
          -- a row has a block from 24 bytes on
          have hcount : blockCount data = (data.length - 16) / 8 := rfl
          have h24 : Kind.change_configuration.size = 24 := rfl
          rw [ordersOf, hk, Ne, List.map_eq_nil_iff, blocks, List.map_eq_nil_iff,
            List.range_eq_nil]
          omega
        · rw [ordersOf_single hk hne]
          by_cases hsize' : k.size ≤ data.length
          · rw [if_pos hsize']
            exact ⟨fun _ => List.cons_ne_nil _ _, fun _ => hsize'⟩
          · rw [if_neg hsize']
            exact ⟨fun h => absurd h hsize', fun h => absurd rfl h⟩
  · exact ⟨fun h => absurd h.1 hheader, fun h => absurd (headerOk_of_orders_ne_nil h) hheader⟩

/-- **The grammar decides.** Unless its text is invalid, a datagram is converted
into at least one packet if and only if it follows the grammar; any other is
discarded without any effect. -/
theorem convert_accepts_iff {S : Type} {eng : ProxyEngine Float32 S} (hjson : eng.rt.JsonLaws)
    (hatan : Atan2Range eng.rt) (hfuel : 2 ≤ eng.rt.fuel) {input : RawPacket}
    (hvalid : ¬ TextInvalid input.data) :
    (∀ snapshot, ∃ r, convert eng.rt input snapshot = .ok r ∧
      (r.packets ≠ [] ↔ Grammar input.data)) ∧
    (¬ Grammar input.data → ∀ nowMs st, processPacket eng nowMs input st = .ok (st, [])) := by
  have hconvert : ∀ snapshot, ∃ r, convert eng.rt input snapshot = .ok r ∧
      (r.packets ≠ [] ↔ Grammar input.data) := by
    intro snapshot
    obtain ⟨r, hr⟩ := (@convert_returns_iff Float32 _ eng.rt hjson input snapshot
      fun k hk => handler_returns hfuel hatan _ hk).mpr hvalid
    exact ⟨r, hr, by rw [grammar_iff, Ne, (convert_ok hr).packets_eq_nil_iff]⟩
  refine ⟨hconvert, fun hgrammar nowMs st => ?_⟩
  obtain ⟨r, hr, hiff⟩ := hconvert st.system_state_.getSnapshot
  -- no packet, so `processPacket` has nothing to do
  have hempty := of_not_not (mt hiff.mp hgrammar)
  obtain ⟨st', effects, hstep, hprocessed⟩ :=
    @processPacket_of_convert _ _ _ eng nowMs input st r hr
  cases hprocessed with
  | discarded _ => exact hstep
  | acknowledged hne _ => exact absurd hempty hne
  | delivered hne _ => exact absurd hempty hne

/-- A cueing order of 38 bytes whose kinematics type promises coordinates. -/
def cutCueing : RawPacket :=
  datagram 1679949827 (toBytes 4 7 ++ toBytes 2 1 ++ toBytes 2 1 ++ List.replicate 12 0 ++
    toBytes 2 1)

/-- It follows the grammar. -/
theorem convert_accepts_iff_cut : ¬ TextInvalid cutCueing.data ∧
    ∃ r, convert linux cutCueing {} = .ok r ∧ (r.packets ≠ [] ↔ Grammar cutCueing.data) := by
  have hvalid : ¬ TextInvalid cutCueing.data := by decide
  exact ⟨hvalid, (@convert_accepts_iff _ (Reference.engine [1]) linux_jsonLaws linux_atan2Range
    (by decide) cutCueing hvalid).1 {}⟩

/-- The grammar, and of a cueing order the coordinates its kinematics type promises. -/
def GrammarWithCoordinates (data : Bytes) : Prop :=
  Grammar data ∧ (messageKind data = some .cueing_order →
    (u16At data 36 = 1 ∨ u16At data 36 = 2 → 52 ≤ data.length) ∧
      (u16At data 36 = 3 ∨ u16At data 36 = 4 → 48 ≤ data.length))

/-- Without its coordinates a cueing order becomes a packet all the same. -/
theorem cut_cueing_converted : ∃ r, convert linux cutCueing {} = .ok r ∧
    ¬ (r.packets ≠ [] ↔ GrammarWithCoordinates cutCueing.data) := by
  have h : (convert linux cutCueing {}).toOption.map (·.packets.isEmpty) = some false := by decide
  obtain ⟨r, hr, hpackets⟩ := exists_ok_of_map h
  refine ⟨r, hr, fun hiff => ?_⟩
  have hfull := hiff.mp (List.isEmpty_eq_false_iff.mp hpackets)
  exact absurd ((hfull.2 (by decide)).1 (Or.inl (by decide))) (by decide)

end

end CmsProxy.Acceptance
