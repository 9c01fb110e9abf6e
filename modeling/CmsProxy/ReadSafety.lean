/-
No read past the end of a datagram.

The read helpers of the converter check nothing, so in the model a read past the
end is a fault (`Fault.outOfRange`) and every handler stands for the size check
in front of its reads. That the fault never occurs is shown from the inside out:
what can go wrong in each function, and that a sequence fails only as one of its
parts does (`Never.bind`). The handlers have their specs for that, which hold for
packets of every length, whether or not a header has been parsed.

The engine reads the message id with a helper of its own, which does check. Where
it reads at all, the unchecked read of the converter would succeed too.
-/
import CmsProxy.Orders
import CmsProxy.Engine

set_option autoImplicit false

namespace CmsProxy.ReadSafety

open BigEndian Interfaces JsonValue Converter Orders Engine

/-! ## Faults of a sequence -/

section

variable {α β : Type} {e : Fault}

/-- The computation does not end with this fault. -/
def Never (e : Fault) (x : Except Fault α) : Prop := x ≠ .error e

theorem Never.ok (a : α) : Never e (.ok a) := by
  intro h
  simp only [reduceCtorEq] at h

/-- Another fault is not this one. -/
theorem Never.other {e' : Fault} (hne : e' ≠ e) : Never e (.error e' : Except Fault α) := by
  intro h
  exact hne (Except.error.inj h)

/-- A sequence ends with a fault only if one of its parts does. -/
theorem Never.bind {x : Except Fault α} {f : α → Except Fault β} (hx : Never e x)
    (hf : ∀ a, x = .ok a → Never e (f a)) : Never e (x >>= f) := by
  cases x with
  | ok a => exact hf a rfl
  | error e' => exact Never.other fun h => hx (congrArg Except.error h)

theorem Never.map {x : Except Fault α} (f : α → β) (hx : Never e x) : Never e (x.map f) := by
  cases x with
  | ok a => exact Never.ok (f a)
  | error e' => exact Never.other fun h => hx (congrArg Except.error h)

/-- A loop over a list ends with a fault only if one of its turns does. -/
theorem Never.mapM {f : α → Except Fault β} {xs : List α} (hf : ∀ x, Never e (f x)) :
    Never e (xs.mapM f) := by
  induction xs with
  | nil =>
      rw [List.mapM_nil]
      exact Never.ok []
  | cons x xs ih =>
      rw [List.mapM_cons]
      refine (hf x).bind fun y _ => ih.bind fun ys _ => ?_
      exact Never.ok (y :: ys)

/-- A loop that has not ended is another fault. -/
theorem never_finished (result : Option α) : Never .outOfRange (finished result) := by
  cases result with
  | none => exact Never.other (by decide)
  | some a => exact Never.ok a

end

section

variable {F : Type} [CFloat F]

/-! ## The converter -/

theorem never_parseHeader (packet : RawPacket) : Never .outOfRange (parseHeader packet) := by
  rw [parseHeader_eq]
  exact Never.ok _

variable {rt : Runtime F}

theorem never_cueing_angles (x y z : F) (hasCartesianCoordinates : Bool) :
    Never .outOfRange (cueing_angles rt x y z hasCartesianCoordinates) := by
  rw [cueing_angles]
  split_ifs
  · exact (never_finished _).bind fun t _ => Never.ok _
  · exact Never.ok _

theorem never_cueing_order_json (cueingType : UInt16) (hasCartesianCoordinates : Bool)
    (azimuthDeg elevationDeg : F) :
    Never .outOfRange
      (cueing_order_json rt cueingType hasCartesianCoordinates azimuthDeg elevationDeg) := by
  rw [cueing_order_json]
  refine (never_finished _).bind fun azimuth360 _ =>
    (never_finished _).bind fun elevation360 _ => ?_
  by_cases hmove : cueingType = 1
  · rw [if_pos hmove]
    exact Never.ok _
  · rw [if_neg hmove]
    refine (never_finished _).bind fun az _ => (never_finished _).bind fun el _ => ?_
    exact Never.ok _

/-- No handler reads past the end, on a packet of any length. -/
theorem never_handler (k : Kind) (packet : RawPacket) (snapshot : SystemStateSnapshot) :
    Never .outOfRange (handlerOf F k rt packet snapshot []) := by
  cases k with
  | change_configuration =>
      rw [handlerOf, handle_change_configuration_spec]
      exact Never.ok _
  | cueing_order_cancellation =>
      rw [handlerOf, handle_cancellation_spec]
      exact Never.ok _
  | cueing_order =>
      rw [handlerOf, handle_cueing_spec]
      split_ifs
      · -- behind the size check only the angles can fail, and not by a read
        apply Never.map _
        refine (never_cueing_angles _ _ _ _).bind fun angles _ => ?_
        exact (never_cueing_order_json _ _ _ _).bind fun j _ => Never.ok _
      · exact Never.ok _
  | emission_control =>
      rw [handlerOf, handle_emission_control_spec]
      exact Never.ok _

omit [CFloat F] in
theorem never_serialize (m : ConvertedMessage F) : Never .outOfRange (serialize rt m) := by
  rw [serialize]
  cases rt.dump m.payload with
  | none => exact Never.other (by decide)
  | some s => exact Never.ok _

theorem never_convert (input : RawPacket) (snapshot : SystemStateSnapshot) :
    Never .outOfRange (convert rt input snapshot) := by
  rw [convert_eq]
  cases messageKind input.data with
  | none => exact Never.ok _
  | some k =>
      refine (never_handler k input snapshot).bind fun r _ => ?_
      exact (Never.mapM never_serialize).bind fun packets _ => Never.ok _

/-! ## The engine -/

/-- Where the engine's helper reads, the read is in range. -/
theorem engine_read_in_range {data : Bytes} {offset : ℕ} (h : ¬ data.length < offset + 4) :
    Converter.read_u32_be data offset = .ok (Engine.read_u32_be data offset) := by
  rw [Engine.read_u32_be, if_neg h]
  exact read_u32_be_ok (not_lt.mp h)

theorem never_call_ack_builder (builder : Option AckBuilderFunc)
    (action_id source_message_id : UInt32) (send_result : SendResult) :
    Never .outOfRange (call_ack_builder builder action_id source_message_id send_result) := by
  cases builder with
  | none => exact Never.other (by decide)
  | some build => exact Never.ok _

variable {S : Type}

/-- The loop over the packets reads no datagram at all. -/
theorem never_deliver_all (eng : ProxyEngine F S) (builder : Option AckBuilderFunc)
    (source_message_id : UInt32) (packets : List RawPacket) (sender : S)
    (allSendsSucceeded : Bool) :
    Never .outOfRange
      (deliver_all eng builder source_message_id packets sender allSendsSucceeded) := by
  induction packets generalizing sender allSendsSucceeded with
  | nil => exact Never.ok _
  | cons packet packets ih =>
      rw [deliver_all]
      refine (never_call_ack_builder _ _ _ _).bind fun ack _ => ?_
      exact (ih _ _).bind fun rest _ => Never.ok _

theorem never_processPacket (eng : ProxyEngine F S) (nowMs : UInt64) (input : RawPacket)
    (st : EngineState S) : Never .outOfRange (processPacket eng nowMs input st) := by
  rw [processPacket]
  refine (never_convert input _).bind fun result _ => ?_
  split_ifs
  · exact Never.ok _
  · exact (never_call_ack_builder _ _ _ _).bind fun ack _ => Never.ok _
  · exact (never_deliver_all _ _ _ _ _ _).bind fun r _ => Never.ok _

/-- **No read out of range.** On no byte vector does the header parser, a handler,
`convert` or `processPacket` read a byte at or past the end, and the engine's own
helper reads only where there are four bytes. -/
theorem no_read_out_of_range (eng : ProxyEngine F S) :
    (∀ input, parseHeader input ≠ .error .outOfRange) ∧
    (∀ k packet snapshot, handlerOf F k eng.rt packet snapshot [] ≠ .error .outOfRange) ∧
    (∀ input snapshot, convert eng.rt input snapshot ≠ .error .outOfRange) ∧
    (∀ data offset, ¬ data.length < offset + 4 →
      Converter.read_u32_be data offset = .ok (Engine.read_u32_be data offset)) ∧
    ∀ nowMs input st, processPacket eng nowMs input st ≠ .error .outOfRange :=
  ⟨never_parseHeader, never_handler, never_convert, fun _ _ => engine_read_in_range,
    never_processPacket eng⟩

end

end CmsProxy.ReadSafety
