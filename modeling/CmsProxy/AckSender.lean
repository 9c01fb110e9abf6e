/-
`UdpAckSender.cpp`: where acknowledgements go.

The constructor gives up at four points, each with a line in the log, and leaves a
sender that drops every frame from then on. Otherwise the socket is open and each
frame is one datagram to the one target; an error of `send_to` is logged and
nothing else. What is not in the repository, parsing an address and the answers of
the socket, is an argument (`AckAnswers`) or comes with the call.
-/
import CmsProxy.Engagement
import CmsProxy.Tcp

set_option autoImplicit false

namespace CmsProxy.AckSender

open BigEndian Interfaces Engine
open Engagement (ackFrame)
open Tcp (ErrorCode.failed)

section

variable {A : Type}

/-! ## The sender -/

/-- `udp::endpoint`, over the addresses `A`. -/
structure AckEndpoint (A : Type) where
  address : A
  port : UInt16
  deriving DecidableEq

/-- What the constructor is answered. -/
structure AckAnswers (A : Type) where
  /-- `make_address`, with the address it gives. -/
  make_address : Bytes → ErrorCode × A
  /-- The address of an endpoint that is default-constructed. -/
  unspecified : A
  /-- `ack_socket_.open(udp::v4())`. -/
  opened : ErrorCode

/-- `UdpAckSender`. -/
structure UdpAckSender (A : Type) where
  ack_target_endpoint_ : AckEndpoint A
  ack_socket_ready_ : Bool := false

/-- What the sender does to the outside: datagrams, and lines in the log. -/
inductive AckEvent (A : Type) where
  /-- `send_to(data, target)` gave `ec`. -/
  | send_to (data : Bytes) (target : AckEndpoint A) (ec : ErrorCode)
  | not_configured
  | invalid_address (ip : Bytes) (ec : ErrorCode)
  | open_failed (ec : ErrorCode)
  | ready (target : AckEndpoint A)
  | not_ready
  | send_failed (ec : ErrorCode)

/-- The constructor. -/
def construct (answers : AckAnswers A) (ack_target_ip : Bytes) (ack_target_port : UInt16) :
    UdpAckSender A × List (AckEvent A) :=
  let s : UdpAckSender A := { ack_target_endpoint_ := ⟨answers.unspecified, 0⟩ }
  if ack_target_ip.isEmpty || ack_target_port == 0 then (s, [.not_configured])
  else
    let (ec, target_address) := answers.make_address ack_target_ip
    if ErrorCode.failed ec then (s, [.invalid_address ack_target_ip ec])
    else
      let s := { s with ack_target_endpoint_ := ⟨target_address, ack_target_port⟩ }
      if ErrorCode.failed answers.opened then (s, [.open_failed answers.opened])
      else ({ s with ack_socket_ready_ := true }, [.ready s.ack_target_endpoint_])

/-- `send_ack`; `ec` is what `send_to` answers. -/
def UdpAckSender.send_ack (ack_packet : RawPacket) (ec : ErrorCode) (s : UdpAckSender A) :
    List (AckEvent A) :=
  if !s.ack_socket_ready_ then [.not_ready]
  else
    .send_to ack_packet.data s.ack_target_endpoint_ ec ::
      (if ErrorCode.failed ec then [.send_failed ec] else [])

/-! ## Ready, or not -/

/-- The target of a construction, and the answers under which there is one. -/
def Targets (answers : AckAnswers A) (ip : Bytes) (port : UInt16) (target : AckEndpoint A) : Prop :=
  ip ≠ [] ∧ port ≠ 0 ∧ ErrorCode.failed (answers.make_address ip).1 = false ∧
    ErrorCode.failed answers.opened = false ∧ target = ⟨(answers.make_address ip).2, port⟩

/-- **Ready.** The socket is ready exactly if the target is given, its address is
one, and the socket could be opened; it is then aimed at this target. -/
theorem construct_ready_iff (answers : AckAnswers A) (ip : Bytes) (port : UInt16)
    (target : AckEndpoint A) :
    ((construct answers ip port).1.ack_socket_ready_ = true ∧
      (construct answers ip port).1.ack_target_endpoint_ = target) ↔
        Targets answers ip port target := by
  rw [construct, Targets]
  by_cases hgiven : (ip.isEmpty || port == 0) = true
  · rw [if_pos hgiven]
    rw [Bool.or_eq_true, List.isEmpty_iff, beq_iff_eq] at hgiven
    constructor
    · exact fun h => nomatch h.1
    · rintro ⟨hip, hport, -⟩
      exact absurd hgiven (not_or.mpr ⟨hip, hport⟩)
  · rw [if_neg hgiven]
    rw [Bool.or_eq_true, List.isEmpty_iff, beq_iff_eq, not_or] at hgiven
    cases haddress : ErrorCode.failed (answers.make_address ip).1 with
    | true =>
        simp only [haddress, if_true]
        constructor
        · exact fun h => nomatch h.1
        · rintro ⟨-, -, hok, -⟩
          exact nomatch hok
    | false =>
        simp only [haddress, Bool.false_eq_true, if_false]
        cases hopened : ErrorCode.failed answers.opened with
        | true =>
            simp only [if_true]
            constructor
            · exact fun h => nomatch h.1
            · rintro ⟨-, -, -, hok, -⟩
              exact nomatch hok
        | false =>
            simp only [Bool.false_eq_true, if_false, true_and]
            constructor
            · exact fun h => ⟨hgiven.1, hgiven.2, h.symm⟩
            · exact fun h => h.2.2.symm

/-- The datagram handed to `send_to`, with its target. -/
def datagramOf : AckEvent A → Option (Bytes × AckEndpoint A)
  | .send_to data target _ => some (data, target)
  | _ => none

/-- What is handed to the socket for a frame: a datagram with its bytes, or nothing. -/
theorem datagrams_send_ack (s : UdpAckSender A) (frame : RawPacket) (ec : ErrorCode) :
    (s.send_ack frame ec).filterMap datagramOf =
      if s.ack_socket_ready_ then [(frame.data, s.ack_target_endpoint_)] else [] := by
  rw [UdpAckSender.send_ack]
  cases s.ack_socket_ready_ with
  | true =>
      -- an error of `send_to` is only logged
      cases hfailed : ErrorCode.failed ec <;> rfl
  | false => rfl

/-! ## The effects of the engine -/

/-- What the sender does with the acknowledgements among the effects. `network`
answers the calls of `send_to`, of which there have been `k`. -/
def acknowledge (s : UdpAckSender A) (network : ℕ → ErrorCode) :
    ℕ → List Effect → List (AckEvent A)
  | _, [] => []
  | k, .ack frame :: effects =>
      s.send_ack frame (network k) ++ acknowledge s network (k + 1) effects
  | k, .send _ _ _ _ :: effects => acknowledge s network k effects

/-- **Acknowledgements.** A sender that is ready hands every acknowledgement to the
socket as one datagram with the bytes of its frame, in their order and for one target,
whatever the network answers; one that is not ready hands nothing on. -/
theorem datagrams_acknowledge (s : UdpAckSender A) (network : ℕ → ErrorCode) (k : ℕ)
    (effects : List Effect) :
    (acknowledge s network k effects).filterMap datagramOf =
      if s.ack_socket_ready_ then
        (effects.filterMap ackFrame).map fun frame => (frame.data, s.ack_target_endpoint_)
      else [] := by
  induction effects generalizing k with
  | nil => exact (ite_self _).symm
  | cons e effects ih =>
      cases e with
      | send packet host port result =>
          rw [acknowledge, ih]
          rfl
      | ack frame =>
          rw [acknowledge, List.filterMap_append, datagrams_send_ack, ih, List.filterMap_cons]
          cases s.ack_socket_ready_ <;> rfl

end

end CmsProxy.AckSender
