/-
`UdpMulticastReceiver.cpp`: a receive that arms the next one.

Boost.Asio hands a receive to the socket and later calls its handler, with an
error code and a number of bytes, on the thread that runs the io_context. What is
kept of that is how many receives are with the socket: `do_receive` adds one, and
a completion, which takes one away and runs the handler, happens only while there
is one. The socket writes into the one buffer of the receiver before it calls the
handler, so a completion carries what it wrote. What the handler does to the
outside is a list of events.

The loop keeps going exactly until a completion carries an error
(`receiver_listening_iff`): only the branch without an error calls `do_receive`
again.
-/
import CmsProxy.Runs
import CmsProxy.Tcp

set_option autoImplicit false

namespace CmsProxy.Receiver

open BigEndian Interfaces Runs
open Tcp (ErrorCode.failed)

/-! ## The receiver -/

/-- `TransportProtocol`. -/
inductive TransportProtocol where
  | Udp
  | Tcp
  deriving DecidableEq

/-- `PacketSourceInfo`. -/
structure PacketSourceInfo where
  protocol : TransportProtocol := .Udp
  source_ip : Bytes := []
  source_port : UInt16 := 0
  deriving DecidableEq

/-- `udp::endpoint`; the address as `to_string()` gives it. -/
structure Endpoint where
  address : Bytes := []
  port : UInt16 := 0
  deriving DecidableEq

/-- `UdpMulticastReceiver`. Of the callback it is kept whether there is one. -/
structure UdpMulticastReceiver where
  buffer_ : Bytes := List.replicate 4096 0
  sender_endpoint_ : Endpoint := {}
  callback_ : Bool := false
  /-- The receives that are with the socket. -/
  pending : ℕ := 0

/-- What a handler does to the outside. -/
inductive Event where
  | callback (packet : RawPacket) (source_info : PacketSourceInfo)
  /-- `std::cerr << "[UDP Error] "`. -/
  | udp_error (ec : ErrorCode)
  deriving DecidableEq

def UdpMulticastReceiver.set_callback (r : UdpMulticastReceiver) : UdpMulticastReceiver :=
  { r with callback_ := true }

/-- `do_receive`: one more receive is with the socket. -/
def UdpMulticastReceiver.do_receive (r : UdpMulticastReceiver) : UdpMulticastReceiver :=
  { r with pending := r.pending + 1 }

def UdpMulticastReceiver.start (r : UdpMulticastReceiver) : UdpMulticastReceiver := r.do_receive

/-- The completion handler `do_receive` passes to the socket. -/
def UdpMulticastReceiver.on_receive (asio : AsioErrors) (ec : ErrorCode) (bytes_recvd : ℕ)
    (r : UdpMulticastReceiver) : UdpMulticastReceiver × List Event :=
  if ErrorCode.failed ec = false then
    let data := r.buffer_.take bytes_recvd
    let source_info : PacketSourceInfo := {
      protocol := .Udp
      source_ip := r.sender_endpoint_.address
      source_port := r.sender_endpoint_.port }
    (r.do_receive, if r.callback_ then [.callback { data := data } source_info] else [])
  else if ec ≠ { value := asio.operation_aborted, category := .system } then (r, [.udp_error ec])
  else (r, [])

/-! ## Completions -/

/-- The completion of a receive: what the socket wrote into the buffer, from
where it came, and the error code. -/
structure Completion where
  ec : ErrorCode
  received : Bytes
  sender : Endpoint
  fits : received.length ≤ 4096

/-- The completion carries a datagram. -/
def Completion.isDatagram (c : Completion) : Bool := !ErrorCode.failed c.ec

/-- A completion, when a receive is with the socket. -/
def complete (asio : AsioErrors) (c : Completion) (r : UdpMulticastReceiver) :
    Option (UdpMulticastReceiver × List Event) :=
  match r.pending with
  | 0 => none
  | others + 1 =>
      some (UdpMulticastReceiver.on_receive asio c.ec c.received.length
        { r with
          pending := others
          buffer_ := memcpy r.buffer_ 0 c.received
          sender_endpoint_ := c.sender })

/-- One step of the thread that runs the receiver's io_context. -/
def ReceiveStep (asio : AsioErrors) (r : UdpMulticastReceiver) (c : Completion)
    (events : List Event) (r' : UdpMulticastReceiver) : Prop :=
  complete asio c r = some (r', events)

/-! ## What a completion does -/

/-- The callback invocations among the events, with their arguments. -/
def invocation : Event → Option (RawPacket × PacketSourceInfo)
  | .callback packet source_info => some (packet, source_info)
  | .udp_error _ => none

/-- The invocation a completion asks for. -/
def Completion.asksFor (c : Completion) : Option (RawPacket × PacketSourceInfo) :=
  if c.isDatagram then
    some ({ data := c.received },
      { protocol := .Udp, source_ip := c.sender.address, source_port := c.sender.port })
  else none

/-- What the socket wrote is what the handler finds. -/
theorem take_memcpy_zero (buffer received : Bytes) :
    (memcpy buffer 0 received).take received.length = received := by
  rw [memcpy, List.take_zero, List.nil_append, List.take_left]

/-- **Completions.** A completion takes one receive away; one that carries a
datagram arms the next and invokes the callback with its own bytes. -/
theorem complete_cases {asio : AsioErrors} {r r' : UdpMulticastReceiver} {c : Completion}
    {events : List Event} (h : ReceiveStep asio r c events r') :
    0 < r.pending ∧ r'.callback_ = r.callback_ ∧
      r'.pending = (if c.isDatagram then r.pending else r.pending - 1) ∧
      events.filterMap invocation = if r.callback_ then c.asksFor.toList else [] := by
  rw [ReceiveStep, complete] at h
  cases hpending : r.pending with
  | zero =>
      rw [hpending] at h
      exact nomatch h
  | succ others =>
      rw [hpending] at h
      have hstep := Option.some.inj h
      rw [UdpMulticastReceiver.on_receive] at hstep
      refine ⟨Nat.succ_pos others, ?_⟩
      cases hec : ErrorCode.failed c.ec with
      | false =>
          -- the handler calls `do_receive` again
          rw [if_pos hec, take_memcpy_zero] at hstep
          obtain ⟨rfl, rfl⟩ := Prod.mk.inj hstep
          have hdatagram : c.isDatagram = true := by rw [Completion.isDatagram, hec, Bool.not_false]
          rw [if_pos hdatagram, Completion.asksFor, if_pos hdatagram]
          refine ⟨rfl, rfl, ?_⟩
          cases r.callback_ <;> rfl
      | true =>
          -- an error is logged, or not, and that is all
          have hdatagram : c.isDatagram = false := by rw [Completion.isDatagram, hec, Bool.not_true]
          have hnone : c.asksFor = none := if_neg (by rw [hdatagram]; exact Bool.false_ne_true)
          rw [if_neg (by rw [hec]; exact Bool.true_eq_false_eq_False)] at hstep
          rw [hdatagram, hnone]
          have hsilent : r'.callback_ = r.callback_ ∧ r'.pending = others ∧
              events.filterMap invocation = [] := by
            split_ifs at hstep
            · obtain ⟨rfl, rfl⟩ := Prod.mk.inj hstep
              exact ⟨rfl, rfl, rfl⟩
            · obtain ⟨rfl, rfl⟩ := Prod.mk.inj hstep
              exact ⟨rfl, rfl, rfl⟩
          refine ⟨hsilent.1, hsilent.2.1, ?_⟩
          rw [hsilent.2.2, Option.toList_none, ite_self]

/-! ## The loop -/

/-- A completion, and what its handler did. -/
abbrev Entry := Completion × List Event

/-- All invocations of the callback, in their order. -/
def invocations (log : List Entry) : List (RawPacket × PacketSourceInfo) :=
  log.flatMap fun entry => entry.2.filterMap invocation

/-- The invocations the completions ask for, in their order. -/
def askedFor (log : List Entry) : List (RawPacket × PacketSourceInfo) :=
  log.filterMap fun entry => entry.1.asksFor

/-- The receiver listens, and has listened: one receive is with the socket, and
each datagram has been handed to the callback, if there is one. -/
structure Listening (log : List Entry) (r : UdpMulticastReceiver) : Prop where
  pending : r.pending = 1
  invoked : invocations log = if r.callback_ then askedFor log else []

/-- What every run of completions keeps. -/
structure LoopInv (log : List Entry) (r : UdpMulticastReceiver) : Prop where
  invoked : invocations log = if r.callback_ then askedFor log else []
  pending : r.pending = if log.all (·.1.isDatagram) then 1 else 0

theorem loopInv_step {asio : AsioErrors} {log : List Entry} {r r' : UdpMulticastReceiver}
    {c : Completion} {events : List Event} (hinv : LoopInv log r)
    (h : ReceiveStep asio r c events r') : LoopInv (log ++ [(c, events)]) r' := by
  obtain ⟨hpos, hcallback, hpending, hinvocations⟩ := complete_cases h
  constructor
  · rw [invocations, List.flatMap_append, List.flatMap_singleton, hinvocations, askedFor,
      List.filterMap_append, hcallback]
    have hold := hinv.invoked
    rw [invocations, askedFor] at hold
    rw [hold]
    cases r.callback_ with
    | true =>
        simp only [if_true, List.filterMap_cons, List.filterMap_nil]
        cases c.asksFor <;> rfl
    | false => rfl
  · -- a step is only possible while no completion has carried an error
    have hall : log.all (·.1.isDatagram) = true := by
      by_contra hsome
      have hzero := hinv.pending
      rw [if_neg hsome] at hzero
      omega
    have hone := hinv.pending
    rw [if_pos hall] at hone
    rw [hpending, hone, List.all_append, hall, Bool.true_and, List.all_cons, List.all_nil,
      Bool.and_true]

/-- **Listening.** After any completions the receiver still listens, and has
handed on every datagram, if and only if none of them carried an error. -/
theorem receiver_listening_iff (asio : AsioErrors) {r₀ r : UdpMulticastReceiver}
    (h₀ : r₀.pending = 0) {log : List Entry} (h : Run (ReceiveStep asio) r₀.start log r) :
    Listening log r ↔ ∀ entry ∈ log, ErrorCode.failed entry.1.ec = false := by
  have hstart : LoopInv [] r₀.start := by
    constructor
    · rw [invocations, askedFor]
      exact (ite_self _).symm
    · show r₀.pending + 1 = 1
      rw [h₀]
  have hinv : LoopInv log r :=
    h.history LoopInv hstart (fun _ _ _ _ _ hi hs => loopInv_step hi hs)
  have hall : log.all (·.1.isDatagram) = true ↔
      ∀ entry ∈ log, ErrorCode.failed entry.1.ec = false := by
    rw [List.all_eq_true]
    simp only [Completion.isDatagram, Bool.not_eq_true']
  rw [← hall]
  constructor
  · intro hlistening
    by_contra hsome
    have hzero := hinv.pending
    rw [if_neg hsome, hlistening.pending] at hzero
    exact absurd hzero one_ne_zero
  · intro hevery
    have hone := hinv.pending
    rw [if_pos hevery] at hone
    exact ⟨hone, hinv.invoked⟩

/-- A datagram, then the error for one that does not fit (`EMSGSIZE`). -/
def oneDatagram : Completion :=
  { ec := Tcp.ErrorCode.none, received := [1, 2], sender := {}, fits := by decide }

def oversized : Completion :=
  { ec := { value := 90, category := .system }, received := [], sender := {}, fits := by decide }

/-- The receiver of the proxy, constructed and with its callback. -/
def constructed : UdpMulticastReceiver := UdpMulticastReceiver.set_callback {}

theorem receiver_listening_iff_one : ∃ log r, log.length = 1 ∧ Listening log r := by
  obtain ⟨⟨r, events⟩, hstep, -⟩ : ∃ o, complete .posix oneDatagram constructed.start = some o ∧
      True := ⟨_, rfl, trivial⟩
  have hrun : Run (ReceiveStep .posix) constructed.start [(oneDatagram, events)] r :=
    .snoc .nil hstep
  refine ⟨_, r, rfl, (receiver_listening_iff .posix rfl hrun).mpr ?_⟩
  intro entry hentry
  rw [List.mem_singleton.mp hentry]
  rfl

/-- **After an error** that is not `operation_aborted` the receiver no longer
listens, and no completion can follow. -/
theorem receiver_stops_listening : ∃ r events,
    Run (ReceiveStep .posix) constructed.start [(oversized, events)] r ∧
    oversized.ec ≠ { value := AsioErrors.posix.operation_aborted, category := .system } ∧
    r.pending = 0 ∧ ¬ Listening [(oversized, events)] r := by
  refine ⟨_, _, .snoc .nil rfl, by decide, rfl, ?_⟩
  intro hlistening
  exact absurd hlistening.pending (by decide)

end CmsProxy.Receiver
