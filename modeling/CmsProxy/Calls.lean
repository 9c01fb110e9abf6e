/-
What a call of `send` can do.

`send` has four ways to end, listed by `Sends`; the ways to an endpoint are
listed by `Resolution`, the ways to a connection by `Reached`. The three lists
say of each way what the sender is afterwards and what was done to the network,
and `send_sends` says that they are complete. Nothing after this file unfolds a
member function of the sender.
-/
import CmsProxy.Tcp

set_option autoImplicit false

namespace CmsProxy.Calls

open BigEndian Interfaces JsonValue Decimal Tcp

section

variable {E : Type}

/-! ## What a call can do -/

/-- One call of `send`, with what the network answers to it. -/
structure Call (E : Type) where
  packet : RawPacket
  target_host : Bytes
  target_port : UInt16
  answers : Answers E

/-- A call, its result, and what it did to the network. -/
abbrev Entry (E : Type) := Call E × (SendResult × List (NetEvent E))

/-- The ways `resolve_target_endpoint` can end. -/
inductive Resolution (s : TcpSender E) (host : Bytes) (port : UInt16)
    (answer : ErrorCode × List E) :
    SendResult → Option E → TcpSender E → List (NetEvent E) → Prop
  | cached {e : E} : s.endpoint_cache_.lookup (cacheKey host port) = some e →
      Resolution s host port answer { success := true } (some e) s []
  | failed {result : SendResult} : result.success = false →
      (ErrorCode.failed answer.1 = true ∨ answer.2 = []) →
      Resolution s host port answer result none s
        [.resolve host (decimal port.toNat) answer.1 answer.2]
  | resolved {e : E} {rest : List E} : ErrorCode.failed answer.1 = false → answer.2 = e :: rest →
      Resolution s host port answer { success := true } (some e)
        { s with endpoint_cache_ := (cacheKey host port, e) :: s.endpoint_cache_ }
        [.resolve host (decimal port.toNat) answer.1 (e :: rest)]

theorem make_send_result_failed {message : ErrorCode → Bytes} {ec : ErrorCode}
    (h : ErrorCode.failed ec = true) : (make_send_result_from_ec message ec).success = false := by
  rw [make_send_result_from_ec, h]
  rfl

theorem resolve_resolution (message : ErrorCode → Bytes) (host : Bytes) (port : UInt16)
    (answer : ErrorCode × List E) (s : TcpSender E) :
    ∃ result target s' events,
      s.resolve_target_endpoint message host port answer = ((result, target), s', events) ∧
      Resolution s host port answer result target s' events := by
  obtain ⟨ec, results⟩ := answer
  rw [TcpSender.resolve_target_endpoint]
  simp only
  -- a hit never asks the resolver
  cases hlookup : s.endpoint_cache_.lookup (cacheKey host port) with
  | some e => exact ⟨_, _, _, _, rfl, .cached hlookup⟩
  | none =>
      by_cases hfailed : ErrorCode.failed ec = true
      · simp only [hfailed, if_true]
        exact ⟨_, _, _, _, rfl, .failed (make_send_result_failed hfailed) (Or.inl hfailed)⟩
      · have hok := Bool.eq_false_iff.mpr hfailed
        simp only [hok, Bool.false_eq_true, if_false]
        cases results with
        -- a resolver without an error can still have no endpoint
        | nil => exact ⟨_, _, _, _, rfl, .failed rfl (Or.inr rfl)⟩
        | cons e rest => exact ⟨_, _, _, _, rfl, .resolved hok rfl⟩

theorem connectSocket_failed {s : TcpSender E} {e : E} {ec : ErrorCode}
    (h : ErrorCode.failed ec = true) :
    s.connectSocket e ec = { s with socket_ := .unconnected } := if_pos h

theorem connectSocket_ok {s : TcpSender E} {e : E} {ec : ErrorCode}
    (h : ErrorCode.failed ec = false) :
    s.connectSocket e ec =
      { s with socket_ := .connected s.connections e, connections := s.connections + 1 } :=
  if_neg (Bool.eq_false_iff.mp h)

/-- The ways to a connection to the target: the one there is, or a new one. -/
inductive Reached (s : TcpSender E) (target : E) (ec : ErrorCode) :
    ℕ → TcpSender E → List (NetEvent E) → Prop
  | kept {c : ℕ} : s.socket_ = .connected c target → Reached s target ec c s []
  | renewed {closing : List (NetEvent E)} : closing = [] ∨ closing = [.close] →
      ErrorCode.failed ec = false →
      Reached s target ec s.connections
        { s with socket_ := .connected s.connections target, connections := s.connections + 1 }
        (closing ++ [.connect .closed target ec])

/-- The ways a call can end. -/
inductive Sends (s : TcpSender E) (call : Call E) :
    SendResult → TcpSender E → List (NetEvent E) → Prop
  /-- There is no endpoint. -/
  | unresolved {result : SendResult} {s' : TcpSender E} {events : List (NetEvent E)} :
      Resolution s call.target_host call.target_port call.answers.resolve result none s' events →
      result.success = false → Sends s call result s' events
  /-- There is no connection. -/
  | unreached {result resolved : SendResult} {target : E} {s₁ : TcpSender E}
      {resolving closing : List (NetEvent E)} :
      Resolution s call.target_host call.target_port call.answers.resolve resolved (some target)
        s₁ resolving →
      closing = [] ∨ closing = [.close] → ErrorCode.failed call.answers.connect = true →
      result.success = false →
      Sends s call result { s₁ with socket_ := .unconnected }
        (resolving ++ (closing ++ [.connect .closed target call.answers.connect]))
  /-- The whole packet is written. -/
  | whole {resolved : SendResult} {target : E} {s₁ s₂ : TcpSender E} {c : ℕ}
      {resolving reaching : List (NetEvent E)} :
      Resolution s call.target_host call.target_port call.answers.resolve resolved (some target)
        s₁ resolving →
      Reached s₁ target call.answers.connect c s₂ reaching →
      Sends s call { success := true } s₂
        (resolving ++ (reaching ++ [.write (.connected c target) call.packet.data]))
  /-- The stream breaks within the packet, and the socket is closed. -/
  | cut {result resolved : SendResult} {target : E} {s₁ s₂ : TcpSender E} {c n : ℕ}
      {ec : ErrorCode} {resolving reaching : List (NetEvent E)} :
      Resolution s call.target_host call.target_port call.answers.resolve resolved (some target)
        s₁ resolving →
      Reached s₁ target call.answers.connect c s₂ reaching →
      call.answers.write = .breaksAfter n ec → ErrorCode.failed ec = true →
      n < call.packet.data.length → result.success = false →
      Sends s call result s₂.close
        (resolving ++ (reaching ++
          [.write (.connected c target) (call.packet.data.take n), .close]))

/-! ## The list is complete -/

/-- A write puts the whole packet on the stream, or fails within it. -/
theorem write_cases (packet : Bytes) (answer : WriteAnswer) :
    (∃ ec, write packet answer = (ec, packet) ∧ ErrorCode.failed ec = false) ∨
      ∃ n ec, answer = .breaksAfter n ec ∧ write packet answer = (ec, packet.take n) ∧
        n < packet.length ∧ ErrorCode.failed ec = true := by
  cases answer with
  | complete => exact Or.inl ⟨_, rfl, rfl⟩
  | breaksAfter n ec =>
      rw [write]
      -- an error after the last byte is no error: the write has returned before
      by_cases h : n < packet.length ∧ ErrorCode.failed ec = true
      · exact Or.inr ⟨n, ec, rfl, if_pos h, h⟩
      · exact Or.inl ⟨_, if_neg h, rfl⟩

/-- Step 4 of `send` by itself, after what has been done `before`. -/
def transmit (message : ErrorCode → Bytes) (packet : Bytes) (answer : WriteAnswer)
    (s : TcpSender E) (before : List (NetEvent E)) : Outcome SendResult E :=
  let (ec, written) := write packet answer
  let events := before ++ [.write s.socket_ written]
  if ErrorCode.failed ec then (make_send_result_from_ec message ec, s.close, events ++ [.close])
  else ({ success := true }, s, events)

section

variable {message : ErrorCode → Bytes} {packet : Bytes} {target : E} {answers : Answers E}
variable {s : TcpSender E}

theorem deliver_kept : s.deliver message packet target false answers =
    transmit message packet answers.write s [] := by
  rw [TcpSender.deliver, transmit]
  rfl

theorem deliver_connected (h : ErrorCode.failed answers.connect = false) :
    s.deliver message packet target true answers =
      transmit message packet answers.write (s.connectSocket target answers.connect)
        [.connect s.socket_ target answers.connect] := by
  rw [TcpSender.deliver, transmit]
  simp only [if_true, h, Bool.false_eq_true, if_false]

theorem deliver_unconnected (h : ErrorCode.failed answers.connect = true) :
    s.deliver message packet target true answers =
      (make_send_result_from_ec message answers.connect,
        s.connectSocket target answers.connect,
        [.connect s.socket_ target answers.connect]) := by
  rw [TcpSender.deliver]
  simp only [if_true, h]

end

theorem Reached.socket {s s' : TcpSender E} {target : E} {ec : ErrorCode} {c : ℕ}
    {events : List (NetEvent E)} (h : Reached s target ec c s' events) :
    s'.socket_ = .connected c target := by
  cases h with
  | kept hsocket => exact hsocket
  | renewed _ _ => rfl

/-- On a connected socket the call ends with a write. -/
theorem transmit_sends (message : ErrorCode → Bytes) {s s₁ s₂ : TcpSender E} {call : Call E}
    {resolved : SendResult} {target : E} {c : ℕ} {resolving closing before : List (NetEvent E)}
    (hresolution : Resolution s call.target_host call.target_port call.answers.resolve resolved
      (some target) s₁ resolving)
    (hreached : Reached s₁ target call.answers.connect c s₂ (closing ++ before)) :
    ∃ result s₃ events,
      transmit message call.packet.data call.answers.write s₂ before = (result, s₃, events) ∧
      Sends s call result s₃ (resolving ++ (closing ++ events)) := by
  rw [transmit]
  rcases write_cases call.packet.data call.answers.write with
    ⟨ec, hwrite, hok⟩ | ⟨n, ec, hanswer, hwrite, hn, hfailed⟩
  · simp only [hwrite, hok, Bool.false_eq_true, if_false, hreached.socket]
    refine ⟨_, _, _, rfl, ?_⟩
    rw [← List.append_assoc closing]
    exact .whole hresolution hreached
  · simp only [hwrite, hfailed, if_true, hreached.socket]
    refine ⟨_, _, _, rfl, ?_⟩
    -- the socket is closed after the bytes that still went out
    rw [List.append_assoc before, ← List.append_assoc closing]
    exact .cut hresolution hreached hanswer hfailed hn (make_send_result_failed hfailed)

end

section

variable {E : Type} [DecidableEq E]

/-- After the check the socket is connected to the target, or closed. -/
theorem check_connection_cases (target : E) (remote_endpoint : ErrorCode) (s : TcpSender E) :
    (s.check_connection target remote_endpoint = (false, s, []) ∧
        ErrorCode.failed remote_endpoint = false ∧ ∃ c, s.socket_ = .connected c target) ∨
      ∃ closing, s.check_connection target remote_endpoint = (true, s.close, closing) ∧
        (closing = [] ∨ closing = [.close]) := by
  rw [TcpSender.check_connection]
  cases hsocket : s.socket_ with
  | closed =>
      -- `close` changes nothing here, and is not called
      have hclose : s = s.close := by rw [TcpSender.close, ← hsocket]
      exact Or.inr ⟨[], by simp only [← hclose], Or.inl rfl⟩
  | unconnected => exact Or.inr ⟨[.close], rfl, Or.inr rfl⟩
  | connected c current =>
      simp only
      cases hreset : ErrorCode.failed remote_endpoint with
      | true => exact Or.inr ⟨[.close], if_pos rfl, Or.inr rfl⟩
      | false =>
          rw [if_neg Bool.false_ne_true]
          by_cases hne : current = target
          · subst hne
            exact Or.inl ⟨if_neg (not_not_intro rfl), rfl, c, rfl⟩
          · exact Or.inr ⟨[.close], if_pos hne, Or.inr rfl⟩

/-- One call as a step: the result and what was done to the network come out. -/
def SendStep (message : ErrorCode → Bytes) (s : TcpSender E) (call : Call E)
    (o : SendResult × List (NetEvent E)) (s' : TcpSender E) : Prop :=
  s.send message call.packet call.target_host call.target_port call.answers = (o.1, s', o.2)

/-- **Calls.** A call ends in one of the listed ways. -/
theorem send_sends (message : ErrorCode → Bytes) (s : TcpSender E) (call : Call E) :
    ∃ result s' events,
      s.send message call.packet call.target_host call.target_port call.answers
        = (result, s', events) ∧ Sends s call result s' events := by
  obtain ⟨resolved, target, s₁, resolving, hresolve, hresolution⟩ :=
    resolve_resolution message call.target_host call.target_port call.answers.resolve s
  rw [TcpSender.send, hresolve]
  cases target with
  | none =>
      refine ⟨_, _, _, rfl, .unresolved hresolution ?_⟩
      cases hresolution with
      | failed hresult _ => exact hresult
  | some target =>
      simp only
      rcases check_connection_cases target call.answers.remote_endpoint s₁ with
        ⟨hcheck, -, c, hsocket⟩ | ⟨closing, hcheck, hclosing⟩
      · -- the socket is connected to the target already
        obtain ⟨result, s₃, events, htransmit, hsends⟩ :=
          @transmit_sends E message s s₁ s₁ call resolved target c resolving [] []
            hresolution (.kept hsocket)
        rw [hcheck]
        simp only [deliver_kept, htransmit]
        exact ⟨_, _, _, rfl, by rwa [List.append_nil]⟩
      · rw [hcheck]
        cases hconnect : ErrorCode.failed call.answers.connect with
        | true =>
            -- a connection that fails leaves the socket open
            have hstate : s₁.close.connectSocket target call.answers.connect =
                { s₁ with socket_ := .unconnected } := connectSocket_failed hconnect
            simp only [deliver_unconnected hconnect, hstate, List.append_assoc]
            exact ⟨_, _, _, rfl, .unreached hresolution hclosing hconnect
              (make_send_result_failed hconnect)⟩
        | false =>
            have hstate : s₁.close.connectSocket target call.answers.connect =
                { s₁ with
                  socket_ := .connected s₁.connections target
                  connections := s₁.connections + 1 } := connectSocket_ok hconnect
            obtain ⟨result, s₃, events, htransmit, hsends⟩ :=
              transmit_sends message hresolution (.renewed hclosing hconnect)
            have hclosed : s₁.close.socket_ = .closed := rfl
            simp only [deliver_connected hconnect, hstate, hclosed, htransmit, List.append_assoc]
            exact ⟨_, _, _, rfl, hsends⟩

theorem sends_of_step {message : ErrorCode → Bytes} {s s' : TcpSender E} {call : Call E}
    {o : SendResult × List (NetEvent E)} (h : SendStep message s call o s') :
    Sends s call o.1 s' o.2 := by
  obtain ⟨result, s'', events, hsend, hsends⟩ := send_sends message s call
  obtain ⟨hresult, hrest⟩ := Prod.mk.inj (hsend.symm.trans h)
  obtain ⟨hstate, hevents⟩ := Prod.mk.inj hrest
  rwa [hresult, hstate, hevents] at hsends

end

section

variable {E : Type}

/-! ## What a call writes -/

/-- A write: the socket it is on, and the bytes. -/
def written : NetEvent E → Option (Socket E × Bytes)
  | .write on bytes => some (on, bytes)
  | .resolve _ _ _ _ => none
  | .connect _ _ _ => none
  | .close => none

/-- The writes among the events. -/
def writes (events : List (NetEvent E)) : List (Socket E × Bytes) := events.filterMap written

theorem mem_writes {events : List (NetEvent E)} {on : Socket E} {bytes : Bytes}
    (h : .write on bytes ∈ events) : (on, bytes) ∈ writes events :=
  List.mem_filterMap.mpr ⟨_, h, rfl⟩

theorem writes_append (events events' : List (NetEvent E)) :
    writes (events ++ events') = writes events ++ writes events' := List.filterMap_append

theorem Resolution.writes {s s' : TcpSender E} {host : Bytes} {port : UInt16}
    {answer : ErrorCode × List E} {result : SendResult} {target : Option E}
    {resolving : List (NetEvent E)}
    (h : Resolution s host port answer result target s' resolving) : writes resolving = [] := by
  cases h <;> rfl

theorem Reached.writes {s s' : TcpSender E} {target : E} {ec : ErrorCode} {c : ℕ}
    {reaching : List (NetEvent E)} (h : Reached s target ec c s' reaching) :
    writes reaching = [] := by
  cases h with
  | kept _ => rfl
  | renewed hclosing _ =>
      rcases hclosing with rfl | rfl <;> rfl

/-- Nothing is written on the way to a connection. -/
theorem writes_after {s s₁ s₂ : TcpSender E} {host : Bytes} {port : UInt16}
    {answer : ErrorCode × List E} {result : SendResult} {target : E} {ec : ErrorCode} {c : ℕ}
    {resolving reaching : List (NetEvent E)}
    (hresolution : Resolution s host port answer result (some target) s₁ resolving)
    (hreached : Reached s₁ target ec c s₂ reaching) (events : List (NetEvent E)) :
    writes (resolving ++ (reaching ++ events)) = writes events := by
  rw [writes_append, writes_append, hresolution.writes, hreached.writes]
  rfl

/-- Nothing is written when the connection fails. -/
theorem writes_unreached {s s₁ : TcpSender E} {host : Bytes} {port : UInt16}
    {answer : ErrorCode × List E} {result : SendResult} {target : E} {ec : ErrorCode}
    {resolving closing : List (NetEvent E)}
    (hresolution : Resolution s host port answer result (some target) s₁ resolving)
    (hclosing : closing = [] ∨ closing = [.close]) :
    writes (resolving ++ (closing ++ [.connect .closed target ec])) = [] := by
  rw [writes_append, hresolution.writes]
  rcases hclosing with rfl | rfl <;> rfl

/-- What a call writes, against its result: nothing, or the whole packet, or part
of it, on one connection. -/
inductive OneWrite (packet : Bytes) (result : SendResult) (events : List (NetEvent E)) : Prop
  | nothing : writes events = [] → result.success = false → OneWrite packet result events
  | whole (c : ℕ) (e : E) : writes events = [(.connected c e, packet)] → result.success = true →
      OneWrite packet result events
  | part (c : ℕ) (e : E) (n : ℕ) : n < packet.length →
      writes events = [(.connected c e, packet.take n)] → result.success = false →
      OneWrite packet result events

theorem Sends.oneWrite {s s' : TcpSender E} {call : Call E} {result : SendResult}
    {events : List (NetEvent E)} (h : Sends s call result s' events) :
    OneWrite call.packet.data result events := by
  cases h with
  | unresolved hresolution hresult => exact .nothing hresolution.writes hresult
  | unreached hresolution hclosing _ hresult =>
      exact .nothing (writes_unreached hresolution hclosing) hresult
  | @whole _ target _ _ c _ _ hresolution hreached =>
      exact .whole c target (writes_after hresolution hreached _) rfl
  | @cut _ _ target _ _ c n _ _ _ hresolution hreached _ _ hn hresult =>
      exact .part c target n hn (writes_after hresolution hreached _) hresult

/-! ## The constructor -/

/-- The constructor resolves its host, and connects to what it gets. -/
theorem construct_cases (message : ErrorCode → Bytes) (host : Bytes) (port : ℤ)
    (answers : Answers E) :
    ∃ resolved target s resolving,
      Resolution { host_ := host, port_ := port } host (UInt16.ofInt port) answers.resolve
        resolved target s resolving ∧
      ((target = none ∧ construct message host port answers = (s, resolving)) ∨
        ∃ e, target = some e ∧ construct message host port answers =
          ({ s with endpoint_ := some e }.connectSocket e answers.connect,
            resolving ++ [.connect .closed e answers.connect])) := by
  obtain ⟨resolved, target, s, resolving, hresolve, hresolution⟩ :=
    resolve_resolution message host (UInt16.ofInt port) answers.resolve
      ({ host_ := host, port_ := port } : TcpSender E)
  refine ⟨resolved, target, s, resolving, hresolution, ?_⟩
  -- the socket has not been opened yet, so `connect` does not close it
  have hsocket : s.socket_ = .closed := by cases hresolution <;> rfl
  rw [construct, hresolve]
  cases target with
  | none => exact Or.inl ⟨rfl, rfl⟩
  | some e =>
      refine Or.inr ⟨e, rfl, ?_⟩
      simp only [TcpSender.connect, hsocket]

end

end CmsProxy.Calls
