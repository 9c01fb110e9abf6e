/-
What the connections carry.

Each connection carries the packets of successful calls, and after a packet that
was cut off nothing more (`stream_integrity`). The invariant behind it is
`Streams`: a failed write closes the socket, so the connection the sender still
has is one with whole packets only. A failure leaves nothing else behind: the
next call succeeds unless one of its own operations fails.
-/
import CmsProxy.Destinations

set_option autoImplicit false

namespace CmsProxy.Stream

open BigEndian Interfaces JsonValue Tcp Calls Destinations Runs

section

variable {E : Type}

/-! ## What a connection carries -/

/-- The bytes a write puts on the `c`-th connection. -/
def onConnection (c : ℕ) : Socket E × Bytes → Option Bytes
  | (.connected c' _, bytes) => if c' = c then some bytes else none
  | (.closed, _) => none
  | (.unconnected, _) => none

/-- What the events put on it, write by write. -/
def writesOn (c : ℕ) (events : List (NetEvent E)) : List Bytes :=
  (writes events).filterMap (onConnection c)

/-- What the calls have put on it. -/
def bytesOn (c : ℕ) (log : List (Entry E)) : Bytes :=
  (log.flatMap fun entry => writesOn c entry.2.2).flatten

/-- The calls that wrote on it, in their order. -/
def writers (c : ℕ) (log : List (Entry E)) : List (Entry E) :=
  log.filter fun entry => !(writesOn c entry.2.2).isEmpty

/-- The call succeeded, and put its packet on the connection. -/
structure WholeOn (c : ℕ) (entry : Entry E) : Prop where
  success : entry.2.1.success = true
  bytes : writesOn c entry.2.2 = [entry.1.packet.data]

/-- The call failed, and put part of its packet on the connection. -/
structure CutOn (c : ℕ) (entry : Entry E) : Prop where
  success : entry.2.1.success = false
  bytes : ∃ n < entry.1.packet.data.length,
    writesOn c entry.2.2 = [entry.1.packet.data.take n]

/-- Whole packets, and then at most one that was cut off. -/
def IsStream (c : ℕ) (ws : List (Entry E)) : Prop :=
  ∃ sent cut, ws = sent ++ cut ∧ (∀ w ∈ sent, WholeOn c w) ∧ cut.length ≤ 1 ∧ ∀ w ∈ cut, CutOn c w

theorem writers_snoc_of_nil {c : ℕ} {log : List (Entry E)} {entry : Entry E}
    (h : writesOn c entry.2.2 = []) : writers c (log ++ [entry]) = writers c log := by
  rw [writers, List.filter_append, List.filter_singleton, h, writers]
  exact List.append_nil _

theorem writers_snoc_of_cons {c : ℕ} {log : List (Entry E)} {entry : Entry E} {bytes : Bytes}
    (h : writesOn c entry.2.2 = [bytes]) :
    writers c (log ++ [entry]) = writers c log ++ [entry] := by
  rw [writers, List.filter_append, List.filter_singleton, h, writers]
  rfl

/-- What a call changes for the connections: nothing is written, or something on
one connection, which is the current one or new. -/
inductive Transition (s s' : TcpSender E) (entry : Entry E) : Prop
  | silent : (∀ c, writesOn c entry.2.2 = []) → s'.connections = s.connections →
      s'.socket_ = s.socket_ ∨ s'.socket_ = .unconnected → Transition s s' entry
  | wrote (c : ℕ) (target : E) :
      (s.socket_ = .connected c target ∧ s'.connections = s.connections) ∨
        (c = s.connections ∧ s'.connections = s.connections + 1) →
      (∀ c' ≠ c, writesOn c' entry.2.2 = []) →
      (WholeOn c entry ∧ s'.socket_ = .connected c target) ∨
        (CutOn c entry ∧ s'.socket_ = .closed) →
      Transition s s' entry

theorem frame_resolution {s s' : TcpSender E} {host : Bytes} {port : UInt16}
    {answer : ErrorCode × List E} {result : SendResult} {target : Option E}
    {resolving : List (NetEvent E)}
    (h : Resolution s host port answer result target s' resolving) :
    s'.socket_ = s.socket_ ∧ s'.connections = s.connections := by
  cases h <;> exact ⟨rfl, rfl⟩

theorem connection_reached {s s' : TcpSender E} {target : E} {ec : ErrorCode} {c : ℕ}
    {reaching : List (NetEvent E)} (h : Reached s target ec c s' reaching) :
    (s.socket_ = .connected c target ∧ s'.connections = s.connections) ∨
      (c = s.connections ∧ s'.connections = s.connections + 1) := by
  cases h with
  | kept hsocket => exact Or.inl ⟨hsocket, rfl⟩
  | renewed _ _ => exact Or.inr ⟨rfl, rfl⟩

/-- A write on one connection is on no other. -/
theorem writesOn_single {c : ℕ} {target : E} {bytes : Bytes} {events : List (NetEvent E)}
    (h : writes events = [(.connected c target, bytes)]) :
    writesOn c events = [bytes] ∧ ∀ c' ≠ c, writesOn c' events = [] := by
  refine ⟨?_, fun c' hne => ?_⟩
  · rw [writesOn, h, List.filterMap_cons, onConnection, if_pos rfl]
    rfl
  · rw [writesOn, h, List.filterMap_cons, onConnection, if_neg (Ne.symm hne)]
    rfl

theorem transition_sends {s s' : TcpSender E} {call : Call E} {result : SendResult}
    {events : List (NetEvent E)} (h : Sends s call result s' events) :
    Transition s s' (call, (result, events)) := by
  cases h with
  | unresolved hresolution _ =>
      obtain ⟨hsocket, hconnections⟩ := frame_resolution hresolution
      -- the socket is as it was
      refine .silent (fun c => ?_) hconnections (Or.inl hsocket)
      rw [writesOn, hresolution.writes]
      rfl
  | unreached hresolution hclosing _ _ =>
      -- a socket that failed to connect carries nothing
      refine .silent (fun c => ?_) (frame_resolution hresolution).2 (Or.inr rfl)
      rw [writesOn, writes_unreached hresolution hclosing]
      rfl
  | @whole _ target _ _ c _ _ hresolution hreached =>
      obtain ⟨hsocket, hconnections⟩ := frame_resolution hresolution
      have hconnection := connection_reached hreached
      rw [hsocket, hconnections] at hconnection
      obtain ⟨hon, hother⟩ := writesOn_single
        (writes_after hresolution hreached [.write (.connected c target) call.packet.data])
      exact .wrote c target hconnection hother (Or.inl ⟨⟨rfl, hon⟩, hreached.socket⟩)
  | @cut _ _ target _ _ c n _ _ _ hresolution hreached _ _ hn hresult =>
      obtain ⟨hsocket, hconnections⟩ := frame_resolution hresolution
      have hconnection := connection_reached hreached
      rw [hsocket, hconnections] at hconnection
      obtain ⟨hon, hother⟩ := writesOn_single (writes_after hresolution hreached
        [.write (.connected c target) (call.packet.data.take n), .close])
      exact .wrote c target hconnection hother (Or.inr ⟨⟨hresult, n, hn, hon⟩, rfl⟩)

/-! ## The invariant of the streams -/

/-- Every connection carries a stream; the current one has nothing cut off in it,
and those to come are empty. -/
structure Streams (log : List (Entry E)) (s : TcpSender E) : Prop where
  stream : ∀ c, IsStream c (writers c log)
  current : ∀ c e, s.socket_ = .connected c e →
    c < s.connections ∧ ∀ w ∈ writers c log, WholeOn c w
  fresh : ∀ c, s.connections ≤ c → writers c log = []

/-- Whole packets are a stream. -/
theorem IsStream.of_whole {c : ℕ} {ws : List (Entry E)} (h : ∀ w ∈ ws, WholeOn c w) :
    IsStream c ws :=
  ⟨ws, [], (List.append_nil _).symm, h, Nat.zero_le _, fun _ hw => absurd hw List.not_mem_nil⟩

/-- A call that writes nothing changes no stream. -/
theorem Streams.silent {log : List (Entry E)} {s s' : TcpSender E} {entry : Entry E}
    (h : Streams log s) (hwrites : ∀ c, writesOn c entry.2.2 = [])
    (hconnections : s'.connections = s.connections)
    (hsocket : s'.socket_ = s.socket_ ∨ s'.socket_ = .unconnected) :
    Streams (log ++ [entry]) s' := by
  have hsame : ∀ c, writers c (log ++ [entry]) = writers c log :=
    fun c => writers_snoc_of_nil (hwrites c)
  refine ⟨fun c => hsame c ▸ h.stream c, fun c e hc => ?_, fun c hc => ?_⟩
  · rw [hsame, hconnections]
    -- the socket is kept, or it is not connected any more
    rcases hsocket with hsocket | hsocket
    · exact h.current c e (hsocket ▸ hc)
    · exact nomatch hsocket.symm.trans hc
  · rw [hsame]
    exact h.fresh c (hconnections ▸ hc)

/-- A call that writes on the current connection, or on a new one, extends its
stream, and keeps it only if the packet was not cut off. -/
theorem Streams.wrote {log : List (Entry E)} {s s' : TcpSender E} {entry : Entry E} {c : ℕ}
    {target : E} (h : Streams log s)
    (hconnection : (s.socket_ = .connected c target ∧ s'.connections = s.connections) ∨
      (c = s.connections ∧ s'.connections = s.connections + 1))
    (hother : ∀ c' ≠ c, writesOn c' entry.2.2 = [])
    (hresult : (WholeOn c entry ∧ s'.socket_ = .connected c target) ∨
      (CutOn c entry ∧ s'.socket_ = .closed)) :
    Streams (log ++ [entry]) s' := by
  -- up to now the connection has carried whole packets only, and it is not one to come
  have hbefore : (∀ w ∈ writers c log, WholeOn c w) ∧ c < s'.connections ∧
      s.connections ≤ s'.connections := by
    rcases hconnection with ⟨hsocket, hconnections⟩ | ⟨rfl, hconnections⟩
    · obtain ⟨hlt, hwhole⟩ := h.current c target hsocket
      exact ⟨hwhole, by omega, by omega⟩
    · rw [h.fresh _ le_rfl]
      exact ⟨fun _ hw => absurd hw List.not_mem_nil, by omega, by omega⟩
  obtain ⟨hwhole, hlt, hle⟩ := hbefore
  have hsame : ∀ c' ≠ c, writers c' (log ++ [entry]) = writers c' log :=
    fun c' hne => writers_snoc_of_nil (hother c' hne)
  -- a connection to come is not the one that was written on
  have hfresh : ∀ c', s'.connections ≤ c' → writers c' (log ++ [entry]) = [] := by
    intro c' hc'
    rw [hsame c' (by omega)]
    exact h.fresh c' (by omega)
  rcases hresult with ⟨hentry, hsocket⟩ | ⟨hentry, hsocket⟩
  · -- the whole packet goes behind whole packets
    have hgrown : ∀ w ∈ writers c (log ++ [entry]), WholeOn c w := by
      rw [writers_snoc_of_cons hentry.bytes]
      intro w hw
      rcases List.mem_append.mp hw with hw | hw
      · exact hwhole w hw
      · rw [List.mem_singleton.mp hw]
        exact hentry
    refine ⟨fun c' => ?_, fun c' e hc' => ?_, hfresh⟩
    · by_cases hne : c' = c
      · subst hne
        exact .of_whole hgrown
      · exact hsame c' hne ▸ h.stream c'
    · obtain ⟨rfl, -⟩ := Socket.connected.inj (hsocket.symm.trans hc')
      exact ⟨hlt, hgrown⟩
  · -- part of a packet ends the stream, and the socket is closed
    refine ⟨fun c' => ?_, fun c' e hc' => (nomatch hsocket.symm.trans hc'), hfresh⟩
    by_cases hne : c' = c
    · subst hne
      obtain ⟨n, hn, hbytes⟩ := hentry.bytes
      rw [writers_snoc_of_cons hbytes]
      exact ⟨_, [entry], rfl, hwhole, le_rfl, fun w hw => List.mem_singleton.mp hw ▸ hentry⟩
    · exact hsame c' hne ▸ h.stream c'

theorem Streams.step {log : List (Entry E)} {s s' : TcpSender E} {entry : Entry E}
    (h : Streams log s) (htransition : Transition s s' entry) : Streams (log ++ [entry]) s' := by
  cases htransition with
  | silent hwrites hconnections hsocket => exact h.silent hwrites hconnections hsocket
  | wrote c target hconnection hother hresult => exact h.wrote hconnection hother hresult

/-- The constructor leaves at most one connection behind, which is empty. -/
theorem construct_streams (message : ErrorCode → Bytes) (host : Bytes) (port : ℤ)
    (answers : Answers E) : Streams [] (construct message host port answers).1 := by
  refine ⟨fun c => .of_whole fun _ hw => absurd hw List.not_mem_nil, ?_, fun _ _ => rfl⟩
  intro c e hsocket
  refine ⟨?_, fun _ hw => absurd hw List.not_mem_nil⟩
  obtain ⟨resolved, target, s, resolving, hresolution, hcases⟩ :=
    construct_cases message host port answers
  obtain ⟨hclosed, hnone⟩ := frame_resolution hresolution
  -- there is a connection only if the constructor has just made it
  rcases hcases with ⟨-, hconstruct⟩ | ⟨e', -, hconstruct⟩
  · rw [hconstruct, hclosed] at hsocket
    exact nomatch hsocket
  · rw [hconstruct] at hsocket ⊢
    cases hfailed : ErrorCode.failed answers.connect with
    | true =>
        rw [connectSocket_failed hfailed] at hsocket
        exact nomatch hsocket
    | false =>
        rw [connectSocket_ok hfailed] at hsocket ⊢
        obtain ⟨rfl, -⟩ := Socket.connected.inj hsocket
        exact Nat.lt_succ_self _

/-! ## Bytes, connects and failures -/

/-- Only the calls that wrote on a connection count for its bytes. -/
theorem bytesOn_writers (c : ℕ) (log : List (Entry E)) :
    bytesOn c log = ((writers c log).flatMap fun entry => writesOn c entry.2.2).flatten := by
  rw [bytesOn]
  -- a call that did not write on the connection contributes nothing
  congr 1
  induction log with
  | nil => rfl
  | cons entry log ih =>
      rw [List.flatMap_cons, ih]
      cases hwrites : writesOn c entry.2.2 with
      | nil =>
          have hwriters : writers c (entry :: log) = writers c log :=
            List.filter_cons_of_neg (by rw [hwrites]; exact Bool.false_ne_true)
          rw [hwriters, List.nil_append]
      | cons bytes rest =>
          have hwriters : writers c (entry :: log) = entry :: writers c log :=
            List.filter_cons_of_pos (by rw [hwrites]; rfl)
          rw [hwriters, List.flatMap_cons, hwrites]

/-- Whole packets put the packets on the connection. -/
theorem flatMap_whole {c : ℕ} {sent : List (Entry E)} (h : ∀ w ∈ sent, WholeOn c w) :
    (sent.flatMap fun entry => writesOn c entry.2.2) =
      sent.map fun entry => entry.1.packet.data := by
  induction sent with
  | nil => rfl
  | cons entry sent ih =>
      obtain ⟨hentry, hsent⟩ := List.forall_mem_cons.mp h
      rw [List.flatMap_cons, hentry.bytes, ih hsent, List.map_cons, List.singleton_append]

/-- Every `connect` among the events is on a closed socket. -/
def ConnectsClosed (events : List (NetEvent E)) : Prop :=
  ∀ before e ec, .connect before e ec ∈ events → before = .closed

theorem ConnectsClosed.append {events events' : List (NetEvent E)} (h : ConnectsClosed events)
    (h' : ConnectsClosed events') : ConnectsClosed (events ++ events') := by
  intro before e ec hmem
  rcases List.mem_append.mp hmem with hmem | hmem
  · exact h before e ec hmem
  · exact h' before e ec hmem

theorem connectsClosed_single (e : E) (ec : ErrorCode) :
    ConnectsClosed [.connect .closed e ec] := by
  intro before e' ec' hmem
  exact (NetEvent.connect.inj (List.mem_singleton.mp hmem)).1

/-- Events without a `connect`. -/
theorem connectsClosed_of_all {events : List (NetEvent E)}
    (h : ∀ before e ec, .connect before e ec ∉ events) : ConnectsClosed events :=
  fun before e ec hmem => absurd hmem (h before e ec)

theorem connectsClosed_resolution {s s' : TcpSender E} {host : Bytes} {port : UInt16}
    {answer : ErrorCode × List E} {result : SendResult} {target : Option E}
    {resolving : List (NetEvent E)}
    (h : Resolution s host port answer result target s' resolving) : ConnectsClosed resolving := by
  cases h <;> exact connectsClosed_of_all fun _ _ _ => by simp

theorem connectsClosed_closing {closing : List (NetEvent E)}
    (h : closing = [] ∨ closing = [.close]) : ConnectsClosed closing := by
  rcases h with rfl | rfl <;> exact connectsClosed_of_all fun _ _ _ => by simp

theorem connectsClosed_reached {s s' : TcpSender E} {target : E} {ec : ErrorCode} {c : ℕ}
    {reaching : List (NetEvent E)} (h : Reached s target ec c s' reaching) :
    ConnectsClosed reaching := by
  cases h with
  | kept _ => exact connectsClosed_of_all fun _ _ _ => List.not_mem_nil
  | renewed hclosing _ =>
      exact (connectsClosed_closing hclosing).append (connectsClosed_single _ _)

theorem connectsClosed_sends {s s' : TcpSender E} {call : Call E} {result : SendResult}
    {events : List (NetEvent E)} (h : Sends s call result s' events) : ConnectsClosed events := by
  cases h with
  | unresolved hresolution _ => exact connectsClosed_resolution hresolution
  | unreached hresolution hclosing _ _ =>
      exact (connectsClosed_resolution hresolution).append
        ((connectsClosed_closing hclosing).append (connectsClosed_single _ _))
  | whole hresolution hreached =>
      exact (connectsClosed_resolution hresolution).append
        ((connectsClosed_reached hreached).append (connectsClosed_of_all fun _ _ _ => by simp))
  | cut hresolution hreached _ _ _ _ =>
      exact (connectsClosed_resolution hresolution).append
        ((connectsClosed_reached hreached).append (connectsClosed_of_all fun _ _ _ => by simp))

/-- One of the operations of a call has failed: its lookup, its connection or its write. -/
inductive FailedOperation (call : Call E) (events : List (NetEvent E)) : Prop
  | resolve {host service : Bytes} {ec : ErrorCode} {results : List E} :
      .resolve host service ec results ∈ events →
      ErrorCode.failed ec = true ∨ results = [] → FailedOperation call events
  | connect {before : Socket E} {e : E} {ec : ErrorCode} :
      .connect before e ec ∈ events → ErrorCode.failed ec = true → FailedOperation call events
  | write {n : ℕ} {ec : ErrorCode} : call.answers.write = .breaksAfter n ec →
      n < call.packet.data.length → ErrorCode.failed ec = true → FailedOperation call events

/-- A call fails only where one of its own operations does. -/
theorem failedOperation_sends {s s' : TcpSender E} {call : Call E} {result : SendResult}
    {events : List (NetEvent E)} (h : Sends s call result s' events)
    (hresult : result.success = false) : FailedOperation call events := by
  cases h with
  | unresolved hresolution _ =>
      cases hresolution with
      | failed _ hfailed => exact .resolve (List.mem_singleton_self _) hfailed
  | @unreached _ _ target _ _ _ _ _ hfailed _ =>
      have hconnect := List.mem_singleton_self
        (NetEvent.connect .closed target call.answers.connect)
      exact .connect (List.mem_append_right _ (List.mem_append_right _ hconnect)) hfailed
  | whole _ _ => exact nomatch hresult
  | cut _ _ hanswer hfailed hn _ => exact .write hanswer hn hfailed

end

section

variable {E : Type} [DecidableEq E]

/-- What holds of a sender, of all its calls and of all its connections. -/
structure StreamIntegrity (message : ErrorCode → Bytes) (constructing : List (NetEvent E))
    (log : List (Entry E)) (s : TcpSender E) : Prop where
  connects : ConnectsClosed (history constructing log)
  constructing : writes constructing = []
  calls : ∀ w ∈ log, OneWrite w.1.packet.data w.2.1 w.2.2
  streams : ∀ c, ∃ sent cut, writers c log = sent ++ cut ∧ (∀ w ∈ sent, WholeOn c w) ∧
    cut.length ≤ 1 ∧ (∀ w ∈ cut, CutOn c w) ∧
    bytesOn c log = (sent.map fun w => w.1.packet.data).flatten ++
      (cut.flatMap fun w => writesOn c w.2.2).flatten
  live : ∀ call, ∃ o s', SendStep message s call o s' ∧
    (¬ FailedOperation call o.2 → o.1.success = true)

/-- **Stream integrity.** After a construction and any calls, `connect` has only
been called on a closed socket, each call has written its packet once at most
and reported a success exactly if it wrote all of it, a connection carries the
packets of successful calls followed by at most one that was cut off, and the
next call succeeds unless one of its own operations fails. -/
theorem stream_integrity {message : ErrorCode → Bytes} {host : Bytes} {port : ℤ}
    {answers : Answers E} {log : List (Entry E)} {s : TcpSender E}
    (h : Run (SendStep message) (construct message host port answers).1 log s) :
    StreamIntegrity message (construct message host port answers).2 log s := by
  obtain ⟨resolved, target, s₀, resolving, hresolution, hcases⟩ :=
    construct_cases message host port answers
  have hconnects : ConnectsClosed (construct message host port answers).2 := by
    rcases hcases with ⟨-, hconstruct⟩ | ⟨e, -, hconstruct⟩
    · rw [hconstruct]
      exact connectsClosed_resolution hresolution
    · rw [hconstruct]
      exact (connectsClosed_resolution hresolution).append (connectsClosed_single _ _)
  have hwrites : writes (construct message host port answers).2 = [] := by
    rcases hcases with ⟨-, hconstruct⟩ | ⟨e, -, hconstruct⟩
    · rw [hconstruct]
      exact hresolution.writes
    · rw [hconstruct, writes_append, hresolution.writes]
      rfl
  have hsends : ∀ w ∈ log, OneWrite w.1.packet.data w.2.1 w.2.2 ∧ ConnectsClosed w.2.2 := by
    -- what each call did, by itself
    refine h.forall_mem (fun _ => True)
      (fun call o => OneWrite call.packet.data o.1 o.2 ∧ ConnectsClosed o.2) trivial ?_
    intro s call o s' _ hstep
    exact ⟨trivial, (sends_of_step hstep).oneWrite, connectsClosed_sends (sends_of_step hstep)⟩
  have hstreams : Streams log s := by
    -- what all calls have left on the connections
    apply h.history (fun log s => Streams log s) (construct_streams message host port answers)
    intro log s call o s' hs hstep
    exact hs.step (transition_sends (sends_of_step hstep))
  refine ⟨?_, hwrites, fun w hw => (hsends w hw).1, fun c => ?_, fun call => ?_⟩
  · intro before e ec hmem
    rcases List.mem_append.mp hmem with hmem | hmem
    · exact hconnects before e ec hmem
    · obtain ⟨w, hw, hmem⟩ := List.mem_flatMap.mp hmem
      exact (hsends w hw).2 before e ec hmem
  · obtain ⟨sent, cut, hwriters, hsent, hlength, hcut⟩ := hstreams.stream c
    refine ⟨sent, cut, hwriters, hsent, hlength, hcut, ?_⟩
    rw [bytesOn_writers, hwriters, List.flatMap_append, List.flatten_append, flatMap_whole hsent]
  · obtain ⟨result, s', events, hsend, hcall⟩ := send_sends message s call
    refine ⟨(result, events), s', hsend, fun hoperations => ?_⟩
    -- a failure would have been one of its own operations
    by_contra hfailed
    exact hoperations (failedOperation_sends hcall (Bool.eq_false_iff.mpr hfailed))

/-- A construction, and a call on a connection that was reset, whose write fails on the
next one. -/
theorem stream_integrity_one : ∃ log : List (Entry ℕ), log.length = 1 ∧ ∃ s,
    StreamIntegrity (fun _ => []) (construct (fun _ => []) (str "a") 2 (.found 5)).2 log s := by
  obtain ⟨result, s, events, hsend, -⟩ := send_sends (fun _ => [])
    (construct (fun _ => []) (str "a") 2 (.found 5)).1
    { packet := { data := [1, 2] }
      target_host := str "a"
      target_port := 2
      answers := { Answers.found 5 with
        remote_endpoint := ⟨107, .system⟩
        write := .breaksAfter 1 ⟨32, .system⟩ } }
  exact ⟨[(_, (result, events))], rfl, s, stream_integrity (.snoc .nil hsend)⟩

end

end CmsProxy.Stream
