/-
When a connection is opened.

A call connects unless the socket is connected to its endpoint already and the peer has
not reset the connection. What the socket is connected to can be told from the calls
before: it is the endpoint of the last call that had one, provided that call was a
success. Calls without an endpoint make no difference. So it is in every run of the
program (`connects_iff`). Where nothing fails, a connection is opened when the program
starts, and then whenever an endpoint is not that of the packet before
(`connects_changes`): the one socket is worth something to a row of packets for one
endpoint, and nothing to packets for two endpoints in turn.
-/
import CmsProxy.Verdicts
import Mathlib.Data.List.Destutter

set_option autoImplicit false

namespace CmsProxy.Reuse

open BigEndian Interfaces JsonValue Engine Tcp Calls Runs
open Config (AppConfig)
open Connections (contacted)
open Destinations (history)
open EventLoop Shutdown Interleaving
open Main hiding Step
open Proxy (engine objects sender configuration)
open Verdicts (Healthy success_of_healthy)
open Wire

section

variable {E : Type}

/-! ## What the calls show -/

/-- The endpoint an event connects to. -/
def connecting : NetEvent E → Option E
  | .connect _ e _ => some e
  | _ => none

/-- The endpoints the events connect to. -/
def connects (events : List (NetEvent E)) : List E := events.filterMap connecting

/-- The endpoint the events are about, if they come to that. -/
def contact (events : List (NetEvent E)) : Option E := (events.filterMap contacted).head?

/-- The peer of the socket. -/
def peer (s : TcpSender E) : Option E :=
  match s.socket_ with
  | .connected _ e => some e
  | _ => none

/-- The peer after a call, as its result shows it. -/
def peerAfter (before : Option E) (entry : Entry E) : Option E :=
  match contact entry.2.2 with
  | none => before
  | some e => if entry.2.1.success then some e else none

/-- Whether a call connects again to its endpoint: when that is not the peer, and when the
peer has reset the connection. -/
def reopens [DecidableEq E] (before : Option E) (call : Call E) (e : E) : Bool :=
  decide (before ≠ some e) || ErrorCode.failed call.answers.remote_endpoint

theorem connects_append (events events' : List (NetEvent E)) :
    connects (events ++ events') = connects events ++ connects events' := List.filterMap_append

theorem contact_append {events events' : List (NetEvent E)} (h : events.filterMap contacted = []) :
    contact (events ++ events') = contact events' := by
  rw [contact, List.filterMap_append, h, List.nil_append, contact]

/-- A lookup is about no endpoint, and leaves the socket alone. -/
theorem silent_resolution {s s' : TcpSender E} {host : Bytes} {port : UInt16}
    {answer : ErrorCode × List E} {result : SendResult} {target : Option E}
    {resolving : List (NetEvent E)}
    (h : Resolution s host port answer result target s' resolving) :
    resolving.filterMap contacted = [] ∧ connects resolving = [] ∧ peer s' = peer s := by
  cases h <;> exact ⟨rfl, rfl, rfl⟩

theorem silent_closing {closing : List (NetEvent E)} (h : closing = [] ∨ closing = [.close]) :
    closing.filterMap contacted = [] ∧ connects closing = [] := by
  rcases h with rfl | rfl <;> exact ⟨rfl, rfl⟩

/-! ## One call -/

/-- What a call with this endpoint does for the connection. -/
structure Reuses (before : Option E) (target : E) (reset : Bool) (result : SendResult)
    (s' : TcpSender E) (events : List (NetEvent E)) : Prop where
  contact : contact events = some target
  connects : (connects events = [] ∧ before = some target ∧ reset = false) ∨
    (connects events = [target] ∧ (before ≠ some target ∨ reset = true))
  peer : peer s' = if result.success then some target else none

/-- The write keeps the connection, or closes the socket. -/
theorem reuse_transmit (message : ErrorCode → Bytes) (packet : Bytes) (answer : WriteAnswer)
    {s : TcpSender E} {c : ℕ} {target : E} (hsocket : s.socket_ = .connected c target)
    (before : List (NetEvent E)) : ∃ result s' events,
      transmit message packet answer s before = (result, s', before ++ events) ∧
      connects events = [] ∧ contact events = some target ∧
      peer s' = if result.success then some target else none := by
  rw [transmit]
  rcases write_cases packet answer with ⟨ec, hwrite, hok⟩ | ⟨n, ec, -, hwrite, -, hfailed⟩
  · simp only [hwrite, hok, Bool.false_eq_true, if_false, hsocket]
    refine ⟨_, _, _, rfl, rfl, rfl, ?_⟩
    rw [peer, hsocket]
    rfl
  · simp only [hwrite, hfailed, if_true, hsocket, List.append_assoc]
    refine ⟨_, _, _, rfl, rfl, rfl, ?_⟩
    rw [make_send_result_failed hfailed]
    rfl

variable [DecidableEq E]

/-- Steps 2 to 4 of `send`. -/
theorem reuse_deliver (message : ErrorCode → Bytes) (packet : Bytes) (target : E)
    (answers : Answers E) (s : TcpSender E) : ∃ need_reconnect s₁ closing result s₂ delivering,
      s.check_connection target answers.remote_endpoint = (need_reconnect, s₁, closing) ∧
      s₁.deliver message packet target need_reconnect answers = (result, s₂, delivering) ∧
      Reuses (peer s) target (ErrorCode.failed answers.remote_endpoint) result s₂
        (closing ++ delivering) := by
  by_cases hkept : peer s = some target ∧ ErrorCode.failed answers.remote_endpoint = false
  · -- connected to the target already
    obtain ⟨hpeer, hreset⟩ := hkept
    obtain ⟨c, hsocket⟩ : ∃ c, s.socket_ = .connected c target := by
      rw [peer] at hpeer
      cases hsocket : s.socket_ with
      | connected c e =>
          rw [hsocket] at hpeer
          exact ⟨c, by rw [Option.some.inj hpeer]⟩
      | closed => rw [hsocket] at hpeer; exact nomatch hpeer
      | unconnected => rw [hsocket] at hpeer; exact nomatch hpeer
    have hcheck : s.check_connection target answers.remote_endpoint = (false, s, []) := by
      rw [TcpSender.check_connection, hsocket]
      simp only [hreset, Bool.false_eq_true, if_false]
      exact if_neg (not_not_intro rfl)
    obtain ⟨result, s', events, htransmit, hconnects, hcontact, hafter⟩ :=
      reuse_transmit message packet answers.write hsocket []
    exact ⟨_, _, _, _, _, _, hcheck, deliver_kept.trans htransmit, hcontact,
      Or.inl ⟨hconnects, hpeer, hreset⟩, hafter⟩
  · have hopens : peer s ≠ some target ∨ ErrorCode.failed answers.remote_endpoint = true := by
      rwa [not_and_or, Bool.not_eq_false] at hkept
    rcases check_connection_cases target answers.remote_endpoint s with
      ⟨-, hreset, c, hsocket⟩ | ⟨closing, hcheck, hclosing⟩
    · exact absurd ⟨by rw [peer, hsocket], hreset⟩ hkept
    obtain ⟨hnone, hsilent⟩ := silent_closing hclosing
    cases hconnect : ErrorCode.failed answers.connect with
    | true =>
        refine ⟨_, _, _, _, _, _, hcheck, deliver_unconnected hconnect, ?_, Or.inr ⟨?_, hopens⟩,
          ?_⟩
        · rw [contact_append hnone]
          rfl
        · rw [connects_append, hsilent]
          rfl
        · rw [connectSocket_failed hconnect, make_send_result_failed hconnect]
          rfl
    | false =>
        have hsocket : (s.close.connectSocket target answers.connect).socket_ =
            .connected s.connections target := by
          rw [connectSocket_ok hconnect]
          rfl
        obtain ⟨result, s', events, htransmit, hconnects, -, hafter⟩ :=
          reuse_transmit message packet answers.write hsocket
            [.connect s.close.socket_ target answers.connect]
        refine ⟨_, _, _, _, _, _, hcheck, (deliver_connected hconnect).trans htransmit, ?_,
          Or.inr ⟨?_, hopens⟩, hafter⟩
        · rw [contact_append hnone]
          rfl
        · rw [connects_append, hsilent, connects_append, hconnects]
          rfl

/-- **One call.** It connects to its endpoint unless the socket is connected to it still, and
its result shows what the socket is connected to afterwards. A success has an endpoint. -/
theorem reuse_step {message : ErrorCode → Bytes} {s s' : TcpSender E} {call : Call E}
    {o : SendResult × List (NetEvent E)} (h : SendStep message s call o s') :
    connects o.2 = (contact o.2).toList.filter (reopens (peer s) call) ∧
      peer s' = peerAfter (peer s) (call, o) ∧ (o.1.success = true → contact o.2 ≠ none) := by
  obtain ⟨resolved, target, s₁, resolving, hresolve, hresolution⟩ :=
    resolve_resolution message call.target_host call.target_port call.answers.resolve s
  obtain ⟨result', events⟩ := o
  obtain ⟨hnone, hsilent, hpeer⟩ := silent_resolution hresolution
  rw [SendStep, TcpSender.send, hresolve] at h
  cases target with
  | none =>
      simp only [Prod.mk.injEq] at h
      obtain ⟨rfl, rfl, hevents⟩ := h
      subst hevents
      have hcontact : contact resolving = none := by
        rw [contact, hnone]
        rfl
      rw [hsilent, peerAfter, hcontact]
      refine ⟨rfl, hpeer, fun hsuccess => ?_⟩
      cases hresolution with
      | failed hfailed _ =>
          exact absurd (hfailed.symm.trans hsuccess) Bool.false_ne_true
  | some target =>
      obtain ⟨need_reconnect, s₂, closing, result, s₃, delivering, hcheck, hdeliver, hreuse⟩ :=
        reuse_deliver message call.packet.data target call.answers s₁
      simp only [hcheck, hdeliver, Prod.mk.injEq, List.append_assoc] at h
      obtain ⟨rfl, rfl, rfl⟩ := h
      rw [connects_append, hsilent, List.nil_append, peerAfter, contact_append hnone,
        hreuse.contact, ← hpeer]
      refine ⟨?_, hreuse.peer, fun _ => Option.some_ne_none target⟩
      rcases hreuse.connects with ⟨hconnects, hsame, hreset⟩ | ⟨hconnects, hopens⟩
      · rw [hconnects, hsame]
        simp [reopens, hreset]
      · rw [hconnects]
        simp [reopens, hopens]

/-! ## Runs -/

/-- The peer of the socket, as the calls show it. -/
def peerOf (s₀ : TcpSender E) (log : List (Entry E)) : Option E := log.foldl peerAfter (peer s₀)

/-- When connections are opened, in a run. -/
structure Connecting (s₀ : TcpSender E) (log : List (Entry E)) (s : TcpSender E) : Prop where
  peer : peer s = peerOf s₀ log
  connects : ∀ before entry after, log = before ++ entry :: after →
    connects entry.2.2 = (contact entry.2.2).toList.filter (reopens (peerOf s₀ before) entry.1)

theorem connecting_run {message : ErrorCode → Bytes} {s₀ s : TcpSender E}
    {log : List (Entry E)} (h : Run (SendStep message) s₀ log s) : Connecting s₀ log s := by
  refine h.history (Connecting s₀) ⟨rfl, fun before entry after hlog => ?_⟩ ?_
  · exact absurd hlog.symm (by simp)
  · intro log s call o s' hs hstep
    obtain ⟨hconnects, hpeer, -⟩ := reuse_step hstep
    refine ⟨?_, fun before entry after hlog => ?_⟩
    · rw [hpeer, hs.peer, peerOf, peerOf, List.foldl_append]
      rfl
    · -- an entry of the log, or the new one
      rcases List.eq_nil_or_concat after with rfl | ⟨after, last, rfl⟩
      · obtain ⟨rfl, hentry⟩ := List.append_inj' hlog rfl
        obtain rfl := List.singleton_inj.mp hentry
        rw [← hs.peer]
        exact hconnects
      · refine hs.connects before entry after ?_
        rw [List.concat_eq_append, ← List.cons_append, ← List.append_assoc] at hlog
        exact (List.append_inj' hlog rfl).1

/-- Entry by entry: what is connected to is what differs from the peer. -/
theorem destutter_of_connects {before : Option E} {log : List (Entry E)}
    (hconnects : ∀ earlier entry after, log = earlier ++ entry :: after →
      connects entry.2.2 =
        (contact entry.2.2).toList.filter (fun e => earlier.foldl peerAfter before ≠ some e))
    (hsuccess : ∀ entry ∈ log, contact entry.2.2 ≠ none → entry.2.1.success = true) :
    before.toList ++ log.flatMap (fun entry => connects entry.2.2) =
      (before.toList ++ log.filterMap fun entry => contact entry.2.2).destutter (· ≠ ·) := by
  induction log generalizing before with
  | nil => cases before <;> rfl
  | cons entry log ih =>
      obtain ⟨hentry, hlog⟩ := List.forall_mem_cons.mp hsuccess
      have hfirst := hconnects [] entry log rfl
      have hrest : ∀ earlier entry' after, log = earlier ++ entry' :: after →
          connects entry'.2.2 = (contact entry'.2.2).toList.filter
            (fun e => earlier.foldl peerAfter (peerAfter before entry) ≠ some e) :=
        fun earlier entry' after hsplit =>
          hconnects (entry :: earlier) entry' after (by rw [hsplit]; rfl)
      have hafter := ih hrest hlog
      rw [List.flatMap_cons, hfirst]
      cases hcontact : contact entry.2.2 with
      | none =>
          rw [peerAfter, hcontact] at hafter
          rw [List.filterMap_cons, hcontact]
          exact hafter
      | some e =>
          have hok := hentry (by rw [hcontact]; exact Option.some_ne_none e)
          rw [peerAfter, hcontact] at hafter
          simp only [hok, if_true] at hafter
          rw [List.filterMap_cons, hcontact]
          cases before with
          | none => exact hafter
          | some e' =>
              by_cases hsame : e' = e
              · subst hsame
                simp only [Option.toList_some, List.singleton_append] at hafter ⊢
                rw [List.destutter_cons_cons, if_neg (not_not_intro rfl), ← List.destutter_cons',
                  ← hafter]
                simp
              · simp only [Option.toList_some, List.singleton_append] at hafter ⊢
                rw [List.destutter_cons_cons, if_pos hsame, ← List.destutter_cons', ← hafter]
                simp [hsame]

/-- Nothing fails, and no connection is reset. -/
structure Lasting (answers : Answers E) : Prop extends Healthy answers where
  kept : ErrorCode.failed answers.remote_endpoint = false

/-- A call that cannot fail is a success, and so has an endpoint. -/
theorem success_of_run {message : ErrorCode → Bytes} {s₀ s : TcpSender E} {log : List (Entry E)}
    (h : Run (SendStep message) s₀ log s) {w : Entry E} (hw : w ∈ log)
    (hhealthy : Healthy w.1.answers) : w.2.1.success = true ∧ contact w.2.2 ≠ none := by
  refine h.forall_mem (fun _ => True) (fun call o => Healthy call.answers →
    o.1.success = true ∧ contact o.2 ≠ none) trivial (fun s call o s' _ hstep => ?_) w hw hhealthy
  refine ⟨trivial, fun hcall => ?_⟩
  have hok := success_of_healthy hcall (sends_of_step hstep)
  exact ⟨hok, (reuse_step hstep).2.2 hok⟩

/-- Without resets it is the peer alone that counts. -/
theorem connects_of_kept {s₀ s : TcpSender E} {log : List (Entry E)}
    (h : Connecting s₀ log s)
    (hkept : ∀ w ∈ log, ErrorCode.failed w.1.answers.remote_endpoint = false)
    (before : List (Entry E)) (entry : Entry E) (after : List (Entry E))
    (hlog : log = before ++ entry :: after) : connects entry.2.2 =
      (contact entry.2.2).toList.filter (fun e => peerOf s₀ before ≠ some e) := by
  have hentry := hkept entry (hlog ▸ List.mem_append_right _ List.mem_cons_self)
  rw [h.connects before entry after hlog]
  refine List.filter_congr fun e _ => ?_
  rw [reopens, hentry, Bool.or_false]

omit [DecidableEq E] in
/-- With a network that does not fail there is a connection from the start. -/
theorem connects_construct {message : ErrorCode → Bytes} {host : Bytes} {port : ℤ}
    {answers : Answers E} (h : Healthy answers) : ∃ e,
      connects (construct message host port answers).2 = [e] ∧
      peer (construct message host port answers).1 = some e := by
  obtain ⟨resolved, target, s, resolving, hresolution, hcases⟩ :=
    construct_cases message host port answers
  obtain ⟨-, hsilent, -⟩ := silent_resolution hresolution
  rcases hcases with ⟨rfl, -⟩ | ⟨e, -, hconstruct⟩
  · cases hresolution with
    | failed _ hfailed =>
        rcases hfailed with hfailed | hempty
        · exact nomatch h.resolve.symm.trans hfailed
        · exact absurd hempty h.endpoints
  · refine ⟨e, ?_, ?_⟩
    · rw [hconstruct, connects_append, hsilent]
      rfl
    · rw [hconstruct, connectSocket_ok h.connect]
      rfl

/-! ## The program -/

variable {F : Type} [CFloat F] {rt : Runtime F} {network : Network E} {config : AppConfig}
variable {first : Answers E}

/-- **Connecting.** In every run, whatever the network does, a call connects to its
endpoint, once, unless that is the endpoint of the last call before that had one, that
call was a success, and the peer has not reset the connection since; before the first
such call it is what the construction has connected to that counts. What the calls
without an endpoint were, and what the lookups said, makes no difference. -/
theorem connects_iff {log : List Shutdown.Entry} {s : Process (Link E)}
    (h : Run (ProcessStep (engine rt network config)) (initial (objects network config first))
      log s) :
    Connecting (sender network config first).1 s.state.sender.calls s.state.sender.tcp :=
  connecting_run (wired_process rfl rfl h).run

/-- **Changes.** Where no network operation can fail and no connection is reset, every
call has an endpoint, and the endpoints the program connects to are that of its
construction and those of the calls behind it, each row of the same one counted once. -/
theorem connects_changes {log : List Shutdown.Entry} {s : Process (Link E)}
    (hfirst : Healthy first) (hlasting : ∀ k, Lasting (network.answers k))
    (h : Run (ProcessStep (engine rt network config)) (initial (objects network config first))
      log s) : ∃ (e : E) (endpoints : List E),
      s.state.sender.calls.map (fun w => contact w.2.2) = endpoints.map some ∧
      connects (history (sender network config first).2 s.state.sender.calls) =
        (e :: endpoints).destutter (· ≠ ·) := by
  have hwired := wired_process rfl rfl h
  obtain ⟨e, hconnects, hpeer⟩ := @connects_construct E network.message
    config.tcp_default_target_ip config.tcp_default_target_port.toNat first hfirst
  have hanswers : ∀ w ∈ s.state.sender.calls, Lasting w.1.answers := by
    intro w hw
    obtain ⟨k, hk⟩ := List.mem_iff_getElem?.mp hw
    rw [hwired.answers k w hk]
    exact hlasting k
  have hsuccess := fun w hw => success_of_run hwired.run hw (hanswers w hw).toHealthy
  have hpeers := connects_of_kept (connecting_run hwired.run) fun w hw => (hanswers w hw).kept
  refine ⟨e, s.state.sender.calls.filterMap fun w => contact w.2.2, ?_, ?_⟩
  · rw [List.map_filterMap, ← List.filterMap_eq_map]
    refine List.filterMap_congr fun w hw => ?_
    obtain ⟨e', he'⟩ := Option.ne_none_iff_exists'.mp (hsuccess w hw).2
    rw [Function.comp_apply, he']
    rfl
  · have hchanges := destutter_of_connects hpeers fun w hw _ => (hsuccess w hw).1
    have hbefore : peer (sender network config first).1 = some e := hpeer
    have hconstruct : connects (sender network config first).2 = [e] := hconnects
    rw [hbefore, Option.toList_some, List.singleton_append, List.singleton_append] at hchanges
    rw [history, connects_append, hconstruct, List.singleton_append, connects,
      List.filterMap_flatMap]
    exact hchanges

end

/-! ## Two endpoints -/

/-- The calls find endpoints of their own, and before one of them the connection may have
been reset. -/
def apart (reset : Option ℕ) : Network ℕ where
  message _ := []
  answers k :=
    { Answers.found (6 + k) with
      remote_endpoint :=
        if reset = some k then { value := 104, category := .system } else ErrorCode.none }

/-- The two LRADs have destinations of their own. -/
def separate : AppConfig :=
  { configuration [1] with
    lrad_destinations := (Reference.table [1]).insert 2
      { id := 2, ip_address := str "10.0.0.2", port := 9000 } }

/-- Two blocks for the second LRAD. -/
def onlySecond : RawPacket :=
  Reference.datagram 1679949825 (Reference.orderBytes 7 2 1 ++ Reference.orderBytes 8 2 1)

/-- What is seen of the orders for the LRADs 1, 2, 2, 2, 1 and 2. -/
theorem apart_run {reset : Option ℕ} {α : Type} {view : List (Entry ℕ) → α} {a : α}
    (h : (Reference.processAll (engine Reference.linux (apart reset) separate)
      [packet, onlySecond, packet] (objects (apart reset) separate (.found 5))).toOption.map
        (fun p => view p.1.sender.calls) = some a) :
    ∃ (log : List Shutdown.Entry) (s : Process (Link ℕ)),
      Run (ProcessStep (engine Reference.linux (apart reset) separate))
        (initial (objects (apart reset) separate (.found 5))) log s ∧
      view s.state.sender.calls = a := by
  obtain ⟨log, s, hrun, -, -, -, -, hview⟩ := @exists_run Float32 _ _
    (engine Reference.linux (apart reset) separate) [packet, onlySecond, packet]
    (objects (apart reset) separate (.found 5)) _ (fun p => view p.1.sender.calls) a
    (List.forall_mem_cons.mpr ⟨receivable_packet, List.forall_mem_cons.mpr
      ⟨⟨rfl, by decide⟩, List.forall_mem_singleton.mpr receivable_packet⟩⟩) h
  exact ⟨log, s, hrun, hview⟩

/-- Before the fourth call the connection has been reset. -/
theorem connects_iff_apart : ∃ s : Process (Link ℕ),
    s.state.sender.calls.map (fun w => connects w.2.2) = [[6], [7], [], [7], [6], [7]] ∧
    Connecting (sender (apart (some 3)) separate (.found 5)).1 s.state.sender.calls
      s.state.sender.tcp := by
  obtain ⟨log, s, hrun, hconnects⟩ := @apart_run (some 3) _
    (fun calls => calls.map fun w => connects w.2.2) [[6], [7], [], [7], [6], [7]]
    (by decide +kernel)
  exact ⟨s, hconnects, connects_iff hrun⟩

theorem connects_changes_apart : ∃ (s : Process (Link ℕ)) (e : ℕ) (endpoints : List ℕ),
    s.state.sender.calls.map (fun w => contact w.2.2) = endpoints.map some ∧
    connects (history (sender (apart none) separate (.found 5)).2 s.state.sender.calls) =
      (e :: endpoints).destutter (· ≠ ·) ∧
    endpoints = [6, 7, 7, 7, 6, 7] := by
  obtain ⟨log, s, hrun, hcontacts⟩ := @apart_run none _
    (fun calls => calls.map fun w => contact w.2.2) ([6, 7, 7, 7, 6, 7].map some)
    (by decide +kernel)
  obtain ⟨e, endpoints, hcalls, hchanges⟩ := connects_changes
    ⟨rfl, List.cons_ne_nil _ _, rfl, fun _ => rfl⟩
    (fun _ => ⟨⟨rfl, List.cons_ne_nil _ _, rfl, fun _ => rfl⟩, rfl⟩) hrun
  exact ⟨s, e, endpoints, hcalls, hchanges,
    List.map_injective_iff.mpr (Option.some_injective ℕ) (hcalls.symm.trans hcontacts)⟩

end CmsProxy.Reuse
