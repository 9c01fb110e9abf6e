/-
`main.cpp`: the proxy, put together.

What `main` assembles is an engine with the routing table of the configuration, a
sender that was constructed for the default target, and a sender of
acknowledgements. Here the parts are put together as `main` does it, and what is
known of each of them becomes what is known of the program: of every run of its
two threads, with every configuration, and whatever the network does.

The first of these results is about the other end. The JSON documents that can be
taken off the bytes put on the connections are the commands that were acknowledged as
accepted, all of them, once and in their order (`peers_read_accepted`). What a
connection that is reset loses on the way is out of the program's sight, and of this
statement's. The other says whom the program talks to (`confined`).
-/
import CmsProxy.AckSender
import CmsProxy.Config
import CmsProxy.Prefixes
import CmsProxy.Wire

set_option autoImplicit false

namespace CmsProxy.Proxy

open BigEndian Interfaces JsonValue JsonText Decimal Converter Orders Engine Answers Tcp Calls Runs
open Config (AppConfig)
open Connections
open Destinations (history)
open Engagement (reportsAccepted reportsAccepted_ackFor)
open EventLoop Shutdown
open Framing (SelfDelimiting commands command_text readDocument)
open Interleaving
open Main hiding Step
open PrefixCode (readWhile)
open Prefixes (readWhile_documents)
open CmsProxy.Stream
open Wire

section

variable {E : Type} [DecidableEq E] {F : Type} [CFloat F]

/-! ## The parts -/

/-- The sender of `main`, and what its construction did to the network. `first` is
what the network answered. -/
def sender (network : Network E) (config : AppConfig) (first : Answers E) :
    TcpSender E × List (NetEvent E) :=
  let (sender, constructing) := Tcp.construct network.message config.tcp_default_target_ip
    config.tcp_default_target_port.toNat first
  (sender.set_unicast_target config.tcp_unicast_target_ip, constructing)

/-- The engine of `main`. -/
def engine (rt : Runtime F) (network : Network E) (config : AppConfig) :
    ProxyEngine F (Link E) where
  rt := rt
  sender_ := networked network
  lrad_config_ := config.lrad_destinations

/-- The objects behind its pointers. -/
def objects (network : Network E) (config : AppConfig) (first : Answers E) :
    EngineState (Link E) where
  sender := { tcp := (sender network config first).1 }

/-! ## What was acknowledged -/

/-- The commands that were acknowledged as accepted. A send is followed by its
acknowledgement. -/
def acceptedCommands : List Effect → List Bytes
  | .send packet _ _ _ :: .ack frame :: effects =>
      if reportsAccepted frame then packet.data :: acceptedCommands effects
      else acceptedCommands effects
  | _ :: effects => acceptedCommands effects
  | [] => []

/-- A send is followed by the frame that reports its outcome. -/
inductive Reported : List Effect → Prop
  | nil : Reported []
  | ack (frame : RawPacket) {effects : List Effect} :
      Reported effects → Reported (.ack frame :: effects)
  | send {packet frame : RawPacket} {host : Bytes} {port : UInt16} {result : SendResult}
      {effects : List Effect} : reportsAccepted frame = result.success → Reported effects →
      Reported (.send packet host port result :: .ack frame :: effects)

theorem Reported.append {effects effects' : List Effect} (h : Reported effects)
    (h' : Reported effects') : Reported (effects ++ effects') := by
  induction h with
  | nil => exact h'
  | ack frame _ ih => exact ih.ack frame
  | send hframe _ ih => exact ih.send hframe

/-- The packet of a send that succeeded, and whose frame says so. -/
theorem acceptedCommands_send {packet frame : RawPacket} {host : Bytes} {port : UInt16}
    {result : SendResult} (hframe : reportsAccepted frame = result.success)
    (effects : List Effect) :
    acceptedCommands (.send packet host port result :: .ack frame :: effects) =
      (sentPacket (.send packet host port result)).toList ++ acceptedCommands effects := by
  rw [acceptedCommands, hframe]
  cases hresult : result.success <;> simp [sentPacket, hresult]

theorem filterMap_send (packet frame : RawPacket) (host : Bytes) (port : UInt16)
    (result : SendResult) (effects : List Effect) :
    (.send packet host port result :: .ack frame :: effects).filterMap sentPacket =
      (sentPacket (.send packet host port result)).toList ++ effects.filterMap sentPacket := by
  cases hsent : sentPacket (.send packet host port result) with
  | none =>
      rw [List.filterMap_cons, hsent]
      rfl
  | some data =>
      rw [List.filterMap_cons, hsent]
      rfl

/-- What is acknowledged as accepted is what was sent with success. -/
theorem Reported.eq {effects : List Effect} (h : Reported effects) :
    acceptedCommands effects = effects.filterMap sentPacket := by
  induction h with
  | nil => rfl
  | ack frame _ ih => exact ih
  | send hframe _ ih => rw [acceptedCommands_send hframe, filterMap_send, ih]

/-- At any point on the way it has been sent before. -/
theorem Reported.prefix {effects : List Effect} (h : Reported effects) {l : List Effect}
    (hl : l <+: effects) : acceptedCommands l <+: l.filterMap sentPacket := by
  induction h generalizing l with
  | nil =>
      rw [List.prefix_nil.mp hl]
      exact List.prefix_rfl
  | ack frame _ ih =>
      rcases List.prefix_cons_iff.mp hl with rfl | ⟨l, rfl, hrest⟩
      · exact List.prefix_rfl
      · have hshorter := ih hrest
        exact hshorter
  | @send packet frame host port result effects hframe _ ih =>
      rcases List.prefix_cons_iff.mp hl with rfl | ⟨l, rfl, hrest⟩
      · exact List.prefix_rfl
      rcases List.prefix_cons_iff.mp hrest with rfl | ⟨l, rfl, hrest'⟩
      · -- sent, and not acknowledged yet
        exact List.nil_prefix
      · rw [acceptedCommands_send hframe, filterMap_send, List.prefix_append_right_inj]
        exact ih hrest'

section

variable {S : Type} {eng : ProxyEngine F S}

/-- The frame behind a send reports the outcome of the send. -/
theorem reported_answer (source_message_id : UInt32) (packet : RawPacket) (result : SendResult) :
    Reported (answer eng source_message_id packet result) := by
  rw [answer, sendFor]
  cases eng.lrad_config_[packet.destinationLradId]? with
  | none => exact .ack _ .nil
  | some destination => exact .send (reportsAccepted_ackFor _ _ _ _) .nil

theorem reported_answers (source_message_id : UInt32) (packets : List RawPacket)
    (results : List SendResult) : Reported (answers eng source_message_id packets results) := by
  induction packets generalizing results with
  | nil => exact .nil
  | cons packet packets ih =>
      cases results with
      | nil => exact .nil
      | cons result results =>
          rw [answers_cons]
          exact (reported_answer source_message_id packet result).append (ih results)

theorem reported_step {st st' : EngineState S} {i : UInt64 × RawPacket} {effects : List Effect}
    (h : Step eng st i effects st') : Reported effects := by
  obtain ⟨r, -, hprocessed⟩ := processPacket_ok h
  cases hprocessed with
  | discarded _ => exact .nil
  | acknowledged _ _ => exact .ack _ .nil
  | delivered _ _ => exact reported_answers _ _ _

/-- **Reports.** In every run each send is followed by the frame that reports it. -/
theorem reported_run {st₀ st : EngineState S} {history : History}
    (h : Run (Step eng) st₀ history st) : Reported (effectsOf history) := by
  refine h.history (fun history _ => Reported (effectsOf history)) .nil ?_
  intro history st i effects st' hs hstep
  rw [effectsOf_append]
  refine hs.append ?_
  rw [effectsOf, List.flatMap_singleton]
  exact reported_step hstep

/-- So it is in a run of the process, with what the handler has still to do. -/
theorem reported_process {st₀ : EngineState S} {log : List Entry} {s : Process S}
    (h : Run (ProcessStep eng) (initial st₀) log s) :
    Reported (performed log ++ remaining s.runner) := by
  obtain ⟨history, st, hrun, hfollows⟩ := follows_run h 0
  rw [← hfollows.effects]
  exact reported_run hrun

end

/-! ## What the peers read -/

/-- The documents that can be taken off a stream, one after the other, up to the
first that is not all there. -/
def documentsOf (ft : FloatText F) (stream : Bytes) : List (Json F) :=
  (readWhile (readDocument ft) stream.length stream).1

omit [CFloat F] in
/-- A document has a text, so there are no more documents than bytes. -/
theorem length_le_flatten (ft : FloatText F) (documents : List (Json F)) :
    documents.length ≤ ((documents.map (text ft)).flatten).length := by
  induction documents with
  | nil => exact Nat.le_refl _
  | cons j documents ih =>
      have hpos := List.length_pos_iff.mpr (Framing.text_ne_nil ft j)
      rw [List.map_cons, List.flatten_cons, List.length_append, List.length_cons]
      omega

variable {rt : Runtime F} {ft : FloatText F}

/-- Commands are the texts of documents. -/
theorem documents_of_commands (hdump : ∀ j s, rt.dump j = some s → s = text ft j)
    {sent : List Bytes} (h : ∀ s ∈ sent, s ∈ commands rt) :
    ∃ documents : List (Json F), (∀ j ∈ documents, j ∈ SelfDelimiting) ∧
      documents.map (text ft) = sent := by
  induction sent with
  | nil => exact ⟨[], fun _ hj => absurd hj List.not_mem_nil, rfl⟩
  | cons s sent ih =>
      obtain ⟨hs, hsent⟩ := List.forall_mem_cons.mp h
      obtain ⟨j, hj, rfl⟩ := command_text hdump hs
      obtain ⟨documents, hdocuments, rfl⟩ := ih hsent
      exact ⟨j :: documents, List.forall_mem_cons.mpr ⟨hj, hdocuments⟩, rfl⟩

omit [DecidableEq E] in
/-- What is read of one connection are the documents it carries. -/
theorem documentsOf_connection (hdump : ∀ j s, rt.dump j = some s → s = text ft j)
    {calls : List (Entry E)} {tcp : TcpSender E} (hstreams : Streams calls tcp)
    (hcommands : ∀ w ∈ calls, w.1.packet.data ∈ commands rt) (c : ℕ) :
    ∃ documents : List (Json F), documents.map (text ft) = carried calls c ∧
      documentsOf ft (bytesOn c calls) = documents.map (Json.reread ft.reread) := by
  have hcarried : ∀ s ∈ carried calls c, s ∈ commands rt := by
    intro s hs
    obtain ⟨w, hw, hdelivered⟩ := List.mem_filterMap.mp hs
    rw [delivered] at hdelivered
    split_ifs at hdelivered
    obtain rfl := Option.some.inj hdelivered
    exact hcommands w (List.mem_of_mem_filter hw)
  obtain ⟨documents, hdocuments, hmap⟩ := documents_of_commands hdump hcarried
  obtain ⟨tail, hbytes, hcut⟩ := carried_and_cut hstreams c
  refine ⟨documents, hmap, ?_⟩
  rw [documentsOf, hbytes, ← hmap, readWhile_documents ft hdocuments ?_ ?_]
  · -- what is left at the end is not all of a command
    rcases hcut with rfl | ⟨w, hw, -, n, hn, rfl⟩
    · exact Or.inl rfl
    · obtain ⟨j, hj, htext⟩ := command_text hdump (hcommands w hw)
      refine Or.inr ⟨j, hj, w.1.packet.data.drop n, ?_, ?_⟩
      · rw [Ne, List.drop_eq_nil_iff]
        omega
      · rw [List.take_append_drop, htext]
  · rw [List.length_append]
    exact (length_le_flatten ft documents).trans (Nat.le_add_right _ _)

/-- What is read of all connections, one after the other. -/
def readByPeers (ft : FloatText F) (link : Link E) : List (Json F) :=
  (List.range link.tcp.connections).flatMap fun c => documentsOf ft (bytesOn c link.calls)

omit [DecidableEq E] in
/-- The sender of `main` begins with at most one connection, which is empty. -/
theorem sender_inOrder (network : Network E) (config : AppConfig) (first : Answers E) :
    InOrder [] (sender network config first).1 :=
  (construct_inOrder _ _ _ _).set_unicast_target _

/-- What is read of the connections is what has been sent. -/
theorem readByPeers_eq (hdump : ∀ j s, rt.dump j = some s → s = text ft j) {network : Network E}
    {config : AppConfig} {first : Answers E} {log : List Entry} {s : Process (Link E)}
    (h : Run (ProcessStep (engine rt network config)) (initial (objects network config first))
      log s) :
    ∃ documents : List (Json F), documents.map (text ft) = (performed log).filterMap sentPacket ∧
      readByPeers ft s.state.sender = documents.map (Json.reread ft.reread) := by
  have hwired := wired_process rfl rfl h
  have hinOrder := inOrder_run (sender_inOrder network config first) hwired.run
  have hcommands : ∀ w ∈ s.state.sender.calls, w.1.packet.data ∈ commands rt :=
    fun w hw => (sends_of_process h (hwired.mem hw)).1
  -- connection by connection
  choose documents htexts hread using documentsOf_connection hdump hinOrder.streams hcommands
  refine ⟨(List.range s.state.sender.tcp.connections).flatMap documents, ?_, ?_⟩
  · rw [← deliveredBy_eq hwired.calls, ← hinOrder.order, List.map_flatMap]
    exact List.flatMap_congr fun c _ => htexts c
  · rw [readByPeers, List.map_flatMap]
    exact List.flatMap_congr fun c _ => hread c

/-- What is read of the bytes put on the connections, against what is acknowledged. -/
structure PeersRead (ft : FloatText F) (log : List Entry) (s : Process (Link E))
    (documents : List (Json F)) : Prop where
  read : readByPeers ft s.state.sender = documents.map (Json.reread ft.reread)
  accepted : documents.map (text ft) ++ (remaining s.runner).filterMap sentPacket =
    acceptedCommands (performed log ++ remaining s.runner)
  acknowledged : acceptedCommands (performed log) <+: documents.map (text ft)
  unopened : ∀ c, s.state.sender.tcp.connections ≤ c → bytesOn c s.state.sender.calls = []

/-- **What the peers read.** In every run, whatever the network does, the documents that
can be taken off the bytes put on the connections, one connection after the other, are
those of the commands acknowledged as accepted, each once and in their order, up to what
their numbers become. In the middle of a handler some of these commands are still to be
sent, and what has been acknowledged has been put on a connection before. Part of a
command is not read, and nothing is on a connection that was not opened. -/
theorem peers_read_accepted (hdump : ∀ j s, rt.dump j = some s → s = text ft j)
    {network : Network E} {config : AppConfig} {first : Answers E} {log : List Entry}
    {s : Process (Link E)}
    (h : Run (ProcessStep (engine rt network config)) (initial (objects network config first))
      log s) : ∃ documents, PeersRead ft log s documents := by
  obtain ⟨documents, htexts, hread⟩ := readByPeers_eq hdump h
  have hreported := reported_process h
  refine ⟨documents, hread, ?_, ?_, ?_⟩
  · rw [htexts, ← List.filterMap_append, hreported.eq]
  · rw [htexts]
    exact hreported.prefix (List.prefix_append _ _)
  · have hinOrder := inOrder_run (sender_inOrder network config first)
      (wired_process rfl rfl h).run
    exact fun c hc => bytesOn_fresh hinOrder.streams hc

/-! ## Whom the program talks to -/

/-- The destinations of a configuration: the default target, and the entries of the table. -/
def Configured (config : AppConfig) (host : Bytes) (port : UInt16) : Prop :=
  (host = config.tcp_default_target_ip ∧ port = config.tcp_default_target_port) ∨
    ∃ (id : UInt16) (destination : LradDestination),
      config.lrad_destinations[id]? = some destination ∧
      host = destination.ip_address ∧ port = destination.port

/-- The lookups are for destinations of the configuration, each is found once at most,
and the endpoint it was found at is the only one that is ever contacted for it. -/
structure Confined (config : AppConfig) (events : List (NetEvent E)) (calls : List (Entry E)) :
    Prop where
  asked : ∀ q ∈ events.filterMap Connections.asked, ∃ host port, Configured config host port ∧
    q = (host, decimal port.toNat)
  found : ∀ host port, (lookups events host port).length ≤ 1
  contacted : ∀ e ∈ events.filterMap Connections.contacted, ∃ host port,
    Configured config host port ∧ lookups events host port = [e]
  routed : ∀ w ∈ calls, (∃ destination,
      config.lrad_destinations[w.1.packet.destinationLradId]? = some destination ∧
      w.1.target_host = destination.ip_address ∧ w.1.target_port = destination.port) ∧
    ∀ e ∈ w.2.2.filterMap Connections.contacted,
      lookups events w.1.target_host w.1.target_port = [e]

omit [DecidableEq E] in
/-- What the construction looks up and contacts. -/
theorem sender_pinned (network : Network E) (config : AppConfig) (first : Answers E) :
    PinnedConstruct (sender network config first).1 config.tcp_default_target_ip
      config.tcp_default_target_port (sender network config first).2 := by
  have hport : UInt16.ofInt config.tcp_default_target_port.toNat =
      config.tcp_default_target_port := by
    have hlt := config.tcp_default_target_port.toNat_lt
    rw [UInt16.ofInt, Int.emod_eq_of_lt (Int.natCast_nonneg _) (by omega), Int.toNat_natCast,
      UInt16.ofNat_toNat]
  have h := construct_pinned network.message config.tcp_default_target_ip
    config.tcp_default_target_port.toNat first
  rw [hport] at h
  exact h.set_unicast_target _

omit [DecidableEq E] in
theorem lookups_of_cached {events : List (NetEvent E)} {log : List (Entry E)} {tcp : TcpSender E}
    (h : Pinned events log tcp) {host : Bytes} {port : UInt16} {e : E}
    (hcached : cached tcp host port = some e) : lookups events host port = [e] := by
  rw [h.found, hcached]
  rfl

/-- **Confinement.** In every run, whatever the network does, the program looks up
destinations of its configuration only, and finds each once at most. It connects and
writes to endpoints found in this way only, and everything sent for a destination goes
to the one endpoint that was found for it. -/
theorem confined {network : Network E} {config : AppConfig} {first : Answers E}
    {log : List Entry} {s : Process (Link E)}
    (h : Run (ProcessStep (engine rt network config)) (initial (objects network config first))
      log s) :
    Confined config (history (sender network config first).2 s.state.sender.calls)
      s.state.sender.calls := by
  have hwired := wired_process rfl rfl h
  have hconstruct := sender_pinned network config first
  have hpinned := pinned_run hconstruct.pinned hwired.run
  have hrouted : ∀ w ∈ s.state.sender.calls, ∃ destination,
      config.lrad_destinations[w.1.packet.destinationLradId]? = some destination ∧
      w.1.target_host = destination.ip_address ∧ w.1.target_port = destination.port :=
    fun w hw => (sends_of_process h (hwired.mem hw)).2
  have hconfigured : ∀ w ∈ s.state.sender.calls,
      Configured config w.1.target_host w.1.target_port := by
    intro w hw
    obtain ⟨destination, hdestination, hhost, hport⟩ := hrouted w hw
    exact Or.inr ⟨_, destination, hdestination, hhost, hport⟩
  -- an event is of the construction, or of a call
  have hevents : ∀ {α : Type} (f : NetEvent E → Option α) (a : α),
      a ∈ (history (sender network config first).2 s.state.sender.calls).filterMap f →
      a ∈ (sender network config first).2.filterMap f ∨
        ∃ w ∈ s.state.sender.calls, a ∈ w.2.2.filterMap f := by
    intro α f a ha
    rw [history, List.filterMap_append, List.mem_append, List.filterMap_flatMap] at ha
    exact ha.imp_right List.mem_flatMap.mp
  refine ⟨fun q hq => ?_, fun host port => ?_, fun e he => ?_, fun w hw => ⟨hrouted w hw, ?_⟩⟩
  · rcases hevents asked q hq with hq | ⟨w, hw, hq⟩
    · exact ⟨_, _, Or.inl ⟨rfl, rfl⟩, hconstruct.asked q hq⟩
    · exact ⟨_, _, hconfigured w hw, hpinned.asked w hw q hq⟩
  · rw [hpinned.found]
    exact Option.length_toList_le
  · rcases hevents contacted e he with he | ⟨w, hw, he⟩
    · -- the calls have not removed what the construction has found
      have hcached := cached_run hwired.run (hconstruct.contacts e he)
      exact ⟨_, _, Or.inl ⟨rfl, rfl⟩, lookups_of_cached hpinned hcached⟩
    · exact ⟨_, _, hconfigured w hw, lookups_of_cached hpinned (hpinned.contacts w hw e he)⟩
  · intro e he
    exact lookups_of_cached hpinned (hpinned.contacts w hw e he)

end

/-! ## One run -/

/-- A network with one endpoint. The second call breaks off after three bytes; before the
fourth the connection has been reset. -/
def breaking : Network ℕ where
  message _ := []
  answers k :=
    { Answers.found 5 with
      remote_endpoint :=
        if k = 3 then { value := 104, category := .system } else ErrorCode.none
      write := if k = 1 then .breaksAfter 3 { value := 32, category := .system } else .complete }

/-- A configuration with destinations for these LRADs. -/
def configuration (ids : List UInt16) : AppConfig where
  udp_listen_ip := str "127.0.0.1"
  udp_multicast_group := str "226.1.1.30"
  udp_multicast_port := 55000
  tcp_default_target_ip := str "127.0.0.1"
  tcp_default_target_port := 9000
  tcp_unicast_target_ip := str "127.0.0.1"
  ack_target_ip := str "226.1.1.43"
  ack_target_port := 55010
  lrad_destinations := Reference.table ids

/-- The program with this network and this configuration. -/
abbrev breakingEngine : ProxyEngine Float32 (Link ℕ) :=
  engine Reference.linux breaking (configuration [1, 2])

/-- Two blocks arrive, and then two more: the second command breaks off, and the last goes
out on a third connection. -/
theorem breaking_run : ∃ log s,
    Run (ProcessStep breakingEngine)
      (initial (objects breaking (configuration [1, 2]) (breaking.answers 0))) log s ∧
    s.runner = .idle ∧ (acceptedCommands (performed log)).length = 3 ∧
    s.state.sender.calls.length = 4 ∧ s.state.sender.tcp.connections = 3 := by
  obtain ⟨log, s, hrun, hidle, -, -, -, hview⟩ := @exists_run Float32 _ _ breakingEngine
    [packet, packet] (objects breaking (configuration [1, 2]) (breaking.answers 0)) _
    (fun p => ((acceptedCommands p.2).length, p.1.sender.calls.length,
      p.1.sender.tcp.connections)) (3, 4, 3)
    (List.forall_mem_cons.mpr ⟨receivable_packet, List.forall_mem_singleton.mpr receivable_packet⟩)
    (by decide +kernel)
  simp only [Prod.mk.injEq] at hview
  exact ⟨log, s, hrun, hidle, hview⟩

theorem dump_linux (j : Json Float32) (t : Bytes) (h : Reference.linux.dump j = some t) :
    t = text Reference.zeroText j := by
  have htext : (if j.utf8Ok then some (text Reference.zeroText j) else none) = some t := h
  split_ifs at htext
  exact (Option.some.inj htext).symm

/-- Three documents are read, and part of another is not. -/
theorem peers_read_accepted_breaking : ∃ (log : List Entry) (s : Process (Link ℕ))
    (documents : List (Json Float32)), documents.length = 3 ∧
    PeersRead Reference.zeroText log s documents := by
  obtain ⟨log, s, hrun, hidle, hlength, -, -⟩ := breaking_run
  obtain ⟨documents, hread⟩ := peers_read_accepted dump_linux hrun
  refine ⟨log, s, documents, ?_, hread⟩
  have hnothing : remaining s.runner = [] := by
    rw [hidle]
    rfl
  have haccepted := hread.accepted
  rw [hnothing, List.filterMap_nil, List.append_nil, List.append_nil] at haccepted
  rw [← hlength, ← haccepted, List.length_map]

/-- All calls are for destinations of the table. -/
theorem confined_breaking : ∃ s : Process (Link ℕ), s.state.sender.calls.length = 4 ∧
    Confined (configuration [1, 2])
      (history (Proxy.sender breaking (configuration [1, 2]) (breaking.answers 0)).2
        s.state.sender.calls) s.state.sender.calls := by
  obtain ⟨log, s, hrun, -, -, hcalls, -⟩ := breaking_run
  exact ⟨s, hcalls, confined hrun⟩

end CmsProxy.Proxy
