/-
From the script to the peers.

`RoundTrip.lean` follows the datagram of one run of the script through the converter;
`Proxy.lean` and `Verdicts.lean` follow commands through the program and onto the
network. Put together: when the script is run a number of times, for LRADs in the table,
and no lookup, no connection and no write fails, then what is put on the connections are
documents that hold the arguments of the runs, one for each run that was no cancellation,
in the order in which the datagrams arrived; and every run is acknowledged as accepted
(`orders_read`).
-/
import CmsProxy.RoundTrip
import CmsProxy.Verdicts

set_option autoImplicit false

namespace CmsProxy.EndToEnd

open BigEndian Interfaces JsonValue JsonText Converter Orders Engine Answers Encoder RoundTrip
open Runs
open Config (AppConfig)
open CueingBounds (Atan2Range)
open EventLoop Shutdown Interleaving
open Framing (readDocument)
open Main hiding Step
open Proxy (engine objects configuration readByPeers readByPeers_eq dump_linux)
open Verdicts (Healthy admits commandsFor verdicts verdicts_run commands_run flawless
  healthy_flawless)
open Wire

/-! ## One run of the script -/

/-- A run of the script: its arguments, and the clock each time it is read. -/
structure ScriptRun where
  args : Args
  now : Clock
  later : Clock

/-- It cancels a cueing order. -/
def ScriptRun.cancels (run : ScriptRun) : Bool := run.args.message_id == 1679949826

/-- The packet of the datagram a run has made, with a text that is valid UTF-8. -/
structure SentBy (run : ScriptRun) (input : RawPacket) : Prop where
  data : ∃ data, Encoder.main run.args run.now run.later = some data ∧ input = { data := data }
  text : run.args.message_id = 1679949828 →
    TextFits run.args.free_text_message ∨ validUtf8 (sentText run.args) = true

/-- The document holds the arguments. -/
inductive Holds (rt : Runtime Float32) (args : Args) (j : Json Float32) : Prop
  | change_configuration : args.message_id = 1679949825 →
      Json.at? [str "param", str "mode"] j =
        some (.string (if args.configuration = 0 then str "RELEASE" else str "REQ")) →
      Holds rt args j
  | cueing_order : args.message_id = 1679949827 → CueingDocument rt args j → Holds rt args j
  | emission_control : args.message_id = 1679949828 → EmissionDocument args j → Holds rt args j

/-- The payload, by the message. -/
inductive Built (args : Args) (now : Clock) (payload : Bytes) : Prop
  | change_configuration : args.message_id = 1679949825 →
      struct_pack [(4, 0), (2, args.lrad_id), (2, args.configuration)] = some payload →
      Built args now payload
  | cancellation : args.message_id = 1679949826 →
      struct_pack [(4, 0), (2, args.lrad_id)] = some payload → Built args now payload
  | cueing_order : args.message_id = 1679949827 →
      build_cueing_order_payload args now = some payload → Built args now payload
  | emission_control : args.message_id = 1679949828 →
      build_emission_control_payload args = some payload → Built args now payload

theorem built_of_main_payload {args : Args} {now : Clock} {payload : Bytes}
    (h : main_payload args now = some payload) : Built args now payload := by
  unfold main_payload at h
  split_ifs at h with hcueing hemission
  · exact .cueing_order hcueing h
  · exact .emission_control hemission h
  · obtain ⟨builder, hbuilder, hpayload⟩ := Option.bind_eq_some_iff.mp h
    unfold MESSAGES at hbuilder
    split_ifs at hbuilder with hconfiguration hcancellation
    · obtain rfl := Option.some.inj hbuilder
      exact .change_configuration hconfiguration hpayload
    · obtain rfl := Option.some.inj hbuilder
      exact .cancellation hcancellation hpayload

section

variable {rt : Runtime Float32}

/-- What becomes of the datagram of a run: a packet, and a document that holds the
arguments unless the run is a cancellation. -/
theorem converted_run (hjson : rt.JsonLaws) (hatan : Atan2Range rt) (hfuel : 2 ≤ rt.fuel)
    {run : ScriptRun} {input : RawPacket} (h : SentBy run input) :
    ∃ j, Sends rt input.data {} (.ofInt run.args.lrad_id) j ∧
      (run.cancels = true ↔ messageKind input.data = some .cueing_order_cancellation) ∧
      (run.cancels = false → Holds rt run.args j) := by
  obtain ⟨⟨data, hdata, rfl⟩, htext⟩ := h
  unfold Encoder.main at hdata
  obtain ⟨payload, hpayload, hdata⟩ := Option.bind_eq_some_iff.mp hdata
  obtain ⟨header, hheader, hdata⟩ := Option.bind_eq_some_iff.mp hdata
  obtain rfl := Option.some.inj hdata
  have hlen := (header_spec hheader).1
  have hk := messageKind_datagram hheader
  rw [ScriptRun.cancels]
  cases built_of_main_payload hpayload with
  | change_configuration hid hbuilt =>
      rw [hid] at hk ⊢
      obtain ⟨j, hsends, hmode⟩ :=
        @change_configuration_sends rt _ _ {} hjson _ _ hlen hk hbuilt
      refine ⟨j, hsends, ?_, fun _ => .change_configuration hid hmode⟩
      rw [hk]
      decide
  | cancellation hid hbuilt =>
      rw [hid] at hk ⊢
      obtain ⟨j, hsends⟩ := @cancellation_sends rt _ _ {} hjson _ hlen hk hbuilt
      refine ⟨j, hsends, ?_, fun h => absurd h (by decide)⟩
      rw [hk]
      decide
  | cueing_order hid hbuilt =>
      rw [hid] at hk ⊢
      obtain ⟨j, hsends, hdoc⟩ :=
        @cueing_sends rt {} hjson hatan hfuel _ _ hk (cueing_words hlen hbuilt)
      refine ⟨j, hsends, ?_, fun _ => .cueing_order hid hdoc⟩
      rw [hk]
      decide
  | emission_control hid hbuilt =>
      have hfits := htext hid
      rw [hid] at hk ⊢
      obtain ⟨j, hsends, hdoc⟩ := @emission_sends rt _ _ {} hjson _ hlen hk hbuilt hfits
      refine ⟨j, hsends, ?_, fun _ => .emission_control hid hdoc⟩
      rw [hk]
      decide

variable {ft : FloatText Float32} {table : RoutingTable}

/-- The command that goes out for it, and its verdict. -/
theorem delivered_run (hjson : rt.JsonLaws) (hatan : Atan2Range rt) (hfuel : 2 ≤ rt.fuel)
    (hdump : ∀ j s, rt.dump j = some s → s = text ft j) {run : ScriptRun} {input : RawPacket}
    (h : SentBy run input) (hroute : .ofInt run.args.lrad_id ∈ table) :
    (ordersOf input.data).map (admits table input.data) = [true] ∧
      ∃ documents : List (Json Float32), commandsFor rt table input = documents.map (text ft) ∧
        List.Forall₂ (fun run j => Holds rt run.args j) ([run].filter fun run => !run.cancels)
          documents := by
  obtain ⟨j, ⟨r, p, hr, hpackets, hdest, htext, -⟩, hcancels, hholds⟩ :=
    converted_run hjson hatan hfuel h
  obtain ⟨⟨data, -, rfl⟩, -⟩ := h
  have hconverted := convert_ok hr
  have horders := hconverted.packets
  rw [hpackets] at horders
  obtain ⟨o, hcarries, horders⟩ : ∃ o, CarriesText rt data o p ∧ ordersOf data = [o] := by
    cases horders' : ordersOf data with
    | nil => rw [horders'] at horders; exact nomatch horders
    | cons o os =>
        rw [horders'] at horders
        obtain ⟨hcarries, hrest⟩ := List.forall₂_cons.mp horders
        rw [List.forall₂_nil_right_iff.mp hrest]
        exact ⟨o, hcarries, rfl⟩
  have hmem : o.lradId ∈ table := by
    rw [← hcarries.destination, hdest]
    exact hroute
  refine ⟨?_, ?_⟩
  · rw [horders, List.map_singleton, admits, decide_eq_true hmem, Bool.or_true]
  · rw [commandsFor, hr]
    cases hcancel : run.cancels with
    | true =>
        refine ⟨[], ?_, ?_⟩
        · simp only [hconverted.ack_only.mpr (hcancels.mp hcancel), if_true]
          rfl
        · simp [hcancel]
    | false =>
        have hack : r.ack_only = false := by
          rw [Bool.eq_false_iff]
          intro hack
          rw [hcancels.mpr (hconverted.ack_only.mp hack)] at hcancel
          exact absurd hcancel.symm Bool.false_ne_true
        refine ⟨[j], ?_, ?_⟩
        · simp [hack, hpackets, hdest, hroute, hdump _ _ htext]
        · simpa [hcancel] using hholds hcancel

/-! ## All of them -/

theorem delivered_runs (hjson : rt.JsonLaws) (hatan : Atan2Range rt) (hfuel : 2 ≤ rt.fuel)
    (hdump : ∀ j s, rt.dump j = some s → s = text ft j) {runs : List ScriptRun}
    {ins : List RawPacket} (h : List.Forall₂ SentBy runs ins)
    (hroute : ∀ run ∈ runs, .ofInt run.args.lrad_id ∈ table) :
    (ins.flatMap fun input => (ordersOf input.data).map (admits table input.data)) =
        runs.map (fun _ => true) ∧
      ∃ documents : List (Json Float32),
        ins.flatMap (commandsFor rt table) = documents.map (text ft) ∧
        List.Forall₂ (fun run j => Holds rt run.args j) (runs.filter fun run => !run.cancels)
          documents := by
  induction h with
  | nil => exact ⟨rfl, [], rfl, .nil⟩
  | @cons run input runs ins hrun _ ih =>
      obtain ⟨hhead, htail⟩ := List.forall_mem_cons.mp hroute
      obtain ⟨hverdict, document, hcommand, hholds⟩ :=
        delivered_run hjson hatan hfuel hdump hrun hhead
      obtain ⟨hverdicts, documents, hcommands, hall⟩ := ih htail
      refine ⟨?_, document ++ documents, ?_, ?_⟩
      · rw [List.flatMap_cons, hverdict, hverdicts]
        rfl
      · rw [List.flatMap_cons, hcommand, hcommands, List.map_append]
      · rw [← List.singleton_append, List.filter_append]
        exact List.rel_append hholds hall

/-- What is read of documents is decided by their texts. -/
theorem map_reread_of_text {documents documents' : List (Json Float32)}
    (h : documents.map (text ft) = documents'.map (text ft)) :
    documents.map (Json.reread ft.reread) = documents'.map (Json.reread ft.reread) := by
  have hread : ∀ documents : List (Json Float32), documents.map (Json.reread ft.reread) =
      (documents.map (text ft)).map fun s => ((readDocument ft s).map Prod.fst).getD .null := by
    intro documents
    rw [List.map_map]
    refine List.map_congr_left fun j _ => ?_
    have hvalue := readValue_text ft j (text ft j).length [] (weight_le_length ft j)
      fun _ => nofun
    rw [List.append_nil] at hvalue
    rw [Function.comp_apply, readDocument, hvalue]
    rfl
  rw [hread, hread, h]

variable {E : Type} [DecidableEq E] {network : Network E} {config : AppConfig}
variable {first : Tcp.Answers E}

/-- **From end to end.** Let what the program has taken up be the datagrams of runs of
the script for LRADs in the table, with texts that fit, and let no lookup, no connection
and no write fail. Then there are documents that hold the arguments of the runs, one for
each run that is no cancellation and in their order, and each run is acknowledged as
accepted. The documents that can be taken off the bytes put on the connections are
these, up to what their numbers become as texts, short of those that the handler in
progress has still to send. -/
theorem orders_read (hjson : rt.JsonLaws) (hatan : Atan2Range rt) (hfuel : 2 ≤ rt.fuel)
    (hdump : ∀ j s, rt.dump j = some s → s = text ft j)
    (hhealthy : ∀ k, Healthy (network.answers k)) {log : List Shutdown.Entry}
    {s : Process (Link E)}
    (h : Run (ProcessStep (engine rt network config)) (initial (objects network config first))
      log s) {runs : List ScriptRun}
    (hscript : List.Forall₂ SentBy runs (processed log ++ taken s.runner))
    (hroute : ∀ run ∈ runs, .ofInt run.args.lrad_id ∈ config.lrad_destinations) :
    (∃ read pending : List (Json Float32),
      List.Forall₂ (fun run j => Holds rt run.args j) (runs.filter fun run => !run.cancels)
        (read ++ pending) ∧
      readByPeers ft s.state.sender = read.map (Json.reread ft.reread) ∧
      pending.map (text ft) = (remaining s.runner).filterMap sentPacket) ∧
    verdicts (performed log ++ remaining s.runner) = runs.map fun _ => true := by
  obtain ⟨history, st, hrun, hfollows⟩ := follows_run h 0
  have hverdicts := @verdicts_run E _ Float32 _ (engine rt network config) network rfl hhealthy
    _ _ _ hrun
  have hcommands := @commands_run E _ Float32 _ (engine rt network config) network rfl hhealthy
    _ _ _ hrun
  rw [hfollows.inputs, hfollows.effects] at hverdicts hcommands
  obtain ⟨hadmitted, documents, hdocuments, hholds⟩ :=
    delivered_runs hjson hatan hfuel hdump hscript hroute
  refine ⟨?_, hverdicts.trans hadmitted⟩
  -- the documents, as far as they have been sent
  have hall : documents.map (text ft) = (performed log).filterMap sentPacket ++
      (remaining s.runner).filterMap sentPacket := by
    rw [← hdocuments, ← List.filterMap_append]
    exact hcommands.symm
  obtain ⟨read, pending, rfl, hread, hpending⟩ := List.map_eq_append_iff.mp hall
  obtain ⟨sent, hsent, hpeers⟩ := readByPeers_eq hdump h
  exact ⟨read, pending, hholds, hpeers.trans (map_reread_of_text (hsent.trans hread.symm)),
    hpending⟩

/-- The program can be handed the datagrams of any runs of the script. -/
theorem run_of_script {S : Type} {eng : ProxyEngine Float32 S} (hjson : eng.rt.JsonLaws)
    (hatan : Atan2Range eng.rt) (hfuel : 2 ≤ eng.rt.fuel) {runs : List ScriptRun}
    {ins : List RawPacket} (h : List.Forall₂ SentBy runs ins)
    (hinputs : ∀ input ∈ ins, Receivable input) (st₀ : EngineState S) :
    ∃ log s, Run (ProcessStep eng) (initial st₀) log s ∧ s.runner = .idle ∧
      processed log = ins := by
  have hengine : ∃ history st, Run (Step eng) st₀ history st ∧ inputs history = ins := by
    clear hinputs
    induction h generalizing st₀ with
    | nil => exact ⟨[], st₀, .nil, rfl⟩
    | @cons run input runs ins hrun _ ih =>
        obtain ⟨j, ⟨r, p, hr, -⟩, -⟩ := converted_run hjson hatan hfuel hrun
        obtain ⟨⟨data, -, rfl⟩, -⟩ := hrun
        obtain ⟨st, effects, hstep, -⟩ := @processPacket_of_convert Float32 _ _ eng 0
          { data := data } st₀ r ((convert_snapshot _ _).trans hr)
        have hfirst : Step eng st₀ (0, { data := data }) effects st := hstep
        obtain ⟨history, st', hrest, rfl⟩ := ih st
        exact ⟨_, st', (Run.single hfirst).append hrest, rfl⟩
  obtain ⟨history, st, hrun, rfl⟩ := hengine
  obtain ⟨log, s, hlog, hs, hreceived, -⟩ := run_received hrun hinputs
  exact ⟨log, s, hlog, hs.runner, (processed_of_receiving hs hlog).trans hreceived⟩

end

/-! ## Three runs -/

/-- A run of the script at time 0. -/
def atZero (args : Args) : ScriptRun := ⟨args, ⟨0, 0⟩, ⟨0, 0⟩⟩

theorem receivable_of_length {args : Args} {n : ℕ} (hn : n ≤ 4096)
    (hlength : (Encoder.main args ⟨0, 0⟩ ⟨0, 0⟩).map List.length = some n)
    (htext : args.message_id = 1679949828 → TextFits args.free_text_message) :
    ∃ input, SentBy (atZero args) input ∧ Receivable input := by
  obtain ⟨data, hdata, rfl⟩ := Option.map_eq_some_iff.mp hlength
  exact ⟨{ data := data }, ⟨⟨data, hdata, rfl⟩, fun hid => Or.inl (htext hid)⟩, rfl, hn⟩

/-- The cueing order is called off. -/
def callOff : Args := { message_id := 1679949826 }

/-- The script is run with a text, with a cueing order, and with its cancellation. -/
theorem orders_read_three : ∃ (log : List Shutdown.Entry) (s : Process (Link ℕ))
    (documents : List (Json Float32)),
    List.Forall₂ (fun run j => Holds Reference.linux run.args j) [atZero halt, atZero aim]
      documents ∧
    readByPeers Reference.zeroText s.state.sender =
      documents.map (Json.reread Reference.zeroText.reread) ∧
    verdicts (performed log ++ remaining s.runner) = [true, true, true] := by
  obtain ⟨first, hfirst, hfits⟩ := @receivable_of_length halt 838 (by decide) (by decide +kernel)
    fun _ => ⟨by decide, by decide⟩
  obtain ⟨second, hsecond, hfits'⟩ := @receivable_of_length aim 64 (by decide) (by decide +kernel)
    fun h => absurd h (by decide)
  obtain ⟨third, hthird, hfits''⟩ := @receivable_of_length callOff 22 (by decide)
    (by decide +kernel) fun h => absurd h (by decide)
  have hscript : List.Forall₂ SentBy [atZero halt, atZero aim, atZero callOff]
      [first, second, third] := .cons hfirst (.cons hsecond (.cons hthird .nil))
  obtain ⟨log, s, hrun, hidle, hprocessed⟩ := @run_of_script _
    (engine Reference.linux flawless (configuration [1, 2])) Reference.linux_jsonLaws
    Reference.linux_atan2Range (by decide) _ _ hscript
    (List.forall_mem_cons.mpr ⟨hfits, List.forall_mem_cons.mpr
      ⟨hfits', List.forall_mem_singleton.mpr hfits''⟩⟩)
    (objects flawless (configuration [1, 2]) (flawless.answers 0))
  have hnothing : taken s.runner = [] ∧ remaining s.runner = [] := by
    rw [hidle]
    exact ⟨rfl, rfl⟩
  rw [← hprocessed, ← List.append_nil (processed log), ← hnothing.1] at hscript
  obtain ⟨⟨read, pending, hholds, hread, hpending⟩, hverdicts⟩ :=
    orders_read Reference.linux_jsonLaws Reference.linux_atan2Range (by decide) dump_linux
      healthy_flawless hrun hscript (by decide +kernel)
  rw [hnothing.2, List.filterMap_nil, List.map_eq_nil_iff] at hpending
  rw [hpending, List.append_nil] at hholds
  exact ⟨log, s, read, hholds, hread, hverdicts⟩

end CmsProxy.EndToEnd
