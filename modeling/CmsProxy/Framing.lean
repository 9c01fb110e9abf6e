/-
Commands on an undelimited stream.

`TcpSender::send` writes the text of a command and nothing else, so where one
command ends and the next begins is decided by the text alone. Every command is
an object, and an object's text ends at its own closing brace, whatever the
strings inside it contain: a brace in a string is between quotes, and a quote in
a string is escaped. The reader of `JsonText.lean` is the proof of that. It takes
one document off the front of a text (`reads_documents`), so the commands are a
prefix-free code, and a stream of them has one reading (`commands_told_apart`),
which the reader finds (`stream_read`).

That `dump()` writes this text is the assumption on `nlohmann::json`; how it
writes a float is left open, as in `JsonText.lean`.
-/
import CmsProxy.Commands
import CmsProxy.PrefixCode

set_option autoImplicit false

namespace CmsProxy.Framing

open BigEndian Interfaces JsonValue JsonText Converter Orders Commands PrefixCode
open InformationTheory (UniquelyDecodable)

/-! ## Documents as words -/

section

variable {F : Type}

/-- One document off the front of a text. -/
def readDocument (ft : FloatText F) (bs : Bytes) : Option (Json F × Bytes) :=
  readValue ft bs.length bs

/-- The documents that end by themselves. -/
def SelfDelimiting : Set (Json F) := fun j => isNumber j = false

theorem reads_documents (ft : FloatText F) :
    Reads (readDocument ft) SelfDelimiting (text ft) (Json.reread ft.reread) := by
  intro j hj rest
  -- the text alone is long enough for the reader to reach its end
  have hfuel : weight j ≤ (text ft j ++ rest).length := by
    rw [List.length_append]
    exact (weight_le_length ft j).trans (Nat.le_add_right _ _)
  apply readValue_text ft j _ rest hfuel
  intro hnumber
  exact absurd (hnumber.symm.trans hj) (by decide)

theorem text_ne_nil (ft : FloatText F) (j : Json F) : text ft j ≠ [] := by
  obtain ⟨b, bs, htext, -⟩ := text_head ft j
  rw [htext]
  exact List.cons_ne_nil b bs

/-- An assignment to a member does not make a number. -/
@[simp] theorem isNumber_set (k : Bytes) (v j : Json F) :
    isNumber (Json.set k v j) = isNumber j := by
  cases j <;> rfl

end

/-! ## Commands are objects -/

section

variable {F : Type} [CFloat F] {rt : Runtime F}

theorem cueing_selfDelimiting {cueingType : UInt16} {hasCartesianCoordinates : Bool}
    {azimuthDeg elevationDeg : F} {j : Json F}
    (h : cueing_order_json rt cueingType hasCartesianCoordinates azimuthDeg elevationDeg = .ok j) :
    isNumber j = false := by
  rw [cueing_order_json] at h
  obtain ⟨azimuth360, -, h⟩ := bind_eq_ok.mp h
  obtain ⟨elevation360, -, h⟩ := bind_eq_ok.mp h
  by_cases hmove : cueingType = 1
  · rw [if_pos hmove] at h
    rw [← Except.ok.inj h]
    simp only [isNumber_set]
    rfl
  · rw [if_neg hmove] at h
    obtain ⟨az, -, h⟩ := bind_eq_ok.mp h
    obtain ⟨el, -, h⟩ := bind_eq_ok.mp h
    rw [← Except.ok.inj h]
    simp only [isNumber_set]
    rfl

/-- All four handlers build objects. -/
theorem handler_selfDelimiting {k : Kind} {packet : RawPacket} {snapshot : SystemStateSnapshot}
    {r : HandlerResult F} (h : handlerOf F k rt packet snapshot [] = .ok r)
    {m : ConvertedMessage F} (hm : m ∈ r.1) : m.payload ∈ SelfDelimiting := by
  cases k with
  | change_configuration =>
      rw [handlerOf, handle_change_configuration_spec] at h
      obtain rfl := Except.ok.inj h
      obtain ⟨b, -, rfl⟩ := List.mem_map.mp hm
      rfl
  | cueing_order_cancellation =>
      rw [handlerOf, handle_cancellation_spec] at h
      obtain rfl := Except.ok.inj h
      split_ifs at hm
      · rw [List.mem_singleton.mp hm]
        rfl
      · exact absurd hm List.not_mem_nil
  | cueing_order =>
      rw [handlerOf, handle_cueing_spec] at h
      split_ifs at h
      · obtain ⟨message, hmessage, rfl⟩ := map_eq_ok.mp h
        rw [List.mem_singleton.mp hm]
        -- the `meta` part is assigned to a document that is an object already
        obtain ⟨angles, -, hmessage⟩ := bind_eq_ok.mp hmessage
        obtain ⟨j, hj, hmessage⟩ := bind_eq_ok.mp hmessage
        rw [← Except.ok.inj hmessage]
        exact (isNumber_set _ _ j).trans (cueing_selfDelimiting hj)
      · obtain rfl := Except.ok.inj h
        exact absurd hm List.not_mem_nil
  | emission_control =>
      rw [handlerOf, handle_emission_control_spec] at h
      obtain rfl := Except.ok.inj h
      split_ifs at hm
      · rw [List.mem_singleton.mp hm]
        rfl
      · exact absurd hm List.not_mem_nil

/-- The texts of the commands `convert` produces, over all datagrams. -/
def commands (rt : Runtime F) : Set Bytes :=
  fun s => ∃ input snapshot r, convert rt input snapshot = .ok r ∧ ∃ p ∈ r.packets, p.data = s

/-- A command is the text of an object. -/
theorem command_text {ft : FloatText F} (hdump : ∀ j s, rt.dump j = some s → s = text ft j)
    {s : Bytes} (hs : s ∈ commands rt) : ∃ j ∈ SelfDelimiting, text ft j = s := by
  obtain ⟨input, snapshot, r, hr, p, hp, rfl⟩ := hs
  obtain ⟨k, hk, -⟩ := kind_of_accepted hr (List.ne_nil_of_mem hp)
  obtain ⟨messages, hhandler, hpackets⟩ := convert_messages hk hr
  obtain ⟨m, hm, hserialize⟩ := exists_of_forall₂ hpackets.flip hp
  obtain ⟨htext, -⟩ := serialize_eq_ok.mp hserialize
  exact ⟨m.payload, handler_selfDelimiting hhandler hm, (hdump _ _ htext).symm⟩

/-! ## The stream -/

/-- **Commands can be told apart.** If `dump()` writes compact JSON, two rows of
commands with one concatenation are one row, and no command is a proper prefix of
another. -/
theorem commands_told_apart (rt : Runtime F) (ft : FloatText F)
    (hdump : ∀ j s, rt.dump j = some s → s = text ft j) :
    (∀ sent sent' : List Bytes, (∀ s ∈ sent, s ∈ commands rt) → (∀ s ∈ sent', s ∈ commands rt) →
      sent.flatten = sent'.flatten → sent = sent') ∧
    ∀ s ∈ commands rt, ∀ s' ∈ commands rt, s <+: s' → s = s' := by
  have hsub : commands rt ⊆ text ft '' SelfDelimiting := fun _ hs => command_text hdump hs
  have hfree : PrefixFree (commands rt) := (reads_documents ft).prefixFree.mono hsub
  have hnil : [] ∉ commands rt := by
    intro hmem
    obtain ⟨j, -, htext⟩ := hsub hmem
    exact text_ne_nil ft j htext
  exact ⟨hfree.uniquelyDecodable hnil, hfree⟩

/-- **A receiver.** The reader splits a stream of commands into their documents:
those that were written, up to what their numbers become. -/
theorem stream_read (ft : FloatText F) (hdump : ∀ j s, rt.dump j = some s → s = text ft j)
    {sent : List Bytes} (hsent : ∀ s ∈ sent, s ∈ commands rt) :
    ∃ documents : List (Json F), sent = documents.map (text ft) ∧
      readAll (readDocument ft) sent.length sent.flatten =
        some (documents.map (Json.reread ft.reread)) := by
  -- the documents exist one by one
  obtain ⟨documents, hdocuments, rfl⟩ : ∃ documents : List (Json F),
      (∀ j ∈ documents, j ∈ SelfDelimiting) ∧ documents.map (text ft) = sent := by
    induction sent with
    | nil => exact ⟨[], fun _ hj => absurd hj List.not_mem_nil, rfl⟩
    | cons s sent ih =>
        obtain ⟨j, hj, rfl⟩ := command_text hdump (hsent s List.mem_cons_self)
        obtain ⟨js, hjs, rfl⟩ := ih fun s hs => hsent s (List.mem_cons_of_mem _ hs)
        exact ⟨j :: js, List.forall_mem_cons.mpr ⟨hj, hjs⟩, rfl⟩
  refine ⟨documents, rfl, ?_⟩
  exact (reads_documents ft).readAll_flatten (fun j _ => text_ne_nil ft j) hdocuments
    (le_of_eq (List.length_map _).symm)

end

/-- On Linux, with the texts of `JsonText.lean`: there is a command, and it is a
proper prefix of none. -/
theorem commands_told_apart_linux : ∃ s ∈ commands Reference.linux,
    ∀ s' ∈ commands Reference.linux, s <+: s' → s = s' := by
  have hdump : ∀ j s, Reference.linux.dump j = some s → s = text Reference.zeroText j := by
    intro j s h
    have htext : (if j.utf8Ok then some (text Reference.zeroText j) else none) = some s := h
    split_ifs at htext
    exact (Option.some.inj htext).symm
  obtain ⟨r, hr, hlength⟩ : ∃ r, convert Reference.linux Reference.twoBlocks {} = .ok r ∧
      r.packets.length = 2 := exists_ok_of_map (by decide +kernel)
  obtain ⟨p, hp⟩ := List.exists_mem_of_length_pos (hlength ▸ two_pos)
  have hcommand : p.data ∈ commands Reference.linux := ⟨_, _, r, hr, p, hp, rfl⟩
  exact ⟨p.data, hcommand,
    (commands_told_apart Reference.linux Reference.zeroText hdump).2 p.data hcommand⟩

end CmsProxy.Framing
