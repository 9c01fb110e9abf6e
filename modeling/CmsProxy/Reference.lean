/-
A runtime in which the assumptions about the outside hold.

The theorems about the converter and the engine assume that `dump` and `parse`
obey `Runtime.JsonLaws`, and some that `atan2` stays within its range. These
assumptions are not empty: with the text of `JsonText.lean` as the JSON library,
every runtime obeys the laws (`jsonLaws_withText`). On top of that stand the
runtime, the sender and the datagrams that concrete runs are shown on. The
sender plays back a list of outcomes, so that a run can be shown with any
pattern of failures. A runtime whose floats are written out takes the texts of
`scaledText`.
-/
import CmsProxy.JsonText
import CmsProxy.CueingBounds
import CmsProxy.Engine

set_option autoImplicit false

namespace CmsProxy.Reference

open BigEndian Interfaces JsonValue JsonText Decimal Converter Engine Runs
open CueingMath (kPi)

/-! ## JSON -/

section

variable {F : Type}

/-- A runtime with its JSON functions replaced by the reader and writer of
`JsonText`. -/
def withText (ft : FloatText F) (rt : Runtime F) : Runtime F :=
  { rt with
    dump := fun j => if j.utf8Ok then some (text ft j) else none
    parse := parse ft
    floatBack := ft.reread }

theorem jsonLaws_withText (ft : FloatText F) (rt : Runtime F) : (withText ft rt).JsonLaws where
  dump_eq_none j := by
    show (if j.utf8Ok then some (text ft j) else none) = none ↔ _
    cases j.utf8Ok <;> simp only [Bool.false_eq_true, if_true, if_false, reduceCtorEq]
  parse_dump j s _ h := by
    have hdump : (if j.utf8Ok then some (text ft j) else none) = some s := h
    split_ifs at hdump
    rw [← Option.some.inj hdump]
    exact parse_text ft j

end

/-! ## Floats as text -/

/-- The integer a numeral with or without a sign denotes. -/
def readInteger : Bytes → ℤ
  | [] => 0
  | b :: ds => if b = 45 then -(readDecimal ds : ℤ) else readDecimal (b :: ds)

theorem readInteger_integerText (v : ℤ) : readInteger (integerText v) = v := by
  unfold integerText
  by_cases hv : v < 0
  · rw [if_pos hv, readInteger, if_pos rfl, readDecimal_decimal]
    omega
  · obtain ⟨b, ds, hd, hb⟩ := decimal_ne_minus v.toNat
    have hread := readDecimal_decimal v.toNat
    rw [if_neg hv]
    rw [hd] at hread ⊢
    rw [readInteger, if_neg hb, hread]
    omega

/-- There is no exponent in an integer. -/
theorem ne_exponent_of_mem {v : ℤ} {b : UInt8} (hb : b ∈ integerText v) : b ≠ 101 := by
  have hdigit : ∀ n, b ∈ decimal n → b ≠ 101 := by
    rintro n hn rfl
    exact absurd (isDigit_decimal n 101 hn) (by decide)
  unfold integerText at hb
  split_ifs at hb
  · rcases List.mem_cons.mp hb with rfl | hb
    · decide
    · exact hdigit _ hb
  · exact hdigit _ hb

/-- A number as a text: so many millionths, with the exponent -6. What has no
millionths is written as `null`. -/
def scaledText {F : Type} (scaled : F → Option ℤ) (unscaled : ℤ → F) : FloatText F where
  write a := (scaled a).map fun n => integerText n ++ str "e-6"
  read t := some (unscaled (readInteger (t.takeWhile (· ≠ 101))))
  back a := unscaled ((scaled a).getD 0)
  token a t h := by
    obtain ⟨n, -, rfl⟩ := Option.map_eq_some_iff.mp h
    constructor
    · intro b hb
      rcases List.mem_append.mp hb with hdigit | hexp
      · exact isNumberByte_integerText _ b hdigit
      · have hbytes : (str "e-6").all isNumberByte = true := by decide
        exact List.all_eq_true.mp hbytes b hexp
    · rw [isFloatToken, List.any_append, Bool.or_eq_true]
      exact Or.inr (by decide)
  read_write a t h := by
    obtain ⟨n, hn, rfl⟩ := Option.map_eq_some_iff.mp h
    have hdigits : ∀ b ∈ integerText n, decide (b ≠ 101) = true := by
      intro b hb
      exact decide_eq_true (ne_exponent_of_mem hb)
    have htake : (integerText n ++ str "e-6").takeWhile (· ≠ 101) = integerText n := by
      have hexp : (str "e-6").takeWhile (· ≠ 101) = [] := by decide
      rw [List.takeWhile_append_of_pos hdigits, hexp, List.append_nil]
    rw [htake, readInteger_integerText, hn, Option.getD_some]

/-! ## A runtime on Linux -/

/-- The text of the one float the runs below write. -/
def zeroText : FloatText Float32 where
  write _ := some (str "0.0")
  read _ := some (Float32.ofBits 0)
  back _ := Float32.ofBits 0
  token _ t h := by
    rw [← Option.some.inj h]
    decide +kernel
  read_write _ _ _ := rfl

/-- Angles are only ever taken of points on the positive x axis in these runs. -/
def linux : Runtime Float32 := withText zeroText {
  sqrt := Float32.sqrt
  atan2 := fun _ _ => Float32.ofBits 0
  lround := CFloat.truncate
  dump := fun _ => none
  parse := fun _ => none
  floatBack := some
  asio := .posix
  fuel := 2 }

theorem linux_jsonLaws : linux.JsonLaws := jsonLaws_withText _ _

theorem linux_atan2Range : CueingBounds.Atan2Range linux := by
  intro y x
  show _ ∨ (-kPi Float32 ≤ Float32.ofBits 0 ∧ Float32.ofBits 0 ≤ kPi Float32)
  exact Or.inr (by decide)

/-! ## Senders, tables, datagrams -/

/-- A sender that plays back a list of outcomes, and succeeds after its end. -/
def playback : ISender (List SendResult) where
  send _ _ _ script :=
    match script with
    | [] => ({ success := true }, [])
    | result :: script => (result, script)

/-- A destination for each of the given LRAD ids. -/
def table (ids : List UInt16) : RoutingTable :=
  ids.foldl (fun t id => t.insert id { id := id, ip_address := str "10.0.0.1", port := 9000 }) ∅

/-- An engine that knows these LRADs. -/
def engine (ids : List UInt16) : ProxyEngine Float32 (List SendResult) where
  rt := linux
  sender_ := playback
  lrad_config_ := table ids

/-- A datagram whose header declares the payload it carries. -/
def datagram (messageId : UInt32) (payload : Bytes) : RawPacket where
  data := toBytes 4 messageId.toNat ++ toBytes 4 payload.length ++ toBytes 8 0 ++ payload

/-- The bytes of a change-configuration block, or of another order's first fields. -/
def orderBytes (actionId : ℕ) (lradId word : ℕ) : Bytes :=
  toBytes 4 actionId ++ toBytes 2 lradId ++ toBytes 2 word

/-- A cueing order with a position in space, given by the bits of its coordinates. -/
def position (cueingType x y z : ℕ) : Bytes :=
  (datagram 1679949827 (orderBytes 7 1 cueingType ++ toBytes 12 0 ++
    toBytes 2 2 ++ toBytes 2 0 ++ toBytes 4 x ++ toBytes 4 y ++ toBytes 4 z)).data

/-- Two change-configuration blocks, for the LRADs 1 and 2. -/
def twoBlocks : RawPacket := datagram 1679949825 (orderBytes 7 1 1 ++ orderBytes 8 2 1)

/-- What is seen of a run of one datagram, from a fresh state. -/
theorem run_one {eng : ProxyEngine Float32 (List SendResult)} {input : RawPacket}
    {script : List SendResult} {α : Type} {view : EngineState (List SendResult) × List Effect → α}
    {a : α} (h : (processPacket eng 0 input { sender := script }).toOption.map view = some a) :
    ∃ st effects, Run (Step eng) { sender := script } [((0, input), effects)] st ∧
      view (st, effects) = a := by
  obtain ⟨⟨st, effects⟩, hstep, hview⟩ := exists_ok_of_map h
  exact ⟨st, effects, .snoc .nil hstep, hview⟩

/-- What a row of datagrams does, one after the other, while the clock stands at 0. -/
def processAll {F : Type} [CFloat F] {S : Type} (eng : ProxyEngine F S) :
    List RawPacket → EngineState S → Except Fault (EngineState S × List Effect)
  | [], st => .ok (st, [])
  | input :: ins, st => do
      let (st, effects) ← processPacket eng 0 input st
      let (st, more) ← processAll eng ins st
      return (st, effects ++ more)

theorem run_processAll {F : Type} [CFloat F] {S : Type} {eng : ProxyEngine F S}
    {ins : List RawPacket} {st₀ st : EngineState S} {effects : List Effect}
    (h : processAll eng ins st₀ = .ok (st, effects)) :
    ∃ history, Run (Step eng) st₀ history st ∧ history.map (fun e => e.1.2) = ins ∧
      history.flatMap (fun e => e.2) = effects := by
  induction ins generalizing st₀ effects with
  | nil =>
      obtain ⟨rfl, rfl⟩ := Prod.mk.inj (Except.ok.inj h)
      exact ⟨[], .nil, rfl, rfl⟩
  | cons input ins ih =>
      cases hfirst : processPacket eng 0 input st₀ with
      | error e =>
          rw [processAll, hfirst] at h
          exact nomatch h
      | ok first =>
          cases hrest : processAll eng ins first.1 with
          | error e =>
              rw [processAll, hfirst] at h
              simp only [ok_bind, hrest] at h
              exact nomatch h
          | ok rest =>
              rw [processAll, hfirst] at h
              simp only [ok_bind, hrest] at h
              obtain ⟨rfl, rfl⟩ := Prod.mk.inj (Except.ok.inj h)
              obtain ⟨history, hrun, rfl, hmore⟩ := ih hrest
              have hstep : Step eng st₀ (0, input) first.2 first.1 := hfirst
              refine ⟨[((0, input), first.2)] ++ history, (Run.single hstep).append hrun, rfl, ?_⟩
              rw [List.flatMap_append, List.flatMap_singleton, hmore]

end CmsProxy.Reference
