import PicoSomfy.MqttClient

/-!
# What the subscribers are called with

The state of the assembly outlives a message, so delivery depends on the order of
messages. It is right in every run in which no fragment that still fits the stale
numbers arrives without a buffer, and no message ends with its topic registered
at only one of its two ends.

The buffer either belongs to the message under way or to an older one that was
cut off. The second happens under an oversized message only, which then overruns
what is left of the buffer before it ends.
-/
namespace PicoSomfy

open Transitions

variable {σ : Type*}

namespace MqttClient

theorem length_copyInto {buf : List (Option UInt8)} {off : ℕ} {data : List UInt8}
    (h : off + data.length ≤ buf.length) : (copyInto buf off data).length = buf.length := by
  simp only [copyInto, List.length_append, List.length_take, List.length_map, List.length_drop]
  omega

/-- Copying to the end of the written part of a buffer. -/
theorem copyInto_written (got data : List UInt8) (n : ℕ) :
    copyInto (got.map some ++ List.replicate n none) got.length data =
      (got ++ data).map some ++ List.replicate (n - data.length) none := by
  have htake : (got.map some ++ List.replicate n none).take got.length = got.map some :=
    List.take_left' (List.length_map _)
  have hdrop : (got.map some ++ List.replicate n none).drop (got.length + data.length) =
      List.replicate (n - data.length) (none : Option UInt8) := by
    rw [← List.drop_drop, List.drop_left' (List.length_map _), List.drop_replicate]
  rw [copyInto, htake, hdrop, List.map_append]

/-- The buffer of a client has the announced length, and what was received of it
fits. -/
structure Sized (m : MqttClient σ) (buf : List (Option UInt8)) : Prop where
  length : buf.length = m.payloadLength.toNat
  received : m.payloadReceived.toNat ≤ m.payloadLength.toNat
  small : m.payloadLength.toNat ≤ 2048

variable {m : MqttClient σ} {buf : List (Option UInt8)} {data : List UInt8} {flags : UInt8}

theorem Sized.remaining (h : m.Sized buf) :
    m.remaining.toNat = m.payloadLength.toNat - m.payloadReceived.toNat :=
  UInt32.toNat_sub_of_le _ _ (UInt32.le_iff_toNat_le.mpr h.received)

theorem toNat_len (hd : data.length < 65536) : (UInt32.ofNat data.length).toNat = data.length :=
  UInt32.toNat_ofNat_of_lt' (by rw [UInt32.size]; omega)

/-- A fragment that does not fit ends the assembly. -/
theorem payload_tooLong (h : UInt32.ofNat data.length > m.remaining) :
    m.incomingPayloadCallback data flags = .ok ({ m with payload := none }, none) := if_pos h

/-- A fragment that fits is copied behind the bytes received so far. -/
theorem payload_fits (hb : m.payload = some buf) (hs : m.Sized buf)
    (hd : data.length < 65536)
    (hfit : data.length ≤ m.payloadLength.toNat - m.payloadReceived.toNat)
    (hlast : flags &&& mqttDataFlagLast = 0) :
    m.incomingPayloadCallback data flags =
      .ok ({ m with
        payload := some (copyInto buf m.payloadReceived.toNat data)
        payloadReceived := m.payloadReceived + UInt32.ofNat data.length }, none) := by
  have hrem : ¬UInt32.ofNat data.length > m.remaining := by
    rw [gt_iff_lt, UInt32.lt_iff_toNat_lt, hs.remaining, toNat_len hd]
    omega
  have hroom : ¬buf.length < m.payloadReceived.toNat + data.length := by
    rw [hs.length]
    have hr := hs.received
    omega
  simp only [incomingPayloadCallback, if_neg hrem, hb, if_neg hroom, hlast, ne_eq,
    not_true_eq_false, if_false]

/-- A flagged fragment that fits calls the subscriber of the current topic. -/
theorem payload_last (hb : m.payload = some buf) (hs : m.Sized buf)
    (hd : data.length < 65536)
    (hfit : data.length ≤ m.payloadLength.toNat - m.payloadReceived.toNat)
    (hlast : flags &&& mqttDataFlagLast ≠ 0) {callback : σ}
    (hcb : m.topicCallbacks[m.currentTopic]? = some callback) :
    m.incomingPayloadCallback data flags =
      .ok ({ m with
        payload := none
        payloadReceived := m.payloadReceived + UInt32.ofNat data.length },
        some ⟨m.currentTopic, callback, copyInto buf m.payloadReceived.toNat data⟩) := by
  have hrem : ¬UInt32.ofNat data.length > m.remaining := by
    rw [gt_iff_lt, UInt32.lt_iff_toNat_lt, hs.remaining, toNat_len hd]
    omega
  have hr := hs.received
  have hroom : ¬buf.length < m.payloadReceived.toNat + data.length := by
    rw [hs.length]
    omega
  have hwhole : (copyInto buf m.payloadReceived.toNat data).take m.payloadLength.toNat =
      copyInto buf m.payloadReceived.toNat data := by
    apply List.take_of_length_le
    rw [length_copyInto (by omega), hs.length]
  simp only [incomingPayloadCallback, if_neg hrem, hb, if_neg hroom, hlast, ne_eq,
    not_false_eq_true, if_true, hcb, hwhole]

end MqttClient

namespace MqttSession

open MqttClient

/-- Before a fragment: there is a buffer, or the fragment is longer than what the
stale numbers leave; and when it ends a message of at most 2048 bytes, the topic
is registered now as it was at the announcement. -/
def Ok (s : MqttSession σ) : MqttEvent σ → Prop
  | .fragment data flags =>
      (s.mqtt.payload.isSome = true ∨ UInt32.ofNat data.length > s.mqtt.remaining) ∧
        ∀ msg ∈ s.incoming.toList, flags &&& mqttDataFlagLast ≠ 0 → ¬msg.totLen > 2048 →
          msg.known = (s.mqtt.topicCallbacks[msg.topic]?).isSome
  | _ => True

instance (s : MqttSession σ) (e : MqttEvent σ) : Decidable (s.Ok e) := by
  cases e <;> unfold Ok <;> infer_instance

/-- What the client holds while a message is under way. -/
inductive Tracks (m : MqttClient σ) (msg : IncomingMessage) : Prop
  | unknown (hk : msg.known = false) (hp : m.payload = none)
  | oversized (hbig : msg.totLen > 2048)
      (hleft : ∀ buf, m.payload = some buf →
        m.payloadLength.toNat - m.payloadReceived.toNat + msg.got.length ≤ 2048)
  | collecting (hk : msg.known = true) (hsmall : ¬msg.totLen > 2048)
      (hp : m.payload = some (msg.got.map some ++
        List.replicate (msg.totLen.toNat - msg.got.length) none))
      (ht : m.currentTopic = msg.topic) (hl : m.payloadLength = msg.totLen)
      (hr : m.payloadReceived.toNat = msg.got.length)

structure Sound (s : MqttSession σ) : Prop where
  fault : s.fault = none
  calls : s.calls = s.due
  sized : ∀ buf, s.mqtt.payload = some buf → s.mqtt.Sized buf
  tracks : ∀ msg, s.incoming = some msg →
    msg.got.length ≤ msg.totLen.toNat ∧ Tracks s.mqtt msg

theorem sound_init (payloadLength payloadReceived : UInt32) :
    Sound (init payloadLength payloadReceived : MqttSession σ) :=
  ⟨rfl, rfl, nofun, nofun⟩

/-- Registering and unregistering leave the assembly alone. -/
theorem Sound.of_assembly {s : MqttSession σ} (h : s.Sound) {m : MqttClient σ}
    (hp : m.payload = s.mqtt.payload) (ht : m.currentTopic = s.mqtt.currentTopic)
    (hl : m.payloadLength = s.mqtt.payloadLength)
    (hr : m.payloadReceived = s.mqtt.payloadReceived) : Sound { s with mqtt := m } := by
  refine ⟨h.fault, h.calls, fun buf hb => ?_, fun msg hm => ⟨(h.tracks msg hm).1, ?_⟩⟩
  · obtain ⟨h₁, h₂, h₃⟩ := h.sized buf (hp ▸ hb)
    exact ⟨by rw [hl, h₁], by rw [hl, hr]; exact h₂, by rw [hl]; exact h₃⟩
  · cases (h.tracks msg hm).2 with
    | unknown hk hn => exact .unknown hk (hp.trans hn)
    | oversized hbig hleft =>
        refine .oversized hbig fun buf hb => ?_
        simp only [hl, hr]
        exact hleft buf (hp ▸ hb)
    | collecting hk hsmall hbuf htopic hlen hrec =>
        exact .collecting hk hsmall (hp.trans hbuf) (ht.trans htopic) (hl.trans hlen)
          (by rw [hr]; exact hrec)

theorem Sound.publish {s : MqttSession σ} (h : s.Sound) (topic : String) (totLen : UInt32) :
    Sound { s with
      mqtt := s.mqtt.incomingPublishCallback topic totLen
      incoming := some ⟨topic, totLen, [], (s.mqtt.topicCallbacks[topic]?).isSome⟩ } := by
  unfold incomingPublishCallback
  cases hk : s.mqtt.topicCallbacks[topic]? with
  | none =>
      refine ⟨h.fault, h.calls, nofun, ?_⟩
      rintro msg ⟨⟩
      exact ⟨Nat.zero_le _, .unknown rfl rfl⟩
  | some callback =>
      simp only [Option.isSome_some]
      split_ifs with hbig
      · refine ⟨h.fault, h.calls, h.sized, ?_⟩
        rintro msg ⟨⟩
        refine ⟨Nat.zero_le _, .oversized hbig fun buf hb => ?_⟩
        have hsmall := (h.sized buf hb).small
        simp only [List.length_nil]
        omega
      · have hle : totLen.toNat ≤ 2048 := by
          rw [gt_iff_lt, UInt32.lt_iff_toNat_lt, not_lt] at hbig
          exact hbig
        refine ⟨h.fault, h.calls, ?_, ?_⟩
        · rintro buf ⟨⟩
          exact ⟨by simp, Nat.zero_le _, hle⟩
        · rintro msg ⟨⟩
          exact ⟨Nat.zero_le _, .collecting rfl hbig (by simp) rfl rfl rfl⟩

section Fragment
variable {s : MqttSession σ} {msg : IncomingMessage} {data : List UInt8} {flags : UInt8}

/-- The condition, for the message under way. -/
theorem Ok.ends (hok : s.Ok (.fragment data flags)) (hm : s.incoming = some msg)
    (hlast : flags &&& mqttDataFlagLast ≠ 0) (hsmall : ¬msg.totLen > 2048) :
    msg.known = (s.mqtt.topicCallbacks[msg.topic]?).isSome :=
  hok.2 msg (by rw [hm]; simp) hlast hsmall

/-- A fragment that does not fit asks for no call, because its message is too long
or was not known. -/
theorem Sound.tooLong (h : s.Sound) (hm : s.incoming = some msg) (ha : Allowed msg data flags)
    (hok : s.Ok (.fragment data flags)) (hlong : UInt32.ofNat data.length > s.mqtt.remaining)
    (hnot : msg.totLen > 2048 ∨ msg.known = false) : (s.fragmentStep msg data flags).Sound := by
  have hdue : flags &&& mqttDataFlagLast ≠ 0 → dueCall s.mqtt msg (msg.got ++ data) = none := by
    intro hlast
    unfold dueCall
    split_ifs with hbig
    · rfl
    · have hreg := hok.ends hm hlast hbig
      rw [hnot.resolve_left hbig, eq_comm, Option.isSome_eq_false_iff,
        Option.isNone_iff_eq_none] at hreg
      rw [hreg, Option.map_none]
  unfold fragmentStep
  rw [payload_tooLong hlong]
  refine ⟨h.fault, ?_, nofun, fun msg' hm' => ?_⟩
  · simp only [Option.toList_none, List.append_nil]
    split_ifs with hlast
    · rw [hdue hlast, Option.toList_none, List.append_nil, h.calls]
    · rw [List.append_nil, h.calls]
  · simp only at hm'
    split_ifs at hm' with hlast
    cases hm'
    refine ⟨by rw [List.length_append]; exact ha.2.1, ?_⟩
    rcases hnot with hbig | hk
    · exact .oversized hbig nofun
    · exact .unknown hk rfl

/-- An oversized message can fill an old buffer, but not end in it. -/
theorem Sound.oversized (h : s.Sound) (hm : s.incoming = some msg) (ha : Allowed msg data flags)
    (hok : s.Ok (.fragment data flags)) (hbig : msg.totLen > 2048) {buf : List (Option UInt8)}
    (hb : s.mqtt.payload = some buf)
    (hleft : s.mqtt.payloadLength.toNat - s.mqtt.payloadReceived.toNat + msg.got.length ≤ 2048) :
    (s.fragmentStep msg data flags).Sound := by
  have hs := h.sized buf hb
  have htot : 2048 < msg.totLen.toNat := UInt32.lt_iff_toNat_lt.mp hbig
  by_cases hfit : data.length ≤ s.mqtt.payloadLength.toNat - s.mqtt.payloadReceived.toNat
  · have hlast : flags &&& mqttDataFlagLast = 0 := by
      by_contra hlast
      have hsum := ha.2.2 hlast
      omega
    have hrec : (s.mqtt.payloadReceived + UInt32.ofNat data.length).toNat =
        s.mqtt.payloadReceived.toNat + data.length := by
      rw [UInt32.toNat_add, toNat_len ha.1, Nat.mod_eq_of_lt]
      have h₁ := hs.small
      have h₂ := hs.received
      omega
    unfold fragmentStep
    rw [payload_fits hb hs ha.1 hfit hlast]
    have hle : s.mqtt.payloadReceived.toNat + data.length ≤ s.mqtt.payloadLength.toNat := by
      have hrle := hs.received
      omega
    refine ⟨h.fault, by simp [hlast, h.calls], ?_, fun msg' hm' => ?_⟩
    · rintro buf' ⟨⟩
      refine ⟨?_, hrec.trans_le hle, hs.small⟩
      rw [length_copyInto (by rw [hs.length]; exact hle), hs.length]
    · simp only [hlast, ne_eq, not_true_eq_false, if_false, Option.some.injEq] at hm'
      subst hm'
      refine ⟨by rw [List.length_append]; exact ha.2.1, .oversized hbig fun buf' _ => ?_⟩
      simp only [hrec, List.length_append]
      omega
  · refine h.tooLong hm ha hok ?_ (.inl hbig)
    rw [gt_iff_lt, UInt32.lt_iff_toNat_lt, hs.remaining, toNat_len ha.1]
    omega

/-- A message that is being collected goes on, or ends with its call. -/
theorem Sound.collecting (h : s.Sound) (hm : s.incoming = some msg) (ha : Allowed msg data flags)
    (hok : s.Ok (.fragment data flags)) (hk : msg.known = true) (hsmall : ¬msg.totLen > 2048)
    (hp : s.mqtt.payload = some (msg.got.map some ++
      List.replicate (msg.totLen.toNat - msg.got.length) none))
    (ht : s.mqtt.currentTopic = msg.topic) (hl : s.mqtt.payloadLength = msg.totLen)
    (hr : s.mqtt.payloadReceived.toNat = msg.got.length) : (s.fragmentStep msg data flags).Sound := by
  have hs := h.sized _ hp
  have hsum := ha.2.1
  have hfit : data.length ≤ s.mqtt.payloadLength.toNat - s.mqtt.payloadReceived.toNat := by
    rw [hl, hr]
    omega
  have hcopy := copyInto_written msg.got data (msg.totLen.toNat - msg.got.length)
  rw [← hr] at hcopy
  by_cases hlast : flags &&& mqttDataFlagLast = 0
  · have hrec : (s.mqtt.payloadReceived + UInt32.ofNat data.length).toNat =
        (msg.got ++ data).length := by
      rw [UInt32.toNat_add, toNat_len ha.1, Nat.mod_eq_of_lt, hr, List.length_append]
      have htot := msg.totLen.toNat_lt
      omega
    unfold fragmentStep
    rw [payload_fits hp hs ha.1 hfit hlast]
    refine ⟨h.fault, by simp [hlast, h.calls], ?_, fun msg' hm' => ?_⟩
    · rintro buf' ⟨⟩
      refine ⟨?_, ?_, hs.small⟩
      · rw [length_copyInto, hs.length]
        have hlen := hs.length
        rw [hl] at hlen
        omega
      · rw [hrec, hl, List.length_append]
        exact hsum
    · simp only [hlast, ne_eq, not_true_eq_false, if_false, Option.some.injEq] at hm'
      subst hm'
      refine ⟨by rw [List.length_append]; exact hsum, .collecting hk hsmall ?_ ht hl hrec⟩
      simp only [Option.some.injEq]
      rw [hr] at hcopy ⊢
      rw [hcopy, List.length_append, Nat.sub_sub]
  · have hreg := hok.ends hm hlast hsmall
    rw [hk, eq_comm, Option.isSome_iff_exists] at hreg
    obtain ⟨callback, hcb⟩ := hreg
    have hall : msg.totLen.toNat - msg.got.length - data.length = 0 := by
      have hend := ha.2.2 hlast
      omega
    unfold fragmentStep
    rw [payload_last hp hs ha.1 hfit hlast (by rw [ht]; exact hcb)]
    refine ⟨h.fault, ?_, nofun, fun msg' hm' => ?_⟩
    · rw [hr] at hcopy
      simp only [hlast, ne_eq, not_false_eq_true, if_true, dueCall, if_neg hsmall, hcb,
        Option.map_some, hr, hcopy, hall, List.replicate_zero, List.append_nil, ht, h.calls]
    · simp [hlast] at hm'

end Fragment

theorem Sound.fragment {s : MqttSession σ} (h : s.Sound) {msg : IncomingMessage}
    (hm : s.incoming = some msg) {data : List UInt8} {flags : UInt8}
    (ha : Allowed msg data flags) (hok : s.Ok (.fragment data flags)) :
    (s.fragmentStep msg data flags).Sound := by
  have hnull : s.mqtt.payload = none → UInt32.ofNat data.length > s.mqtt.remaining := by
    intro hp
    exact hok.1.resolve_left (by simp [hp])
  cases (h.tracks msg hm).2 with
  | unknown hk hp => exact h.tooLong hm ha hok (hnull hp) (.inr hk)
  | oversized hbig hleft =>
      cases hp : s.mqtt.payload with
      | none => exact h.tooLong hm ha hok (hnull hp) (.inl hbig)
      | some buf => exact h.oversized hm ha hok hbig hp (hleft buf hp)
  | collecting hk hsmall hp ht hl hr => exact h.collecting hm ha hok hk hsmall hp ht hl hr

/-- Every step that meets the condition keeps the session sound. -/
theorem Sound.step {s s' : MqttSession σ} {e : MqttEvent σ} (h : s.Sound) (hok : s.Ok e)
    (hs : s.step e = some s') : s'.Sound := by
  unfold MqttSession.step at hs
  rw [if_neg (by simp [h.fault])] at hs
  cases e with
  | start brokerConfigured =>
      cases hs
      unfold MqttClient.start
      split_ifs <;> exact h.of_assembly rfl rfl rfl rfl
  | add topic callback =>
      cases hs
      unfold MqttClient.addTopicCallback
      split_ifs <;> exact h.of_assembly rfl rfl rfl rfl
  | remove topic =>
      cases hs
      unfold MqttClient.removeTopicCallback
      split_ifs <;> exact h.of_assembly rfl rfl rfl rfl
  | publish topic totLen =>
      simp only at hs
      split_ifs at hs
      cases hs
      exact h.publish topic totLen
  | fragment data flags =>
      simp only at hs
      cases hm : s.incoming with
      | none => simp [hm] at hs
      | some msg =>
          simp only [hm] at hs
          split_ifs at hs with ha
          cases hs
          exact h.fragment hm ha hok
  | drop =>
      cases hs
      exact ⟨h.fault, h.calls, h.sized, nofun⟩

/-- Nothing weaker would do: a fragment that breaks the condition faults, or leaves
out a call that is due. -/
theorem Sound.breaks {s s' : MqttSession σ} {e : MqttEvent σ} (h : s.Sound) (hok : ¬s.Ok e)
    (hs : s.step e = some s') : ¬(s'.fault = none ∧ s'.calls = s'.due) := by
  unfold MqttSession.step at hs
  rw [if_neg (by simp [h.fault])] at hs
  cases e with
  | fragment data flags =>
      simp only at hs
      cases hm : s.incoming with
      | none => simp [hm] at hs
      | some msg =>
          simp only [hm] at hs
          split_ifs at hs with ha
          cases hs
          by_cases hnull : s.mqtt.payload = none ∧
              ¬UInt32.ofNat data.length > s.mqtt.remaining
          · -- the fragment is copied to the null pointer
            have herr : s.mqtt.incomingPayloadCallback data flags = .error .nullPayload := by
              simp only [incomingPayloadCallback, if_neg hnull.2, hnull.1]
            simp [fragmentStep, herr]
          -- the message ends, with its topic registered at one of its ends only
          have hends : flags &&& mqttDataFlagLast ≠ 0 ∧ ¬msg.totLen > 2048 ∧
              msg.known ≠ (s.mqtt.topicCallbacks[msg.topic]?).isSome := by
            by_contra hnot
            refine hok ⟨?_, fun msg' hmem hlast hsmall => ?_⟩
            · cases hp : s.mqtt.payload with
              | none => exact .inr (by simpa [hp] using hnull)
              | some buf => exact .inl rfl
            · rw [hm, Option.toList_some, List.mem_singleton] at hmem
              subst hmem
              by_contra hne
              exact hnot ⟨hlast, hsmall, hne⟩
          obtain ⟨hlast, hsmall, hne⟩ := hends
          cases (h.tracks msg hm).2 with
          | oversized hbig _ => exact absurd hbig hsmall
          | unknown hk hp =>
              obtain ⟨callback, hcb⟩ : ∃ c, s.mqtt.topicCallbacks[msg.topic]? = some c := by
                rw [← Option.isSome_iff_exists]
                simpa [hk] using hne
              have hlong : UInt32.ofNat data.length > s.mqtt.remaining := by
                by_contra hfit
                exact hnull ⟨hp, hfit⟩
              unfold fragmentStep
              rw [payload_tooLong hlong]
              simp [hlast, dueCall, hsmall, hcb, h.calls]
          | collecting hk _ hp ht hl hr =>
              have hgone : s.mqtt.topicCallbacks[s.mqtt.currentTopic]? = none := by
                rw [ht]
                cases hg : s.mqtt.topicCallbacks[msg.topic]? with
                | none => rfl
                | some callback => simp [hk, hg] at hne
              have hsz := h.sized _ hp
              have hend := ha.2.2 hlast
              have hrem : ¬UInt32.ofNat data.length > s.mqtt.remaining := by
                rw [gt_iff_lt, UInt32.lt_iff_toNat_lt, hsz.remaining, toNat_len ha.1, hl, hr]
                omega
              have herr : ∃ f, s.mqtt.incomingPayloadCallback data flags = .error f := by
                simp only [incomingPayloadCallback, if_neg hrem, hp, hlast, ne_eq,
                  not_false_eq_true, if_true, hgone]
                split_ifs <;> exact ⟨_, rfl⟩
              obtain ⟨f, hf⟩ := herr
              simp [fragmentStep, hf]
  | _ => exact absurd trivial hok

/-- In every run whose steps meet the condition, from any numbers in the
uninitialised fields, nothing faults and the calls made are the calls due. The
first step that breaks the condition breaks this. -/
theorem calls_eq_due {payloadLength payloadReceived : UInt32} {es : List (MqttEvent σ)}
    {s : MqttSession σ} (hrun : Run MqttSession.step Ok (init payloadLength payloadReceived) es s) :
    (s.fault = none ∧ s.calls = s.due) ∧
      ∀ e s', ¬s.Ok e → s.step e = some s' → ¬(s'.fault = none ∧ s'.calls = s'.due) := by
  have hs : s.Sound := hrun.invariant (fun hi hok hstep => hi.step hok hstep) (sound_init _ _)
  exact ⟨⟨hs.fault, hs.calls⟩, fun _ _ hok hstep => hs.breaks hok hstep⟩

/-- A known message in two fragments, then an unknown one. -/
def twoMessages : List (MqttEvent ℕ) :=
  [.start true, .add "pos" 7, .publish "pos" 2, .fragment [52] 0, .fragment [50] 1,
    .publish "cmd" 1, .fragment [48] 1]

theorem calls_eq_due_twoMessages :
    ∃ s, Run MqttSession.step Ok (init 0 0) twoMessages s ∧
      s.calls = [⟨"pos", 7, [some 52, some 50]⟩] ∧ s.fault = none ∧ s.calls = s.due := by
  have hexec : (guardedExec MqttSession.step Ok (init 0 0) twoMessages).map (·.calls) =
      some [⟨"pos", 7, [some 52, some 50]⟩] := by decide +kernel
  obtain ⟨s, hs, hcalls⟩ := Option.map_eq_some_iff.mp hexec
  have hrun := run_of_guardedExec hs
  exact ⟨s, hrun, hcalls, (calls_eq_due hrun).1⟩

/-- A message cut off by a drop, then one on an unknown topic. -/
def abortedThenUnknown : List (MqttEvent ℕ) :=
  [.start true, .add "pos" 7, .publish "pos" 4, .fragment [49, 48] 0, .drop,
    .publish "cmd" 1, .fragment [48] 1]

/-- A subscriber that goes away while its message comes in. -/
def removedMidMessage : List (MqttEvent ℕ) :=
  [.start true, .add "pos" 7, .publish "pos" 2, .fragment [52] 0, .remove "pos", .fragment [50] 1]

/-- The fragment of the unknown message is copied through the null buffer, and the
end of the second message calls a function that is not there. -/
theorem delivery_fails :
    (∃ s, Run MqttSession.step Free (init 0 0) abortedThenUnknown s ∧
      s.fault = some .nullPayload ∧ ¬(s.fault = none ∧ s.calls = s.due)) ∧
    ∃ s, Run MqttSession.step Free (init 0 0) removedMidMessage s ∧
      s.fault = some .emptyFunction ∧ ¬(s.fault = none ∧ s.calls = s.due) := by
  have hnull : (exec MqttSession.step (init 0 0) abortedThenUnknown).map (·.fault) =
      some (some .nullPayload) := by decide +kernel
  have hempty : (exec MqttSession.step (init 0 0) removedMidMessage).map (·.fault) =
      some (some .emptyFunction) := by decide +kernel
  obtain ⟨s, hs, hf⟩ := Option.map_eq_some_iff.mp hnull
  obtain ⟨t, ht, hg⟩ := Option.map_eq_some_iff.mp hempty
  exact ⟨⟨s, run_of_exec hs, hf, by simp [hf]⟩, t, run_of_exec ht, hg, by simp [hg]⟩

end MqttSession

end PicoSomfy
