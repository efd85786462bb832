import PicoSomfy.TopicRoutes
import PicoSomfy.ListedOnce
import PicoSomfy.GracefulRestart

/-!
# Messages reach their objects

Between two calls the MQTT client knows exactly the topics of the registered remotes and
of the blinds, each with the object that is there now. A call that adds or removes an
object changes both sides in the same way, and a start builds both from the stored lists,
in which no id stands twice.
-/
namespace PicoSomfy

open CStrings SortedMap OwnedNames DeviceConfig

namespace Topic

theorem bytes_injective {s t : Topic} (h : s.bytes = t.bytes) : s = t := by
  have hremote : ∀ (a : UInt32) (i : UInt16) (rest : List UInt8),
      ascii "pico_somfy/remotes/" ++ (hex08 a ++ ascii "/cmd") ≠ ascii "pico_somfy/blinds/" ++ rest := by
    intro a i rest heq
    have hletter : some (114 : UInt8) = some 98 := congrArg (fun t => t[11]?) heq
    exact absurd hletter (by decide)
  have hblind : ∀ {i j : UInt16} {x y : List UInt8},
      ascii "pico_somfy/blinds/" ++ (hex08 i.toUInt32 ++ x) =
        ascii "pico_somfy/blinds/" ++ (hex08 j.toUInt32 ++ y) → i = j ∧ x = y := by
    intro i j x y heq
    obtain ⟨hid, hrest⟩ := List.append_inj (List.append_cancel_left heq) rfl
    exact ⟨UInt16.toUInt32_inj.mp (hex08_injective hid), hrest⟩
  cases s with
  | remote a =>
      cases t with
      | remote b =>
          have hids := List.append_cancel_right (List.append_cancel_left h)
          rw [hex08_injective hids]
      | blind j => exact absurd h (hremote a j _)
      | position j => exact absurd h (hremote a j _)
  | blind i =>
      cases t with
      | remote b => exact absurd h.symm (hremote b i _)
      | blind j => rw [(hblind h).1]
      | position j => exact absurd (hblind h).2 (by decide)
  | position i =>
      cases t with
      | remote b => exact absurd h.symm (hremote b i _)
      | blind j => exact absurd (hblind h).2 (by decide)
      | position j => rw [(hblind h).1]

theorem text_injective : Function.Injective text := by
  intro s t h
  have hchar : Function.Injective fun b : UInt8 => Char.ofNat b.toNat := by
    have hnat : ∀ n < 256, (Char.ofNat n).toNat = n := by
      intro n hn
      have hvalid : n.isValidChar := .inl (by omega)
      rw [Char.ofNat, dif_pos hvalid]
      exact UInt32.toNat_ofNatLT ..
    intro a b hab
    have hcode : (Char.ofNat a.toNat).toNat = (Char.ofNat b.toNat).toNat := congrArg Char.toNat hab
    rw [hnat _ a.toNat_lt, hnat _ b.toNat_lt] at hcode
    exact UInt8.toNat_inj.mp hcode
  exact bytes_injective (List.map_injective_iff.mpr hchar (String.ofList_injective h))

end Topic

/-- The client knows the owners of the topics, if there is a client. -/
def MqttClient.Serves (m : MqttClient Subscriber) (owner : Topic → Option Subscriber) : Prop :=
  Faithful m.topicCallbacks Topic.text fun t => if m.client then owner t else none

namespace MqttClient

variable {m : MqttClient Subscriber} {owner : Topic → Option Subscriber} {t : Topic}

theorem update_client (v : Option Subscriber) (hclient : m.client = true) :
    Function.update (fun t => if m.client then owner t else none) t v =
      fun a => if m.client then Function.update owner t v a else none := by
  funext a
  simp only [hclient, if_true]

theorem Serves.add (h : m.Serves owner) (hfree : owner t = none) (s : Subscriber) :
    (m.addTopicCallback t.text s).Serves (Function.update owner t (some s)) := by
  unfold addTopicCallback
  unfold Serves at h ⊢
  by_cases hclient : m.client = true
  · have hnone : (if m.client then owner t else none) = none := by rw [if_pos hclient, hfree]
    rw [if_pos hclient, ← update_client _ hclient]
    exact h.enter Topic.text_injective hnone s
  · rw [if_neg hclient]
    simp only [hclient] at h ⊢
    exact h

theorem Serves.remove (h : m.Serves owner) (t : Topic) :
    (m.removeTopicCallback t.text).Serves (Function.update owner t none) := by
  unfold removeTopicCallback
  unfold Serves at h ⊢
  by_cases hclient : m.client = true
  · rw [if_pos hclient, ← update_client _ hclient]
    exact h.remove Topic.text_injective t
  · rw [if_neg hclient]
    simp only [hclient] at h ⊢
    exact h

end MqttClient

namespace Device

variable {d d' : Device}

/-- Who has to hear what is sent to a topic. -/
def subscriber (d : Device) : Topic → Option Subscriber
  | .remote id => (d.remotes[id]?).map .remoteCommand
  | .blind i => if i.toUInt32 ∈ d.blinds then some (.blindCommand i.toUInt32) else none
  | .position i => if i.toUInt32 ∈ d.blinds then some (.blindPosition i.toUInt32) else none

theorem subscriber_congr (hr : d'.remotes = d.remotes)
    (hb : ∀ k : UInt32, k ∈ d'.blinds ↔ k ∈ d.blinds) : d'.subscriber = d.subscriber := by
  funext t
  cases t with
  | remote id => simp only [subscriber, hr]
  | blind i => simp only [subscriber, hb]
  | position i => simp only [subscriber, hb]

/-- The topic of one remote gets another subscriber, or none. -/
theorem subscriber_setRemote {remotes : Std.ExtTreeMap UInt32 ℕ} {id : UInt32} {p : Option ℕ}
    (h : ∀ a : UInt32, remotes[a]? = if id = a then p else d.remotes[a]?) :
    subscriber { d with remotes := remotes } =
      Function.update d.subscriber (.remote id) (p.map .remoteCommand) := by
  funext t
  by_cases ht : t = .remote id
  · rw [ht, Function.update_self, subscriber, h, if_pos rfl]
  · rw [Function.update_of_ne ht]
    cases t with
    | remote a => rw [subscriber, subscriber, h, if_neg fun heq => ht (by rw [heq])]
    | blind i => rfl
    | position i => rfl

theorem subscriber_insertRemote {id : UInt32} (hnew : d.remotes[id]? = none) (r : SomfyRemote) :
    (d.insertRemote id r).subscriber =
      Function.update d.subscriber (.remote id) (some (.remoteCommand d.heapTop)) :=
  subscriber_setRemote fun _ => get_insertIfNew_fresh hnew

theorem subscriber_eraseRemote (d : Device) (id : UInt32) :
    subscriber { d with remotes := d.remotes.erase id } =
      Function.update d.subscriber (.remote id) none :=
  subscriber_setRemote fun _ => get_erase

theorem mem_insertBlind {k i : UInt32} (hnew : d.blinds[k]? = none) (b : Blind) :
    i ∈ d.blinds.insertIfNew k b ↔ k = i ∨ i ∈ d.blinds := by
  rw [mem_iff, mem_iff, get_insertIfNew_fresh hnew]
  by_cases hi : k = i
  · simp [hi]
  · simp [hi]

theorem mem_eraseBlind {k i : UInt32} : i ∈ d.blinds.erase k ↔ k ≠ i ∧ i ∈ d.blinds := by
  rw [mem_iff, mem_iff, get_erase]
  by_cases hi : k = i
  · simp [hi]
  · simp [hi]

/-- The topics of one blind get another subscriber, or none. -/
theorem subscriber_setBlind {blinds : Std.ExtTreeMap UInt32 Blind} {i : UInt16} (present : Bool)
    (h : ∀ k, k ∈ blinds ↔ if i.toUInt32 = k then present = true else k ∈ d.blinds) :
    subscriber { d with blinds := blinds } =
      Function.update (Function.update d.subscriber (.blind i)
        (if present then some (.blindCommand i.toUInt32) else none))
        (.position i) (if present then some (.blindPosition i.toUInt32) else none) := by
  have hkey : ∀ {j : UInt16}, j ≠ i → i.toUInt32 ≠ j.toUInt32 :=
    fun hj heq => hj (UInt16.toUInt32_inj.mp heq).symm
  funext t
  cases t with
  | remote id => rfl
  | blind j =>
      rw [Function.update_of_ne (by simp)]
      by_cases hj : j = i
      · subst hj
        simp only [subscriber, h, Function.update_self, if_true]
      · rw [Function.update_of_ne (by simpa using hj)]
        simp only [subscriber, h, if_neg (hkey hj)]
  | position j =>
      by_cases hj : j = i
      · subst hj
        simp only [subscriber, h, Function.update_self, if_true]
      · rw [Function.update_of_ne (by simpa using hj), Function.update_of_ne (by simp)]
        simp only [subscriber, h, if_neg (hkey hj)]

theorem subscriber_insertBlind {i : UInt16} (hnew : d.blinds[i.toUInt32]? = none) (b : Blind) :
    subscriber { d with blinds := d.blinds.insertIfNew i.toUInt32 b } =
      Function.update (Function.update d.subscriber (.blind i) (some (.blindCommand i.toUInt32)))
        (.position i) (some (.blindPosition i.toUInt32)) := by
  apply subscriber_setBlind true
  intro k
  rw [mem_insertBlind hnew]
  by_cases hk : i.toUInt32 = k
  · simp [hk]
  · simp [hk]

theorem subscriber_eraseBlind (d : Device) (i : UInt16) :
    subscriber { d with blinds := d.blinds.erase i.toUInt32 } =
      Function.update (Function.update d.subscriber (.position i) none) (.blind i) none := by
  rw [Function.update_comm (by simp)]
  apply subscriber_setBlind false
  intro k
  rw [mem_eraseBlind]
  by_cases hk : i.toUInt32 = k
  · simp [hk]
  · simp [hk]

theorem subscriber_sameRegistry (h : SameRegistry d d') : d'.subscriber = d.subscriber := by
  apply subscriber_congr h.remotes
  intro k
  have hlink := congrArg Option.isSome (h.link k)
  rw [Option.isSome_map, Option.isSome_map] at hlink
  rw [Std.ExtTreeMap.mem_iff_isSome_getElem?, Std.ExtTreeMap.mem_iff_isSome_getElem?, hlink]

theorem holds_iff {p : ℕ} : d.holds p = true ↔
    (∃ id : UInt32, d.remotes[id]? = some p) ∨
      ∃ (k : UInt32) (b : Blind), d.blinds[k]? = some b ∧ b.remote = p := by
  unfold holds
  rw [Bool.or_eq_true, List.any_eq_true, List.any_eq_true]
  simp only [Prod.exists, mem_toList, beq_iff_eq]
  constructor
  · rintro (⟨id, q, hq, rfl⟩ | ⟨k, b, hb, hp⟩)
    · exact .inl ⟨id, hq⟩
    · exact .inr ⟨k, b, hb, hp⟩
  · rintro (⟨id, hp⟩ | ⟨k, b, hb, hp⟩)
    · exact .inl ⟨id, p, hp, rfl⟩
    · exact .inr ⟨k, b, hb, hp⟩

end Device

namespace MqttClient

variable {m : MqttClient Subscriber} {d d' : Device}

theorem release_held {p : ℕ} (h : d.holds p = true) : m.release d p = m := if_pos h

/-- A new remote under an id of its own stays, with its topic. -/
theorem Serves.addRemote (h : m.Serves d.subscriber) {id : UInt32} (hnew : d.remotes[id]? = none)
    (r : SomfyRemote) : (m.addRemote d.heapTop id).Serves (d.insertRemote id r).subscriber := by
  have hfree : d.subscriber (.remote id) = none := by rw [Device.subscriber, hnew, Option.map_none]
  rw [Device.subscriber_insertRemote hnew]
  exact h.add hfree _

/-- So does a new blind under a key of its own. -/
theorem Serves.addBlind (h : m.Serves d.subscriber) {i : UInt16}
    (hnew : d.blinds[i.toUInt32]? = none) (b : Blind) :
    (m.addBlind i.toUInt32 i).Serves
      (Device.subscriber { d with blinds := d.blinds.insertIfNew i.toUInt32 b }) := by
  have habsent : i.toUInt32 ∉ d.blinds := by
    intro hmem
    obtain ⟨b, hb⟩ := mem_iff.mp hmem
    rw [hnew] at hb
    cases hb
  have hblind : d.subscriber (.blind i) = none := if_neg habsent
  have hposition : d.subscriber (.position i) = none := if_neg habsent
  rw [Device.subscriber_insertBlind hnew]
  apply Serves.add
  · exact h.add hblind _
  · rw [Function.update_of_ne (by simp), hposition]

theorem Serves.dropBlind (h : m.Serves d.subscriber) (i : UInt16) :
    (m.dropBlind i).Serves (Device.subscriber { d with blinds := d.blinds.erase i.toUInt32 }) := by
  rw [Device.subscriber_eraseBlind]
  exact (h.remove _).remove _

/-- With the last pointer the topic of a remote goes. -/
theorem Serves.release (h : m.Serves d.subscriber) {p : ℕ} {id : UInt32}
    (hid : (d'.heap p).remoteId = id) (hgone : d'.holds p = false)
    (heq : d'.subscriber = Device.subscriber { d with remotes := d.remotes.erase id }) :
    (m.release d' p).Serves d'.subscriber := by
  unfold MqttClient.release
  rw [if_neg (by rw [hgone]; decide), heq, Device.subscriber_eraseRemote, hid]
  exact h.remove _

end MqttClient

namespace Device

variable {d d' : Device} {m : MqttClient Subscriber}

theorem holds_inserted {id : UInt32} (hnew : d.remotes[id]? = none)
    (hremotes : d'.remotes = d.remotes.insertIfNew id d.heapTop) : d'.holds d.heapTop = true := by
  apply holds_iff.mpr
  left
  refine ⟨id, ?_⟩
  rw [hremotes, get_insertIfNew_fresh hnew, if_pos rfl]

/-- A new remote is held by the map. -/
theorem rewire_registered (h : m.Serves d.subscriber) {id : UInt32} (hnew : d.remotes[id]? = none)
    (hremotes : d'.remotes = d.remotes.insertIfNew id d.heapTop) (hblinds : d'.blinds = d.blinds) :
    ((m.addRemote d.heapTop id).release d' d.heapTop).Serves d'.subscriber := by
  have hsame : d'.subscriber = (d.insertRemote id default).subscriber := by
    apply subscriber_congr hremotes
    intro k
    rw [hblinds]
    rfl
  rw [MqttClient.release_held (holds_inserted hnew hremotes), hsame]
  exact h.addRemote hnew default

theorem rewire_addBlind (hreg : d.Registry) (h : m.Serves d.subscriber) {name : List UInt8}
    {openTime closeTime : Int32} (hf : d.FreshHalf d.nextRemoteId)
    (hlt : d.nextBlindId.toNat < 65536) (hd : d.addBlind name openTime closeTime = some d') :
    (Call.rewire d d' m (.addBlind name openTime closeTime)).Serves d'.subscriber := by
  obtain ⟨config, heq⟩ := addBlind_eq hd
  have hkey : d.nextBlindId.toUInt16.toUInt32 = d.nextBlindId := toUInt32_toUInt16 hlt
  have hnew := hreg.next_blind_new
  have habsent : d.nextBlindId ∉ d.blinds := by
    intro hmem
    obtain ⟨b, hb⟩ := mem_iff.mp hmem
    rw [hnew] at hb
    cases hb
  have hheld : d'.holds d.heapTop = true := holds_inserted hf.not_mem (by rw [heq]; rfl)
  have hboth := (h.addRemote hf.not_mem default).addBlind (i := d.nextBlindId.toUInt16)
    (by rw [hkey]; exact hnew) (d.newBlind name openTime closeTime)
  rw [hkey] at hboth
  unfold Call.rewire
  dsimp only
  rw [if_neg habsent, MqttClient.release_held hheld, heq]
  exact hboth

/-- The remote that is deleted is no primary remote, and registered once. -/
theorem rewire_deleteRemote (hreg : d.Registry) (h : m.Serves d.subscriber) {id : UInt32}
    (hv : (Call.deleteRemote id).Valid d) (hd : d.deleteRemote id = some d') :
    (Call.rewire d d' m (.deleteRemote id)).Serves d'.subscriber := by
  obtain ⟨⟨p, ⟨a, ha⟩, hid⟩, hprimary⟩ := hv
  obtain rfl : a = id := (hreg.registered ha).2.symm.trans hid
  obtain ⟨config, heq⟩ := deleteRemote_eq hd
  have hgone : d'.holds p = false := by
    rw [← Bool.not_eq_true, holds_iff, heq]
    rintro (⟨i, hi⟩ | ⟨k, b, hb, rfl⟩)
    · change (d.remotes.erase a)[i]? = some p at hi
      rw [get_erase] at hi
      split_ifs at hi with hia
      exact hia (hid.symm.trans (hreg.registered hi).2)
    · exact isAPrimaryRemote_false hprimary hb hid
  have hheap : (d'.heap p).remoteId = a := by rw [heq]; exact hid
  unfold Call.rewire
  dsimp only
  rw [ha, Option.elim_some]
  exact h.release hheap hgone (by rw [heq]; rfl)

/-- A blind takes its primary remote with it. -/
theorem rewire_removeBlind (hreg : d.Registry) (h : m.Serves d.subscriber) {k : UInt32} {b : Blind}
    (hb : d.blinds[k]? = some b) (hd : d.removeBlind k b = some d') :
    (Call.rewire d d' m (.removeBlind k b)).Serves d'.subscriber := by
  obtain ⟨config, heq⟩ := removeBlind_eq hd
  have hprimary := (hreg.primary hb).1
  have hkey : b.blindId.toUInt32 = k := (hreg.blind hb).1
  have hheld : holds { d with remotes := d.remotes.erase (d.heap b.remote).remoteId } b.remote = true :=
    holds_iff.mpr (.inr ⟨k, b, hb, rfl⟩)
  have hgone : d'.holds b.remote = false := by
    rw [← Bool.not_eq_true, holds_iff, heq]
    rintro (⟨i, hi⟩ | ⟨i, c, hc, hsame⟩)
    · change (d.remotes.erase (d.heap b.remote).remoteId)[i]? = some b.remote at hi
      rw [get_erase] at hi
      split_ifs at hi with hne
      exact hne (hreg.registered hi).2
    · change (d.blinds.erase k)[i]? = some c at hc
      rw [get_erase] at hc
      split_ifs at hc with hne
      exact hne (hreg.distinct hb hc hsame.symm)
  have hheap : (d'.heap b.remote).remoteId = (d.heap b.remote).remoteId := by rw [heq]
  have hdrop := h.dropBlind b.blindId
  rw [hkey] at hdrop
  unfold Call.rewire
  dsimp only
  rw [hprimary, Option.elim_some, MqttClient.release_held hheld]
  exact hdrop.release hheap hgone (by rw [heq]; rfl)

/-- What every call but a restart does to the topics. -/
theorem rewire_perform (hreg : d.Registry) (h : m.Serves d.subscriber) {c : Call}
    (hc : ∀ mqttEnabled slots, c ≠ .restart mqttEnabled slots) (hv : c.Valid d)
    (hr : c.Regular d) (hd : d.perform c = some d') : (c.rewire d d' m).Serves d'.subscriber := by
  have hsame : SameRegistry d d' → m.Serves d'.subscriber := by
    intro hs
    rw [subscriber_sameRegistry hs]
    exact h
  by_cases hreacts : c.reacts = true
  · have hs := hsame (reacts_perform hreacts hd).sameRegistry
    cases c with
    | nothing | press | goUp | goDown | stop | goToPosition | overheard | tick | wait | worker
    | packetReady | discover => exact hs
    | _ => cases hreacts
  cases c with
  | saveRemotes => exact hsame (saves_saveRemoteState hd).toSameRegistry
  | saveBlinds => exact hsame (saves_saveBlindState hd).toSameRegistry
  | restart mqttEnabled slots => exact absurd rfl (hc mqttEnabled slots)
  | addBlind name openTime closeTime => exact rewire_addBlind hreg h hr.1.1 hr.2.1 hd
  | updateBlind k b name openTime closeTime =>
      cases hd
      have hf := setName_fields (d.heap b.remote) d.mqttEnabled name
      have hs := SameRegistry.modifyBlind d k
        (fun b => b.updateConfig d.mqttEnabled name openTime closeTime) fun _ _ => rfl
      exact hsame (hs.trans (SameRegistry.modifyRemote _ b.remote
        (fun r => r.setName d.mqttEnabled name) hf.1 hf.2.1))
  | removeBlind k b => exact rewire_removeBlind hreg h hv hd
  | createRemote name =>
      obtain ⟨config, heq⟩ := registerRemote_eq hd
      exact rewire_registered h hr.1.not_mem (by rw [heq]; rfl) (by rw [heq]; rfl)
  | importRemote name id =>
      obtain ⟨config, heq⟩ := registerRemote_eq hd
      exact rewire_registered h hr.1.not_mem (by rw [heq]; rfl) (by rw [heq]; rfl)
  | rename p name =>
      cases hd
      have hf := setName_fields (d.heap p) d.mqttEnabled name
      exact hsame (SameRegistry.modifyRemote d p (fun r => r.setName d.mqttEnabled name) hf.1 hf.2.1)
  | deleteRemote id => exact rewire_deleteRemote hreg h hv hd
  | associate p blindId =>
      cases hd
      have hf := associateBlind_fields (d.heap p) blindId
      exact hsame (SameRegistry.modifyRemote d p (fun r => r.associateBlind blindId) hf.1 hf.2)
  | disassociate p blindId =>
      cases hd
      exact hsame (SameRegistry.modifyRemote d p (fun r => r.disassociateBlind blindId) rfl rfl)
  | _ => exact absurd rfl hreacts

end Device

namespace Wired

variable {w w' : Wired}

/-- The client knows the objects of the device. -/
def Routed (w : Wired) : Prop := w.mqtt.Serves w.device.subscriber

/-- Nothing is built for the id, or it is still unused. -/
def Unused (w : Wired) (id : UInt32) : Prop :=
  w.device.config.getRemoteConfig id = none ∨ w.device.remotes[id]? = none

theorem routed_loadRemote (h : w.Routed) (isExternal : Bool) {id : UInt32} (hid : w.Unused id) :
    (loadRemote isExternal w id).Routed := by
  unfold Routed loadRemote Device.loadRemote
  dsimp only
  cases hcfg : w.device.config.getRemoteConfig id with
  | none => exact h
  | some cfg =>
      have hnew : w.device.remotes[id]? = none :=
        hid.resolve_left (by rw [hcfg]; exact Option.some_ne_none cfg)
      exact Device.rewire_registered h hnew rfl rfl

theorem unused_loadRemote {id a : UInt32} (ha : a ≠ id) (isExternal : Bool) (h : w.Unused a) :
    (loadRemote isExternal w id).Unused a := by
  have hremotes : (Device.loadRemote isExternal w.device id).remotes[a]? = w.device.remotes[a]? := by
    unfold Device.loadRemote
    cases w.device.config.getRemoteConfig id with
    | none => rfl
    | some cfg =>
        change (w.device.remotes.insertIfNew id w.device.heapTop)[a]? = _
        rw [get_insertIfNew, if_neg fun hcond => ha hcond.1.symm]
  unfold Unused loadRemote
  dsimp only
  rw [(Device.loads_loadRemote isExternal w.device id).config, hremotes]
  exact h

/-- Raising the counter of ids changes nothing here. -/
theorem raise_same (w : Wired) (id : UInt32) :
    (w.Routed → Routed ⟨w.device.raiseNextRemoteId id, w.mqtt⟩) ∧
      ∀ a, w.Unused a → Unused ⟨w.device.raiseNextRemoteId id, w.mqtt⟩ a := by
  obtain ⟨next, hnext⟩ := Device.raiseNextRemoteId_eq w.device id
  rw [hnext]
  exact ⟨fun h => h, fun a ha => ha⟩

/-- A list in which every id stands once, and is unused before. -/
theorem routed_foldl {ι : Type} {f : Wired → ι → Wired} {g : ι → UInt32}
    (hturn : ∀ {w : Wired} {i : ι}, w.Routed → w.Unused (g i) → (f w i).Routed)
    (hother : ∀ {w : Wired} {i : ι} {a : UInt32}, a ≠ g i → w.Unused a → (f w i).Unused a)
    {is : List ι} (honce : (is.map g).Nodup) (h : w.Routed)
    (hall : ∀ i ∈ is, w.Unused (g i)) : (is.foldl f w).Routed := by
  induction is generalizing w with
  | nil => exact h
  | cons i is ih =>
      obtain ⟨hi, honce⟩ := List.nodup_cons.mp honce
      apply ih honce
      · exact hturn h (hall i List.mem_cons_self)
      · intro j hj
        apply hother
        · rintro heq
          exact hi (heq ▸ List.mem_map_of_mem hj)
        · exact hall j (List.mem_cons_of_mem _ hj)

theorem fullId_injective : Function.Injective Device.fullId := by
  intro a b h
  rw [← Device.toUInt16_fullId a, h, Device.toUInt16_fullId]

/-- What is left unused when the created remotes are loaded. -/
theorem unused_internals {lows : List UInt16} {a : UInt32} (ha : a ∉ lows.map Device.fullId)
    (h : w.Unused a) : (lows.foldl loadInternal w).Unused a := by
  induction lows generalizing w with
  | nil => exact h
  | cons low lows ih =>
      rw [List.map_cons, List.mem_cons, not_or] at ha
      exact ih ha.2 (unused_loadRemote ha.1 false ((raise_same w _).2 a h))

theorem routed_blank (config : DeviceConfig) (mqttEnabled : Bool) (slots : ℕ → RecvCommand)
    (history : List Happening) (stale : UInt32 × UInt32) :
    Routed ⟨Device.blank config mqttEnabled slots history,
      (MqttClient.create stale.1 stale.2).start mqttEnabled⟩ := by
  have hnobody : (Device.blank config mqttEnabled slots history).subscriber = fun _ => none := by
    funext t
    cases t <;> simp [Device.subscriber, Device.blank]
  unfold Routed MqttClient.Serves
  rw [hnobody]
  simp only [ite_self]
  cases mqttEnabled <;> exact .empty Topic.text

/-- The remotes of both lists are loaded, each under an id of its own. -/
theorem routed_loadRemotes {d : Device} (h : d.Durable) (honce : d.config.image.Once)
    (mqttEnabled : Bool) (slots : ℕ → RecvCommand) (history : List Happening)
    (stale : UInt32 × UInt32) :
    (loadRemotes ⟨Device.blank d.config mqttEnabled slots history,
      (MqttClient.create stale.1 stale.2).start mqttEnabled⟩).Routed := by
  have hunused : ∀ a, Unused ⟨Device.blank d.config mqttEnabled slots history,
      (MqttClient.create stale.1 stale.2).start mqttEnabled⟩ a := by
    intro a
    right
    simp [Device.blank]
  have hinternal : (d.config.getRemoteIds.foldl loadInternal
      ⟨Device.blank d.config mqttEnabled slots history,
        (MqttClient.create stale.1 stale.2).start mqttEnabled⟩).Routed := by
    apply routed_foldl (g := Device.fullId)
    · intro w low hw hid
      exact routed_loadRemote ((raise_same w _).1 hw) false ((raise_same w _).2 _ hid)
    · intro w low a ha hid
      exact unused_loadRemote ha false ((raise_same w _).2 a hid)
    · exact honce.internal.map fullId_injective
    · exact routed_blank d.config mqttEnabled slots history stale
    · exact fun low _ => hunused _
  apply routed_foldl (g := id)
  · exact fun hw hid => routed_loadRemote hw true hid
  · exact fun ha hid => unused_loadRemote ha true hid
  · rw [List.map_id]
    exact honce.external
  · exact hinternal
  · intro a ha
    by_cases hres : Device.Reserved a
    · exact .inl (getRemoteConfig_reserved _ hres)
    · apply unused_internals _ (hunused a)
      intro hmem
      obtain ⟨p, hp, he⟩ := (Device.mem_fullIds h.inv a).mp hmem
      obtain ⟨q, hq, hx⟩ := (Device.mem_externalList h.inv hres).mp ha
      rw [hp, Option.some.injEq] at hq
      rw [← hq, he] at hx
      cases hx

/-- The loop over the blinds with the keys that are still to come. -/
structure LoadingBlinds (rest : List UInt16) (s : Wired × Bool) : Prop where
  routed : s.1.Routed
  once : rest.Nodup
  unused : ∀ i ∈ rest, s.1.device.blinds[i.toUInt32]? = none

theorem LoadingBlinds.turn {i : UInt16} {rest : List UInt16} {s t : Wired × Bool}
    (h : LoadingBlinds (i :: rest) s) (hturn : loadBlind s i = some t) : LoadingBlinds rest t := by
  obtain ⟨⟨d, errors⟩, hd, rfl⟩ := Option.map_eq_some_iff.mp hturn
  obtain ⟨cfg, hcfg, heq⟩ := Option.map_eq_some_iff.mp hd
  obtain ⟨hi, honce⟩ := List.nodup_cons.mp h.once
  have hnew := h.unused i List.mem_cons_self
  have hkeys : ∀ j ∈ rest, i.toUInt32 ≠ j.toUInt32 := by
    intro j hj hsame
    exact hi (UInt16.toUInt32_inj.mp hsame ▸ hj)
  have hraise : ∃ next, s.1.device.raiseNextBlindId i.toUInt32 =
      { s.1.device with nextBlindId := next } := by
    unfold Device.raiseNextBlindId
    split_ifs
    · exact ⟨_, rfl⟩
    · exact ⟨_, rfl⟩
  obtain ⟨next, hnext⟩ := hraise
  have hrouted := h.routed
  unfold Device.restoreBlind at heq
  rw [hnext] at heq
  dsimp only at heq
  unfold restoreBlind
  rw [hcfg, Option.bind_some]
  cases hremote : s.1.device.remotes[cfg.remoteId]? with
  | none =>
      rw [hremote] at heq
      cases heq
      refine ⟨?_, honce, fun j hj => h.unused j (List.mem_cons_of_mem _ hj)⟩
      exact hrouted
  | some p =>
      rw [hremote] at heq
      cases heq
      have habsent : i.toUInt32 ∉ s.1.device.blinds := by
        intro hmem
        obtain ⟨b, hb⟩ := mem_iff.mp hmem
        rw [hnew] at hb
        cases hb
      refine ⟨?_, honce, fun j hj => ?_⟩
      · rw [Option.elim_some, if_neg habsent]
        exact hrouted.addBlind hnew _
      · change (s.1.device.blinds.insertIfNew i.toUInt32 _)[j.toUInt32]? = none
        rw [get_insertIfNew_fresh hnew, if_neg (hkeys j hj)]
        exact h.unused j (List.mem_cons_of_mem _ hj)

theorem routed_initializeBlinds (h : w.Routed) (honce : w.device.config.getBlindIds.Nodup)
    (hempty : ∀ k : UInt32, w.device.blinds[k]? = none) (hw : w.initializeBlinds = some w') :
    w'.Routed := by
  obtain ⟨s, hs, hend⟩ := Option.bind_eq_some_iff.mp hw
  have hloaded := Transitions.foldlM_invariant (f := loadBlind) LoadingBlinds LoadingBlinds.turn
    ⟨h, honce, fun i _ => hempty i.toUInt32⟩ hs
  split_ifs at hend
  · obtain ⟨d, hd, rfl⟩ := Option.map_eq_some_iff.mp hend
    obtain ⟨config, rfl⟩ := Device.saveBlindList_eq hd
    exact hloaded.routed
  · exact Option.some.inj hend ▸ hloaded.routed

/-- The start of service mode on records that were saved. -/
theorem routed_boot {d : Device} (h : d.Durable) (honce : d.config.image.Once)
    (hblinds : d.config.getBlindIds.Nodup) {mqttEnabled : Bool} {slots : ℕ → RecvCommand}
    {history : List Happening} {stale : UInt32 × UInt32}
    (hw : boot d.config mqttEnabled slots history stale = some w) : w.Routed := by
  have hloads := Device.loads_loadRemotes (Device.blank d.config mqttEnabled slots history)
  have hremotes := routed_loadRemotes h honce mqttEnabled slots history stale
  apply routed_initializeBlinds hremotes _ _ hw
  · rw [device_loadRemotes, hloads.config]
    exact hblinds
  · intro k
    rw [device_loadRemotes, hloads.blinds]
    simp [Device.blank]

/-- The guard of a run is about the device. -/
def Regular (w : Wired) (e : Device.Event × (UInt32 × UInt32)) : Prop := w.device.Regular e.1

/-- What holds between two calls while no write is lost. -/
structure Sound (w : Wired) : Prop where
  inv : w.device.Inv
  backed : w.device.Backed
  once : w.device.config.image.Once
  routed : w.Routed

theorem device_of_step {e : Device.Event × (UInt32 × UInt32)} (h : w.step e = some w') :
    w.device.step e.1 = some w'.device := by
  rw [← device_step, h, Option.map_some]

theorem Sound.restart (h : w.device.config.lost = false → w.Sound) {mqttEnabled : Bool}
    {slots : ℕ → RecvCommand} {stale : UInt32 × UInt32}
    (hw : w.perform stale (.restart mqttEnabled slots) = some w')
    (hlost : w'.device.config.lost = false) : w'.Routed := by
  obtain ⟨d, hd, hboot⟩ := Option.bind_eq_some_iff.mp hw
  have hdevice : Device.boot d.config mqttEnabled slots d.history = some w'.device := by
    rw [← device_boot d.config mqttEnabled slots d.history stale, hboot, Option.map_some]
  have hlost₁ := Device.lasting_boot hdevice hlost
  obtain ⟨hdurable, -⟩ := Device.saveAll_durable (fun hl => (h hl).inv) hd hlost₁
  have hshelved := Device.Shelved.saveAll
    (fun hl => ⟨(h hl).inv.stored.kept, (h hl).once⟩) hd hlost₁
  obtain ⟨e, he, hrest⟩ := Option.bind_eq_some_iff.mp hd
  have hsecured := Device.Secured.saveBlindState (Device.Secured.saveRemoteState (fun hl =>
    ⟨(h hl).inv.registry, (h hl).inv.stored.kept, (h hl).backed⟩) he) hrest hlost₁
  exact routed_boot hdurable hshelved.once hsecured.backed.nodup hboot

theorem Sound.step {e : Device.Event × (UInt32 × UInt32)}
    (h : w.device.config.lost = false → w.Sound) (hr : w.Regular e) (hw : w.step e = some w')
    (hlost : w'.device.config.lost = false) : w'.Sound := by
  obtain ⟨c, hc, hv, hp⟩ := Device.step_cases (device_of_step hw)
  have hregular := hr c hc
  have hinv := Device.Inv.perform (fun hl => (h hl).inv) hv hregular hp hlost
  have hbacked := Device.Backed.perform (fun hl => ⟨(h hl).inv, (h hl).backed⟩) hv hregular hp hlost
  have honce := Device.once_perform (fun hl => ⟨(h hl).inv, (h hl).once⟩) hregular hp hlost
  refine ⟨hinv, hbacked, honce, ?_⟩
  have hperform : w.perform e.2 c = some w' := by
    obtain ⟨c', hc', hw'⟩ := Option.bind_eq_some_iff.mp hw
    rw [hc, Option.some.injEq] at hc'
    rw [hc', hw']
  by_cases hrestart : ∃ mqttEnabled slots, c = .restart mqttEnabled slots
  · obtain ⟨mqttEnabled, slots, rfl⟩ := hrestart
    exact Sound.restart h hperform hlost
  · have hother : ∀ mqttEnabled slots, c ≠ .restart mqttEnabled slots :=
      fun mqttEnabled slots heq => hrestart ⟨mqttEnabled, slots, heq⟩
    rw [perform_eq hother] at hperform
    obtain ⟨d, hd, rfl⟩ := Option.map_eq_some_iff.mp hperform
    have hsound := h (Device.lasting_perform hd hlost)
    exact Device.rewire_perform hsound.inv.registry hsound.routed hother hv hregular hd

/-- A device that starts for the first time. -/
theorem sound_fresh {dc : DeviceConfig} (hpages : dc.storage.blockPages = 1)
    (hok : ∀ i, dc.chip.verdict i = true) {mqttEnabled : Bool} {slots : ℕ → RecvCommand}
    {stale : UInt32 × UInt32} (hw : fresh dc mqttEnabled slots stale = some w) : w.Sound := by
  obtain ⟨hhealthy, hnone⟩ := dc.hardReset_read hpages hok
  obtain ⟨honce, hblinds⟩ := dc.once_hardReset hpages hok
  have hdurable := Device.blank_durable mqttEnabled slots [] hhealthy hnone
  have hdevice : Device.freshDevice dc mqttEnabled slots = some w.device := by
    have hboot := device_boot dc.hardReset mqttEnabled slots [] stale
    rw [show boot dc.hardReset mqttEnabled slots [] stale = some w from hw] at hboot
    exact hboot.symm
  obtain ⟨hinv, hbacked⟩ := Device.fresh_backed hpages hok hdevice
  obtain ⟨d', hboot, -, hconfig, -, -⟩ := Device.boot_inv mqttEnabled slots [] hdurable
  obtain rfl : w.device = d' := Option.some.inj (hdevice.symm.trans hboot)
  refine ⟨hinv, hbacked, ?_, routed_boot hdurable honce hblinds hw⟩
  rw [hconfig]
  exact honce

theorem Routed.lookup (h : w.Routed) (hclient : w.mqtt.client = true) (t : Topic) :
    w.mqtt.topicCallbacks[t.text]? = w.device.subscriber t :=
  (h.named t).trans (if_pos hclient)

theorem Routed.nobody (h : w.Routed) {topic : String}
    (hnone : w.mqtt.client = false ∨ ∀ t : Topic, t.text ≠ topic) :
    w.mqtt.topicCallbacks[topic]? = none := by
  by_cases hprinted : ∃ t : Topic, t.text = topic
  · obtain ⟨t, rfl⟩ := hprinted
    have hoff := hnone.resolve_right fun hall => hall t rfl
    rw [h.named t, hoff]
    rfl
  · exact h.others topic fun t heq => hprinted ⟨t, heq⟩

/-- What a subscriber makes of a message is what the device makes of it. -/
theorem call_event (d : Device) (t : Topic) (payload : List UInt8) (overflow : Int32) :
    d.call (t.event payload overflow) =
      some ((d.subscriber t).elim .nothing (Subscriber.call payload overflow)) := by
  cases t with
  | remote id =>
      change some ((d.remotes[id]?).elim _ _) = some (((d.remotes[id]?).map _).elim _ _)
      cases d.remotes[id]? with
      | none => rfl
      | some p => rfl
  | blind i =>
      change some (if i.toUInt32 ∈ d.blinds then _ else _) =
        some (Option.elim (if i.toUInt32 ∈ d.blinds then _ else _) _ _)
      split_ifs <;> rfl
  | position i =>
      change some (if i.toUInt32 ∈ d.blinds then _ else _) =
        some (Option.elim (if i.toUInt32 ∈ d.blinds then _ else _) _ _)
      split_ifs <;> rfl

/-- In every run without a lost write, with restarts, the client knows exactly the topics of
the remotes and blinds that are there, and what it dispatches is what the device makes of
the message. -/
theorem messages_reach_objects {dc : DeviceConfig} (hpages : dc.storage.blockPages = 1)
    (hok : ∀ i, dc.chip.verdict i = true) {mqttEnabled : Bool} {slots : ℕ → RecvCommand}
    {stale : UInt32 × UInt32} {w₀ : Wired} (hw₀ : fresh dc mqttEnabled slots stale = some w₀)
    {es : List (Device.Event × (UInt32 × UInt32))} (hrun : Transitions.Run step Regular w₀ es w)
    (hlost : w.device.config.lost = false) :
    (w.mqtt.client = true → ∀ (t : Topic) payload overflow,
      w.device.call (t.event payload overflow) = some (w.dispatch t.text payload overflow)) ∧
    ∀ topic, (w.mqtt.client = false ∨ ∀ t : Topic, t.text ≠ topic) →
      w.mqtt.topicCallbacks[topic]? = none := by
  have hsound := hrun.invariant (I := fun w => w.device.config.lost = false → w.Sound)
    (fun h hguard hstep hl => Sound.step h hguard hstep hl)
    (fun _ => sound_fresh hpages hok hw₀) hlost
  constructor
  · intro hclient t payload overflow
    rw [dispatch, hsound.routed.lookup hclient]
    exact call_event w.device t payload overflow
  · exact fun topic hnone => hsound.routed.nobody hnone

/-- The topic of a new blind reaches the blind. -/
theorem messages_reach_objects_salon :
    ∃ w₀ w : Wired, fresh oneSector true (fun _ => ⟨⟨0, 0, 0, 0⟩, 0⟩) (0, 0) = some w₀ ∧
      w₀.step (Device.addSalon, (0, 0)) = some w ∧
      w.dispatch (Topic.blind 1).text (ascii "open") 0 = .goUp 1 := by
  have hany : (fresh oneSector true (fun _ => ⟨⟨0, 0, 0, 0⟩, 0⟩) (0, 0)).any (fun w₀ =>
      w₀.device.remotes.isEmpty && w₀.device.nextRemoteId == 0x270001 &&
        w₀.device.nextBlindId == 1 && w₀.device.internalIds.isEmpty &&
        w₀.device.externalIds.isEmpty && w₀.device.blinds.size == 0 &&
        (w₀.step (Device.addSalon, (0, 0))).any fun w =>
          !w.device.config.lost && w.mqtt.client && w.device.blinds.contains 1) = true := by
    decide +kernel
  obtain ⟨w₀, hw₀, hrest⟩ := (Option.any_eq_true _ _).mp hany
  simp only [Bool.and_eq_true, beq_iff_eq, List.isEmpty_iff] at hrest
  obtain ⟨⟨⟨⟨⟨⟨hremotes, hnext⟩, hnextBlind⟩, hinternal⟩, hexternal⟩, hblinds⟩, hstep⟩ := hrest
  obtain ⟨w, hw, hkept⟩ := (Option.any_eq_true _ _).mp hstep
  simp only [Bool.and_eq_true, Bool.not_eq_true'] at hkept
  obtain ⟨⟨hlost, hclient⟩, hblind⟩ := hkept
  have hmay : w₀.device.MayCreate := by
    refine ⟨fun a ha => ?_, ?_, ?_, ?_⟩
    · rw [Std.ExtTreeMap.isEmpty_iff.mp hremotes] at ha
      exact absurd ha Std.ExtTreeMap.not_mem_empty
    · rw [hnext]
      decide
    · rw [hinternal]
      decide
    · rw [hexternal]
      decide
  have hregular : w₀.Regular (Device.addSalon, (0, 0)) := by
    intro c hc
    rw [Device.call_addSalon] at hc
    cases hc
    refine ⟨hmay, ?_, ?_⟩
    · rw [hnextBlind]
      decide
    · rw [hblinds]
      decide
  have hcall : w.device.call (Topic.event (ascii "open") 0 (.blind 1)) = some (.goUp 1) := by
    change some (if (1 : UInt32) ∈ w.device.blinds then _ else _) = _
    rw [if_pos (Std.ExtTreeMap.contains_iff_mem.mp hblind)]
    rfl
  have hreach := (messages_reach_objects rfl (fun _ => rfl) hw₀ (.single hregular hw) hlost).1 hclient
  exact ⟨w₀, w, hw₀, hw,
    (Option.some.inj (hcall.symm.trans (hreach (.blind 1) (ascii "open") 0))).symm⟩

end Wired

end PicoSomfy
