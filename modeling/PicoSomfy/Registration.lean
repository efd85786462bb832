import PicoSomfy.Persistence

/-!
# Adding and removing remotes and blinds

Each of these calls changes the maps and the heap in one step and writes some
records; its `_eq` lemma separates the two. The registry is kept when a new id
agrees with no other in its low half and the counters stay inside their 16 bits,
and the stored part when the lists fit into their blocks as well.
-/
namespace PicoSomfy

open SortedMap DeviceConfig

namespace Device

variable {d d' : Device}

/-- No registered remote agrees with the id in its low half. -/
def FreshHalf (d : Device) (id : UInt32) : Prop := ∀ a ∈ d.remotes, a.toUInt16 ≠ id.toUInt16

theorem FreshHalf.not_mem {id : UInt32} (h : d.FreshHalf id) : d.remotes[id]? = none := by
  by_contra hne
  exact h id (mem_iff.mpr (Option.ne_none_iff_exists'.mp hne)) rfl

/-- The remote a registration puts on the heap. -/
def newRemote (d : Device) (name : List UInt8) (id : UInt32) (isExternal : Bool) : SomfyRemote :=
  .create d.mqttEnabled name id 1 [] isExternal

@[simp] theorem newRemote_remoteId (name : List UInt8) (id : UInt32) (isExternal : Bool) :
    (d.newRemote name id isExternal).remoteId = id := by
  simp only [newRemote, SomfyRemote.create, SomfyRemote.triggerPublishDiscovery]
  split_ifs <;> rfl

@[simp] theorem newRemote_isExternal (name : List UInt8) (id : UInt32) (isExternal : Bool) :
    (d.newRemote name id isExternal).isExternal = isExternal := by
  simp only [newRemote, SomfyRemote.create, SomfyRemote.triggerPublishDiscovery]
  split_ifs <;> rfl

@[simp] theorem newRemote_associatedBlinds (name : List UInt8) (id : UInt32)
    (isExternal : Bool) : (d.newRemote name id isExternal).associatedBlinds = [] := by
  simp only [newRemote, SomfyRemote.create, SomfyRemote.triggerPublishDiscovery]
  split_ifs <;> rfl

theorem newRemote_isDirty (name : List UInt8) (id : UInt32) (isExternal : Bool) :
    (d.newRemote name id isExternal).isDirty = false := by
  simp only [newRemote, SomfyRemote.create, SomfyRemote.triggerPublishDiscovery]
  split_ifs <;> rfl

theorem saveRemoteList_eq (h : d.saveRemoteList = some d') :
    ∃ config, d' = { d with config := config } := by
  unfold saveRemoteList at h
  split_ifs at h
  exact ⟨_, (Option.some.inj h).symm⟩

theorem saveBlindList_eq (h : d.saveBlindList = some d') :
    ∃ config, d' = { d with config := config } := by
  unfold saveBlindList at h
  split_ifs at h
  exact ⟨_, (Option.some.inj h).symm⟩

/-- Saving the new remote leaves it as it is: it is clean from the start. -/
theorem saveRemote_new {r : SomfyRemote} {id : UInt32} (hr : r.isDirty = false)
    (h : (d.insertRemote id r).saveRemote d.heapTop true = some d') :
    ∃ c, r.toConfig = some c ∧
      d' = { d.insertRemote id r with config := d.config.saveRemoteConfig r.remoteId c } := by
  rcases saveRemote_cases h with ⟨-, -, hf⟩ | ⟨c, hc, rfl⟩
  · cases hf
  · simp only [insertRemote, modifyRemote, Function.update_self, Function.update_idem] at hc ⊢
    have hsame : { r with isDirty := false } = r := by rw [← hr]
    exact ⟨c, hc, by rw [hsame]⟩

theorem registerRemote_eq {name : List UInt8} {id : UInt32} {isExternal : Bool}
    (h : d.registerRemote name id isExternal = some d') :
    ∃ config, d' = { d.insertRemote id (d.newRemote name id isExternal) with
      config := config } := by
  obtain ⟨d₁, h₁, h₂⟩ := Option.bind_eq_some_iff.mp h
  obtain ⟨c, -, rfl⟩ := saveRemote_new (newRemote_isDirty name id isExternal) h₁
  obtain ⟨config, rfl⟩ := saveRemoteList_eq h₂
  exact ⟨config, rfl⟩

theorem deleteRemote_eq {id : UInt32} (h : d.deleteRemote id = some d') :
    ∃ config, d' = { d with remotes := d.remotes.erase id, config := config } := by
  obtain ⟨config, rfl⟩ := saveRemoteList_eq h
  exact ⟨config, rfl⟩

/-- The primary remote of a new blind, already associated with it. -/
def newPrimary (d : Device) (name : List UInt8) : SomfyRemote :=
  (d.newRemote name d.nextRemoteId false).associateBlind d.nextBlindId.toUInt16

/-- The new blind. -/
def newBlind (d : Device) (name : List UInt8) (openTime closeTime : Int32) : Blind :=
  .create d.mqttEnabled d.clock d.nextBlindId.toUInt16 name 90 50 openTime closeTime d.heapTop

/-- The device with a new blind and its primary remote. -/
def withBlind (d : Device) (name : List UInt8) (openTime closeTime : Int32) : Device :=
  { d.insertRemote d.nextRemoteId (d.newPrimary name) with
    nextRemoteId := d.nextRemoteId + 1
    nextBlindId := d.nextBlindId + 1
    blinds := d.blinds.insertIfNew d.nextBlindId (d.newBlind name openTime closeTime) }

theorem addBlind_eq {name : List UInt8} {openTime closeTime : Int32}
    (h : d.addBlind name openTime closeTime = some d') :
    ∃ config, d' = { d.withBlind name openTime closeTime with config := config } := by
  obtain ⟨d₁, h₁, h₂⟩ := Option.bind_eq_some_iff.mp h
  obtain ⟨config₁, rfl⟩ := registerRemote_eq h₁
  obtain ⟨⟨config₂, b⟩, hb, h₃⟩ := Option.bind_eq_some_iff.mp h₂
  obtain ⟨config, rfl⟩ := saveBlindList_eq h₃
  refine ⟨config, ?_⟩
  unfold saveBlind at hb
  rw [if_pos (Bool.or_true _)] at hb
  obtain ⟨c, hc, heq⟩ := Option.map_eq_some_iff.mp hb
  cases heq
  simp only [withBlind, insertRemote, modifyRemote, Function.update_self, Function.update_idem]
  rfl

theorem removeBlind_eq {k : UInt32} {b : Blind} (h : d.removeBlind k b = some d') :
    ∃ config, d' = { d with
      blinds := d.blinds.erase k
      remotes := d.remotes.erase (d.heap b.remote).remoteId
      config := config } := by
  obtain ⟨d₁, h₁, h₂⟩ := Option.bind_eq_some_iff.mp h
  obtain ⟨config₁, rfl⟩ := deleteRemote_eq h₁
  obtain ⟨config, rfl⟩ := saveBlindList_eq h₂
  exact ⟨config, rfl⟩

theorem insertRemote_heap {id : UInt32} {r : SomfyRemote} {p : ℕ} (hp : p < d.heapTop) :
    (d.insertRemote id r).heap p = d.heap p := by
  simp only [insertRemote, Function.update_of_ne hp.ne]

@[simp] theorem insertRemote_top (id : UInt32) (r : SomfyRemote) :
    (d.insertRemote id r).heap d.heapTop = r := by
  simp only [insertRemote, Function.update_self]

theorem insertRemote_remotes {id : UInt32} (hf : d.FreshHalf id) (r : SomfyRemote) (a : UInt32) :
    (d.insertRemote id r).remotes[a]? = if id = a then some d.heapTop else d.remotes[a]? :=
  get_insertIfNew_fresh hf.not_mem

/-- A registered remote is the new one or an old one. -/
theorem insertRemote_cases {id : UInt32} (hf : d.FreshHalf id) {r : SomfyRemote} {a : UInt32}
    {p : ℕ} (h : (d.insertRemote id r).remotes[a]? = some p) :
    (a = id ∧ p = d.heapTop) ∨ (a ≠ id ∧ d.remotes[a]? = some p) := by
  rw [insertRemote_remotes hf] at h
  split_ifs at h with ha
  · exact .inl ⟨ha.symm, (Option.some.inj h).symm⟩
  · exact .inr ⟨Ne.symm ha, h⟩

theorem insertRemote_old {id : UInt32} (hf : d.FreshHalf id) {r : SomfyRemote} {a : UInt32}
    {p : ℕ} (h : d.remotes[a]? = some p) : (d.insertRemote id r).remotes[a]? = some p := by
  rw [insertRemote_remotes hf, if_neg, h]
  rintro rfl
  rw [hf.not_mem] at h
  cases h

/-- The new remote is registered under its id. -/
theorem insertRemote_new {id : UInt32} (hf : d.FreshHalf id) {r : SomfyRemote}
    (hid : r.remoteId = id) :
    (d.insertRemote id r).remotes[((d.insertRemote id r).heap d.heapTop).remoteId]? =
      some d.heapTop := by
  rw [insertRemote_top, hid, insertRemote_remotes hf, if_pos rfl]

/-- A new remote under an id of its own. A created one gets an id below the next. -/
theorem Registry.insertRemote (h : d.Registry) {id : UInt32} {r : SomfyRemote}
    (hf : d.FreshHalf id) (hid : r.remoteId = id)
    (hi : r.isExternal = false → 0x270000 < id.toNat ∧ id.toNat < d.nextRemoteId.toNat) :
    (d.insertRemote id r).Registry where
  registered {a p} hp := by
    rcases insertRemote_cases hf hp with ⟨rfl, rfl⟩ | ⟨-, hp⟩
    · exact ⟨Nat.lt_succ_self _, by rw [insertRemote_top, hid]⟩
    · obtain ⟨hlt, hpid⟩ := h.registered hp
      exact ⟨Nat.lt_succ_of_lt hlt, by rw [insertRemote_heap hlt, hpid]⟩
  internal {a p} hp he := by
    rcases insertRemote_cases hf hp with ⟨rfl, rfl⟩ | ⟨-, hp⟩
    · exact hi (by simpa only [insertRemote_top] using he)
    · rw [insertRemote_heap (h.registered hp).1] at he
      exact h.internal hp he
  nextRemote := h.nextRemote
  lowHalves {a b} ha hb hlow := by
    obtain ⟨p, hp⟩ := mem_iff.mp ha
    obtain ⟨q, hq⟩ := mem_iff.mp hb
    rcases insertRemote_cases hf hp with ⟨rfl, rfl⟩ | ⟨-, hold⟩ <;>
      rcases insertRemote_cases hf hq with ⟨rfl, rfl⟩ | ⟨-, hold'⟩
    · rfl
    · exact absurd hlow.symm (hf b (mem_iff.mpr ⟨q, hold'⟩))
    · exact absurd hlow (hf a (mem_iff.mpr ⟨p, hold⟩))
    · exact h.lowHalves (mem_iff.mpr ⟨p, hold⟩) (mem_iff.mpr ⟨q, hold'⟩) hlow
  blind := h.blind
  nextBlind := h.nextBlind
  primary {k b} hb := by
    obtain ⟨hp, he⟩ := h.primary hb
    have hlt := (h.registered hp).1
    rw [insertRemote_heap hlt]
    exact ⟨insertRemote_old hf hp, he⟩
  distinct := h.distinct

/-- The counters only have to stay above the ids that were given out. -/
theorem Registry.advance (h : d.Registry) (nextRemoteId nextBlindId : UInt32)
    (hr : d.nextRemoteId.toNat ≤ nextRemoteId.toNat ∧ nextRemoteId.toNat ≤ 0x280000)
    (hb : d.nextBlindId.toNat ≤ nextBlindId.toNat ∧ nextBlindId.toNat ≤ 65536) :
    Registry { d with nextRemoteId := nextRemoteId, nextBlindId := nextBlindId } where
  registered := h.registered
  internal hp he := ⟨(h.internal hp he).1, (h.internal hp he).2.trans_le hr.1⟩
  nextRemote := ⟨h.nextRemote.1.trans_le hr.1, hr.2⟩
  lowHalves := h.lowHalves
  blind hk := ⟨(h.blind hk).1, (h.blind hk).2.trans_le hb.1⟩
  nextBlind := hb.2
  primary := h.primary
  distinct := h.distinct

/-- Only a remote that no blind needs can go. -/
theorem Registry.erase (h : d.Registry) {id : UInt32}
    (hp : ∀ {k : UInt32} {b : Blind}, d.blinds[k]? = some b → (d.heap b.remote).remoteId ≠ id) :
    Registry { d with remotes := d.remotes.erase id } := by
  have hold : ∀ {a : UInt32} {p : ℕ}, (d.remotes.erase id)[a]? = some p →
      d.remotes[a]? = some p := fun {a p} ha => by
    rw [get_erase] at ha
    split_ifs at ha
    exact ha
  have hmem : ∀ {a : UInt32}, a ∈ d.remotes.erase id → a ∈ d.remotes := fun ha => by
    obtain ⟨p, hp⟩ := mem_iff.mp ha
    exact mem_iff.mpr ⟨p, hold hp⟩
  refine ⟨fun hq => h.registered (hold hq), fun hq => h.internal (hold hq), h.nextRemote,
    fun ha hb => h.lowHalves (hmem ha) (hmem hb), h.blind, h.nextBlind, fun {k b} hb => ?_,
    h.distinct⟩
  rw [get_erase, if_neg (hp hb).symm]
  exact h.primary hb

theorem Registry.eraseBlind (h : d.Registry) (k : UInt32) :
    Registry { d with blinds := d.blinds.erase k } := by
  have hold : ∀ {i : UInt32} {b : Blind}, (d.blinds.erase k)[i]? = some b →
      d.blinds[i]? = some b := fun {i b} hi => by
    rw [get_erase] at hi
    split_ifs at hi
    exact hi
  exact ⟨h.registered, h.internal, h.nextRemote, h.lowHalves, fun hb => h.blind (hold hb),
    h.nextBlind, fun hb => h.primary (hold hb), fun hb hb' => h.distinct (hold hb) (hold hb')⟩

/-- A new blind with a primary remote that no other blind has. -/
theorem Registry.insertBlind (h : d.Registry) {k : UInt32} {b : Blind}
    (hnew : d.blinds[k]? = none) (hk : b.blindId.toUInt32 = k ∧ k.toNat < d.nextBlindId.toNat)
    (hp : d.remotes[(d.heap b.remote).remoteId]? = some b.remote ∧
      (d.heap b.remote).isExternal = false)
    (hother : ∀ {i : UInt32} {c : Blind}, d.blinds[i]? = some c → c.remote ≠ b.remote) :
    Registry { d with blinds := d.blinds.insertIfNew k b } := by
  have hcases : ∀ {i : UInt32} {c : Blind}, (d.blinds.insertIfNew k b)[i]? = some c →
      (i = k ∧ c = b) ∨ d.blinds[i]? = some c := fun {i c} hi => by
    rw [get_insertIfNew_fresh hnew] at hi
    split_ifs at hi with hik
    · exact .inl ⟨hik.symm, (Option.some.inj hi).symm⟩
    · exact .inr hi
  refine ⟨h.registered, h.internal, h.nextRemote, h.lowHalves, fun {i c} hi => ?_, h.nextBlind,
    fun {i c} hi => ?_, fun {i j c c'} hi hj hr => ?_⟩
  · rcases hcases hi with ⟨rfl, rfl⟩ | hi
    · exact hk
    · exact h.blind hi
  · rcases hcases hi with ⟨rfl, rfl⟩ | hi
    · exact hp
    · exact h.primary hi
  · rcases hcases hi with ⟨rfl, rfl⟩ | hold <;> rcases hcases hj with ⟨rfl, rfl⟩ | hold'
    · rfl
    · exact absurd hr.symm (hother hold')
    · exact absurd hr (hother hold)
    · exact h.distinct hold hold' hr

end Device

end PicoSomfy
