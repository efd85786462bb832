import PicoSomfy.DeviceInvariant

/-!
# Loading what is stored

The constructor of `SomfyRemotes` loads the remotes of both lists, and
`Blinds::Initialize` the blinds. The lemmas say what these loops build from any
records: an id keeps the first remote loaded under it, and the counters of new ids
end above all that was loaded.
-/
namespace PicoSomfy

open SortedMap DeviceConfig

namespace Device

variable {d d' : Device}

/-- Pointers in the map lead below the top of the heap. -/
def Below (d : Device) : Prop := ∀ {id : UInt32} {p : ℕ}, d.remotes[id]? = some p → p < d.heapTop

/-- The remote a record is loaded as. -/
def reload (d : Device) (isExternal : Bool) (id : UInt32) : Option SomfyRemote :=
  (d.config.getRemoteConfig id).map fun cfg =>
    .create d.mqttEnabled cfg.remoteName.chars id cfg.rollingCode cfg.blinds isExternal

/-- Loading remotes leaves the records and the blinds alone. -/
structure LoadsRemotes (d d' : Device) : Prop where
  config : d'.config = d.config
  mqttEnabled : d'.mqttEnabled = d.mqttEnabled
  clock : d'.clock = d.clock
  blinds : d'.blinds = d.blinds
  nextBlindId : d'.nextBlindId = d.nextBlindId
  history : d'.history = d.history
  below : d.Below → d'.Below

theorem LoadsRemotes.refl (d : Device) : LoadsRemotes d d := ⟨rfl, rfl, rfl, rfl, rfl, rfl, id⟩

theorem LoadsRemotes.trans {d'' : Device} (h : LoadsRemotes d d') (k : LoadsRemotes d' d'') :
    LoadsRemotes d d'' :=
  ⟨k.config.trans h.config, k.mqttEnabled.trans h.mqttEnabled, k.clock.trans h.clock,
    k.blinds.trans h.blinds, k.nextBlindId.trans h.nextBlindId, k.history.trans h.history,
    fun hb => k.below (h.below hb)⟩

theorem LoadsRemotes.reload (h : LoadsRemotes d d') (isExternal : Bool) (id : UInt32) :
    d'.reload isExternal id = d.reload isExternal id := by
  rw [Device.reload, Device.reload, h.config, h.mqttEnabled]

theorem below_insertRemote (h : d.Below) (id : UInt32) (r : SomfyRemote) :
    (d.insertRemote id r).Below := fun {a p} hp => by
  change (d.remotes.insertIfNew id d.heapTop)[a]? = some p at hp
  change p < d.heapTop + 1
  rw [get_insertIfNew] at hp
  split_ifs at hp
  · rw [← Option.some.inj hp]
    exact Nat.lt_succ_self _
  · exact Nat.lt_succ_of_lt (h hp)

/-- An id that is registered keeps its remote. -/
theorem remote?_insertRemote (h : d.Below) (id : UInt32) (r : SomfyRemote) (a : UInt32) :
    (d.insertRemote id r).remote? a = (d.remote? a).or (if a = id then some r else none) := by
  change ((d.remotes.insertIfNew id d.heapTop)[a]?).map (d.insertRemote id r).heap = _
  rw [get_insertIfNew, remote?]
  cases ha : d.remotes[a]? with
  | none =>
      simp only [and_true, Option.map_none, Option.none_or, eq_comm (a := a)]
      split_ifs
      · rw [Option.map_some, insertRemote_top]
      · rfl
  | some p =>
      simp only [reduceCtorEq, and_false, if_false, Option.map_some, Option.some_or,
        insertRemote_heap (h ha)]

theorem loads_loadRemote (isExternal : Bool) (d : Device) (id : UInt32) :
    LoadsRemotes d (loadRemote isExternal d id) := by
  unfold loadRemote
  split
  · exact .refl d
  · exact ⟨rfl, rfl, rfl, rfl, rfl, rfl, fun h => below_insertRemote h _ _⟩

theorem remote?_loadRemote (h : d.Below) (isExternal : Bool) (id a : UInt32) :
    (loadRemote isExternal d id).remote? a =
      (d.remote? a).or (if a = id then d.reload isExternal a else none) := by
  unfold loadRemote
  split
  case h_1 hnone =>
    have hr : (if a = id then d.reload isExternal a else none) = none := by
      split_ifs with ha
      · rw [ha, reload, hnone, Option.map_none]
      · rfl
    rw [hr, Option.or_none]
  case h_2 cfg hcfg =>
    rw [remote?_insertRemote h]
    congr 1
    split_ifs with ha
    · rw [ha, reload, hcfg, Option.map_some]
    · rfl

theorem loads_foldl {ι : Type*} {f : Device → ι → Device} (hf : ∀ d i, LoadsRemotes d (f d i))
    (is : List ι) (d : Device) : LoadsRemotes d (is.foldl f d) := by
  induction is generalizing d with
  | nil => exact .refl d
  | cons i is ih => exact (hf d i).trans (ih (f d i))

/-- A whole list is loaded; the first remote under an id stays. -/
theorem remote?_loadList {ι : Type*} {f : Device → ι → Device} (isExternal : Bool)
    {id : ι → UInt32}
    (hf : ∀ d i, LoadsRemotes d (f d i))
    (hr : ∀ d i a, d.Below → (f d i).remote? a =
      (d.remote? a).or (if a = id i then d.reload isExternal a else none))
    (is : List ι) {d : Device} (h : d.Below) (a : UInt32) :
    (is.foldl f d).remote? a =
      (d.remote? a).or (if a ∈ is.map id then d.reload isExternal a else none) := by
  induction is generalizing d with
  | nil => simp
  | cons i is ih =>
      rw [List.foldl_cons, ih ((hf d i).below h), hr d i a h, (hf d i).reload, Option.or_assoc]
      congr 1
      simp only [List.map_cons, List.mem_cons]
      by_cases ha : a = id i
      · simp only [ha, true_or, if_true]
        cases d.reload isExternal (id i) <;> simp
      · simp [ha]

theorem toNat_fullId (low : UInt16) : (fullId low).toNat = 0x270000 + low.toNat := by
  have h := toNat_magic_or 0x27 low.toNat low.toNat_lt
  simpa [fullId, baseRemoteId, Nat.or_comm] using h

theorem toUInt16_fullId (low : UInt16) : (fullId low).toUInt16 = low := by
  have hlt := low.toNat_lt
  rw [← UInt16.toNat_inj, UInt32.toNat_toUInt16, toNat_fullId]
  omega

/-- The created ids are those that their low half stands for. -/
theorem fullId_toUInt16 {id : UInt32} (h : 0x270000 < id.toNat ∧ id.toNat < 0x280000) :
    fullId id.toUInt16 = id := by
  rw [← UInt32.toNat_inj, toNat_fullId, UInt32.toNat_toUInt16]
  omega

theorem raiseNextRemoteId_eq (d : Device) (id : UInt32) :
    ∃ next, d.raiseNextRemoteId id = { d with nextRemoteId := next } := by
  unfold raiseNextRemoteId
  split_ifs
  · exact ⟨_, rfl⟩
  · exact ⟨_, rfl⟩

theorem loads_loadInternal (d : Device) (low : UInt16) : LoadsRemotes d (loadInternal d low) := by
  obtain ⟨next, hnext⟩ := raiseNextRemoteId_eq d (fullId low)
  have hraise : LoadsRemotes d { d with nextRemoteId := next } :=
    ⟨rfl, rfl, rfl, rfl, rfl, rfl, id⟩
  unfold loadInternal
  rw [hnext]
  exact hraise.trans (loads_loadRemote false _ _)

theorem remote?_loadInternal (h : d.Below) (low : UInt16) (a : UInt32) :
    (loadInternal d low).remote? a =
      (d.remote? a).or (if a = fullId low then d.reload false a else none) := by
  obtain ⟨next, hnext⟩ := raiseNextRemoteId_eq d (fullId low)
  unfold loadInternal
  rw [hnext]
  exact remote?_loadRemote (d := { d with nextRemoteId := next }) h false (fullId low) a

theorem loadInternal_raises (d : Device) (low : UInt16) :
    (loadInternal d low).nextRemoteId = (d.raiseNextRemoteId (fullId low)).nextRemoteId := by
  unfold loadInternal loadRemote
  split <;> rfl

/-- The next id stays above the ids of the list. -/
theorem loadInternal_nextRemoteId (low : UInt16) (h : d.nextRemoteId.toNat ≤ 0x280000) :
    (loadInternal d low).nextRemoteId.toNat ≤ 0x280000 ∧
      d.nextRemoteId.toNat ≤ (loadInternal d low).nextRemoteId.toNat ∧
      (fullId low).toNat < (loadInternal d low).nextRemoteId.toNat := by
  have hlow := low.toNat_lt
  have hfull := toNat_fullId low
  have hsucc : (fullId low + 1).toNat = (fullId low).toNat + 1 := by
    rw [UInt32.toNat_add, UInt32.toNat_one]
    omega
  rw [loadInternal_raises, raiseNextRemoteId]
  split_ifs with hge <;> rw [ge_iff_le, UInt32.le_iff_toNat_le] at hge
  · simp only [hsucc]
    omega
  · omega

theorem loadInternals_nextRemoteId (lows : List UInt16) {d : Device}
    (h : d.nextRemoteId.toNat ≤ 0x280000) :
    (lows.foldl loadInternal d).nextRemoteId.toNat ≤ 0x280000 ∧
      d.nextRemoteId.toNat ≤ (lows.foldl loadInternal d).nextRemoteId.toNat ∧
      ∀ low ∈ lows, (fullId low).toNat < (lows.foldl loadInternal d).nextRemoteId.toNat := by
  induction lows generalizing d with
  | nil => exact ⟨h, le_rfl, by simp⟩
  | cons low lows ih =>
      obtain ⟨hmax, hle, hlt⟩ := loadInternal_nextRemoteId low h
      obtain ⟨imax, ile, ilt⟩ := ih hmax
      refine ⟨imax, hle.trans ile, fun l hl => ?_⟩
      rcases List.mem_cons.mp hl with rfl | hl
      · exact hlt.trans_le ile
      · exact ilt l hl

/-- What the constructor of `SomfyRemotes` registers. -/
theorem remote?_loadRemotes (h : d.Below) (a : UInt32) :
    d.loadRemotes.remote? a =
      ((d.remote? a).or
        (if a ∈ d.config.getRemoteIds.map fullId then d.reload false a else none)).or
          (if a ∈ d.config.getExternalRemoteIds then d.reload true a else none) := by
  have hint := loads_foldl loads_loadInternal d.config.getRemoteIds d
  unfold loadRemotes
  rw [remote?_loadList true (loads_loadRemote true)
      (fun d i a hb => remote?_loadRemote hb true i a) _ (hint.below h),
    remote?_loadList false loads_loadInternal
      (fun d i a hb => remote?_loadInternal hb i a) _ h, hint.reload, List.map_id']

theorem loads_loadRemotes (d : Device) : LoadsRemotes d d.loadRemotes :=
  (loads_foldl loads_loadInternal _ d).trans (loads_foldl (loads_loadRemote true) _ _)

theorem loadExternals_nextRemoteId (ids : List UInt32) (d : Device) :
    (ids.foldl (loadRemote true) d).nextRemoteId = d.nextRemoteId := by
  induction ids generalizing d with
  | nil => rfl
  | cons id ids ih =>
      rw [List.foldl_cons, ih]
      unfold loadRemote
      split <;> rfl

/-- The blind a record is loaded as. -/
def reloadBlind (d : Device) (blindId : UInt16) : Option Blind :=
  (d.config.getBlindConfig blindId).bind fun cfg =>
    (d.remotes[cfg.remoteId]?).map fun remote =>
      .create d.mqttEnabled d.clock blindId cfg.blindName.chars cfg.currentPosition
        cfg.myPosition cfg.openTime cfg.closeTime remote

/-- Loading blinds leaves everything else alone, if no record is deleted. -/
def LoadsBlinds (d d' : Device) : Prop :=
  d' = { d with blinds := d'.blinds, nextBlindId := d'.nextBlindId }

theorem LoadsBlinds.reloadBlind (h : LoadsBlinds d d') (k : UInt16) :
    d'.reloadBlind k = d.reloadBlind k := by
  rw [h]
  rfl

theorem toUInt32_inj {a b : UInt16} (h : a.toUInt32 = b.toUInt32) : a = b := by
  rw [← UInt16.toUInt16_toUInt32 a, ← UInt16.toUInt16_toUInt32 b, h]

/-- A listed blind with its record and its remote is loaded. -/
theorem loadBlind_eq {k : UInt16} {b : Blind} (h : d.reloadBlind k = some b)
    (hmax : d.nextBlindId.toNat ≤ 65536) :
    ∃ d', loadBlind (d, false) k = some (d', false) ∧ LoadsBlinds d d' ∧
      d'.blinds = d.blinds.insertIfNew k.toUInt32 b ∧ d'.nextBlindId.toNat ≤ 65536 ∧
      d.nextBlindId.toNat ≤ d'.nextBlindId.toNat ∧ k.toNat < d'.nextBlindId.toNat := by
  obtain ⟨cfg, hcfg, h⟩ := Option.bind_eq_some_iff.mp h
  obtain ⟨p, hp, rfl⟩ := Option.map_eq_some_iff.mp h
  have hk := k.toNat_lt
  have hsucc : (k.toUInt32 + 1).toNat = k.toNat + 1 := by
    rw [UInt32.toNat_add, UInt32.toNat_one, UInt16.toNat_toUInt32]
    omega
  unfold loadBlind
  rw [hcfg, Option.map_some]
  unfold raiseNextBlindId restoreBlind
  split_ifs with hge <;> dsimp only at hge <;>
    rw [ge_iff_le, UInt32.le_iff_toNat_le, UInt16.toNat_toUInt32] at hge
  · simp only [hp]
    exact ⟨_, rfl, rfl, rfl, by simp only [hsucc]; omega, by simp only [hsucc]; omega,
      by simp only [hsucc]; omega⟩
  · simp only [hp]
    exact ⟨_, rfl, rfl, rfl, hmax, le_rfl, by simp only; omega⟩

theorem loadBlinds_eq (ks : List UInt16) {d : Device} (hall : ∀ k ∈ ks, ∃ b, d.reloadBlind k = some b)
    (hmax : d.nextBlindId.toNat ≤ 65536) :
    ∃ d', ks.foldlM loadBlind (d, false) = some (d', false) ∧ LoadsBlinds d d' ∧
      (∀ i : UInt32, d'.blinds[i]? =
        (d.blinds[i]?).or (if i ∈ ks.map UInt16.toUInt32 then d.reloadBlind i.toUInt16 else none)) ∧
      d'.nextBlindId.toNat ≤ 65536 ∧ d.nextBlindId.toNat ≤ d'.nextBlindId.toNat ∧
      ∀ k ∈ ks, k.toNat < d'.nextBlindId.toNat := by
  induction ks generalizing d with
  | nil => exact ⟨d, rfl, rfl, by simp, hmax, le_rfl, by simp⟩
  | cons k ks ih =>
      obtain ⟨b, hb⟩ := hall k List.mem_cons_self
      obtain ⟨d₁, h₁, hl₁, hblinds, hmax₁, hle₁, hlt₁⟩ := loadBlind_eq hb hmax
      obtain ⟨d', h', hl', hfind, hmax', hle', hlt'⟩ := ih (d := d₁)
        (fun i hi => by rw [hl₁.reloadBlind]; exact hall i (List.mem_cons_of_mem _ hi)) hmax₁
      refine ⟨d', ?_, ?_, fun i => ?_, hmax', hle₁.trans hle', fun i hi => ?_⟩
      · rw [List.foldlM_cons, h₁]
        exact h'
      · rw [LoadsBlinds, hl', hl₁]
      · rw [hfind, hl₁.reloadBlind, hblinds, get_insertIfNew]
        by_cases hi : k.toUInt32 = i
        · subst hi
          cases hold : d.blinds[k.toUInt32]? <;> simp [hb]
        · have hi' : ¬i = k.toUInt32 := Ne.symm hi
          simp [hi, hi']
      · rcases List.mem_cons.mp hi with rfl | hi
        · exact hlt₁.trans_le hle'
        · exact hlt' i hi

end Device

end PicoSomfy
