import PicoSomfy.PowerCuts
import PicoSomfy.IdListLimits

/-!
# No id is listed twice

The lists of remotes in flash are written from the map of the remotes, which has every id
once. The low halves of the created ids differ, so no half stands twice either. The other
writes of a call leave the lists alone, and so does everything that is saved later.
-/
namespace PicoSomfy

open SortedMap DeviceConfig

/-- The lists of remotes have every id once. -/
structure FlashImage.Once (img : FlashImage) : Prop where
  internal : img.internal.Nodup
  external : img.external.Nodup

/-- A list that a call writes has every id once. -/
def FlashCall.Once : FlashCall → Prop
  | .remoteIds ids => ids.Nodup
  | .externalIds ids => ids.Nodup
  | _ => True

theorem FlashImage.Once.act {img : FlashImage} (h : img.Once) {f : FlashCall} (hf : f.Once) :
    (f.act img).Once := by
  cases f with
  | remoteIds ids => exact ⟨hf, h.external⟩
  | externalIds ids => exact ⟨h.internal, hf⟩
  | _ => exact ⟨h.internal, h.external⟩

theorem FlashImage.Once.acts {fs : List FlashCall} {img : FlashImage} (h : img.Once)
    (hfs : ∀ f ∈ fs, f.Once) : (fs.foldl FlashCall.act img).Once := by
  induction fs generalizing img with
  | nil => exact h
  | cons f fs ih =>
      apply ih (h.act (hfs f List.mem_cons_self))
      exact fun g hg => hfs g (List.mem_cons_of_mem _ hg)

namespace Device

variable {d d' : Device}

theorem internalIds_nodup
    (hlow : ∀ {a b : UInt32}, a ∈ d.remotes → b ∈ d.remotes → a.toUInt16 = b.toUInt16 → a = b) :
    d.internalIds.Nodup := by
  have hkeys : ((d.remotes.toList.filter fun entry => !(d.heap entry.2).isExternal).map
      (·.1)).Nodup := by
    have hall := Std.ExtTreeMap.nodup_keys (t := d.remotes)
    rw [← Std.ExtTreeMap.map_fst_toList_eq_keys] at hall
    exact hall.sublist (List.filter_sublist.map _)
  have hmem : ∀ a ∈ (d.remotes.toList.filter fun entry => !(d.heap entry.2).isExternal).map (·.1),
      a ∈ d.remotes := by
    intro a ha
    obtain ⟨entry, hentry, rfl⟩ := List.mem_map.mp ha
    exact mem_iff.mpr ⟨entry.2, mem_toList.mp (List.mem_of_mem_filter hentry)⟩
  have hhalves := List.Nodup.map_on (fun a ha b hb => hlow (hmem a ha) (hmem b hb)) hkeys
  rw [List.map_map] at hhalves
  exact hhalves

/-- The halves still differ with a new remote, whatever it is like. -/
theorem internalIds_insert (hr : d.Registry) {id : UInt32} (hf : d.FreshHalf id) (r : SomfyRemote) :
    (d.insertRemote id r).internalIds.Nodup := by
  have hany := hr.insertRemote (r := { (default : SomfyRemote) with remoteId := id, isExternal := true })
    hf rfl fun he => absurd he Bool.true_eq_false.mp
  exact internalIds_nodup hany.lowHalves

theorem internalIds_erase (hr : d.Registry) (id : UInt32) :
    (internalIds { d with remotes := d.remotes.erase id }).Nodup := by
  have hold : ∀ {a : UInt32}, a ∈ d.remotes.erase id → a ∈ d.remotes := by
    intro a ha
    obtain ⟨p, hp⟩ := mem_iff.mp ha
    rw [get_erase] at hp
    split_ifs at hp
    exact mem_iff.mpr ⟨p, hp⟩
  exact internalIds_nodup fun ha hb => hr.lowHalves (hold ha) (hold hb)

theorem remoteListCalls_once (h : d.internalIds.Nodup) : ∀ f ∈ d.remoteListCalls, FlashCall.Once f := by
  intro f hf
  simp only [remoteListCalls, List.mem_cons, List.not_mem_nil, or_false] at hf
  rcases hf with rfl | rfl
  · exact h
  · exact d.externalIds_nodup

theorem registerCalls_once (hr : d.Registry) {id : UInt32} (hf : d.FreshHalf id) (name : List UInt8)
    (isExternal : Bool) : ∀ f ∈ d.registerCalls name id isExternal, FlashCall.Once f := by
  intro f hmem
  rcases List.mem_append.mp hmem with hsave | hlists
  · obtain ⟨c, -, rfl⟩ := List.mem_map.mp hsave
    trivial
  · exact remoteListCalls_once (internalIds_insert hr hf _) f hlists

theorem deleteCalls_once (hr : d.Registry) (id : UInt32) : ∀ f ∈ d.deleteCalls id, FlashCall.Once f := by
  intro f hmem
  rcases List.mem_cons.mp hmem with rfl | hlists
  · trivial
  · exact remoteListCalls_once (internalIds_erase hr id) f hlists

theorem flashCalls_once (hr : d.Registry) {c : Call} (hc : c.Regular d) :
    ∀ f ∈ c.flashCalls d, FlashCall.Once f := by
  intro f hmem
  cases c with
  | addBlind name openTime closeTime =>
      rcases List.mem_append.mp hmem with hremote | hrest
      · exact registerCalls_once (d := d) hr hc.1.1 name false f hremote
      · rcases List.mem_append.mp hrest with hblind | hlist
        · obtain ⟨cfg, -, rfl⟩ := List.mem_map.mp hblind
          trivial
        · obtain rfl := List.mem_singleton.mp hlist
          trivial
  | createRemote name => exact registerCalls_once (d := d) hr hc.1 name false f hmem
  | importRemote name id => exact registerCalls_once hr hc.1 name true f hmem
  | deleteRemote id => exact deleteCalls_once hr id f hmem
  | removeBlind k b =>
      rcases List.mem_append.mp hmem with hremote | hrest
      · exact deleteCalls_once (d := d) hr _ f hremote
      · simp only [List.mem_cons, List.not_mem_nil, or_false] at hrest
        rcases hrest with rfl | rfl <;> trivial
  | _ => exact absurd hmem List.not_mem_nil

/-- What the loops that save keep. -/
structure Shelved (d : Device) : Prop where
  kept : d.config.Kept
  once : d.config.image.Once

theorem Shelved.saveRemote (h : d.Shelved) {p : ℕ} {force : Bool}
    (hd : d.saveRemote p force = some d') (hlost : d'.config.lost = false) : d'.Shelved := by
  rcases saveRemote_cases hd with ⟨rfl, -⟩ | ⟨c, -, rfl⟩
  · exact h
  obtain ⟨hkept, himage⟩ := FlashCall.image_run (f := .saveRemote (d.heap p).remoteId c) h.kept
    trivial hlost
  have honce := h.once.act (f := .saveRemote (d.heap p).remoteId c) trivial
  exact ⟨hkept, himage ▸ honce⟩

theorem Shelved.saveBlindAt (h : d.Shelved) {force : Bool} {k : UInt32}
    (hd : d.saveBlindAt force k = some d') (hlost : d'.config.lost = false) : d'.Shelved := by
  obtain ⟨b, -, ⟨rfl, -⟩ | ⟨c, -, rfl⟩⟩ := saveBlindAt_cases hd
  · exact ⟨h.kept, h.once⟩
  obtain ⟨hkept, himage⟩ := FlashCall.image_run (f := .saveBlind b.blindId c) h.kept trivial hlost
  have honce := h.once.act (f := .saveBlind b.blindId c) trivial
  exact ⟨hkept, himage ▸ honce⟩

theorem Shelved.saveRemoteState (h : d.config.lost = false → d.Shelved)
    (hd : d.saveRemoteState = some d') : d'.config.lost = false → d'.Shelved :=
  Transitions.foldlM_invariant
    (f := fun (d : Device) (entry : UInt32 × ℕ) => d.saveRemote entry.2 false)
    (fun _ e => e.config.lost = false → e.Shelved)
    (fun he hs hlost => (he (lasting_saveRemote hs hlost)).saveRemote hs hlost) h hd

theorem Shelved.saveBlindState (h : d.config.lost = false → d.Shelved) {force : Bool}
    (hd : d.saveBlindState force = some d') : d'.config.lost = false → d'.Shelved :=
  Transitions.foldlM_invariant (f := fun (d : Device) k => d.saveBlindAt force k)
    (fun _ e => e.config.lost = false → e.Shelved)
    (fun he hs hlost => (he (lasting_saveBlindAt hs hlost)).saveBlindAt hs hlost) h hd

theorem Shelved.saveAll (h : d.config.lost = false → d.Shelved) (hd : d.saveAll = some d') :
    d'.config.lost = false → d'.Shelved := by
  obtain ⟨d₁, h₁, h₂⟩ := Option.bind_eq_some_iff.mp hd
  exact Shelved.saveBlindState (Shelved.saveRemoteState h h₁) h₂

theorem once_perform {c : Call} (h : d.config.lost = false → d.Inv ∧ d.config.image.Once)
    (hr : c.Regular d) (hd : d.perform c = some d') (hlost : d'.config.lost = false) :
    d'.config.image.Once := by
  have hshelved : d.config.lost = false → d.Shelved :=
    fun hl => ⟨(h hl).1.stored.kept, (h hl).2⟩
  by_cases hsaves : c.saves = true
  · cases c with
    | saveRemotes => exact (Shelved.saveRemoteState hshelved hd hlost).once
    | saveBlinds => exact (Shelved.saveBlindState hshelved hd hlost).once
    | restart mqttEnabled slots =>
        obtain ⟨d₁, h₁, h₂⟩ := Option.bind_eq_some_iff.mp hd
        have hlost₁ := lasting_boot h₂ hlost
        obtain ⟨hdurable, -⟩ := saveAll_durable (fun hl => (h hl).1) h₁ hlost₁
        obtain ⟨d₂, hboot, -, hconfig, -, -⟩ := boot_inv mqttEnabled slots d₁.history hdurable
        obtain rfl : d' = d₂ := Option.some.inj (h₂.symm.trans hboot)
        rw [hconfig]
        exact (Shelved.saveAll hshelved h₁ hlost₁).once
    | _ => cases hsaves
  · rw [Bool.not_eq_true] at hsaves
    have hlost₀ : d.config.lost = false := by
      rw [perform_config hsaves hd] at hlost
      exact FlashCall.lost_runs hlost
    obtain ⟨hinv, honce⟩ := h hlost₀
    rw [perform_image hinv hr hsaves hd hlost]
    exact honce.acts (flashCalls_once hinv.registry hr)

end Device

/-- After a reset the lists are empty. -/
theorem DeviceConfig.once_hardReset {dc : DeviceConfig} (hpages : dc.storage.blockPages = 1)
    (hok : ∀ i, dc.chip.verdict i = true) :
    dc.hardReset.image.Once ∧ dc.hardReset.getBlindIds.Nodup := by
  obtain ⟨-, hnone⟩ := dc.hardReset_read hpages hok
  have hinternal : dc.hardReset.StoresIds .remoteIds [] :=
    ⟨by decide, .inr ⟨rfl, hnone .remoteIds (by simp) (by simp)⟩⟩
  have hexternal : dc.hardReset.StoresIds32 .externalRemoteIds [] :=
    ⟨by decide, .inr ⟨rfl, hnone .externalRemoteIds (by simp) (by simp)⟩⟩
  have hblinds : dc.hardReset.StoresIds .blindIds [] :=
    ⟨by decide, .inr ⟨rfl, hnone .blindIds (by simp) (by simp)⟩⟩
  refine ⟨⟨?_, ?_⟩, ?_⟩
  · rw [image, getRemoteIds_of_stored hinternal]
    exact List.nodup_nil
  · rw [image, getExternalRemoteIds_of_stored hexternal]
    exact List.nodup_nil
  · rw [getBlindIds_of_stored hblinds]
    exact List.nodup_nil

end PicoSomfy
