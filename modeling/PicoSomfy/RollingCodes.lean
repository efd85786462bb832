import PicoSomfy.PressCalls
import PicoSomfy.GracefulRestart

/-!
# Rolling codes that climb

A press sends the rolling code of its remote and moves on to the next one, and an overheard
press takes the remote to the code after its own, whatever that is. As long as no overheard
code is older than the newest one used, and the last code is not reached, the code of a remote
only grows, through saves and restarts, and every press sends a code above all those used
before it.
-/
namespace PicoSomfy

open SortedMap DeviceConfig

/-- The code that a press sends or that was overheard, on one remote. -/
def Happening.usedCode (id : UInt32) : Happening → Option ℕ
  | .pressed command _ | .overheard command =>
      if command.remoteId = id then some command.rollingCode.toNat else none
  | .told _ _ => none

def usedCodes (id : UInt32) (history : List Happening) : List ℕ :=
  history.filterMap (·.usedCode id)

/-- Every press of the remote sends a code above all those used before. -/
def Climbs (id : UInt32) (history : List Happening) : Prop :=
  ∀ before command accepted after, history = before ++ .pressed command accepted :: after →
    command.remoteId = id → ∀ code ∈ usedCodes id before, code < command.rollingCode.toNat

theorem climbs_nil (id : UInt32) : Climbs id [] := fun _ _ _ _ h => by simp at h

theorem climbs_snoc {id : UInt32} {history : List Happening} {h : Happening}
    (hclimbs : Climbs id history)
    (hlast : ∀ command accepted, h = .pressed command accepted → command.remoteId = id →
      ∀ code ∈ usedCodes id history, code < command.rollingCode.toNat) :
    Climbs id (history ++ [h]) := by
  intro before command accepted after heq hid
  rcases List.eq_nil_or_concat after with rfl | ⟨rest, last, rfl⟩
  · obtain ⟨rfl, hh⟩ := List.append_inj' heq rfl
    exact hlast command accepted (List.cons.inj hh).1 hid
  · rw [List.concat_eq_append, ← List.cons_append, ← List.append_assoc] at heq
    obtain ⟨hfront, -⟩ := List.append_inj' heq rfl
    exact hclimbs before command accepted rest hfront hid

/-- The press at one place of a history that climbs. -/
theorem Climbs.at {id : UInt32} {history : List Happening} (h : Climbs id history) {n : ℕ}
    {command : SomfyCommand} {accepted : Bool} (hn : history[n]? = some (.pressed command accepted))
    (hid : command.remoteId = id) :
    ∀ code ∈ usedCodes id (history.take n), code < command.rollingCode.toNat := by
  obtain ⟨hlt, hget⟩ := List.getElem?_eq_some_iff.mp hn
  refine h (history.take n) command accepted (history.drop (n + 1)) ?_ hid
  rw [← hget, List.getElem_cons_drop, List.take_append_drop]

theorem usedCodes_snoc (id : UInt32) (history : List Happening) (h : Happening) :
    usedCodes id (history ++ [h]) = usedCodes id history ++ (h.usedCode id).toList := by
  rw [usedCodes, List.filterMap_append, ← usedCodes]
  cases hh : h.usedCode id <;> simp [hh]

/-- What the blinds are told uses no code. -/
theorem climbs_tolds {id : UInt32} {history : List Happening} (command : SomfyCommand)
    (ks : List UInt16) (hclimbs : Climbs id history) :
    Climbs id (history ++ ks.map fun k => .told k command) ∧
      usedCodes id (history ++ ks.map fun k => .told k command) = usedCodes id history := by
  induction ks generalizing history with
  | nil => simpa using hclimbs
  | cons k ks ih =>
      have hnext : Climbs id (history ++ [.told k command]) := climbs_snoc hclimbs nofun
      obtain ⟨hrest, hused⟩ := ih hnext
      rw [List.map_cons, List.append_cons]
      refine ⟨hrest, hused.trans ?_⟩
      rw [usedCodes_snoc]
      exact List.append_nil _

namespace Device

variable {d d' d₁ : Device} {id : UInt32}

/-- The rolling code of a registered remote. -/
def rollingCode? (d : Device) (id : UInt32) : Option ℕ :=
  (d.remote? id).map (·.rollingCode.toNat)

/-- Since the state `d₁` the code has only grown, and the presses climb. A remote with a
reserved id is not loaded again. -/
structure InOrder (id : UInt32) (d₁ d : Device) : Prop where
  recent : ∃ recent, d.history = d₁.history ++ recent ∧ Climbs id recent ∧
    ∀ code ∈ d.rollingCode? id, ∀ used ∈ usedCodes id recent, used < code
  onward : ∀ code₁ ∈ d₁.rollingCode? id,
    (∃ code ∈ d.rollingCode? id, code₁ ≤ code) ∨ (Reserved id ∧ d.rollingCode? id = none)

theorem InOrder.refl (id : UInt32) (d : Device) : InOrder id d d where
  recent := ⟨[], (List.append_nil _).symm, climbs_nil id, nofun⟩
  onward code hcode := .inl ⟨code, hcode, le_rfl⟩

/-- A change that uses no code. -/
theorem InOrder.same (h : InOrder id d₁ d) (hhistory : d'.history = d.history)
    (hcode : d'.rollingCode? id = d.rollingCode? id) : InOrder id d₁ d' := by
  obtain ⟨recent, honward⟩ := h
  exact ⟨by rwa [hhistory, hcode], by rwa [hcode]⟩

theorem rollingCode?_modifyRemote (h : d.Registry) {p : ℕ} (hp : d.Registered p)
    (f : SomfyRemote → SomfyRemote) (id : UInt32) : (d.modifyRemote p f).rollingCode? id =
      if (d.heap p).remoteId = id then some (f (d.heap p)).rollingCode.toNat
      else d.rollingCode? id := by
  obtain ⟨own, hown⟩ := hp
  obtain rfl := (h.registered hown).2
  unfold rollingCode? remote? modifyRemote
  split_ifs with hid
  · simp only [← hid, hown, Option.map_some, Function.update_self]
  · cases hq : d.remotes[id]? with
    | none => rfl
    | some q =>
        have hne : q ≠ p := by
          rintro rfl
          exact hid (h.registered hq).2
        simp only [Option.map_some, Function.update_of_ne hne]

/-- A remote that keeps its code. -/
theorem InOrder.modifyRemote (h : InOrder id d₁ d) (p : ℕ) {f : SomfyRemote → SomfyRemote}
    (hf : ∀ r, (f r).rollingCode = r.rollingCode) : InOrder id d₁ (d.modifyRemote p f) := by
  refine h.same rfl ?_
  unfold rollingCode? remote? Device.modifyRemote
  cases d.remotes[id]? with
  | none => rfl
  | some q =>
      by_cases hq : q = p
      · subst hq
        simp only [Option.map_some, Function.update_self, hf]
      · simp only [Option.map_some, Function.update_of_ne hq]

theorem toNat_next {code : UInt16} (h : code.toNat < 65535) :
    (code + 1).toNat = code.toNat + 1 := by
  rw [UInt16.toNat_add]
  change (code.toNat + 1) % 65536 = _
  omega

/-- A code is used, and its remote moves on to the one after it. -/
theorem InOrder.use (h : InOrder id d₁ d) {note : Happening} (command : SomfyCommand)
    (ks : List UInt16)
    (hkind : note = .overheard command ∨ ∃ accepted, note = .pressed command accepted ∧
      (command.remoteId = id → d.rollingCode? id = some command.rollingCode.toNat))
    (hnew : command.remoteId = id → command.rollingCode.toNat < 65535 ∧
      ∃ code ∈ d.rollingCode? id, code ≤ command.rollingCode.toNat + 1)
    (hhistory : d'.history = d.history ++ note :: ks.map fun k => .told k command)
    (hcode : d'.rollingCode? id = if command.remoteId = id then
      some (command.rollingCode + 1).toNat else d.rollingCode? id) : InOrder id d₁ d' := by
  obtain ⟨⟨recent, hrecent, hclimbs, hbelow⟩, honward⟩ := h
  have hlast : Climbs id (recent ++ [note]) := climbs_snoc hclimbs fun c accepted heq hid => by
    rcases hkind with rfl | ⟨a, rfl, hcurrent⟩
    · cases heq
    · cases heq
      exact hbelow _ (hcurrent hid)
  obtain ⟨htolds, hused⟩ := climbs_tolds command ks hlast
  have hnote : note.usedCode id =
      if command.remoteId = id then some command.rollingCode.toNat else none := by
    rcases hkind with rfl | ⟨a, rfl, -⟩ <;> rfl
  rw [usedCodes_snoc, hnote] at hused
  refine ⟨⟨recent ++ note :: ks.map fun k => .told k command, ?_, ?_, ?_⟩, ?_⟩
  · rw [hhistory, hrecent, List.append_assoc]
  · rwa [List.append_cons]
  · rw [List.append_cons, hused, hcode]
    split_ifs with hid
    · obtain ⟨hlt, old, hold, hle⟩ := hnew hid
      rw [toNat_next hlt]
      intro code hmem used hu
      obtain rfl := Option.mem_some.mp hmem
      rcases List.mem_append.mp hu with hu | hu
      · exact (hbelow old hold used hu).trans_le hle
      · obtain rfl := Option.some.inj (Option.mem_toList.mp hu)
        exact Nat.lt_succ_self _
    · simpa only [Option.toList_none, List.append_nil] using hbelow
  · rw [hcode]
    split_ifs with hid
    · obtain ⟨hlt, old, hold, hle⟩ := hnew hid
      intro code₁ hcode₁
      refine .inl ⟨_, rfl, ?_⟩
      rw [toNat_next hlt]
      rcases honward code₁ hcode₁ with ⟨code, hcode, hgrown⟩ | ⟨-, hgone⟩
      · obtain rfl := Option.mem_unique hold hcode
        exact hgrown.trans hle
      · rw [hgone] at hold
        cases hold
    · exact honward

/-- A registered remote shows its code under its id. -/
theorem rollingCode?_registered (h : d.Registry) {p : ℕ} (hp : d.Registered p) :
    d.rollingCode? (d.heap p).remoteId = some (d.heap p).rollingCode.toNat := by
  obtain ⟨own, hown⟩ := hp
  have hid := (h.registered hown).2
  rw [rollingCode?, remote?, hid, hown, Option.map_some, Option.map_some]

theorem InOrder.press {x : Press} (h : InOrder id d₁ x.found) (hreg : x.found.Registry)
    (hx : x.found.Registered x.remote)
    (hroom : x.command.remoteId = id → x.command.rollingCode.toNat < 65535)
    (hd : x.perform = some d) : InOrder id d₁ d := by
  have hcurrent : x.command.remoteId = id →
      x.found.rollingCode? id = some x.command.rollingCode.toNat := fun hid => by
    rw [← hid]
    exact rollingCode?_registered hreg hx
  refine h.use x.command x.blindIds (.inr ⟨_, rfl, hcurrent⟩) (fun hid => ⟨hroom hid, _, hcurrent hid, by omega⟩)
    (Press.perform_history hd) ?_
  have hcode := rollingCode?_modifyRemote hreg hx SomfyRemote.advance id
  rw [Device.pressButtons_eq hd]
  exact hcode

/-- Presses of registered remotes climb. -/
theorem Does.inOrder {xs : List Press} (h : Does d xs d')
    (hxs : ∀ x ∈ xs, x.found.Registry ∧ x.found.Registered x.remote ∧
      (x.command.remoteId = id → x.command.rollingCode.toNat < 65535))
    (ho : InOrder id d₁ d) : InOrder id d₁ d' := by
  induction h with
  | blinds d blinds => exact ho.same rfl rfl
  | @press x d hd =>
      obtain ⟨hreg, hx, hroom⟩ := hxs x List.mem_cons_self
      exact ho.press hreg hx hroom hd
  | trans _ _ ih₁ ih₂ =>
      exact ih₂ (fun x hx => hxs x (List.mem_append_right _ hx))
        (ih₁ (fun x hx => hxs x (List.mem_append_left _ hx)) ho)

/-- A press of a valid call is one of a registered remote. -/
theorem presses_registered (h : d.Registry) {c : Call} (hv : c.Valid d) {x : Press}
    (hx : x ∈ d.presses c) : x.found.Registry ∧ x.found.Registered x.remote := by
  rcases mem_presses hx with ⟨p, buttons, repeats, rfl, rfl⟩ | ⟨k, hk⟩
  · exact ⟨h, hv⟩
  · have hreg := hk.registry.registry h
    obtain ⟨b, hb, hremote⟩ := hk.primary
    refine ⟨hreg, (x.found.heap b.remote).remoteId, ?_⟩
    rw [hremote]
    exact (hreg.primary hb).1

theorem InOrder.overheard (h : InOrder id d₁ d) (hreg : d.Registry) {command : SomfyCommand}
    (hnew : command.remoteId = id → command.rollingCode.toNat < 65535 ∧
      ∀ code ∈ d.rollingCode? id, code ≤ command.rollingCode.toNat + 1)
    (hd : d.externalButtonPress command = some d') : InOrder id d₁ d' := by
  unfold externalButtonPress at hd
  split at hd
  · cases hd
    exact h.same rfl rfl
  · rename_i p hp
    unfold pressOverheard at hd
    have htells := tells_eq hd
    have hid := (hreg.registered hp).2
    have hx : d.Registered p := ⟨_, hp⟩
    have hcurrent := rollingCode?_registered hreg hx
    rw [hid] at hcurrent
    refine h.use command (d.heap p).associatedBlinds (.inl rfl) (fun heq => ?_) ?_ ?_
    · obtain ⟨hlt, hle⟩ := hnew heq
      rw [heq] at hcurrent
      exact ⟨hlt, _, hcurrent, hle _ hcurrent⟩
    · rw [htells]
      simp only [note, Device.modifyRemote, List.append_assoc, List.singleton_append]
    · have hcode := rollingCode?_modifyRemote hreg hx
        (fun r => r.follow command.rollingCode) id
      rw [hid] at hcode
      rw [htells]
      exact hcode

theorem InOrder.saves (h : InOrder id d₁ d) (hs : d.Saves d') : InOrder id d₁ d' := by
  refine h.same hs.history ?_
  unfold rollingCode? remote?
  rw [hs.remotes]
  cases d.remotes[id]? with
  | none => rfl
  | some p => rw [Option.map_some, Option.map_some, Option.map_some, Option.map_some, hs.remote p]

/-- A restart loads every code that is not stored under a reserved id. -/
theorem InOrder.restored {mqttEnabled : Bool} (h : InOrder id d₁ d)
    (hr : Restored mqttEnabled d d') (hhistory : d'.history = d.history) : InOrder id d₁ d' := by
  have hcode : d'.rollingCode? id = if Reserved id then none else d.rollingCode? id := by
    rw [rollingCode?, hr.remote, rollingCode?]
    split_ifs
    · rfl
    · cases d.remote? id with
      | none => rfl
      | some r =>
          rw [Option.map_some, Option.map_some, Option.map_some,
            (reloaded_fields mqttEnabled r).2.2.2.1]
  by_cases hid : Reserved id
  · rw [if_pos hid] at hcode
    obtain ⟨recent, hrecent, hclimbs, -⟩ := h.recent
    refine ⟨⟨recent, hhistory.trans hrecent, hclimbs, ?_⟩, fun _ _ => .inr ⟨hid, hcode⟩⟩
    rw [hcode]
    nofun
  · rw [if_neg hid] at hcode
    exact h.same hhistory hcode

end Device

/-- The calls that neither register nor remove a remote. -/
def Call.keepsRemotes : Call → Bool
  | .addBlind _ _ _ | .removeBlind _ _ | .createRemote _ | .importRemote _ _
  | .deleteRemote _ => false
  | _ => true

/-- An overheard code is at least the newest one used, and the last code is not reached. -/
def Call.NotOlder (id : UInt32) (d : Device) : Call → Prop
  | .overheard command => command.remoteId = id → command.rollingCode.toNat < 65535 ∧
      ∀ code ∈ d.rollingCode? id, code ≤ command.rollingCode.toNat + 1
  | c => c.keepsRemotes = true ∧
      ∀ x ∈ d.presses c, x.command.remoteId = id → x.command.rollingCode.toNat < 65535

instance (id : UInt32) (d : Device) (c : Call) : Decidable (c.NotOlder id d) := by
  cases c <;> unfold Call.NotOlder <;> infer_instance

namespace Device

variable {d d' d₁ : Device} {id : UInt32}

def NotOlder (id : UInt32) (d : Device) (e : Event) : Prop := ∀ c ∈ d.call e, c.NotOlder id d

instance (d : Device) (e : Event) : Decidable (d.NotOlder id e) := by
  unfold NotOlder
  infer_instance

theorem InOrder.perform {c : Call} (h : InOrder id d₁ d) (hinv : d.Inv) (hv : c.Valid d)
    (hnew : c.NotOlder id d) (hd : d.perform c = some d') (hlost : d'.config.lost = false) :
    InOrder id d₁ d' := by
  have hreg := hinv.registry
  cases hpress : c.mayPress with
  | true =>
      have hroom : ∀ x ∈ d.presses c, x.command.remoteId = id →
          x.command.rollingCode.toNat < 65535 := by
        cases c with
        | overheard command => cases hpress
        | _ => exact hnew.2
      refine (does_perform hpress hd).inOrder (fun x hx => ?_) h
      obtain ⟨hfound, hregistered⟩ := presses_registered hreg hv hx
      exact ⟨hfound, hregistered, hroom x hx⟩
  | false =>
      cases c with
      | overheard command => exact h.overheard hreg hnew hd
      | saveRemotes => exact h.saves (saves_saveRemoteState hd)
      | saveBlinds => exact h.saves (saves_saveBlindState hd)
      | restart mqttEnabled slots =>
          obtain ⟨-, hres, hhistory⟩ := Inv.restart (fun _ => hinv) hd hlost
          exact h.restored hres hhistory
      | updateBlind k b name openTime closeTime =>
          cases hd
          exact InOrder.modifyRemote (d := d.modifyBlind k _) ⟨h.recent, h.onward⟩ b.remote
            fun r => (setName_fields r _ name).2.2.2.2
      | rename p name =>
          cases hd
          exact h.modifyRemote p fun r => (setName_fields r _ name).2.2.2.2
      | associate p blindId =>
          cases hd
          refine h.modifyRemote p fun r => ?_
          unfold SomfyRemote.associateBlind
          split_ifs <;> rfl
      | disassociate p blindId =>
          cases hd
          exact h.modifyRemote p fun r => rfl
      | nothing => exact Option.some.inj hd ▸ h
      | wait microseconds =>
          cases hd
          exact h.same rfl rfl
      | discover =>
          cases hd
          exact h.same rfl rfl
      | worker packet =>
          obtain ⟨radio, -, rfl⟩ := Option.map_eq_some_iff.mp hd
          exact h.same rfl rfl
      | packetReady =>
          obtain ⟨radio, -, rfl⟩ := Option.map_eq_some_iff.mp hd
          exact h.same rfl rfl
      | press p buttons repeats => cases hpress
      | goUp k => cases hpress
      | goDown k => cases hpress
      | stop k => cases hpress
      | goToPosition k position => cases hpress
      | tick k position state => cases hpress
      | _ => exact absurd hnew.1 Bool.false_ne_true

/-- A call that keeps the remotes has nothing to be regular about. -/
theorem NotOlder.regular {e : Event} (h : d.NotOlder id e) : d.Regular e := fun c hc => by
  have hnew := h c hc
  cases c <;> first | trivial | exact absurd hnew.1 Bool.false_ne_true

/-- In every run that only overhears codes as new as the newest one used, the code of a remote
never decreases, and every press sends a code above all those used before it. -/
theorem codes_climb {dc : DeviceConfig} {mqttEnabled : Bool} {slots : ℕ → RecvCommand}
    (hpages : dc.storage.blockPages = 1) (hok : ∀ i, dc.chip.verdict i = true) {d₀ d₂ : Device}
    (hd₀ : freshDevice dc mqttEnabled slots = some d₀) {past es : List Event}
    (hpast : Transitions.Run step (fun d e => d.Regular e) d₀ past d₁) (id : UInt32)
    (hrun : Transitions.Run step (fun d e => d.NotOlder id e) d₁ es d₂)
    (hlost : d₂.config.lost = false) :
    (∀ code₁ ∈ d₁.rollingCode? id, (∃ code ∈ d₂.rollingCode? id, code₁ ≤ code) ∨
      (Reserved id ∧ d₂.rollingCode? id = none)) ∧
    Climbs id (d₂.history.drop d₁.history.length) := by
  have hstart := hpast.invariant (I := fun d => d.config.lost = false → d.Inv)
    (fun h hr hstep hlost => Inv.step h hr hstep hlost) fun _ => (fresh_inv hpages hok hd₀).1
  have hend := hrun.invariant
    (I := fun d => d.config.lost = false → d.Inv ∧ InOrder id d₁ d)
    (fun {d e d'} h hnew hstep hlost => by
      obtain ⟨c, hc, hv, hp⟩ := step_cases hstep
      obtain ⟨hinv, horder⟩ := h (lasting_perform hp hlost)
      exact ⟨Inv.step (fun _ => hinv) hnew.regular hstep hlost,
        horder.perform hinv hv (hnew c hc) hp hlost⟩)
    fun hl => ⟨hstart hl, .refl id d₁⟩
  obtain ⟨⟨recent, hrecent, hclimbs, -⟩, honward⟩ := (hend hlost).2
  refine ⟨honward, ?_⟩
  rwa [hrecent, List.drop_left]

def noCommands : ℕ → RecvCommand := fun _ => ⟨⟨0, 0, 0, 0⟩, 0⟩

/-- The real remote is pressed with its code. -/
def hearUp (code : UInt16) : Event := .overheard ⟨0x270001, code, 3, .up⟩

def climbing : List Event :=
  [pressUp, hearUp 1, hearUp 7, .saveRemotes, pressUp, .restart false noCommands, pressUp]

theorem codes_climb_addBlind :
    ∃ d₀ d₁ d₂ : Device, freshDevice oneSector false noCommands = some d₀ ∧
      d₀.step addSalon = some d₁ ∧
      Transitions.Run step (fun d e => d.NotOlder 0x270001 e) d₁ climbing d₂ ∧
      ((∀ code₁ ∈ d₁.rollingCode? 0x270001, (∃ code ∈ d₂.rollingCode? 0x270001, code₁ ≤ code) ∨
        (Reserved 0x270001 ∧ d₂.rollingCode? 0x270001 = none)) ∧
      Climbs 0x270001 (d₂.history.drop d₁.history.length)) := by
  obtain ⟨d₀, d₁, hd₀, hregular, hd₁, -⟩ := first_blind
  have hany : (freshDevice oneSector false noCommands).any (fun d₀ =>
      (d₀.step addSalon).any fun d₁ =>
        (Transitions.guardedExec step (fun d e => d.NotOlder 0x270001 e) d₁ climbing).any
          fun d₂ => !d₂.config.lost) = true := by
    decide +kernel
  change freshDevice oneSector false noCommands = some d₀ at hd₀
  rw [hd₀, Option.any_some, hd₁, Option.any_some] at hany
  obtain ⟨d₂, hd₂, hlost⟩ := (Option.any_eq_true _ _).mp hany
  have hrun := Transitions.run_of_guardedExec hd₂
  exact ⟨d₀, d₁, d₂, hd₀, hd₁, hrun, codes_climb rfl (fun _ => rfl) hd₀ (.single hregular hd₁)
    0x270001 hrun (by simpa using hlost)⟩

/-- From the state after `before`, the events `after` take the code of the first remote from
one value to another. -/
def CodeMoves (dc : DeviceConfig) (before after : List Event) (code code' : ℕ) : Prop :=
  ∃ d₀ d d' : Device, freshDevice dc false noCommands = some d₀ ∧
    Transitions.Run step Transitions.Free d₀ before d ∧
    Transitions.Run step Transitions.Free d after d' ∧
    d.rollingCode? 0x270001 = some code ∧ d'.rollingCode? 0x270001 = some code'

theorem codeMoves_of_exec {dc : DeviceConfig} {before after : List Event} {code code' : ℕ}
    (h : (freshDevice dc false noCommands).any (fun d₀ =>
      (Transitions.exec step d₀ before).any fun d => (Transitions.exec step d after).any fun d' =>
        decide (d.rollingCode? 0x270001 = some code ∧ d'.rollingCode? 0x270001 = some code')) =
      true) : CodeMoves dc before after code code' := by
  obtain ⟨d₀, hd₀, h⟩ := (Option.any_eq_true _ _).mp h
  obtain ⟨d, hd, h⟩ := (Option.any_eq_true _ _).mp h
  obtain ⟨d', hd', h⟩ := (Option.any_eq_true _ _).mp h
  exact ⟨d₀, d, d', hd₀, Transitions.run_of_exec hd, Transitions.run_of_exec hd',
    of_decide_eq_true h⟩

/-- After nine of its calls the flash refuses all others. -/
def wornOut : DeviceConfig :=
  { oneSector with chip := { oneSector.chip with verdict := fun i => decide (i < 9) } }

/-- An older code that is overheard takes the remote back, and the next press sends a code for
the second time. So do the last code, a second remote with the same low half of the id, and a
write that fails. -/
theorem codes_go_back :
    (CodeMoves oneSector [addSalon, pressUp, pressUp, pressUp] [hearUp 1] 4 2 ∧
      ∃ d₀ d₁ d : Device, freshDevice oneSector false noCommands = some d₀ ∧
        d₀.step addSalon = some d₁ ∧
        Transitions.Run step Transitions.Free d₁ [pressUp, pressUp, hearUp 1, pressUp] d ∧
        ¬Climbs 0x270001 (d.history.drop d₁.history.length)) ∧
    CodeMoves oneSector [addSalon, hearUp 65534] [pressUp] 65535 0 ∧
    CodeMoves oneSector [addSalon, pressUp, .saveRemotes,
      .request .importRemote (query [("name", "hall"), ("id", "65537")]) default]
      [.restart false noCommands] 2 1 ∧
    CodeMoves wornOut [addSalon, pressUp] [.restart false noCommands] 2 1 := by
  refine ⟨⟨codeMoves_of_exec (by decide +kernel), ?_⟩, codeMoves_of_exec (by decide +kernel),
    codeMoves_of_exec (by decide +kernel), codeMoves_of_exec (by decide +kernel)⟩
  have hany : (freshDevice oneSector false noCommands).any (fun d₀ =>
      (d₀.step addSalon).any fun d₁ =>
        (Transitions.exec step d₁ [pressUp, pressUp, hearUp 1, pressUp]).any fun d =>
          decide ((d.history.drop d₁.history.length)[6]? =
            some (.pressed ⟨0x270001, 2, 3, .up⟩ true) ∧
            2 ∈ usedCodes 0x270001 ((d.history.drop d₁.history.length).take 6))) = true := by
    decide +kernel
  obtain ⟨d₀, hd₀, hany⟩ := (Option.any_eq_true _ _).mp hany
  obtain ⟨d₁, hd₁, hany⟩ := (Option.any_eq_true _ _).mp hany
  obtain ⟨d, hd, hany⟩ := (Option.any_eq_true _ _).mp hany
  obtain ⟨hpress, hused⟩ := of_decide_eq_true hany
  exact ⟨d₀, d₁, d, hd₀, hd₁, Transitions.run_of_exec hd, fun h =>
    absurd (h.at hpress rfl 2 hused) (by decide)⟩

end Device

end PicoSomfy
