import PicoSomfy.ReceiveRing
import PicoSomfy.Transitions

/-!
# One call for each physical press

The main loop polls the ring and hands every command it reads to
`ExternalButtonPress`. A frame only counts as a repeat of the newest entry, so a
press whose frames are separated, by a frame of another press or by a poll, is
handed over twice. When frames of a known press arrive only while its entry is
the newest one, or are thrown away by a full ring, every press is handed over
once, with one repeat for each further frame.
-/
namespace PicoSomfy

open Transitions

/-- The ring and three histories: the valid frames that came in, those a full ring
threw away, and the commands handed to `ExternalButtonPress`. -/
structure Overheard where
  ring : ReceiveRing
  arrived : List PressKey
  discarded : List PressKey
  pressed : List SomfyCommand

inductive OverheardEvent where
  | packet (packet : Packet) (now : ℤ)
  | poll (now : ℤ)
  deriving DecidableEq, Repr

namespace Overheard

open ReceiveRing

def init (slots : ℕ → RecvCommand) : Overheard := ⟨.create slots, [], [], []⟩

/-- The entry a frame is compared with. -/
def newestKey (s : Overheard) : Option PressKey :=
  s.ring.entries.getLast?.map (·.command.key)

/-- A full ring throws away a frame that is no repeat. -/
def Discards (s : Overheard) (k : PressKey) : Prop :=
  s.ring.recvCount = 7 ∧ s.newestKey ≠ some k

instance (s : Overheard) (k : PressKey) : Decidable (s.Discards k) := by
  unfold Discards
  infer_instance

def step (s : Overheard) : OverheardEvent → Option Overheard
  | .packet packet now =>
      some { s with
        ring := s.ring.receiveCommand packet now
        arrived := s.arrived ++ packet.press.toList
        discarded := s.discarded ++ packet.press.toList.filter (s.Discards ·) }
  | .poll now =>
      some { s with
        ring := (s.ring.readCommand now).2
        pressed := s.pressed ++ (s.ring.readCommand now).1.toList }

/-- The commands handed over and those waiting in the ring, in order. -/
def commands (s : Overheard) : List SomfyCommand :=
  s.pressed ++ s.ring.entries.map (·.command)

/-- A frame of a press that is known already comes while its entry is the newest
one, or is thrown away. -/
def Ok (s : Overheard) : OverheardEvent → Prop
  | .packet packet _ => ∀ k ∈ packet.press.toList,
      k ∉ s.commands.map (·.key) ∨ s.newestKey = some k ∨ s.ring.recvCount = 7
  | .poll _ => True

instance (s : Overheard) (e : OverheardEvent) : Decidable (s.Ok e) := by
  cases e <;> unfold Ok <;> infer_instance

structure Once (s : Overheard) : Prop where
  aligned : s.ring.Aligned
  nodup : (s.commands.map (·.key)).Nodup
  accounted : ∀ k ∈ s.arrived, k ∈ s.commands.map (·.key) ∨ k ∈ s.discarded
  counted : ∀ c ∈ s.commands, c.key ∉ s.discarded →
    c.key ∈ s.arrived ∧ c.repeats = UInt16.ofNat (s.arrived.count c.key - 1)

variable {s : Overheard} {k : PressKey} {now : ℤ}

/-- A frame of the newest entry is one more repeat. -/
theorem Once.bump (h : s.Once) {q : List RecvCommand} {e : RecvCommand}
    (hq : s.ring.entries = q ++ [e]) (hk : e.command.key = k) {ring : ReceiveRing}
    (ha : ring.Aligned) (hr : ring.entries = q ++ [ReceiveRing.bump e now]) :
    Once { s with ring := ring, arrived := s.arrived ++ [k] } := by
  have hkeys : Overheard.commands { s with ring := ring, arrived := s.arrived ++ [k] } =
      s.pressed ++ q.map (·.command) ++ [(ReceiveRing.bump e now).command] := by
    simp [commands, hr]
  have hold : s.commands = s.pressed ++ q.map (·.command) ++ [e.command] := by
    simp [commands, hq]
  have hsame : (Overheard.commands { s with ring := ring, arrived := s.arrived ++ [k] }).map
      (·.key) = s.commands.map (·.key) := by
    simp [hkeys, hold, bump_key]
  have hdistinct : ∀ c ∈ s.pressed ++ q.map (·.command), c.key ≠ k := by
    have hn := h.nodup
    rw [hold, List.map_append, List.nodup_append] at hn
    intro c hc
    rw [← hk]
    exact hn.2.2 _ (List.mem_map_of_mem hc) _ (by simp)
  refine ⟨ha, by rw [hsame]; exact h.nodup, fun k' hk' => ?_, fun c hc hd => ?_⟩
  · rw [hsame]
    rcases List.mem_append.mp hk' with hk' | hk'
    · exact h.accounted k' hk'
    · rw [List.mem_singleton.mp hk', hold, ← hk]
      simp
  · rw [hkeys] at hc
    rcases List.mem_append.mp hc with hc | hc
    · obtain ⟨h₁, h₂⟩ := h.counted c (by rw [hold]; exact List.mem_append_left _ hc) hd
      refine ⟨List.mem_append_left _ h₁, ?_⟩
      rw [h₂, List.count_append, List.count_singleton, if_neg (by simpa using (hdistinct c hc).symm),
        Nat.add_zero]
    · rw [List.mem_singleton.mp hc] at hd ⊢
      rw [bump_key, hk] at hd ⊢
      have hmem : e.command ∈ s.commands := by rw [hold]; simp
      obtain ⟨h₁, h₂⟩ := h.counted e.command hmem (by rw [hk]; exact hd)
      rw [hk] at h₁ h₂
      have hpos := List.count_pos_iff.mpr h₁
      refine ⟨by simp, ?_⟩
      change e.command.repeats + 1 = _
      rw [h₂, List.count_append, List.count_singleton_self, Nat.add_sub_cancel]
      conv_rhs => rw [← Nat.sub_add_cancel hpos]
      rw [UInt16.ofNat_add]
      rfl

/-- A frame that is thrown away changes nothing but the histories. -/
theorem Once.discard (h : s.Once) {ring : ReceiveRing} (ha : ring.Aligned)
    (hr : ring.entries = s.ring.entries) :
    Once { s with
      ring := ring, arrived := s.arrived ++ [k], discarded := s.discarded ++ [k] } := by
  have hsame : Overheard.commands { s with
      ring := ring, arrived := s.arrived ++ [k], discarded := s.discarded ++ [k] } =
      s.commands := by
    simp [commands, hr]
  refine ⟨ha, by rw [hsame]; exact h.nodup, fun k' hk' => ?_, fun c hc hd => ?_⟩
  · rw [hsame]
    rcases List.mem_append.mp hk' with hk' | hk'
    · exact (h.accounted k' hk').imp_right (List.mem_append_left _)
    · exact .inr (List.mem_append_right _ hk')
  · rw [hsame] at hc
    simp only [List.mem_append, List.mem_singleton, not_or] at hd
    obtain ⟨h₁, h₂⟩ := h.counted c hc hd.1
    refine ⟨List.mem_append_left _ h₁, ?_⟩
    rw [h₂, List.count_append, List.count_singleton, if_neg (by simpa using Ne.symm hd.2),
      Nat.add_zero]

/-- The first frame of a press is a new entry without repeats. -/
theorem Once.append (h : s.Once) (hnew : k ∉ s.commands.map (·.key)) {ring : ReceiveRing}
    (ha : ring.Aligned)
    (hr : ring.entries = s.ring.entries ++ [⟨⟨k.remoteId, k.rollingCode, 0, k.button⟩, now⟩]) :
    Once { s with ring := ring, arrived := s.arrived ++ [k] } := by
  have hkeys : Overheard.commands { s with ring := ring, arrived := s.arrived ++ [k] } =
      s.commands ++ [⟨k.remoteId, k.rollingCode, 0, k.button⟩] := by
    simp [commands, hr]
  refine ⟨ha, ?_, fun k' hk' => ?_, fun c hc hd => ?_⟩
  · rw [hkeys, List.map_append, List.map_singleton, ← List.concat_eq_append]
    exact List.Nodup.concat hnew h.nodup
  · rw [hkeys, List.map_append]
    rcases List.mem_append.mp hk' with hk' | hk'
    · exact (h.accounted k' hk').imp_left (List.mem_append_left _)
    · rw [List.mem_singleton.mp hk']
      exact .inl (by simp [SomfyCommand.key])
  · rw [hkeys] at hc
    rcases List.mem_append.mp hc with hc | hc
    · have hck : c.key ≠ k := fun heq => hnew (heq ▸ List.mem_map_of_mem hc)
      obtain ⟨h₁, h₂⟩ := h.counted c hc hd
      refine ⟨List.mem_append_left _ h₁, ?_⟩
      rw [h₂, List.count_append, List.count_singleton, if_neg (by simpa using hck.symm),
        Nat.add_zero]
    · rw [List.mem_singleton.mp hc] at hd ⊢
      have hnone : k ∉ s.arrived := fun hmem => (h.accounted k hmem).elim hnew hd
      refine ⟨by simp [SomfyCommand.key], ?_⟩
      change 0 = UInt16.ofNat ((s.arrived ++ [k]).count k - 1)
      rw [List.count_append, List.count_eq_zero_of_not_mem hnone, List.count_singleton_self]
      rfl

theorem Once.receive (h : s.Once) (hok : k ∉ s.commands.map (·.key) ∨ s.newestKey = some k ∨
      s.ring.recvCount = 7) :
    Once { s with
      ring := s.ring.receive k now
      arrived := s.arrived ++ [k]
      discarded := s.discarded ++ [k].filter (s.Discards ·) } := by
  have ha := h.aligned.receive k now
  have hoffer := h.aligned.entries_receive k now
  by_cases hnewest : s.newestKey = some k
  · obtain ⟨e, he, hk⟩ := Option.map_eq_some_iff.mp hnewest
    obtain ⟨q, hq⟩ := List.getLast?_eq_some_iff.mp he
    rw [offer, he] at hoffer
    simp only [hk, if_true, hq, List.dropLast_concat] at hoffer
    have hkeep : [k].filter (s.Discards ·) = [] := by simp [Discards, hnewest]
    rw [hkeep, List.append_nil]
    exact h.bump hq hk ha hoffer
  · have hlast : ∀ e, s.ring.entries.getLast? = some e → e.command.key ≠ k := by
      intro e he hk
      exact hnewest (by rw [newestKey, he, Option.map_some, hk])
    have hother : offer s.ring.entries k now = if s.ring.recvCount = 7 then s.ring.entries
        else s.ring.entries ++ [⟨⟨k.remoteId, k.rollingCode, 0, k.button⟩, now⟩] := by
      unfold offer
      cases he : s.ring.entries.getLast? with
      | none =>
          have hnil := List.getLast?_eq_none_iff.mp he
          have hzero : s.ring.recvCount = 0 := by
            rw [← length_entries, hnil, List.length_nil]
          simp [hnil, hzero]
      | some e => simp only [hlast e he, if_false, length_entries]
    rw [hother] at hoffer
    by_cases hfull : s.ring.recvCount = 7
    · have hdrop : [k].filter (s.Discards ·) = [k] := by simp [Discards, hnewest, hfull]
      rw [if_pos hfull] at hoffer
      rw [hdrop]
      exact h.discard ha hoffer
    · have hkeep : [k].filter (s.Discards ·) = [] := by simp [Discards, hfull]
      rw [if_neg hfull] at hoffer
      rw [hkeep, List.append_nil]
      exact h.append (hok.resolve_right (by tauto)) ha hoffer

theorem Once.poll (h : s.Once) (now : ℤ) :
    Once { s with
      ring := (s.ring.readCommand now).2
      pressed := s.pressed ++ (s.ring.readCommand now).1.toList } := by
  have ha := h.aligned.readCommand now
  obtain ⟨hread, hrest⟩ : (s.ring.readCommand now).1 = (ReceiveRing.poll s.ring.entries now).1 ∧
      (s.ring.readCommand now).2.entries = (ReceiveRing.poll s.ring.entries now).2 :=
    Prod.ext_iff.mp (h.aligned.readCommand_eq now)
  have hsame : Overheard.commands { s with
      ring := (s.ring.readCommand now).2
      pressed := s.pressed ++ (s.ring.readCommand now).1.toList } = s.commands := by
    simp only [commands, hread, hrest]
    cases s.ring.entries with
    | nil => simp [ReceiveRing.poll]
    | cons oldest rest =>
        simp only [ReceiveRing.poll]
        split_ifs <;> simp
  exact ⟨ha, by rw [hsame]; exact h.nodup, by rw [hsame]; exact h.accounted,
    by rw [hsame]; exact h.counted⟩

theorem Once.step {s' : Overheard} {e : OverheardEvent} (h : s.Once) (hok : s.Ok e)
    (hs : s.step e = some s') : s'.Once := by
  cases e with
  | packet packet now =>
      cases hs
      unfold Ok at hok
      unfold receiveCommand
      cases hp : packet.press with
      | none => simpa using h
      | some k => exact h.receive (hok k (by simp [hp]))
  | poll now =>
      cases hs
      exact h.poll now

/-- A frame of the button "my" of one remote. -/
def myFrame : Packet := ⟨80, 69, 69, 85, 68, 102, 85⟩

/-- A frame of the button "up" of another remote. -/
def upFrame : Packet := ⟨80, 117, 117, 85, 17, 68, 34⟩

def myKey : PressKey := ⟨0x112233, 16, .my⟩

def emptySlots : ℕ → RecvCommand := fun _ => ⟨⟨0, 0, 0, 0⟩, 0⟩

end Overheard

end PicoSomfy
