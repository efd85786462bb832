import PicoSomfy.OverheardPresses

/-!
# The frames of one press

The frames of a press come in one by one, and the main loop polls the ring at any time in
between. The clock is read before the lock of the ring is taken, so the times of two events
may be a little out of order. As long as the frames are closer together than the silence that
ends a press, no poll takes the entry before the last frame has been counted.
-/
namespace PicoSomfy

open Transitions

/-- The time that the receiver or the main loop has read from the clock. -/
def OverheardEvent.time : OverheardEvent → ℤ
  | .packet _ now => now
  | .poll now => now

/-- The packet that comes in, with its time. -/
def OverheardEvent.heard? : OverheardEvent → Option (Packet × ℤ)
  | .packet p now => some (p, now)
  | .poll _ => none

/-- The command that a number of frames after the first one amounts to. -/
def PressKey.command (k : PressKey) (repeats : ℕ) : SomfyCommand :=
  ⟨k.remoteId, k.rollingCode, UInt16.ofNat repeats, k.button⟩

theorem PressKey.key_command (k : PressKey) (n : ℕ) : (k.command n).key = k := rfl

namespace Overheard

open ReceiveRing

/-- When the packets came in. -/
def heardTimes (es : List OverheardEvent) : List ℤ := (es.filterMap (·.heard?)).map (·.2)

@[simp] theorem heardTimes_packet (es : List OverheardEvent) (p : Packet) (now : ℤ) :
    heardTimes (es ++ [.packet p now]) = heardTimes es ++ [now] := by
  simp [heardTimes, OverheardEvent.heard?]

@[simp] theorem heardTimes_poll (es : List OverheardEvent) (now : ℤ) :
    heardTimes (es ++ [.poll now]) = heardTimes es := by
  simp [heardTimes, OverheardEvent.heard?]

variable {s s' : Overheard} {k : PressKey} {now : ℤ}

/-- A poll takes the oldest entry after its silence, or changes nothing. -/
theorem poll_cases (h : s.ring.Aligned) (hs : s.step (.poll now) = some s') :
    s'.ring.Aligned ∧
      (((∀ oldest ∈ s.ring.entries.head?, now - oldest.lastMsgTime < 250000) ∧
          s'.ring.entries = s.ring.entries ∧ s'.pressed = s.pressed) ∨
        ∃ oldest rest, s.ring.entries = oldest :: rest ∧ 250000 ≤ now - oldest.lastMsgTime ∧
          s'.ring.entries = rest ∧ s'.pressed = s.pressed ++ [oldest.command]) := by
  cases hs
  refine ⟨h.readCommand now, ?_⟩
  obtain ⟨hread, hrest⟩ : (s.ring.readCommand now).1 = (ReceiveRing.poll s.ring.entries now).1 ∧
      (s.ring.readCommand now).2.entries = (ReceiveRing.poll s.ring.entries now).2 :=
    Prod.ext_iff.mp (h.readCommand_eq now)
  simp only [hread, hrest]
  cases hq : s.ring.entries with
  | nil => simp [ReceiveRing.poll]
  | cons oldest rest =>
      unfold ReceiveRing.poll
      by_cases hsilent : now - oldest.lastMsgTime < 250000
      · simp [hsilent]
      · right
        refine ⟨oldest, rest, rfl, by omega, ?_, ?_⟩ <;> simp [hsilent]

/-- A poll leaves the newest entry alone, unless it is the only one and old enough. -/
theorem poll_newest (h : s.ring.Aligned) (hs : s.step (.poll now) = some s') :
    s'.ring.entries.getLast? = s.ring.entries.getLast? ∨
      ∃ only, s.ring.entries = [only] ∧ 250000 ≤ now - only.lastMsgTime ∧ s'.ring.entries = [] := by
  obtain ⟨-, ⟨-, hentries, -⟩ | ⟨oldest, rest, hq, hsilent, hentries, -⟩⟩ := poll_cases h hs
  · left
    rw [hentries]
  · rw [hentries, hq]
    cases rest with
    | nil => exact .inr ⟨oldest, rfl, hsilent, rfl⟩
    | cons next rest => exact .inl List.getLast?_cons_cons.symm

/-- A poll hands commands over; none is lost. -/
theorem poll_commands (h : s.ring.Aligned) (hs : s.step (.poll now) = some s') :
    s'.commands = s.commands := by
  unfold commands
  obtain ⟨-, ⟨-, hentries, hpressed⟩ | ⟨oldest, rest, hq, -, hentries, hpressed⟩⟩ := poll_cases h hs
  · rw [hentries, hpressed]
  · rw [hentries, hpressed, hq]
    simp

/-- A valid frame is offered to the ring. -/
theorem packet_cases (h : s.ring.Aligned) {p : Packet} (hp : p.press = some k)
    (hs : s.step (.packet p now) = some s') :
    s'.ring.Aligned ∧ s'.ring.entries = offer s.ring.entries k now ∧ s'.pressed = s.pressed := by
  cases hs
  have hreceive : s.ring.receiveCommand p now = s.ring.receive k now := by
    unfold receiveCommand
    rw [hp]
  simp only [hreceive]
  exact ⟨h.receive k now, h.entries_receive k now, trivial⟩

/-- The ring keeps its indices whatever comes in. -/
theorem aligned_step {e : OverheardEvent} (h : s.ring.Aligned) (hs : s.step e = some s') :
    s'.ring.Aligned := by
  cases e with
  | poll now => exact (poll_cases h hs).1
  | packet p now =>
      cases hp : p.press with
      | some k => exact (packet_cases h hp hs).1
      | none =>
          cases hs
          unfold receiveCommand
          rw [hp]
          exact h

/-- Frames of one press: a later event reads the clock at most `skew` earlier, and less than
the silence passes from one frame to the next. -/
structure OnePress (k : PressKey) (skew : ℤ) (es : List OverheardEvent) : Prop where
  ordered : es.Pairwise fun e e' => e.time ≤ e'.time + skew
  frames : ∀ p now, .packet p now ∈ es → p.press = some k
  close : (heardTimes es).IsChain fun t t' => t' + skew < t + 250000

/-- Before the first frame there is room for the press, and it is not the newest one. From
then on it is one command behind the old ones, and waits in the ring until a poll comes after
the silence. -/
structure Listening (k : PressKey) (old : List SomfyCommand) (es : List OverheardEvent)
    (s : Overheard) : Prop where
  aligned : s.ring.Aligned
  before : heardTimes es = [] → s.newestKey ≠ some k ∧ s.ring.recvCount < 7 ∧ s.commands = old
  after : ∀ t, (heardTimes es).getLast? = some t →
    s.commands = old ++ [k.command ((heardTimes es).length - 1)] ∧
      ((∀ e ∈ es, e.time < t + 250000) →
        s.ring.entries.getLast? = some ⟨k.command ((heardTimes es).length - 1), t⟩)

variable {old : List SomfyCommand} {es : List OverheardEvent} {skew : ℤ}

theorem OnePress.init {e : OverheardEvent} (h : OnePress k skew (es ++ [e])) : OnePress k skew es where
  ordered := (List.pairwise_append.mp h.ordered).1
  frames := fun p now hp => h.frames p now (List.mem_append_left _ hp)
  close := by
    have hclose := h.close
    cases e with
    | packet p now =>
        rw [heardTimes_packet] at hclose
        exact (List.isChain_append.mp hclose).1
    | poll now => rwa [heardTimes_poll] at hclose

theorem Listening.poll (h : Listening k old es s) (hs : s.step (.poll now) = some s') :
    Listening k old (es ++ [.poll now]) s' := by
  obtain ⟨haligned, hcases⟩ := poll_cases h.aligned hs
  have hcommands := poll_commands h.aligned hs
  have hnewer := poll_newest h.aligned hs
  constructor
  · exact haligned
  · intro hnone
    rw [heardTimes_poll] at hnone
    obtain ⟨hnewest, hroom, hold⟩ := h.before hnone
    refine ⟨?_, ?_, hcommands.trans hold⟩
    · unfold newestKey at hnewest ⊢
      rcases hnewer with hsame | ⟨only, -, -, hempty⟩
      · rwa [hsame]
      · simp [hempty]
    · rw [← length_entries] at hroom ⊢
      rcases hcases with ⟨-, hentries, -⟩ | ⟨oldest, rest, hq, -, hentries, -⟩
      · rwa [hentries]
      · rw [hq, List.length_cons] at hroom
        rw [hentries]
        omega
  · intro t ht
    rw [heardTimes_poll] at ht ⊢
    obtain ⟨hcount, hwaits⟩ := h.after t ht
    refine ⟨hcommands.trans hcount, fun hearly => ?_⟩
    have hlast := hwaits fun e he => hearly e (List.mem_append_left _ he)
    have hnow : now < t + 250000 := hearly (.poll now) (by simp)
    rcases hnewer with hsame | ⟨only, hq, hsilent, -⟩
    · rwa [hsame]
    · -- the entry of the press itself is not old enough
      rw [hq, List.getLast?_singleton, Option.some.injEq] at hlast
      rw [hlast] at hsilent
      dsimp only at hsilent
      omega

theorem Listening.packet {p : Packet} (h : Listening k old es s)
    (hone : OnePress k skew (es ++ [.packet p now])) (hs : s.step (.packet p now) = some s') :
    Listening k old (es ++ [.packet p now]) s' := by
  obtain ⟨haligned, hoffer, hpressed⟩ := packet_cases h.aligned (hone.frames p now (by simp)) hs
  refine ⟨haligned, fun hnone => absurd hnone (by simp), ?_⟩
  intro t ht
  rw [heardTimes_packet, List.getLast?_concat, Option.some.injEq] at ht
  subst ht
  rw [heardTimes_packet, List.length_append, List.length_singleton, Nat.add_sub_cancel]
  cases hlast : (heardTimes es).getLast? with
  | none =>
      -- the first frame is a new entry
      have hnone := List.getLast?_eq_none_iff.mp hlast
      obtain ⟨hnewest, hroom, hold⟩ := h.before hnone
      have hnew : s'.ring.entries = s.ring.entries ++ [⟨k.command 0, now⟩] := by
        rw [hoffer]
        unfold offer
        cases he : s.ring.entries.getLast? with
        | none => rw [List.getLast?_eq_none_iff.mp he]; rfl
        | some e =>
            have hkey : e.command.key ≠ k := by
              intro hkey
              apply hnewest
              rw [newestKey, he, Option.map_some, hkey]
            dsimp only
            rw [if_neg hkey, if_neg (by rw [length_entries]; omega)]
            rfl
      rw [hnone, List.length_nil]
      constructor
      · rw [← hold]
        unfold commands
        rw [hnew, hpressed, List.map_append, List.append_assoc]
        rfl
      · intro _
        rw [hnew, List.getLast?_concat]
  | some t =>
      -- a further frame finds its entry as the newest one
      have hgap : now + skew < t + 250000 := by
        have hclose := hone.close
        rw [heardTimes_packet] at hclose
        exact (List.isChain_append.mp hclose).2.2 t hlast now rfl
      have hearly : ∀ e ∈ es, e.time < t + 250000 := by
        intro e he
        have horder : e.time ≤ now + skew :=
          (List.pairwise_append.mp hone.ordered).2.2 e he _ (List.mem_singleton_self _)
        omega
      obtain ⟨hcount, hwaits⟩ := h.after t hlast
      obtain ⟨n, hn⟩ : ∃ n, (heardTimes es).length = n + 1 := by
        apply Nat.exists_eq_succ_of_ne_zero
        intro hzero
        rw [List.eq_nil_of_length_eq_zero hzero] at hlast
        cases hlast
      rw [hn, Nat.add_sub_cancel] at hcount hwaits
      obtain ⟨q, hq⟩ := List.getLast?_eq_some_iff.mp (hwaits hearly)
      have hbump : bump ⟨k.command n, t⟩ now = ⟨k.command (n + 1), now⟩ := by
        simp [bump, PressKey.command, UInt16.ofNat_add]
      have hentries : s'.ring.entries = q ++ [⟨k.command (n + 1), now⟩] := by
        rw [hoffer, hq]
        unfold offer
        rw [List.getLast?_concat, List.dropLast_concat, ← hbump]
        exact if_pos (PressKey.key_command k n)
      have hold : s.pressed ++ q.map (·.command) = old := by
        unfold commands at hcount
        rw [hq, List.map_append, ← List.append_assoc] at hcount
        exact List.append_inj_left' hcount rfl
      rw [hn]
      constructor
      · rw [← hold]
        unfold commands
        rw [hentries, hpressed, List.map_append, List.append_assoc]
        rfl
      · intro _
        rw [hentries, List.getLast?_concat]

/-- The frames of one press, whatever polls come in between, are one command. -/
theorem listening_run (hrun : Run Overheard.step Free s es s') (hone : OnePress k skew es)
    (haligned : s.ring.Aligned) (hnewest : s.newestKey ≠ some k) (hroom : s.ring.recvCount < 7) :
    Listening k s.commands es s' := by
  induction hrun with
  | refl => exact ⟨haligned, fun _ => ⟨hnewest, hroom, rfl⟩, fun t ht => by cases ht⟩
  | @snoc s' s'' es e _ _ hstep ih =>
      have hlistening := ih hone.init
      cases e with
      | poll now => exact hlistening.poll hstep
      | packet p now => exact hlistening.packet hone hstep

theorem offer_time {q : List RecvCommand} {entry : RecvCommand} (h : entry ∈ offer q k now) :
    entry ∈ q ∨ entry.lastMsgTime = now := by
  unfold offer at h
  cases hlast : q.getLast? with
  | none =>
      rw [hlast] at h
      rw [List.mem_singleton.mp h]
      exact .inr rfl
  | some e =>
      rw [hlast] at h
      dsimp only at h
      split_ifs at h with hkey hfull
      · rcases List.mem_append.mp h with h | h
        · exact .inl (List.dropLast_subset _ h)
        · rw [List.mem_singleton.mp h]
          exact .inr rfl
      · exact .inl h
      · rcases List.mem_append.mp h with h | h
        · exact .inl h
        · rw [List.mem_singleton.mp h]
          exact .inr rfl

/-- Every entry has the time of a packet. -/
theorem entries_time {slots : ℕ → RecvCommand} (hrun : Run Overheard.step Free (init slots) es s) :
    s.ring.Aligned ∧ ∀ entry ∈ s.ring.entries, entry.lastMsgTime ∈ heardTimes es := by
  generalize hstart : init slots = s₀ at hrun
  induction hrun with
  | refl =>
      subst hstart
      exact ⟨aligned_create slots, fun entry h => absurd h List.not_mem_nil⟩
  | @snoc s s' es e _ _ hstep ih =>
      obtain ⟨haligned, htimes⟩ := ih
      refine ⟨aligned_step haligned hstep, fun entry hentry => ?_⟩
      cases e with
      | poll now =>
          rw [heardTimes_poll]
          apply htimes
          obtain ⟨-, ⟨-, hentries, -⟩ | ⟨oldest, rest, hq, -, hentries, -⟩⟩ := poll_cases haligned hstep
          · rwa [hentries] at hentry
          · rw [hentries] at hentry
            rw [hq]
            exact List.mem_cons_of_mem _ hentry
      | packet p now =>
          rw [heardTimes_packet]
          cases hp : p.press with
          | none =>
              cases hstep
              unfold receiveCommand at hentry
              rw [hp] at hentry
              exact List.mem_append_left _ (htimes entry hentry)
          | some k =>
              rw [(packet_cases haligned hp hstep).2.1] at hentry
              rcases offer_time hentry with hold | hnew
              · exact List.mem_append_left _ (htimes entry hold)
              · rw [hnew]
                simp

/-- Polls after the silence hand over one command each. -/
theorem drain_run (hrun : Run Overheard.step Free s es s') (haligned : s.ring.Aligned)
    (hlate : ∀ e ∈ es, ∃ now, e = .poll now ∧
      ∀ entry ∈ s.ring.entries, entry.lastMsgTime + 250000 ≤ now) :
    s'.ring.Aligned ∧ s'.ring.entries = s.ring.entries.drop es.length ∧
      s'.commands = s.commands := by
  induction hrun with
  | refl => exact ⟨haligned, rfl, rfl⟩
  | @snoc s' s'' es e _ _ hstep ih =>
      obtain ⟨haligned', hentries, hcommands⟩ := ih fun e he => hlate e (List.mem_append_left _ he)
      obtain ⟨now, rfl, hold⟩ := hlate e (by simp)
      obtain ⟨haligned'', hcases⟩ := poll_cases haligned' hstep
      refine ⟨haligned'', ?_, (poll_commands haligned' hstep).trans hcommands⟩
      rw [List.length_append, List.length_singleton, ← List.tail_drop, ← hentries]
      rcases hcases with ⟨hwaits, hsame, -⟩ | ⟨oldest, rest, hq, -, hrest, -⟩
      · rw [hsame]
        cases hq : s'.ring.entries with
        | nil => rfl
        | cons oldest rest =>
            have hmem : oldest ∈ s.ring.entries := by
              apply List.mem_of_mem_drop
              rw [← hentries, hq]
              exact List.mem_cons_self
            have hdue := hold oldest hmem
            have hwait := hwaits oldest (by rw [hq]; rfl)
            omega
      · rw [hrest, hq, List.tail_cons]

/-- The frames of one press, closer together than the silence, are one command with a repeat
for each further frame, whatever the ring holds and whenever it is polled. The command waits
after the last frame, and is handed over once, when the silence is over and seven polls have
emptied the ring. -/
theorem press_heard_once {slots : ℕ → RecvCommand} {es₀ : List OverheardEvent}
    (hbefore : Run Overheard.step Free (init slots) es₀ s) (hnewest : s.newestKey ≠ some k)
    (hroom : s.ring.recvCount < 7) (hone : OnePress k skew es) (hheard : heardTimes es ≠ [])
    (hrun : Run Overheard.step Free s es s') :
    s'.commands = s.commands ++ [k.command ((heardTimes es).length - 1)] ∧
      ∀ (polls : List ℤ) (s'' : Overheard), 7 ≤ polls.length →
        (∀ now ∈ polls, ∀ t ∈ heardTimes (es₀ ++ es), t + 250000 ≤ now) →
        Run Overheard.step Free s' (polls.map .poll) s'' →
        s''.pressed = s.commands ++ [k.command ((heardTimes es).length - 1)] := by
  have hlistening := listening_run hrun hone (entries_time hbefore).1 hnewest hroom
  obtain ⟨last, hlast⟩ := Option.isSome_iff_exists.mp (List.getLast?_isSome.mpr hheard)
  obtain ⟨honce, -⟩ := hlistening.after last hlast
  refine ⟨honce, fun polls s'' hmany hlate hpolls => ?_⟩
  have htimes := (entries_time (hbefore.append hrun)).2
  have hdue : ∀ e ∈ polls.map OverheardEvent.poll, ∃ now, e = .poll now ∧
      ∀ entry ∈ s'.ring.entries, entry.lastMsgTime + 250000 ≤ now := by
    intro e he
    obtain ⟨now, hnow, rfl⟩ := List.mem_map.mp he
    exact ⟨now, rfl, fun entry hentry => hlate now hnow _ (htimes entry hentry)⟩
  obtain ⟨-, hentries, hcommands⟩ := drain_run hpolls hlistening.aligned hdue
  have hempty : s''.ring.entries = [] := by
    rw [hentries, List.drop_eq_nil_iff, length_entries, List.length_map]
    exact hlistening.aligned.count_le.trans hmany
  rw [← honce, ← hcommands]
  unfold commands
  rw [hempty, List.map_nil, List.append_nil]

/-- Three frames of "my", with two polls. The second poll read the clock after the frame that
follows it. -/
def myFrames : List OverheardEvent :=
  [.packet myFrame 140000, .poll 255000, .packet myFrame 280000, .poll 420000,
    .packet myFrame 419000]

/-- Another press is waiting and is handed over between the frames. -/
theorem press_heard_once_my :
    ∃ s s', Run Overheard.step Free (init emptySlots) [.packet upFrame 0] s ∧
      Run Overheard.step Free s myFrames s' ∧
      s'.commands = s.commands ++ [⟨0x112233, 16, 2, .my⟩] := by
  have hup : (exec Overheard.step (init emptySlots) [.packet upFrame 0]).map
      (fun s => decide (s.newestKey ≠ some myKey ∧ s.ring.recvCount < 7 ∧
        (exec Overheard.step s myFrames).isSome)) = some true := by decide +kernel
  obtain ⟨s, hs, hfacts⟩ := Option.map_eq_some_iff.mp hup
  obtain ⟨hnewest, hroom, hsome⟩ := of_decide_eq_true hfacts
  obtain ⟨s', hs'⟩ := Option.isSome_iff_exists.mp hsome
  have hone : OnePress myKey 3000 myFrames := by
    constructor
    · decide
    · intro p now hp
      have hp' : p = myFrame := by
        simp only [myFrames, List.mem_cons, OverheardEvent.packet.injEq, reduceCtorEq,
          List.not_mem_nil, or_false, false_or] at hp
        rcases hp with hp | hp | hp <;> exact hp.1
      rw [hp']
      decide +kernel
    · decide
  exact ⟨s, s', run_of_exec hs, run_of_exec hs',
    (press_heard_once (run_of_exec hs) hnewest hroom hone (by decide) (run_of_exec hs')).1⟩

end Overheard

end PicoSomfy
