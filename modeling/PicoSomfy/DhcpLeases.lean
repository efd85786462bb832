import PicoSomfy.DhcpMessages

/-!
# The leases of the address server

What the server does for a datagram is a row of moves on a table of leases that follow
its rules: an acknowledgement grants the slot from that moment on, and a discovery
releases the slots whose time it finds over. So a client keeps its address for a day
whatever else is received, and nobody else is told to use it.

A hardware address of zeros marks a free slot. A client that sends it is answered but
holds nothing.
-/
namespace PicoSomfy

open NorFlash ByteMemory OptionLists Transitions Leases Dhcp

def ipAt (m : Image) (a : ℕ) : Ip4 := ⟨m a, m (a + 1), m (a + 2), m (a + 3)⟩

structure Assignment where
  type : UInt8
  mac : Mac
  address : Ip4
  deriving DecidableEq

def readReply (reply : List UInt8) : Option Assignment :=
  let m : Image := fun i => reply.getD i 0
  (optFind m optMsgType).map fun k => ⟨m (optAt + k + 2), macAt m chaddrAt, ipAt m yiaddrAt⟩

/-- The clock does not run backwards from one datagram to the next. -/
def Datagram.Before (g h : Datagram) : Prop := ∀ i j, g.clock i ≤ h.clock j

namespace DhcpMessage

/-- The header that stands in a message buffer. -/
def headerAt (msg : Image) : DhcpMessage where
  op := msg 0
  head := vectorAt msg 1 15
  yiaddr := ipAt msg 16
  relay := vectorAt msg 20 8
  mac := macAt msg 28
  names := vectorAt msg 34 206
  options := []

theorem holds_ipAt (msg : Image) (a : ℕ) : HoldsAt msg a (ipAt msg a).bytes :=
  holds_bytesAt msg a 4

theorem holds_headerAt (msg : Image) : HoldsAt msg 0 (headerAt msg).header := by
  have hop : HoldsAt msg 0 [msg 0] := holds_bytesAt msg 0 1
  have hhead := hop.append (holds_vectorAt msg 1 15) (by simp)
  have hyiaddr := hhead.append (holds_ipAt msg 16) (by simp)
  have hrelay := hyiaddr.append (holds_vectorAt msg 20 8) (by simp [Ip4.bytes])
  have hmac := hrelay.append (holds_vectorAt msg 28 6) (by simp [Ip4.bytes])
  have hnames := hmac.append (holds_vectorAt msg 34 206) (by simp [Ip4.bytes])
  simpa only [header, headerAt, macAt, List.singleton_append] using hnames

variable {m : DhcpMessage} {msg : Image}

theorem ipAt_of_bytes {a : ℕ} {ip : Ip4} (h : HoldsAt msg a ip.bytes) : ipAt msg a = ip := by
  simp only [ipAt, h.head, h.tail.head, h.tail.tail.head, h.tail.tail.tail.head]

theorem ipAt_of_holds (h : HoldsAt msg 0 m.encode) : ipAt msg yiaddrAt = m.yiaddr := by
  have hsplit : m.encode = (m.op :: m.head.toList) ++ (m.yiaddr.bytes ++ (m.relay.toList ++
      m.mac.toList ++ m.names.toList ++ OptionLists.encode m.options)) := by
    simp only [encode, header, List.append_assoc, List.cons_append]
  rw [hsplit, holds_append] at h
  have hplace : yiaddrAt = 0 + (m.op :: m.head.toList).length := by simp [yiaddrAt]
  rw [← hplace] at h
  exact ipAt_of_bytes (holds_append.mp h.2).1

/-- A client reads the type, its own hardware address and the address of the slot. -/
theorem readReply_answer (m : DhcpMessage) (d : DhcpServer) (type : UInt8) (yi : Fin maxIp) :
    readReply (m.answer d type yi).encode = some ⟨type, m.mac, d.address yi⟩ := by
  have hholds : HoldsAt (fun i => (m.answer d type yi).encode.getD i 0) 0
      (m.answer d type yi).encode :=
    ⟨fun _ => by rw [Nat.zero_add]⟩
  obtain ⟨k, hk, htype⟩ := optFind_some hholds (length_answer_le ..)
    (show (m.answer d type yi).option optMsgType = some [type] from rfl)
  have hbyte := htype.head
  simp only [readReply, hk, Option.map_some, mac_of_holds hholds, ipAt_of_holds hholds, hbyte]
  rfl

end DhcpMessage

namespace DhcpServer

open DhcpMessage

variable {d d' : DhcpServer} {g : Datagram}

theorem address_inj {yi yi' : Fin maxIp} : d.address yi = d.address yi' ↔ yi = yi' := by
  constructor
  · intro h
    have hlast : baseIp + UInt8.ofNat yi = baseIp + UInt8.ofNat yi' := congrArg Ip4.d h
    clear h
    revert yi yi'
    decide
  · rintro rfl
    rfl

/-- What is read off the reply of the server. -/
theorem readReply_reply (d : DhcpServer) (g : Datagram) (type : UInt8) (yi : Fin maxIp) :
    readReply (d.reply (d.received g) type yi) =
      some ⟨type, macAt (d.received g) chaddrAt, d.address yi⟩ := by
  have hop : (headerAt (d.received g)).op = dhcpOffer := by
    change d.received g 0 = dhcpOffer
    unfold received
    rw [poke_outside (.inl (by decide))]
    rfl
  have hip : (headerAt (d.received g)).yiaddr = d.ip := by
    have hwritten : HoldsAt (d.received g) 16 d.ip.bytes := holds_poke _ 16 _
    exact ipAt_of_bytes hwritten
  rw [reply_eq (holds_headerAt _) hop hip, readReply_answer]
  rfl

/-- What is broadcast is the answer that `respond` chose. -/
theorem process_cases (d : DhcpServer) (g : Datagram) :
    d.process g = (none, d) ∨ ∃ type,
      d.process g = (((d.respond type (macAt (d.received g) chaddrAt)
          (d.requested (d.received g)) g.ticks).1.map fun a => d.reply (d.received g) a.1 a.2),
        (d.respond type (macAt (d.received g) chaddrAt) (d.requested (d.received g)) g.ticks).2) := by
  unfold process
  split_ifs
  · exact .inl rfl
  · dsimp only
    cases optFind (d.received g) optMsgType with
    | none => exact .inl rfl
    | some msgtype => exact .inr ⟨_, rfl⟩

end DhcpServer

namespace DhcpServer

open DhcpMessage

/-- A day, in milliseconds. -/
def leaseTime : ℕ := 86400000

def leaseEnd (t : ℕ) : ℕ := t + leaseTime

theorem leaseEnd_mono : Monotone leaseEnd := fun _ _ h => Nat.add_le_add_right h _

theorem toNat_end (x : UInt16) :
    ((x.toUInt32 <<< (16 : UInt32)) ||| 0xffff).toNat = x.toNat * 65536 + 65535 := by
  have hx := x.toNat_lt
  have hor := Nat.two_pow_add_eq_or_of_lt (i := 16) (b := 65535) (by norm_num) x.toNat
  rw [UInt32.toNat_or, UInt32.toNat_shiftLeft, UInt16.toNat_toUInt32, UInt32.toNat_ofNat,
    UInt32.toNat_ofNat, Nat.shiftLeft_eq, Nat.mod_eq_of_lt (by norm_num; omega)]
  norm_num at hor ⊢
  rw [Nat.mul_comm]
  omega

theorem toNat_expiry (mac : Mac) (t : ℕ) :
    (renewed mac (UInt32.ofNat t)).expiry.toNat = leaseEnd t % 2 ^ 32 / 65536 := by
  simp only [renewed, defaultLeaseTimeS, leaseEnd, leaseTime, UInt32.toNat_toUInt16,
    UInt32.toNat_shiftRight, UInt32.toNat_add, UInt32.toNat_ofNat', UInt32.toNat_mul,
    UInt32.toNat_ofNat, Nat.shiftRight_eq_div_pow]
  norm_num
  omega

/-- A lease that the server finds over is over, although the tick count wraps around and
only half of it is remembered. -/
theorem le_of_expired {mac : Mac} {t t' : ℕ} (h : t ≤ t')
    (hexpired : expired (renewed mac (UInt32.ofNat t)) (UInt32.ofNat t') = true) :
    leaseEnd t ≤ t' := by
  by_contra hlt
  have hsmall : ((((renewed mac (UInt32.ofNat t)).expiry.toUInt32 <<< (16 : UInt32)) |||
      0xffff) - UInt32.ofNat t').toNat < 2 ^ 31 := by
    rw [UInt32.toNat_sub, toNat_end, toNat_expiry, UInt32.toNat_ofNat']
    unfold leaseEnd leaseTime at *
    omega
  rw [expired, decide_eq_true_eq, Int32.lt_iff_toInt_lt] at hexpired
  have hvalue : ∀ x : UInt32, x.toNat < 2 ^ 31 → 0 ≤ x.toInt32.toInt := by
    intro x hx
    change 0 ≤ x.toBitVec.toInt
    have hx' : x.toBitVec.toNat < 2 ^ 31 := hx
    rw [BitVec.toInt_eq_toNat_cond]
    split_ifs <;> omega
  exact absurd hexpired (not_lt.mpr (hvalue _ hsmall))

/-- The table of leases that the server works with: a slot without a hardware address is
free, and the client of any other slot holds it since a time that is not in the
future. -/
structure Records (table : Table (Fin maxIp) Mac ℕ) (lease : Fin maxIp → Lease)
    (clock : Fin maxIp → ℕ) : Prop where
  free : ∀ {i}, (lease i).mac = noMac → table i = none
  held : ∀ {i}, (lease i).mac ≠ noMac → ∃ t, table i = some ((lease i).mac, t) ∧
    lease i = renewed (lease i).mac (UInt32.ofNat t) ∧ t ≤ clock i

theorem records_init (ip nm : Ip4) (clock : Fin maxIp → ℕ) :
    Records (fun _ => none) (init ip nm).lease clock :=
  ⟨fun _ => rfl, fun h => absurd rfl h⟩

variable {d : DhcpServer} {g : Datagram} {table : Table (Fin maxIp) Mac ℕ}
  {lease : Fin maxIp → Lease} {clock : Fin maxIp → ℕ}

theorem Records.later (h : Records table lease clock) {clock' : Fin maxIp → ℕ}
    (hle : ∀ i, clock i ≤ clock' i) : Records table lease clock' := by
  refine ⟨h.free, fun hmac => ?_⟩
  obtain ⟨t, htable, hlease, ht⟩ := h.held hmac
  exact ⟨t, htable, hlease, ht.trans (hle _)⟩

/-- A slot that is found expired is released by the rules. -/
theorem Records.release (h : Records table lease clock) {i : Fin maxIp}
    (hexpired : expired (lease i) (UInt32.ofNat (clock i)) = true) :
    (Move.release i (clock i)).Allowed leaseEnd table ∧
      Records ((Move.release i (clock i)).apply table)
        (Function.update lease i { lease i with mac := noMac }) clock := by
  refine ⟨fun entry hentry => ?_, fun {j} hj => ?_, fun {j} hj => ?_⟩
  · by_cases hmac : (lease i).mac = noMac
    · rw [h.free hmac] at hentry
      cases hentry
    · obtain ⟨t, htable, hlease, ht⟩ := h.held hmac
      rw [htable] at hentry
      obtain rfl := Option.mem_some_iff.mp hentry
      rw [hlease] at hexpired
      exact le_of_expired ht hexpired
  · by_cases hij : j = i
    · rw [hij]
      exact Function.update_self ..
    · rw [Function.update_of_ne hij] at hj
      exact (Function.update_of_ne hij ..).trans (h.free hj)
  · by_cases hij : j = i
    · rw [hij, Function.update_self] at hj
      exact absurd rfl hj
    · rw [Function.update_of_ne hij] at hj ⊢
      obtain ⟨t, htable, hrest⟩ := h.held hj
      exact ⟨t, (Function.update_of_ne hij ..).trans htable, hrest⟩

/-- A slot of the client, or a free one, is granted by the rules. -/
theorem Records.grant (h : Records table lease clock) {i : Fin maxIp} {mac : Mac}
    (hmac : mac ≠ noMac) (hi : (lease i).mac = mac ∨ (lease i).mac = noMac) :
    (Move.grant i mac (clock i)).Allowed leaseEnd table ∧
      Records ((Move.grant i mac (clock i)).apply table)
        (Function.update lease i (renewed mac (UInt32.ofNat (clock i)))) clock := by
  refine ⟨fun entry hentry => ?_, fun {j} hj => ?_, fun {j} hj => ?_⟩
  · rcases hi with hi | hi
    · obtain ⟨t, htable, -, -⟩ := h.held (hi ▸ hmac)
      rw [htable] at hentry
      obtain rfl := Option.mem_some_iff.mp hentry
      exact hi
    · rw [h.free hi] at hentry
      cases hentry
  · by_cases hij : j = i
    · rw [hij, Function.update_self] at hj
      exact absurd hj hmac
    · rw [Function.update_of_ne hij] at hj
      exact (Function.update_of_ne hij ..).trans (h.free hj)
  · by_cases hij : j = i
    · subst hij
      rw [Function.update_self]
      exact ⟨clock j, Function.update_self .., rfl, le_rfl⟩
    · rw [Function.update_of_ne hij] at hj ⊢
      obtain ⟨t, htable, hrest⟩ := h.held hj
      exact ⟨t, (Function.update_of_ne hij ..).trans htable, hrest⟩

/-- A client without a hardware address is told to use a free slot, which stays free. -/
theorem Records.grant_noMac (h : Records table lease clock) {i : Fin maxIp} {mac : Mac}
    {ticks : UInt32} (hmac : mac = noMac) (hi : (lease i).mac = noMac) :
    Records table (Function.update lease i (renewed mac ticks)) clock := by
  constructor
  · intro j hj
    by_cases hij : j = i
    · rw [hij]
      exact h.free hi
    · rw [Function.update_of_ne hij] at hj
      exact h.free hj
  · intro j hj
    by_cases hij : j = i
    · rw [hij, Function.update_self] at hj
      exact absurd hmac hj
    · rw [Function.update_of_ne hij] at hj ⊢
      exact h.held hj

/-- The loop over the slots is a row of releases. -/
theorem Records.search (h : Records table lease clock) (mac : Mac) (slots : List (Fin maxIp))
    (yi : Option (Fin maxIp)) : ∃ moves table', Follows leaseEnd table moves table' ∧
      (∀ move ∈ moves, ∃ i, move = .release i (clock i)) ∧
      Records table' (search mac (fun i => UInt32.ofNat (clock i)) slots lease yi).1 clock := by
  induction slots generalizing table lease yi with
  | nil => exact ⟨[], table, .nil table, fun _ hmove => absurd hmove List.not_mem_nil, h⟩
  | cons i slots ih =>
      rw [DhcpServer.search]
      split_ifs with hmac hyi hexpired
      · exact ⟨[], table, .nil table, fun _ hmove => absurd hmove List.not_mem_nil, h⟩
      · exact ih h _
      · obtain ⟨hallowed, hrecords⟩ := h.release hexpired
        obtain ⟨moves, table', hfollows, hmoves, hend⟩ := ih hrecords _
        refine ⟨_, table', (Follows.one hallowed).append hfollows, ?_, hend⟩
        intro move hmove
        rcases List.mem_append.mp hmove with hfirst | hrest
        · exact ⟨i, List.mem_singleton.mp hfirst⟩
        · exact hmoves move hrest
      · exact ih h _
      · exact ih h _

/-- A reply of the type gives the address of a slot to a client. -/
def Gives (d : DhcpServer) (g : Datagram) (type : UInt8) (mac : Mac) (slot : Fin maxIp) : Prop :=
  ∃ r ∈ (d.process g).1, readReply r = some ⟨type, mac, d.address slot⟩

theorem gives_iff {answer : Option (UInt8 × Fin maxIp)}
    (h : (d.process g).1 = answer.map fun a => d.reply (d.received g) a.1 a.2) {type : UInt8}
    {mac : Mac} {slot : Fin maxIp} : d.Gives g type mac slot ↔
      answer = some (type, slot) ∧ macAt (d.received g) chaddrAt = mac := by
  constructor
  · rintro ⟨r, hr, hread⟩
    rw [h] at hr
    obtain ⟨⟨type', slot'⟩, ha, rfl⟩ := Option.map_eq_some_iff.mp hr
    rw [readReply_reply, Option.some.injEq, Assignment.mk.injEq, address_inj] at hread
    obtain ⟨rfl, hmac, rfl⟩ := hread
    exact ⟨ha, hmac⟩
  · rintro ⟨rfl, rfl⟩
    exact ⟨_, h, readReply_reply ..⟩

theorem not_gives_of_none (h : (d.process g).1 = none) {type : UInt8} {mac : Mac}
    {slot : Fin maxIp} : ¬d.Gives g type mac slot := by
  rintro ⟨r, hr, -⟩
  rw [h] at hr
  cases hr

/-- The moves of one datagram. An acknowledgement is a grant. -/
structure Moves (d : DhcpServer) (g : Datagram) (table : Table (Fin maxIp) Mac ℕ)
    (moves : List (Move (Fin maxIp) Mac ℕ)) (table' : Table (Fin maxIp) Mac ℕ) : Prop where
  follows : Follows leaseEnd table moves table'
  times : ∀ move ∈ moves, ∃ i, move.time = g.clock i
  records : Records table' (d.process g).2.lease g.clock
  acked : ∀ {mac slot}, mac ≠ noMac → d.Gives g dhcpAck mac slot →
    (Move.grant slot mac (g.clock slot)).Allowed leaseEnd table ∧
      table' slot = some (mac, g.clock slot)

theorem Moves.silent (h : Records table d.lease g.clock) (hp : d.process g = (none, d)) :
    d.Moves g table [] table where
  follows := .nil table
  times := fun _ hmove => absurd hmove List.not_mem_nil
  records := by rwa [hp]
  acked := fun _ hgives => absurd hgives (not_gives_of_none (by rw [hp]))

theorem respond_discover (d : DhcpServer) (mac : Mac) (slot : Option (Fin maxIp))
    (ticks : Fin maxIp → UInt32) : d.respond dhcpDiscover mac slot ticks =
      ((search mac ticks (List.finRange maxIp) d.lease none).2.map fun yi => (dhcpOffer, yi),
        { d with lease := (search mac ticks (List.finRange maxIp) d.lease none).1 }) := rfl

/-- A discovery only releases. -/
theorem moves_discover (h : Records table d.lease g.clock) {mac : Mac}
    {slot : Option (Fin maxIp)}
    (hp : d.process g = (((d.respond dhcpDiscover mac slot g.ticks).1.map fun a =>
      d.reply (d.received g) a.1 a.2), (d.respond dhcpDiscover mac slot g.ticks).2)) :
    ∃ moves table', d.Moves g table moves table' := by
  obtain ⟨moves, table', hfollows, hmoves, hrecords⟩ :=
    h.search mac (List.finRange maxIp) none
  refine ⟨moves, table', hfollows, ?_, ?_, ?_⟩
  · intro move hmove
    obtain ⟨i, rfl⟩ := hmoves move hmove
    exact ⟨i, rfl⟩
  · rw [hp, respond_discover]
    exact hrecords
  · intro mac' slot' _ hgives
    have hanswer := ((gives_iff (by rw [hp])).mp hgives).1
    rw [respond_discover] at hanswer
    obtain ⟨yi, -, hyi⟩ := Option.map_eq_some_iff.mp hanswer
    have htype : dhcpOffer = dhcpAck := congrArg Prod.fst hyi
    exact absurd htype (by decide)

theorem respond_request {mac : Mac} {yi : Fin maxIp} {ticks : Fin maxIp → UInt32}
    (h : (d.lease yi).mac = mac ∨ (d.lease yi).mac = noMac) :
    d.respond dhcpRequest mac (some yi) ticks = (some (dhcpAck, yi),
      { d with lease := Function.update d.lease yi (renewed mac (ticks yi)) }) := by
  rw [respond, if_neg (by decide), if_pos rfl]
  exact if_pos h

/-- A request is granted or ignored. -/
theorem moves_request (h : Records table d.lease g.clock) {slot : Option (Fin maxIp)}
    (hp : d.process g =
      (((d.respond dhcpRequest (macAt (d.received g) chaddrAt) slot g.ticks).1.map fun a =>
        d.reply (d.received g) a.1 a.2),
        (d.respond dhcpRequest (macAt (d.received g) chaddrAt) slot g.ticks).2)) :
    ∃ moves table', d.Moves g table moves table' := by
  cases slot with
  | none =>
      rw [respond, if_neg (by decide), if_pos rfl] at hp
      exact ⟨[], table, .silent h hp⟩
  | some yi =>
      by_cases hfree : (d.lease yi).mac = macAt (d.received g) chaddrAt ∨ (d.lease yi).mac = noMac
      · rw [respond_request hfree] at hp
        have hgives : ∀ {mac slot}, d.Gives g dhcpAck mac slot →
            slot = yi ∧ macAt (d.received g) chaddrAt = mac := fun hg => by
          obtain ⟨hanswer, hmac⟩ := (gives_iff (by rw [hp])).mp hg
          exact ⟨(congrArg Prod.snd (Option.some.inj hanswer)).symm, hmac⟩
        by_cases hmac : macAt (d.received g) chaddrAt = noMac
        · refine ⟨[], table, .nil table, fun _ hmove => absurd hmove List.not_mem_nil, ?_, ?_⟩
          · rw [hp]
            exact h.grant_noMac hmac (hfree.elim (fun hm => hm.trans hmac) id)
          · intro mac slot hne hg
            exact absurd ((hgives hg).2.symm.trans hmac) hne
        · obtain ⟨hallowed, hrecords⟩ := h.grant hmac hfree
          refine ⟨_, _, .one hallowed, ?_, ?_, ?_⟩
          · intro move hmove
            rw [List.mem_singleton.mp hmove]
            exact ⟨yi, rfl⟩
          · rw [hp]
            exact hrecords
          · intro mac slot _ hg
            obtain ⟨rfl, rfl⟩ := hgives hg
            exact ⟨hallowed, Function.update_self ..⟩
      · rw [respond, if_neg (by decide), if_pos rfl] at hp
        rw [if_neg hfree] at hp
        exact ⟨[], table, .silent h hp⟩

/-- Every datagram is a row of moves that follow the rules. -/
theorem moves_process (h : Records table d.lease g.clock) :
    ∃ moves table', d.Moves g table moves table' := by
  rcases process_cases d g with hp | ⟨type, hp⟩
  · exact ⟨[], table, .silent h hp⟩
  · by_cases hdiscover : type = dhcpDiscover
    · subst hdiscover
      exact moves_discover h hp
    · by_cases hrequest : type = dhcpRequest
      · subst hrequest
        exact moves_request h hp
      · rw [respond.eq_def, if_neg hdiscover, if_neg hrequest] at hp
        exact ⟨[], table, .silent h hp⟩

theorem same_network (d : DhcpServer) (g : Datagram) : (d.process g).2.ip = d.ip := by
  rcases process_cases d g with hp | ⟨type, hp⟩
  · rw [hp]
  · rw [hp]
    unfold respond
    split_ifs
    · rfl
    · cases d.requested (d.received g) with
      | none => rfl
      | some yi =>
          dsimp only
          split_ifs <;> rfl
    · rfl

/-- The server after a row of datagrams. -/
def after (d : DhcpServer) (gs : List Datagram) : DhcpServer := (trace process d gs).2

theorem after_append (d : DhcpServer) (gs hs : List Datagram) :
    d.after (gs ++ hs) = (d.after gs).after hs := by
  induction gs generalizing d with
  | nil => rfl
  | cons g gs ih => exact ih (d.process g).2

theorem network_after (d : DhcpServer) (gs : List Datagram) : (d.after gs).ip = d.ip := by
  induction gs generalizing d with
  | nil => rfl
  | cons g gs ih => exact (ih (d.process g).2).trans (same_network d g)

/-- A row of datagrams is a row of moves that follow the rules. -/
theorem follows_after {gs : List Datagram} (h : Records table d.lease clock)
    (hstart : ∀ g ∈ gs, ∀ i, clock i ≤ g.clock i) (hordered : gs.Pairwise Datagram.Before) :
    ∃ moves table' clock', Follows leaseEnd table moves table' ∧
      (∀ move ∈ moves, ∃ g ∈ gs, ∃ i, move.time = g.clock i) ∧
      Records table' (d.after gs).lease clock' ∧
      ∀ g : Datagram, (∀ i, clock i ≤ g.clock i) → (∀ g' ∈ gs, g'.Before g) →
        ∀ i, clock' i ≤ g.clock i := by
  induction gs generalizing d table clock with
  | nil =>
      exact ⟨[], table, clock, .nil table, fun _ hmove => absurd hmove List.not_mem_nil, h,
        fun _ hclock _ => hclock⟩
  | cons g gs ih =>
      obtain ⟨hfirst, hrest⟩ := List.pairwise_cons.mp hordered
      obtain ⟨moves, table₁, hmoves⟩ := moves_process (h.later (hstart g List.mem_cons_self))
      obtain ⟨moves', table', clock', hfollows, htimes, hrecords, hlast⟩ :=
        ih hmoves.records (fun g' hg' i => hfirst g' hg' i i) hrest
      refine ⟨moves ++ moves', table', clock', hmoves.follows.append hfollows, ?_, hrecords, ?_⟩
      · intro move hmove
        rcases List.mem_append.mp hmove with hmove | hmove
        · exact ⟨g, List.mem_cons_self, hmoves.times move hmove⟩
        · obtain ⟨g', hg', htime⟩ := htimes move hmove
          exact ⟨g', List.mem_cons_of_mem g hg', htime⟩
      · intro g' _ hbefore
        exact hlast g' (fun i => hbefore g List.mem_cons_self i i)
          fun g'' hg'' => hbefore g'' (List.mem_cons_of_mem g hg'')

/-- An acknowledged slot was the client's own or free. -/
theorem gives_ack {mac : Mac} {slot : Fin maxIp} (h : d.Gives g dhcpAck mac slot) :
    (d.lease slot).mac = mac ∨ (d.lease slot).mac = noMac := by
  rcases process_cases d g with hp | ⟨type, hp⟩
  · exact absurd h (not_gives_of_none (by rw [hp]))
  · obtain ⟨hanswer, hmac⟩ := (gives_iff (by rw [hp])).mp h
    rw [← hmac]
    unfold respond at hanswer
    split_ifs at hanswer with hdiscover hrequest
    · obtain ⟨yi, -, hyi⟩ := Option.map_eq_some_iff.mp hanswer
      have htype : dhcpOffer = dhcpAck := congrArg Prod.fst hyi
      exact absurd htype (by decide)
    · cases hslot : d.requested (d.received g) with
      | none => simp [hslot] at hanswer
      | some yi =>
          simp only [hslot] at hanswer
          split_ifs at hanswer with hfree
          obtain rfl : yi = slot := congrArg Prod.snd (Option.some.inj hanswer)
          exact hfree

theorem slotOf_address (d : DhcpServer) (slot : Fin maxIp) :
    d.slotOf (d.address slot).bytes = some slot := by
  have hlast : ((d.address slot).bytes.getD 3 0 - baseIp).toNat = slot := by
    change (baseIp + UInt8.ofNat slot - baseIp).toNat = slot
    revert slot
    decide
  have hnet : (d.address slot).bytes.take 3 = d.ip.bytes.take 3 := rfl
  rw [slotOf, if_neg (not_not_intro hnet)]
  simp only [hlast, slot.isLt, dif_pos, Fin.eta]

/-- What the server of messages answers is given on the wire. -/
theorem gives_of_serve {m : DhcpMessage} (hm : m.WellFormed) {padding : List UInt8}
    (hbytes : g.bytes = m.encode ++ padding) {type : UInt8} {slot : Fin maxIp}
    (h : (d.serve m g.ticks).1 = some (m.answer d type slot)) : d.Gives g type m.mac slot := by
  refine ⟨(m.answer d type slot).encode, ?_, readReply_answer ..⟩
  rw [process_encode hm d g hbytes, h]
  rfl

/-- A message with which a client asks for an address. -/
structure Requests (d : DhcpServer) (m : DhcpMessage) (mac : Mac) (slot : Fin maxIp) : Prop where
  wellFormed : m.WellFormed
  type : m.type = some dhcpRequest
  mac : m.mac = mac
  address : m.option optRequestedIp = some (d.address slot).bytes

/-- A request for the client's own slot, or for a free one, is acknowledged. -/
theorem Requests.acked {m : DhcpMessage} {mac : Mac} {slot : Fin maxIp}
    (hm : d.Requests m mac slot) {padding : List UInt8} (hg : g.bytes = m.encode ++ padding)
    (hfree : (d.lease slot).mac = mac ∨ (d.lease slot).mac = noMac) :
    d.Gives g dhcpAck mac slot := by
  have hserve : d.serve m g.ticks = (some (m.answer d dhcpAck slot),
      { d with lease := Function.update d.lease slot (renewed mac (g.ticks slot)) }) := by
    unfold serve
    rw [hm.type, hm.address, Option.bind_some, slotOf_address, hm.mac]
    simp only [respond_request hfree, Option.map_some]
  rw [← hm.mac]
  exact gives_of_serve hm.wellFormed hg (by rw [hserve])

/-- An acknowledged address is kept for a day: whatever datagrams arrive, the slot stays
with the client, nobody else is told to use the address, and the client's own requests
for it are acknowledged again. -/
theorem lease_kept (ip nm : Ip4) {before later : List Datagram} {mac : Mac} {slot : Fin maxIp}
    (hmac : mac ≠ noMac) (hordered : (before ++ g :: later).Pairwise Datagram.Before)
    (hack : ((init ip nm).after before).Gives g dhcpAck mac slot)
    (hday : ∀ h ∈ later, ∀ i, h.clock i < g.clock slot + leaseTime) (h : Datagram) :
    (((init ip nm).after (before ++ g :: later)).lease slot).mac = mac ∧
      (∀ mac', ((init ip nm).after (before ++ g :: later)).Gives h dhcpAck mac' slot →
        mac' = mac) ∧
      ∀ m padding, (init ip nm).Requests m mac slot → h.bytes = m.encode ++ padding →
        ((init ip nm).after (before ++ g :: later)).Gives h dhcpAck mac slot := by
  obtain ⟨hbefore, hrest, hacross⟩ := List.pairwise_append.mp hordered
  obtain ⟨hfirst, hlater⟩ := List.pairwise_cons.mp hrest
  obtain ⟨_, table₀, clock₀, -, -, hrecords₀, hlast⟩ := follows_after
    (records_init ip nm fun _ => 0) (fun _ _ _ => Nat.zero_le _) hbefore
  have hclock := hlast g (fun _ => Nat.zero_le _)
    fun g' hg' => hacross g' hg' g List.mem_cons_self
  obtain ⟨moves, table₁, hmoves⟩ := moves_process (hrecords₀.later hclock)
  obtain ⟨moves', table₂, clock₂, hfollows, htimes, hrecords₂, -⟩ :=
    follows_after hmoves.records (fun g' hg' i => hfirst g' hg' i i) hlater
  have hgranted : HeldSince leaseEnd table₁ slot mac (g.clock slot) :=
    ⟨g.clock slot, (hmoves.acked hmac hack).2, le_rfl⟩
  have hheld : HeldSince leaseEnd table₂ slot mac (g.clock slot) := by
    apply hgranted.run leaseEnd_mono hfollows
    intro move hmove
    obtain ⟨g', hg', i, htime⟩ := htimes move hmove
    rw [htime]
    exact ⟨hfirst g' hg' slot i, not_le.mpr (hday g' hg' i)⟩
  have hrun : (init ip nm).after (before ++ g :: later) =
      (((init ip nm).after before).process g).2.after later := after_append ..
  have hlease : (((init ip nm).after (before ++ g :: later)).lease slot).mac = mac := by
    obtain ⟨t, htable, -⟩ := hheld
    rw [hrun]
    by_contra hne
    by_cases hfree :
        (((((init ip nm).after before).process g).2.after later).lease slot).mac = noMac
    · rw [hrecords₂.free hfree] at htable
      cases htable
    · obtain ⟨_, htable', -⟩ := hrecords₂.held hfree
      rw [htable'] at htable
      exact hne (congrArg Prod.fst (Option.some.inj htable))
  refine ⟨hlease, fun mac' hgives => ?_, fun m padding hm hbytes => ?_⟩
  · rcases gives_ack hgives with hown | hfree
    · exact hown.symm.trans hlease
    · exact absurd (hlease.symm.trans hfree) hmac
  · have hm' : ((init ip nm).after (before ++ g :: later)).Requests m mac slot :=
      ⟨hm.wellFormed, hm.type, hm.mac, by rw [hm.address, address, address, network_after]⟩
    exact hm'.acked hbytes (.inl hlease)

/-- A message of the client, sent at a time. -/
def sentAt (m : DhcpMessage) (t : ℕ) : Datagram where
  bytes := m.encode
  stack := fun _ => 0
  clock := fun _ => t

def firstSlot : Fin maxIp := (0 : Fin 8)

theorem phone_requests : accessPoint.Requests phoneRequests phone firstSlot where
  wellFormed := by
    constructor
    · rw [DhcpMessage.encode, List.length_append, length_header]
      decide
    · intro data hdata
      obtain rfl : data = [dhcpRequest] := (Option.some.inj hdata).symm
      exact List.cons_ne_nil _ _
    · intro data hdata
      obtain rfl : data = [192, 168, 4, 16] := (Option.some.inj hdata).symm
      exact le_rfl
  type := rfl
  mac := rfl
  address := rfl

/-- A phone that was given an address keeps it while it says nothing but a discovery. -/
theorem lease_kept_phone : (((init ⟨192, 168, 4, 1⟩ ⟨255, 255, 255, 0⟩).after
    ([] ++ sentAt phoneRequests 5 :: [sentAt phoneDiscovers 60000])).lease firstSlot).mac =
      phone := by
  have hordered : ([] ++ sentAt phoneRequests 5 :: [sentAt phoneDiscovers 60000]).Pairwise
      Datagram.Before := by simp [Datagram.Before, sentAt]
  have hack : ((init ⟨192, 168, 4, 1⟩ ⟨255, 255, 255, 0⟩).after []).Gives
      (sentAt phoneRequests 5) dhcpAck phone firstSlot :=
    phone_requests.acked (List.append_nil _).symm (.inr rfl)
  have hphone : phone ≠ noMac := by decide
  exact (lease_kept ⟨192, 168, 4, 1⟩ ⟨255, 255, 255, 0⟩ hphone hordered hack
    (by simp [sentAt, leaseTime]) (sentAt phoneRequests 5)).1

variable {mac : Mac} {ticks : Fin maxIp → UInt32} {slots : List (Fin maxIp)}
  {yi : Option (Fin maxIp)} {slot : Fin maxIp}

/-- The slot may be granted to the client. -/
def Open (lease : Fin maxIp → Lease) (mac : Mac) (slot : Fin maxIp) : Prop :=
  (lease slot).mac = mac ∨ (lease slot).mac = noMac

theorem Open.release (h : Open lease mac slot) (i : Fin maxIp) :
    Open (Function.update lease i { lease i with mac := noMac }) mac slot := by
  by_cases hi : slot = i
  · rw [Open, hi, Function.update_self]
    exact .inr rfl
  · rwa [Open, Function.update_of_ne hi]

/-- The loop of a discovery leaves an open slot open. -/
theorem Open.search (h : Open lease mac slot) {mac' : Mac} :
    Open (search mac' ticks slots lease yi).1 mac slot := by
  induction slots generalizing lease yi with
  | nil => exact h
  | cons i slots ih =>
      rw [DhcpServer.search]
      split_ifs
      · exact h
      · exact ih h
      · exact ih (h.release i)
      · exact ih h
      · exact ih h

/-- The chosen slot is open for the client. -/
theorem open_of_search (h : ∀ j ∈ yi, Open lease mac j)
    (hslot : (search mac ticks slots lease yi).2 = some slot) :
    Open (search mac ticks slots lease yi).1 mac slot := by
  induction slots generalizing lease yi with
  | nil => exact h slot hslot
  | cons i slots ih =>
      rw [DhcpServer.search] at hslot ⊢
      split_ifs at hslot ⊢ with hmac hyi hexpired hfree
      · obtain rfl := Option.some.inj hslot
        exact .inl hmac
      · exact ih h hslot
      · apply ih _ hslot
        intro j hj
        obtain rfl := Option.mem_some_iff.mp hj
        rw [Open, Function.update_self]
        exact .inr rfl
      · apply ih _ hslot
        intro j hj
        obtain rfl := Option.mem_some_iff.mp hj
        exact .inr hfree
      · exact ih (fun j hj => absurd hj (by simp)) hslot

/-- A discovery finds no slot only when every one is held by somebody else whose time is
not over. -/
theorem search_eq_none : (search mac ticks slots lease yi).2 = none ↔
    yi = none ∧ ∀ i ∈ slots, ¬Open lease mac i ∧ expired (lease i) (ticks i) = false := by
  induction slots generalizing lease yi with
  | nil => simp [search]
  | cons i slots ih =>
      rw [DhcpServer.search]
      split_ifs with hmac hyi hexpired hfree
      · simp [Open, hmac]
      · rw [ih]
        simp [hyi]
      · rw [ih]
        simp [hexpired]
      · rw [ih]
        simp [Open, hfree]
      · rw [ih]
        simp only [not_not] at hyi
        simp [hyi, Open, hmac, hfree, hexpired]

/-- An open slot stays open until somebody else is told to use it. -/
theorem open_process (h : Open d.lease mac slot)
    (hothers : ∀ mac', d.Gives g dhcpAck mac' slot → mac' = mac) :
    Open (d.process g).2.lease mac slot := by
  rcases process_cases d g with hp | ⟨type, hp⟩
  · rwa [hp]
  · by_cases hdiscover : type = dhcpDiscover
    · subst hdiscover
      rw [hp, respond_discover]
      exact h.search
    · cases hslot : d.requested (d.received g) with
      | none =>
          have hsame : (d.process g).2 = d := by
            rw [hp, hslot]
            unfold respond
            split_ifs <;> rfl
          rwa [hsame]
      | some yi =>
          by_cases hgrant : type = dhcpRequest ∧ Open d.lease (macAt (d.received g) chaddrAt) yi
          · obtain ⟨rfl, hfree⟩ := hgrant
            rw [hslot, respond_request hfree] at hp
            have hlease : (d.process g).2.lease = Function.update d.lease yi
                (renewed (macAt (d.received g) chaddrAt) (g.ticks yi)) := by rw [hp]
            rw [Open, hlease]
            by_cases hyi : slot = yi
            · subst hyi
              rw [Function.update_self]
              exact .inl (hothers _ ((gives_iff (by rw [hp])).mpr ⟨rfl, rfl⟩))
            · rwa [Function.update_of_ne hyi]
          · have hsame : (d.process g).2 = d := by
              rw [hp, hslot, respond, if_neg hdiscover]
              split_ifs with hrequest hfree
              · exact absurd ⟨hrequest, hfree⟩ hgrant
              · rfl
              · rfl
            rwa [hsame]

/-- An open slot is open after a row of datagrams that gave its address to nobody else. -/
theorem open_after {gs : List Datagram} (h : Open d.lease mac slot)
    (hothers : ∀ pre k post, gs = pre ++ k :: post →
      ∀ mac', (d.after pre).Gives k dhcpAck mac' slot → mac' = mac) :
    Open (d.after gs).lease mac slot := by
  induction gs generalizing d with
  | nil => exact h
  | cons g gs ih =>
      apply ih (open_process h (hothers [] g gs rfl))
      intro pre k post hsplit
      exact hothers (g :: pre) k post (by rw [hsplit]; rfl)

/-- The slot of an offer is open. -/
theorem open_of_offer (h : d.Gives g dhcpOffer mac slot) : Open (d.process g).2.lease mac slot := by
  rcases process_cases d g with hp | ⟨type, hp⟩
  · exact absurd h (not_gives_of_none (by rw [hp]))
  · obtain ⟨hanswer, rfl⟩ := (gives_iff (by rw [hp])).mp h
    by_cases hdiscover : type = dhcpDiscover
    · subst hdiscover
      rw [respond_discover] at hanswer
      obtain ⟨yi, hyi, heq⟩ := Option.map_eq_some_iff.mp hanswer
      obtain rfl : yi = slot := congrArg Prod.snd heq
      rw [hp, respond_discover]
      exact open_of_search (fun j hj => absurd hj (by simp)) hyi
    · exfalso
      unfold respond at hanswer
      rw [if_neg hdiscover] at hanswer
      split_ifs at hanswer
      cases hslot : d.requested (d.received g) with
      | none => simp [hslot] at hanswer
      | some yi =>
          simp only [hslot] at hanswer
          split_ifs at hanswer
          have htype : dhcpAck = dhcpOffer := congrArg Prod.fst (Option.some.inj hanswer)
          exact absurd htype (by decide)

/-- An offer is honoured: whatever is received after it, as long as nobody else is told to
use the address, the client's request for it is acknowledged. -/
theorem offer_honoured (hoffer : d.Gives g dhcpOffer mac slot) {later : List Datagram}
    (hothers : ∀ pre k post, later = pre ++ k :: post →
      ∀ mac', ((d.process g).2.after pre).Gives k dhcpAck mac' slot → mac' = mac)
    {m : DhcpMessage} (hm : d.Requests m mac slot) {h : Datagram} {padding : List UInt8}
    (hbytes : h.bytes = m.encode ++ padding) :
    ((d.process g).2.after later).Gives h dhcpAck mac slot := by
  have hopen := open_after (open_of_offer hoffer) hothers
  have haddress : ((d.process g).2.after later).address slot = d.address slot := by
    rw [address, network_after, same_network, address]
  have hm' : ((d.process g).2.after later).Requests m mac slot :=
    ⟨hm.wellFormed, hm.type, hm.mac, by rw [hm.address, haddress]⟩
  exact hm'.acked hbytes hopen

theorem serve_discover {m : DhcpMessage} (htype : m.type = some dhcpDiscover) :
    (d.serve m ticks).1 = (search m.mac ticks (List.finRange maxIp) d.lease none).2.map
      fun yi => m.answer d dhcpOffer yi := by
  simp only [serve, htype, respond_discover, Option.map_map]
  rfl

/-- A discovery is not acknowledged. -/
theorem not_acked_of_discover {m : DhcpMessage} (hm : m.WellFormed)
    (htype : m.type = some dhcpDiscover) {padding : List UInt8}
    (hbytes : g.bytes = m.encode ++ padding) : ¬d.Gives g dhcpAck mac slot := by
  rintro ⟨r, hr, hread⟩
  rw [process_encode hm d g hbytes, serve_discover htype] at hr
  obtain ⟨answer, hanswer, rfl⟩ := Option.map_eq_some_iff.mp hr
  obtain ⟨yi, -, rfl⟩ := Option.map_eq_some_iff.mp hanswer
  rw [readReply_answer] at hread
  have htypes : dhcpOffer = dhcpAck := congrArg Assignment.type (Option.some.inj hread)
  exact absurd htypes (by decide)

def tabletDiscovers : DhcpMessage := { phoneDiscovers with mac := #v[2, 0, 0, 0, 0, 2] }

theorem tabletDiscovers_wellFormed : tabletDiscovers.WellFormed := by
  constructor
  · rw [DhcpMessage.encode, List.length_append, length_header]
    decide
  · intro data hdata
    obtain rfl : data = [dhcpDiscover] := (Option.some.inj hdata).symm
    exact List.cons_ne_nil _ _
  · intro data hdata
    cases hdata

/-- A tablet asks twice between the offer to the phone and its request. -/
theorem offer_honoured_phone : ((accessPoint.process (sentAt phoneDiscovers 0)).2.after
    [sentAt tabletDiscovers 3, sentAt tabletDiscovers 5]).Gives
      (sentAt phoneRequests 9) dhcpAck phone firstSlot := by
  have hoffer : accessPoint.Gives (sentAt phoneDiscovers 0) dhcpOffer phone firstSlot :=
    gives_of_serve phoneDiscovers_wellFormed (List.append_nil _).symm rfl
  apply offer_honoured hoffer _ phone_requests (List.append_nil _).symm
  intro pre k post hsplit mac' hgives
  have hk : k ∈ [sentAt tabletDiscovers 3, sentAt tabletDiscovers 5] := by
    rw [hsplit]
    simp
  have hbytes : k.bytes = tabletDiscovers.encode ++ [] := by
    simp only [List.mem_cons, List.not_mem_nil, or_false] at hk
    rcases hk with rfl | rfl <;> exact (List.append_nil _).symm
  exact absurd hgives (not_acked_of_discover tabletDiscovers_wellFormed rfl hbytes)

/-- A discovery goes without an offer only when somebody else holds every slot and no
lease is over. -/
theorem discover_ignored_iff (d : DhcpServer) {m : DhcpMessage} (hm : m.WellFormed)
    (htype : m.type = some dhcpDiscover) {padding : List UInt8}
    (hbytes : g.bytes = m.encode ++ padding) :
    (∀ slot, ¬d.Gives g dhcpOffer m.mac slot) ↔ ∀ slot, (d.lease slot).mac ≠ m.mac ∧
      (d.lease slot).mac ≠ noMac ∧ expired (d.lease slot) (g.ticks slot) = false := by
  have hprocess := process_encode hm d g hbytes
  have hserve := (serve_discover htype : (d.serve m g.ticks).1 = _)
  have hnone : (∀ slot, ¬d.Gives g dhcpOffer m.mac slot) ↔
      (search m.mac g.ticks (List.finRange maxIp) d.lease none).2 = none := by
    constructor
    · intro hnot
      by_contra hne
      obtain ⟨slot, hslot⟩ := Option.ne_none_iff_exists'.mp hne
      exact hnot slot (gives_of_serve hm hbytes (by rw [hserve, hslot]; rfl))
    · intro hsearch slot
      apply not_gives_of_none
      rw [hprocess, hserve, hsearch]
      rfl
  rw [hnone, search_eq_none]
  simp [Open, and_assoc]

/-- Eight other clients hold the slots. -/
def fullHouse : DhcpServer :=
  { accessPoint with lease := fun slot => ⟨#v[2, 0, 0, 0, 1, UInt8.ofNat slot], 20⟩ }

theorem discover_ignored_iff_phone :
    ¬∃ slot, fullHouse.Gives (sentAt phoneDiscovers 7) dhcpOffer phone slot :=
  not_exists.mpr <| (discover_ignored_iff fullHouse phoneDiscovers_wellFormed rfl
    (List.append_nil _).symm).mpr (by decide)

end DhcpServer

end PicoSomfy
