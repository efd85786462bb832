import PicoSomfy.DnsServer

/-!
# The replies of the name server

A query in its datagram is answered with the response that a resolver expects, whatever
the stack holds. Any other datagram is either ignored or answered with a message that
shows a byte of the stack. In both cases the message buffer is large enough for the
answer: a name of at most 255 bytes leaves room for it.
-/
namespace PicoSomfy

open NorFlash ByteMemory

namespace Dns

variable {bytes : List UInt8} {m s : Image} {ip : Ip4} {p : ℕ}

theorem toNat_ntohs (m : Image) (a : ℕ) :
    (ntohs m a).toNat = (m a).toNat * 256 + (m (a + 1)).toNat := by
  have hhigh := (m a).toNat_lt
  have hlow := (m (a + 1)).toNat_lt
  have hor := Nat.two_pow_add_eq_or_of_lt (i := 8) (b := (m (a + 1)).toNat) (by norm_num; omega)
    (m a).toNat
  rw [ntohs, UInt16.toNat_or, UInt16.toNat_shiftLeft, UInt8.toNat_toUInt16, UInt8.toNat_toUInt16,
    UInt16.toNat_ofNat, Nat.shiftLeft_eq, Nat.mod_eq_of_lt (by norm_num; omega)]
  norm_num at hor ⊢
  rw [Nat.mul_comm]
  omega

theorem standard_iff (b : UInt8) : b &&& 0xF8 = 0 ↔ b.toNat < 8 := by
  have hall : ∀ n < 256, UInt8.ofNat n &&& 0xF8 = 0 ↔ n < 8 := by decide +kernel
  have hb := hall b.toNat b.toNat_lt
  rwa [UInt8.ofNat_toNat] at hb

/-- The two tests of the flags look at the upper five bits. -/
theorem flags_iff (m : Image) : ((ntohs m 2 >>> (15 : UInt16)) &&& 0x1 = 0 ∧
    (ntohs m 2 >>> (11 : UInt16)) &&& 0xf = 0) ↔ m 2 &&& 0xF8 = 0 := by
  have hlow := (m 3).toNat_lt
  have hhigh := (m 2).toNat_lt
  have hvalue : (ntohs m 2).toNat = (m 2).toNat * 256 + (m 3).toNat := toNat_ntohs m 2
  have hbit : ((ntohs m 2 >>> (15 : UInt16)) &&& 0x1).toNat =
      ((m 2).toNat * 256 + (m 3).toNat) / 32768 % 2 := by
    rw [UInt16.toNat_and, UInt16.toNat_shiftRight, Nat.shiftRight_eq_div_pow, hvalue]
    exact Nat.and_two_pow_sub_one_eq_mod _ 1
  have hopcode : ((ntohs m 2 >>> (11 : UInt16)) &&& 0xf).toNat =
      ((m 2).toNat * 256 + (m 3).toNat) / 2048 % 16 := by
    rw [UInt16.toNat_and, UInt16.toNat_shiftRight, Nat.shiftRight_eq_div_pow, hvalue]
    exact Nat.and_two_pow_sub_one_eq_mod _ 4
  rw [standard_iff, ← UInt16.toNat_inj, ← UInt16.toNat_inj, hbit, hopcode, UInt16.toNat_zero]
  omega

theorem count_iff (m : Image) : ¬ntohs m 4 < 1 ↔ m 4 ≠ 0 ∨ m 5 ≠ 0 := by
  have hvalue : (ntohs m 4).toNat = (m 4).toNat * 256 + (m 5).toNat := toNat_ntohs m 4
  rw [UInt16.lt_iff_toNat_lt, hvalue, ne_eq, ne_eq, ← UInt8.toNat_inj, ← UInt8.toNat_inj]
  simp only [UInt16.toNat_one, UInt8.toNat_zero]
  omega

/-- When a question ends at `p`. -/
theorem question_eq_some : question bytes s = some p ↔
    questionStart ≤ min bytes.length maxMsgSize ∧ received bytes s 2 &&& 0xF8 = 0 ∧
      (received bytes s 4 ≠ 0 ∨ received bytes s 5 ≠ 0) ∧
      skipName (received bytes s) (min bytes.length maxMsgSize) maxMsgSize questionStart = some p ∧
      p ≤ questionStart + 255 := by
  rw [← flags_iff, ← count_iff]
  unfold question
  dsimp only
  split_ifs with hlen hresponse hopcode hcount
  · exact iff_of_false (by simp) fun h => absurd h.1 (not_le.mpr hlen)
  · exact iff_of_false (by simp) fun h => hresponse h.2.1.1
  · exact iff_of_false (by simp) fun h => hopcode h.2.1.2
  · exact iff_of_false (by simp) fun h => h.2.2.1 hcount
  · rw [Option.filter_eq_some_iff, decide_eq_true_eq, Nat.sub_le_iff_le_add']
    constructor
    · intro h
      exact ⟨not_lt.mp hlen, ⟨not_not.mp hresponse, not_not.mp hopcode⟩, hcount, h⟩
    · intro h
      exact h.2.2.2

variable {q : DnsQuery}

theorem length_header (q : DnsQuery) : q.header.length = questionStart := by
  simp [DnsQuery.header, questionStart]

/-- A query stands in the message as far as its first question goes. -/
theorem holds_query (hq : q.WellFormed) (s : Image) :
    HoldsAt (received q.encode s) 0 (q.header ++ encodeName q.name ++ q.typeClass.toList) := by
  have hlen : (q.header ++ encodeName q.name ++ q.typeClass.toList).length ≤ maxMsgSize := by
    have hshort := hq.short
    rw [List.length_append, List.length_append, length_header, Vector.length_toList]
    unfold questionStart maxMsgSize
    omega
  have hall := holds_poke s 0 (q.encode.take maxMsgSize)
  have htake : q.encode.take maxMsgSize = (q.header ++ encodeName q.name ++ q.typeClass.toList) ++
      q.rest.take (maxMsgSize - (q.header ++ encodeName q.name ++ q.typeClass.toList).length) := by
    rw [DnsQuery.encode, List.take_append, List.take_of_length_le hlen]
  rw [htake, holds_append, ← htake] at hall
  exact hall.1

theorem le_length_encode (hq : q.WellFormed) :
    questionStart + (encodeName q.name).length + 4 ≤ min q.encode.length maxMsgSize := by
  have hshort := hq.short
  rw [DnsQuery.encode, List.length_append, List.length_append, List.length_append, length_header,
    Vector.length_toList]
  unfold questionStart maxMsgSize
  omega

theorem getD_toList {n i : ℕ} (v : Vector UInt8 n) (hi : i < n) : v.toList.getD i 0 = v[i] := by
  rw [List.getD_eq_getElem _ _ (by simpa using hi), Vector.getElem_toList]

/-- The server finds the question of a query. -/
theorem question_encode (hq : q.WellFormed) (s : Image) :
    question q.encode s = some (questionStart + (encodeName q.name).length) := by
  have hfits := le_length_encode hq
  have hshort := hq.short
  have hholds := holds_query hq s
  rw [DnsQuery.header, holds_append, holds_append, holds_append, holds_append, holds_append] at hholds
  obtain ⟨⟨⟨⟨⟨hid, hflags⟩, hcount⟩, hcounts⟩, hname⟩, htype⟩ := hholds
  simp only [List.length_append, Vector.length_toList] at hflags hcount hname
  have hflag : received q.encode s 2 = q.flags[0] := 
    (hflags.getD (i := 0) (by simp)).trans (getD_toList _ (by omega))
  have hcount₀ : received q.encode s 4 = q.questionCount[0] := 
    (hcount.getD (i := 0) (by simp)).trans (getD_toList _ (by omega))
  have hcount₁ : received q.encode s 5 = q.questionCount[1] := 
    (hcount.getD (i := 1) (by simp)).trans (getD_toList _ (by omega))
  rw [question_eq_some, hflag, hcount₀, hcount₁]
  refine ⟨by omega, hq.standard, hq.asks, ?_, by omega⟩
  apply skipName_encode
  · exact hname
  · omega
  · have hcopied := Nat.min_le_right q.encode.length maxMsgSize
    have hstart : 0 < questionStart := by decide
    omega

/-- A query gets its response, whatever the stack holds. -/
theorem process_encode (ip : Ip4) (hq : q.WellFormed) (s : Image) :
    process ip q.encode s = some (q.response ip) := by
  have hholds := holds_query hq s
  have hend : (q.header ++ encodeName q.name ++ q.typeClass.toList).length =
      questionStart + (encodeName q.name).length + 4 := by
    rw [List.length_append, List.length_append, length_header, Vector.length_toList]
  have hanswer : HoldsAt (poke (received q.encode s) (questionStart + (encodeName q.name).length + 4)
      (answer ip)) 0 (q.header ++ encodeName q.name ++ q.typeClass.toList ++ answer ip) := by
    apply HoldsAt.append (hholds.poke (.inr (by omega))) (holds_poke ..)
    rw [hend, Nat.zero_add]
  have hheader : q.header ++ encodeName q.name ++ q.typeClass.toList ++ answer ip =
      q.id.toList ++ (q.flags.toList ++ q.questionCount.toList ++ q.otherCounts.toList) ++
        (encodeName q.name ++ q.typeClass.toList ++ answer ip) := by
    simp only [DnsQuery.header, List.append_assoc]
  rw [hheader] at hanswer
  have hreply := hanswer.replace (b := 2) (by simp) responseHeader (by simp [responseHeader])
  have hresponse : q.id.toList ++ responseHeader ++
      (encodeName q.name ++ q.typeClass.toList ++ answer ip) = q.response ip := by
    simp only [DnsQuery.response, List.append_assoc]
  have hlen : (q.response ip).length =
      questionStart + (encodeName q.name).length + 4 + (answer ip).length := by
    simp only [DnsQuery.response, List.length_append, Vector.length_toList, questionStart,
      responseHeader, List.length_cons, List.length_nil]
  rw [hresponse] at hreply
  rw [process, question_encode hq, Option.map_some, reply, ← hlen]
  exact congrArg some hreply.bytesAt

theorem le_skipName {stop turns p' : ℕ} (h : skipName m stop turns p = some p') : p ≤ p' := by
  induction turns generalizing p with
  | zero => exact (Option.some.inj h).le
  | succ turns ih =>
      rw [skipName] at h
      split_ifs at h
      · exact (Nat.le_succ p).trans_eq (Option.some.inj h)
      · have hnext := ih h
        omega
      · exact (Option.some.inj h).le

/-- A question that the datagram holds as a whole makes it a query. -/
theorem exists_query (h : question bytes s = some p) (hp : p + 4 ≤ bytes.length) :
    ∃ q : DnsQuery, q.WellFormed ∧ bytes = q.encode := by
  obtain ⟨hlen, hflags, hcount, hskip, hshort⟩ := question_eq_some.mp h
  set m := received bytes s with hm
  have hmax : p + 4 ≤ min bytes.length maxMsgSize := by
    unfold questionStart at hshort
    unfold maxMsgSize
    omega
  obtain ⟨ls, hname, hend⟩ := exists_name hskip (by omega) (by unfold questionStart; omega)
  let q : DnsQuery :=
    { id := vectorAt m 0 2
      flags := vectorAt m 2 2
      questionCount := vectorAt m 4 2
      otherCounts := vectorAt m 6 6
      name := ls
      typeClass := vectorAt m p 4
      rest := bytes.drop (p + 4) }
  have hheader : HoldsAt m 0 q.header := by
    apply HoldsAt.append _ (holds_vectorAt m 6 6) (by simp)
    apply HoldsAt.append _ (holds_vectorAt m 4 2) (by simp)
    exact HoldsAt.append (holds_vectorAt m 0 2) (holds_vectorAt m 2 2) (by simp)
  have hfront : HoldsAt m 0 (q.header ++ encodeName ls ++ (vectorAt m p 4).toList) := by
    apply HoldsAt.append _ (holds_vectorAt m p 4)
    · rw [List.length_append, length_header, hend, Nat.zero_add]
    · apply hheader.append hname
      rw [length_header, Nat.zero_add]
  have hread : bytesAt m 0 (p + 4) = bytes.take (p + 4) := by
    have hcopied : HoldsAt m 0 (bytes.take maxMsgSize) := holds_poke s 0 (bytes.take maxMsgSize)
    have hfits : p + 4 ≤ (bytes.take maxMsgSize).length := by rwa [List.length_take, min_comm]
    rw [hcopied.bytesAt_take hfits, List.take_take, Nat.min_eq_left (hmax.trans (min_le_right ..))]
  refine ⟨q, ⟨?_, ?_, ?_⟩, ?_⟩
  · rwa [show q.flags[0] = m 2 from Vector.getElem_ofFn ..]
  · rwa [show q.questionCount[0] = m 4 from Vector.getElem_ofFn ..,
      show q.questionCount[1] = m 5 from Vector.getElem_ofFn ..]
  · change (encodeName ls).length ≤ 255
    omega
  · have hsize : (q.header ++ encodeName ls ++ (vectorAt m p 4).toList).length = p + 4 := by
      rw [List.length_append, List.length_append, length_header, Vector.length_toList, ← hend]
    have hbytes := hfront.bytesAt
    rw [hsize, hread] at hbytes
    rw [DnsQuery.encode, ← hbytes]
    exact (List.take_append_drop ..).symm

/-- A reply is the question, as it stands in the message, and the answer. -/
theorem getElem?_reply {i : ℕ} (ip : Ip4) (m : Image) (hi : i < p + 4) (hstart : questionStart ≤ i) :
    (reply ip m p)[i]? = some (m i) := by
  unfold questionStart at hstart
  rw [reply, getElem?_bytesAt _ (by omega), Nat.zero_add, poke_outside (.inr _),
    poke_outside (.inl hi)]
  simp only [responseHeader, List.length_cons, List.length_nil]
  omega

/-- The answer fits behind the longest question. -/
theorem length_process {r : List UInt8} (h : process ip bytes s = some r) :
    r.length ≤ maxMsgSize := by
  obtain ⟨p, hp, hr⟩ := Option.map_eq_some_iff.mp h
  obtain ⟨-, -, -, -, hshort⟩ := question_eq_some.mp hp
  rw [← hr, reply, length_bytesAt]
  simp only [answer, Ip4.bytes, List.length_append, List.length_cons, List.length_nil]
  unfold questionStart at hshort
  unfold maxMsgSize
  omega

/-- A question that runs over the end of its datagram is answered with a byte of the stack. -/
theorem shows_stack (ip : Ip4) (h : question bytes s = some p) (hp : bytes.length < p + 4) :
    ∃ i, bytes.length ≤ i ∧ ∀ s', ∃ r, process ip bytes s' = some r ∧ r[i]? = some (s' i) := by
  refine ⟨p + 3, by omega, fun s' => ?_⟩
  have hquestion : question bytes s' = some p := (question_eq bytes s' s).trans h
  obtain ⟨-, -, -, hskip, -⟩ := question_eq_some.mp h
  have hstart := le_skipName hskip
  refine ⟨reply ip (received bytes s') p, ?_, ?_⟩
  · rw [process, hquestion, Option.map_some]
  · rw [getElem?_reply ip _ (by omega) (by omega), received, poke_outside (.inr _)]
    rw [List.length_take]
    omega

/-- Queries are answered with their responses, whatever the stack holds. Other datagrams
are ignored, or the reply shows a byte of the stack. No reply is longer than the message. -/
theorem names_resolved (ip : Ip4) (bytes : List UInt8) :
    (∀ q : DnsQuery, q.WellFormed → bytes = q.encode →
      ∀ s, process ip bytes s = some (q.response ip)) ∧
    ((¬∃ q : DnsQuery, q.WellFormed ∧ bytes = q.encode) → (∀ s, process ip bytes s = none) ∨
      ∃ i, bytes.length ≤ i ∧ ∀ s, ∃ r, process ip bytes s = some r ∧ r[i]? = some (s i)) ∧
    ∀ s r, process ip bytes s = some r → r.length ≤ maxMsgSize := by
  refine ⟨fun q hq hbytes s => ?_, fun hno => ?_, fun s r h => length_process h⟩
  · rw [hbytes]
    exact process_encode ip hq s
  · cases hquestion : question bytes fun _ => 0 with
    | none =>
        left
        intro s
        rw [process, question_eq bytes s, hquestion, Option.map_none]
    | some p =>
        right
        apply shows_stack ip hquestion
        by_contra hlen
        exact hno (exists_query hquestion (not_lt.mp hlen))

/-- A phone asks for a name of one letter. -/
def phoneAsks : DnsQuery where
  id := #v[0, 7]
  flags := #v[1, 0]
  questionCount := #v[0, 1]
  otherCounts := #v[0, 0, 0, 0, 0, 0]
  name := [{ bytes := [97], pos := Nat.one_pos, le := Nat.le_of_ble_eq_true rfl }]
  typeClass := #v[0, 1, 0, 1]
  rest := []

theorem names_resolved_phone : process ⟨192, 168, 4, 1⟩ phoneAsks.encode (fun _ => 0) =
    some (phoneAsks.response ⟨192, 168, 4, 1⟩) := by
  apply (names_resolved _ _).1 _ _ rfl
  exact ⟨by decide, .inr (by decide), by decide⟩

end Dns

end PicoSomfy
