import PicoSomfy.WebApi
import PicoSomfy.Conversions

/-!
# What the handlers check

A request is well formed when its parameters are there, its numbers can be read and
what it names exists. A handler that is given anything else should refuse it, and
should not touch what is not there: the end of the parameters, a null remote, a
variable that `sscanf` left alone, a number that does not stand in the text.

There are two gaps in these checks. `sscanf` answers `EOF` for a blank number, which is
not zero, so the handler goes on with an unassigned variable; and a number outside the
range of its conversion becomes another one. If the rest of the request passes, it is
accepted. Four handlers have a gap of their own; the one for the position of a blind does
not look at the result of `sscanf` at all.
-/
namespace PicoSomfy

namespace Scan

variable {α : Type} {s : Scan α} {junk junk' : α}

/-- A value the variable may hold when the caller goes on. -/
def MayHold (s : Scan α) (v : α) : Prop := ∃ junk, s.read junk = some v

theorem read_of_ne_eof (h : s ≠ .eof) : s.read junk = s.read junk' := by
  cases s with
  | eof => exact absurd rfl h
  | assigned v => rfl
  | mismatch => rfl

theorem MayHold.assigned {v : α} (h : s.MayHold v) (hs : s ≠ .eof) : s = .assigned v := by
  obtain ⟨junk, hj⟩ := h
  cases s with
  | eof => exact absurd rfl hs
  | assigned w => exact congrArg _ (Option.some.inj hj)
  | mismatch => cases hj

theorem read_some [Inhabited α] (h : s ≠ .mismatch) : ∃ junk v, s.read junk = some v := by
  cases s with
  | eof => exact ⟨default, default, rfl⟩
  | assigned v => exact ⟨v, v, rfl⟩
  | mismatch => exact absurd rfl h

/-- The text is blank. -/
def Blank (text : List UInt8) : Prop := number text = .eof

/-- The text holds a number. -/
def Reads (text : List UInt8) : Prop := ∃ v, number text = .assigned v

end Scan

open Call

namespace Device

/-- The parameters a request cannot do without. -/
def Request.required : Request → List String
  | .addBlind => ["name", "openTime", "closeTime"]
  | .updateBlind => ["id", "name", "openTime", "closeTime"]
  | .deleteBlind => ["id"]
  | .blindCommand => ["id", "command", "payload"]
  | .addRemote => ["name"]
  | .importRemote => ["name", "id"]
  | .updateRemote => ["id", "name"]
  | .deleteRemote => ["id"]
  | .bindBlind | .unbindBlind => ["id", "blindId"]
  | .remoteCommand => ["id", "buttons"]
  | .discover => []

/-- Those of them that are integers, and how they are read. -/
@[simp] def Request.conversions : Request → List (String × Conversion)
  | .addBlind => [("openTime", .d), ("closeTime", .d)]
  | .updateBlind => [("id", .hu), ("openTime", .d), ("closeTime", .d)]
  | .deleteBlind | .blindCommand => [("id", .key)]
  | .importRemote | .updateRemote | .deleteRemote => [("id", .u)]
  | .bindBlind | .unbindBlind => [("id", .u), ("blindId", .hu)]
  | .remoteCommand => [("id", .u), ("buttons", .d)]
  | .addRemote | .discover => []

@[simp] def Request.numbers (request : Request) : List String := request.conversions.map (·.1)

/-- The blind or the remote whose id is the number of a parameter exists. -/
def NamesBlind (d : Device) (params : CgiParams) (name : String) : Prop :=
  ∀ t z, params name = some t → Scan.int t = .assigned z → ∃ k : UInt32, k ∈ d.blinds ∧ k.toNat = z

def NamesRemote (d : Device) (params : CgiParams) : Prop :=
  ∀ t z, params "id" = some t → Scan.int t = .assigned z → ∃ id : UInt32, id ∈ d.remotes ∧ id.toNat = z

/-- The remote or the blind that the request is for exists. -/
def Names (d : Device) (params : CgiParams) : Request → Prop
  | .updateBlind | .deleteBlind | .blindCommand => d.NamesBlind params "id"
  | .updateRemote | .deleteRemote | .remoteCommand => d.NamesRemote params
  | .bindBlind | .unbindBlind => d.NamesRemote params ∧ d.NamesBlind params "blindId"
  | .addBlind | .addRemote | .importRemote | .discover => True

/-- A request for a position has a number for it. -/
def HasPosition (params : CgiParams) : Request → Prop
  | .blindCommand => params "command" = some (ascii "pos") → ∀ t, params "payload" = some t →
      ∃ x, Scan.f t = .assigned x
  | _ => True

structure WellFormed (d : Device) (request : Request) (params : CgiParams) : Prop where
  present : ∀ name ∈ request.required, (params name).isSome
  numbers : ∀ name ∈ request.numbers, ∀ t, params name = some t → Scan.Reads t
  position : HasPosition params request
  names : d.Names params request

/-- The handler only uses what it was given, and refuses what is not well formed. The
values of unassigned variables are all that `locals` are. -/
structure Checks (d : Device) (request : Request) (params : CgiParams) : Prop where
  defined : ∀ locals, (d.handle request params locals).isSome
  assigned : ∀ locals locals', d.handle request params locals = d.handle request params locals'
  faithful : ∀ locals c, d.handle request params locals = accept c →
    ∀ entry ∈ request.conversions, ∀ t z, params entry.1 = some t → Scan.int t = .assigned z →
      entry.2.value z = z
  refused : ¬d.WellFormed request params →
    ∀ locals, (d.handle request params locals).map (·.2) = some false

/-- Some value of a remote id leads to a registered remote. -/
def FindsRemote (d : Device) (params : CgiParams) : Prop :=
  ∃ t v, params "id" = some t ∧ (Scan.u t).MayHold v ∧ v ∈ d.remotes

def FindsBlind16 (d : Device) (params : CgiParams) (name : String) : Prop :=
  ∃ t v, params name = some t ∧ (Scan.hu t).MayHold v ∧ v.toUInt32 ∈ d.blinds

def FindsBlind (d : Device) (params : CgiParams) : Prop :=
  ∃ t v, params "id" = some t ∧ (Scan.d t).MayHold v ∧ v.toUInt32 ∈ d.blinds

/-- The parameter is there and does not stop the conversion. -/
def Given (params : CgiParams) (name : String) : Prop :=
  ∃ t, params name = some t ∧ Scan.d t ≠ .mismatch

/-- The request passes the checks of its handler for some value of each blank number. -/
def Passes (d : Device) (params : CgiParams) : Request → Prop
  | .addBlind => (params "name").isSome ∧ Given params "openTime" ∧ Given params "closeTime"
  | .updateBlind => d.FindsBlind16 params "id" ∧ (params "name").isSome ∧
      Given params "openTime" ∧ Given params "closeTime"
  | .deleteBlind => d.FindsBlind params
  | .blindCommand => d.FindsBlind params ∧ (params "command").isSome ∧ (params "payload").isSome
  | .addRemote => (nameParam params).isSome
  | .importRemote => (nameParam params).isSome ∧
      ∃ t v, params "id" = some t ∧ (Scan.u t).MayHold v ∧ v ∉ d.remotes
  | .updateRemote => d.FindsRemote params ∧ (nameParam params).isSome
  | .bindBlind | .unbindBlind => d.FindsRemote params ∧ d.FindsBlind16 params "blindId"
  | .deleteRemote | .remoteCommand => d.FindsRemote params
  | .discover => True

/-- No number of the request is blank. -/
def NotBlank (params : CgiParams) (request : Request) : Prop :=
  ∀ name ∈ request.numbers, ∀ t, params name = some t → ¬Scan.Blank t

/-- The numbers of the request are in the range of their conversions. -/
def InRange (params : CgiParams) (request : Request) : Prop :=
  ∀ entry ∈ request.conversions, ∀ t z, params entry.1 = some t → Scan.int t = .assigned z →
    entry.2.Holds z

structure Legible (params : CgiParams) (request : Request) : Prop where
  notBlank : NotBlank params request
  inRange : InRange params request

/-- The float rounds to an int. -/
def RoundsToInt (x : Option ℚ) : Prop :=
  ∃ y, x = some y ∧ -2147483648 ≤ roundAway y ∧ roundAway y ≤ 2147483647

/-- The payload of a position is a number, and an int when it is looked at. -/
def PositionLegible (params : CgiParams) : Prop :=
  params "command" = some (ascii "pos") → ∀ t, params "payload" = some t →
    ∃ x, Scan.f t = .assigned x ∧ (t.length ≤ 31 → RoundsToInt x)

/-- The numbers of a request that passes are legible. Of these handlers one reads the id of
a blind without looking whether it is there, one a position without looking whether it is a
number, one uses the remote without looking whether it was found, and one goes on without a
button. -/
def Careful (d : Device) (params : CgiParams) : Request → Prop
  | .deleteBlind =>
      (params "id").isSome ∧ (d.Passes params .deleteBlind → Legible params .deleteBlind)
  | .blindCommand => d.Passes params .blindCommand →
      Legible params .blindCommand ∧ PositionLegible params
  | .deleteRemote => ∃ t, params "id" = some t ∧
      ((∃ v p, Scan.u t = .assigned v ∧ d.remotes[v]? = some p ∧
          (d.isAPrimaryRemote (d.heap p).remoteId = true ∨ InRange params .deleteRemote)) ∨
        (Scan.Blank t ∧ ∀ v : UInt32, ∃ p, d.remotes[v]? = some p ∧
          d.isAPrimaryRemote (d.heap p).remoteId = true))
  | .remoteCommand => d.Passes params .remoteCommand →
      Legible params .remoteCommand ∧ ∃ t, params "buttons" = some t ∧ Scan.Reads t
  | request => d.Passes params request → Legible params request

variable {d : Device} {request : Request} {params : CgiParams} {locals locals' : Locals}
  {t : List UInt8}

theorem scan_blank {α : Type} {f : Bool × ℕ → α} {t : List UInt8} :
    (Scan.number t).map f = .eof ↔ Scan.Blank t := by
  unfold Scan.Blank
  cases Scan.number t <;> simp [Scan.map]

theorem scan_reads {t : List UInt8} (hm : Scan.d t ≠ .mismatch) (hb : ¬Scan.Blank t) :
    Scan.Reads t := by
  unfold Scan.Blank at hb
  unfold Scan.d at hm
  unfold Scan.Reads
  cases hn : Scan.number t with
  | assigned v => exact ⟨v, rfl⟩
  | mismatch =>
      rw [hn] at hm
      exact absurd rfl hm
  | eof => exact absurd hn hb

theorem hu_blank {t : List UInt8} : Scan.hu t = .eof ↔ Scan.Blank t := by
  rw [Scan.hu, Scan.u]
  unfold Scan.Blank
  cases Scan.number t <;> simp [Scan.map]

/-- A number that led to something, and was not blank, was read. -/
theorem reads_of_mayHold {α : Type} {f : Bool × ℕ → α} {t : List UInt8} {v : α}
    (h : ((Scan.number t).map f).MayHold v) (hb : ¬Scan.Blank t) :
    Scan.Reads t ∧ (Scan.number t).map f = .assigned v := by
  have hs := h.assigned fun heof => hb (scan_blank.mp heof)
  refine ⟨?_, hs⟩
  cases hn : Scan.number t with
  | assigned w => exact ⟨w, hn⟩
  | mismatch =>
      rw [hn] at hs
      cases hs
  | eof => exact absurd hn hb

theorem reads_of_mayHold_hu {t : List UInt8} {v : UInt16} (h : (Scan.hu t).MayHold v)
    (hb : ¬Scan.Blank t) : Scan.Reads t ∧ Scan.hu t = .assigned v := by
  have hs := h.assigned fun heof => hb (hu_blank.mp heof)
  refine ⟨?_, hs⟩
  rw [Scan.hu, Scan.u] at hs
  cases hn : Scan.number t with
  | assigned w => exact ⟨w, hn⟩
  | mismatch =>
      rw [hn] at hs
      cases hs
  | eof => exact absurd hn hb

theorem WellFormed.notBlank (h : d.WellFormed request params) : NotBlank params request := by
  intro name hname t ht hblank
  obtain ⟨v, hv⟩ := h.numbers name hname t ht
  rw [Scan.Blank, hv] at hblank
  cases hblank

/-- A request that is accepted is well formed and legible, if its handler checks it. -/
theorem Checks.accepted {c : Call} (h : d.Checks request params)
    (hacc : d.handle request params locals = accept c) :
    d.WellFormed request params ∧ Legible params request := by
  have hwell : d.WellFormed request params := by
    by_contra hmal
    have hfalse := h.refused hmal locals
    rw [hacc] at hfalse
    cases hfalse
  exact ⟨hwell, hwell.notBlank, fun entry hentry t z ht hz =>
    Conversion.value_eq_iff.mp (h.faithful locals c hacc entry hentry t z ht hz)⟩

/-- The rule for a handler that looks at every pointer before it uses it. Of a request that
passes it needs `R`. -/
theorem checks_iff_of {R : Prop}
    (refuses : ¬d.Passes params request → ∀ locals, d.handle request params locals = refuse)
    (accepts : d.Passes params request →
      ∃ locals c, d.handle request params locals = accept c)
    (legible : R → Legible params request)
    (same : d.Passes params request → R → ∀ locals locals',
      d.handle request params locals = d.handle request params locals')
    (wellFormed : d.Passes params request → R → d.WellFormed request params)
    (only : d.Passes params request → d.Checks request params → R) :
    d.Checks request params ↔ (d.Passes params request → R) := by
  constructor
  · exact fun h hpasses => only hpasses h
  · intro h
    by_cases hpasses : d.Passes params request
    · have hR := h hpasses
      have hsame := same hpasses hR
      obtain ⟨locals, c, hc⟩ := accepts hpasses
      refine ⟨fun locals' => ?_, hsame, fun _ _ _ entry hentry t z ht hz => ?_,
        fun hmal => absurd (wellFormed hpasses hR) hmal⟩
      · rw [hsame locals' locals, hc]
        rfl
      · exact Conversion.value_eq_iff.mpr ((legible hR).inRange entry hentry t z ht hz)
    · have hrefuse := refuses hpasses
      refine ⟨fun locals => ?_, fun locals locals' => ?_, fun locals c hc => ?_, fun _ locals => ?_⟩
      · rw [hrefuse locals]
        rfl
      · rw [hrefuse locals, hrefuse locals']
      · rw [hrefuse locals] at hc
        cases hc
      · rw [hrefuse locals]
        rfl

/-- A handler that needs no more of a request than legible numbers. -/
theorem checks_iff
    (refuses : ¬d.Passes params request → ∀ locals, d.handle request params locals = refuse)
    (accepts : d.Passes params request →
      ∃ locals c, d.handle request params locals = accept c)
    (same : d.Passes params request → Legible params request → ∀ locals locals',
      d.handle request params locals = d.handle request params locals')
    (wellFormed : d.Passes params request → Legible params request →
      d.WellFormed request params) :
    d.Checks request params ↔ (d.Passes params request → Legible params request) :=
  checks_iff_of refuses accepts (fun hl => hl) same wellFormed fun hpasses h => by
    obtain ⟨locals, c, hc⟩ := accepts hpasses
    exact (h.accepted hc).2

/-- A number in the range of its conversion names what the handler finds. -/
theorem namesBlind_of_value {c : Conversion} {name : String} {k : UInt32}
    (ht : params name = some t) (hk : k ∈ d.blinds)
    (hv : ∀ z, Scan.int t = .assigned z → (k.toNat : ℤ) = c.value z)
    (hr : ∀ t z, params name = some t → Scan.int t = .assigned z → c.Holds z) :
    d.NamesBlind params name := by
  intro t' z ht' hz
  obtain rfl : t = t' := Option.some.inj (ht.symm.trans ht')
  exact ⟨k, hk, (hv z hz).trans (Conversion.value_eq_iff.mpr (hr t z ht hz))⟩

theorem read_d (h : ¬Scan.Blank t) (a b : Int32) : (Scan.d t).read a = (Scan.d t).read b :=
  Scan.read_of_ne_eof fun heof => h (scan_blank.mp heof)

theorem read_u (h : ¬Scan.Blank t) (a b : UInt32) : (Scan.u t).read a = (Scan.u t).read b :=
  Scan.read_of_ne_eof fun heof => h (scan_blank.mp heof)

theorem read_hu (h : ¬Scan.Blank t) (a b : UInt16) : (Scan.hu t).read a = (Scan.hu t).read b :=
  Scan.read_of_ne_eof fun heof => h (hu_blank.mp heof)

theorem ne_mismatch {α : Type} {s : Scan α} {junk v : α} (h : s.read junk = some v) :
    s ≠ .mismatch := by
  intro hs
  rw [hs] at h
  cases h

theorem finds_of_getRemoteParam {p : ℕ} (h : d.getRemoteParam params locals = some p) :
    d.FindsRemote params := by
  obtain ⟨t, ht, h⟩ := Option.bind_eq_some_iff.mp h
  obtain ⟨id, hid, h⟩ := Option.bind_eq_some_iff.mp h
  exact ⟨t, id, ht, ⟨_, hid⟩, SortedMap.mem_iff.mpr ⟨p, h⟩⟩

/-- With the right value in an unassigned variable the remote is found. -/
theorem FindsRemote.getRemoteParam (h : d.FindsRemote params) :
    ∃ junk, ∀ locals : Locals, locals.id = junk →
      ∃ p, d.getRemoteParam params locals = some p := by
  obtain ⟨t, id, ht, ⟨junk, hj⟩, hmem⟩ := h
  obtain ⟨p, hp⟩ := SortedMap.mem_iff.mp hmem
  refine ⟨junk, fun locals hl => ⟨p, ?_⟩⟩
  rw [Device.getRemoteParam, ht, Option.bind_some, hl, hj, Option.bind_some, hp]

theorem getRemoteParam_congr (h : ∀ t, params "id" = some t → ¬Scan.Blank t)
    (locals locals' : Locals) :
    d.getRemoteParam params locals = d.getRemoteParam params locals' := by
  unfold Device.getRemoteParam
  cases ht : params "id" with
  | none => rfl
  | some t => simp only [Option.bind_some, read_u (h t ht) locals.id locals'.id]

theorem names_of_hu {name : String} {id : UInt16} (ht : params name = some t)
    (hassigned : Scan.hu t = .assigned id) (hmem : id.toUInt32 ∈ d.blinds)
    (hr : ∀ t z, params name = some t → Scan.int t = .assigned z → Conversion.hu.Holds z) :
    d.NamesBlind params name := by
  refine namesBlind_of_value ht hmem (fun z hz => ?_) hr
  obtain ⟨v, hv, hvalue⟩ := Scan.hu_of_int hz
  obtain rfl : id = v := Scan.assigned.inj (hassigned.symm.trans hv)
  rw [UInt16.toNat_toUInt32]
  exact hvalue

theorem namesRemote_of_u {id : UInt32} (ht : params "id" = some t)
    (hassigned : Scan.u t = .assigned id) (hmem : id ∈ d.remotes)
    (hr : ∀ t z, params "id" = some t → Scan.int t = .assigned z → Conversion.u.Holds z) :
    d.NamesRemote params := by
  intro t' z ht' hz
  obtain rfl : t = t' := Option.some.inj (ht.symm.trans ht')
  obtain ⟨v, hv, hvalue⟩ := Scan.u_of_int hz
  obtain rfl : id = v := Scan.assigned.inj (hassigned.symm.trans hv)
  exact ⟨id, hmem, hvalue.trans (Conversion.value_eq_iff.mpr (hr t z ht hz))⟩

theorem checks_addBlind : d.Checks .addBlind params ↔ d.Careful params .addBlind := by
  refine checks_iff (fun hno locals => ?_) ?_ ?_ ?_
  · simp only [handle, doAddBlind]
    split
    case h_1 name o c hn ho hc =>
      split
      case h_1 openTime closeTime hro hrc =>
        exact absurd ⟨by rw [hn]; rfl, ⟨o, ho, ne_mismatch hro⟩, ⟨c, hc, ne_mismatch hrc⟩⟩ hno
      · rfl
    · rfl
  · intro ⟨hname, ⟨o, ho, hmo⟩, ⟨c, hc, hmc⟩⟩
    obtain ⟨name, hn⟩ := Option.isSome_iff_exists.mp hname
    obtain ⟨jo, vo, hvo⟩ := Scan.read_some hmo
    obtain ⟨jc, vc, hvc⟩ := Scan.read_some hmc
    refine ⟨{ (default : Locals) with openTime := jo, closeTime := jc }, .addBlind name vo vc, ?_⟩
    simp only [handle, doAddBlind, hn, ho, hc, hvo, hvc]
  · intro ⟨hname, ⟨o, ho, _⟩, ⟨c, hc, _⟩⟩ hl locals locals'
    obtain ⟨name, hn⟩ := Option.isSome_iff_exists.mp hname
    simp only [handle, doAddBlind, hn, ho, hc]
    rw [read_d (hl.notBlank "openTime" (by simp) o ho) locals.openTime locals'.openTime,
      read_d (hl.notBlank "closeTime" (by simp) c hc) locals.closeTime locals'.closeTime]
  · intro ⟨hname, ⟨o, ho, hmo⟩, ⟨c, hc, hmc⟩⟩ hl
    refine ⟨?_, ?_, trivial, trivial⟩
    · simp only [Request.required, List.forall_mem_cons]
      exact ⟨hname, by rw [ho]; rfl, by rw [hc]; rfl, fun _ hx => absurd hx List.not_mem_nil⟩
    · simp only [Request.numbers, Request.conversions, List.map_cons, List.map_nil, List.forall_mem_cons]
      refine ⟨fun t ht => ?_, fun t ht => ?_, fun _ hx => absurd hx List.not_mem_nil⟩
      · obtain rfl : o = t := Option.some.inj (ho.symm.trans ht)
        exact scan_reads hmo (hl.notBlank "openTime" (by simp) o ho)
      · obtain rfl : c = t := Option.some.inj (hc.symm.trans ht)
        exact scan_reads hmc (hl.notBlank "closeTime" (by simp) c hc)

theorem checks_updateBlind : d.Checks .updateBlind params ↔ d.Careful params .updateBlind := by
  refine checks_iff (fun hno locals => ?_) ?_ ?_ ?_
  · simp only [handle, doUpdateBlind]
    split
    case h_1 i name o c hi hn ho hc =>
      split
      case h_1 id openTime closeTime hri hro hrc =>
        split
        case h_1 b hb =>
          exact absurd ⟨⟨i, id, hi, ⟨_, hri⟩, SortedMap.mem_iff.mpr ⟨b, hb⟩⟩, by rw [hn]; rfl,
            ⟨o, ho, ne_mismatch hro⟩, ⟨c, hc, ne_mismatch hrc⟩⟩ hno
        · rfl
      · rfl
    · rfl
  · intro ⟨⟨i, id, hi, ⟨ji, hji⟩, hmem⟩, hname, ⟨o, ho, hmo⟩, ⟨c, hc, hmc⟩⟩
    obtain ⟨name, hn⟩ := Option.isSome_iff_exists.mp hname
    obtain ⟨jo, vo, hvo⟩ := Scan.read_some hmo
    obtain ⟨jc, vc, hvc⟩ := Scan.read_some hmc
    obtain ⟨b, hb⟩ := SortedMap.mem_iff.mp hmem
    refine ⟨{ (default : Locals) with blindId := ji, openTime := jo, closeTime := jc },
      .updateBlind id.toUInt32 b name vo vc, ?_⟩
    simp only [handle, doUpdateBlind, hi, hn, ho, hc, hji, hvo, hvc, hb]
  · intro ⟨⟨i, id, hi, _, _⟩, hname, ⟨o, ho, _⟩, ⟨c, hc, _⟩⟩ hl locals locals'
    obtain ⟨name, hn⟩ := Option.isSome_iff_exists.mp hname
    simp only [handle, doUpdateBlind, hi, hn, ho, hc]
    rw [read_hu (hl.notBlank "id" (by simp) i hi) locals.blindId locals'.blindId,
      read_d (hl.notBlank "openTime" (by simp) o ho) locals.openTime locals'.openTime,
      read_d (hl.notBlank "closeTime" (by simp) c hc) locals.closeTime locals'.closeTime]
  · intro ⟨⟨i, id, hi, hmay, hmem⟩, hname, ⟨o, ho, hmo⟩, ⟨c, hc, hmc⟩⟩ hl
    obtain ⟨hreads, hassigned⟩ := reads_of_mayHold_hu hmay (hl.notBlank "id" (by simp) i hi)
    refine ⟨?_, ?_, trivial, ?_⟩
    · simp only [Request.required, List.forall_mem_cons]
      exact ⟨by rw [hi]; rfl, hname, by rw [ho]; rfl, by rw [hc]; rfl,
        fun _ hx => absurd hx List.not_mem_nil⟩
    · simp only [Request.numbers, Request.conversions, List.map_cons, List.map_nil, List.forall_mem_cons]
      refine ⟨fun t ht => ?_, fun t ht => ?_, fun t ht => ?_, fun _ hx => absurd hx List.not_mem_nil⟩
      · obtain rfl : i = t := Option.some.inj (hi.symm.trans ht)
        exact hreads
      · obtain rfl : o = t := Option.some.inj (ho.symm.trans ht)
        exact scan_reads hmo (hl.notBlank "openTime" (by simp) o ho)
      · obtain rfl : c = t := Option.some.inj (hc.symm.trans ht)
        exact scan_reads hmc (hl.notBlank "closeTime" (by simp) c hc)
    · exact names_of_hu hi hassigned hmem
        (hl.inRange ("id", .hu) (by simp))

/-- What a blind found under the id of a request says about the request. -/
theorem FindsBlind.reads (h : d.FindsBlind params) (hb : ∀ t, params "id" = some t → ¬Scan.Blank t)
    (hr : ∀ t z, params "id" = some t → Scan.int t = .assigned z → Conversion.key.Holds z) :
    (params "id").isSome ∧ (∀ t, params "id" = some t → Scan.Reads t) ∧
      d.NamesBlind params "id" := by
  obtain ⟨i, id, hi, hmay, hmem⟩ := h
  obtain ⟨hreads, hassigned⟩ := reads_of_mayHold hmay (hb i hi)
  refine ⟨by rw [hi]; rfl, fun t ht => ?_, namesBlind_of_value hi hmem (fun z hz => ?_) hr⟩
  · obtain rfl : i = t := Option.some.inj (hi.symm.trans ht)
    exact hreads
  · obtain ⟨v, hv, hvalue⟩ := Scan.key_of_int hz
    obtain rfl : id = v := Scan.assigned.inj (hassigned.symm.trans hv)
    exact hvalue

theorem readPosition_of_rounds {x : Option ℚ} (h : RoundsToInt x) (overflow overflow' : Int32) :
    readPosition overflow (.assigned x) = readPosition overflow' (.assigned x) := by
  obtain ⟨y, rfl, hy⟩ := h
  rw [readPosition, readPosition, if_pos hy, if_pos hy]

theorem readPosition_of_not_rounds {x : Option ℚ} (h : ¬RoundsToInt x) (overflow : Int32) :
    readPosition overflow (.assigned x) = overflow := by
  cases x with
  | none => rfl
  | some y => exact if_neg fun hy => h ⟨y, rfl, hy⟩

/-- What a command of a blind comes down to. -/
theorem doBlindCommand_passes {i command payload : List UInt8} {id : Int32}
    (hi : params "id" = some i) (hc : params "command" = some command)
    (hp : params "payload" = some payload) (hri : (Scan.d i).read locals.id.toInt32 = some id)
    (hmem : id.toUInt32 ∈ d.blinds) :
    d.handle .blindCommand params locals = accept (
      if command = ascii "cmd" then onCommand id.toUInt32 payload
      else if command = ascii "pos" then onSetPosition id.toUInt32 payload locals.overflow
      else nothing) := by
  simp only [handle, doBlindCommand, hi, hc, hp, hri, if_pos hmem]
  split_ifs <;> rfl

/-- A position that no int can hold becomes whatever the conversion makes of it. -/
theorem position_rounds (h : d.Checks .blindCommand params) {i payload : List UInt8} {id : Int32}
    (hi : params "id" = some i) (hc : params "command" = some (ascii "pos"))
    (hp : params "payload" = some payload) (hmay : (Scan.d i).MayHold id)
    (hmem : id.toUInt32 ∈ d.blinds) {x : Option ℚ} (hx : Scan.f payload = .assigned x)
    (hlong : payload.length ≤ 31) : RoundsToInt x := by
  obtain ⟨junk, hjunk⟩ := hmay
  by_contra hno
  have hcall : ∀ overflow : Int32, d.handle .blindCommand params
      { (default : Locals) with id := junk.toUInt32, overflow := overflow } =
        accept (.goToPosition id.toUInt32 overflow) := fun overflow => by
    have hsame : junk.toUInt32.toInt32 = junk := rfl
    have hcmd : ascii "pos" ≠ ascii "cmd" := by decide
    rw [doBlindCommand_passes hi hc hp (by rw [hsame]; exact hjunk) hmem, if_neg hcmd, if_pos rfl,
      onSetPosition, if_neg (by omega), hx, readPosition_of_not_rounds hno]
  have heq := (hcall 0).symm.trans ((h.assigned _ _).trans (hcall 1))
  have hcalls := (Prod.mk.inj (Option.some.inj heq)).1
  exact absurd (Call.goToPosition.inj hcalls).2 (by decide)

theorem checks_blindCommand :
    d.Checks .blindCommand params ↔ d.Careful params .blindCommand := by
  refine checks_iff_of (fun hno locals => ?_) ?_ (fun hR => hR.1) ?_ ?_ ?_
  · simp only [handle, doBlindCommand]
    split
    case h_1 i command payload hi hc hp =>
      split
      · rfl
      case h_2 id hri =>
        split
        case isTrue hmem =>
          exact absurd ⟨⟨i, id, hi, ⟨_, hri⟩, hmem⟩, by rw [hc]; rfl, by rw [hp]; rfl⟩ hno
        · rfl
    · rfl
  · intro ⟨⟨i, id, hi, ⟨ji, hji⟩, hmem⟩, hcommand, hpayload⟩
    obtain ⟨command, hc⟩ := Option.isSome_iff_exists.mp hcommand
    obtain ⟨payload, hp⟩ := Option.isSome_iff_exists.mp hpayload
    exact ⟨{ (default : Locals) with id := ji.toUInt32 }, _, doBlindCommand_passes hi hc hp hji hmem⟩
  · intro ⟨⟨i, id, hi, _, _⟩, hcommand, hpayload⟩ ⟨hl, hposition⟩ locals locals'
    obtain ⟨command, hc⟩ := Option.isSome_iff_exists.mp hcommand
    obtain ⟨payload, hp⟩ := Option.isSome_iff_exists.mp hpayload
    have hcall : ∀ k, command = ascii "pos" →
        onSetPosition k payload locals.overflow = onSetPosition k payload locals'.overflow := by
      rintro k rfl
      obtain ⟨x, hx, hround⟩ := hposition hc payload hp
      unfold onSetPosition
      split_ifs with hlong
      · rfl
      · rw [hx, readPosition_of_rounds (hround (by omega))]
    simp only [handle, doBlindCommand, hi, hc, hp]
    rw [read_d (hl.notBlank "id" (by simp) i hi)
      locals.id.toInt32 locals'.id.toInt32]
    cases (Scan.d i).read locals'.id.toInt32 with
    | none => rfl
    | some id' =>
        dsimp only
        by_cases hpos : command = ascii "pos"
        · rw [hcall id'.toUInt32 hpos]
        · simp only [if_neg hpos]
  · intro ⟨hfinds, hcommand, hpayload⟩ ⟨hl, hposition⟩
    obtain ⟨hid, hreads, hnames⟩ := hfinds.reads
      (hl.notBlank "id" (by simp))
      (hl.inRange ("id", .key) (by simp))
    refine ⟨?_, ?_, fun hpos t ht => ?_, hnames⟩
    · simp only [Request.required, List.forall_mem_cons]
      exact ⟨hid, hcommand, hpayload, fun _ hx => absurd hx List.not_mem_nil⟩
    · simp only [Request.numbers, Request.conversions, List.map_cons, List.map_nil,
        List.forall_mem_cons]
      exact ⟨hreads, fun _ hx => absurd hx List.not_mem_nil⟩
    · obtain ⟨x, hx, -⟩ := hposition hpos t ht
      exact ⟨x, hx⟩
  · intro ⟨⟨i, id, hi, ⟨ji, hji⟩, hmem⟩, hcommand, hpayload⟩ h
    obtain ⟨command, hc⟩ := Option.isSome_iff_exists.mp hcommand
    obtain ⟨payload, hp⟩ := Option.isSome_iff_exists.mp hpayload
    have hacc : d.handle .blindCommand params { (default : Locals) with id := ji.toUInt32 } = _ :=
      doBlindCommand_passes hi hc hp hji hmem
    obtain ⟨hwell, hl⟩ := h.accepted hacc
    refine ⟨hl, fun hpos t ht => ?_⟩
    obtain ⟨x, hx⟩ := hwell.position hpos t ht
    exact ⟨x, hx, position_rounds h hi hpos ht ⟨ji, hji⟩ hmem hx⟩

/-- Without an id the end of the parameters is dereferenced. -/
theorem checks_deleteBlind : d.Checks .deleteBlind params ↔ d.Careful params .deleteBlind := by
  by_cases hsome : (params "id").isSome
  · have hrest : d.Checks .deleteBlind params ↔
        (d.Passes params .deleteBlind → Legible params .deleteBlind) := by
      obtain ⟨i, hi⟩ := Option.isSome_iff_exists.mp hsome
      refine checks_iff (fun hno locals => ?_) ?_ ?_ ?_
      · simp only [handle, doDeleteBlind, hi, Option.bind_some]
        split
        · rfl
        case h_2 id hri =>
          split
          · rfl
          case h_2 b hb =>
            exact absurd ⟨i, id, hi, ⟨_, hri⟩, SortedMap.mem_iff.mpr ⟨b, hb⟩⟩ hno
      · intro ⟨t, id, ht, ⟨ji, hji⟩, hmem⟩
        obtain ⟨b, hb⟩ := SortedMap.mem_iff.mp hmem
        refine ⟨{ (default : Locals) with id := ji.toUInt32 }, .removeBlind id.toUInt32 b, ?_⟩
        have hjunk : ji.toUInt32.toInt32 = ji := rfl
        simp only [handle, doDeleteBlind, ht, Option.bind_some, hjunk, hji, hb]
      · intro _ hl locals locals'
        simp only [handle, doDeleteBlind, hi, Option.bind_some]
        rw [read_d (hl.notBlank "id" (by simp) i hi) locals.id.toInt32 locals'.id.toInt32]
      · intro hfinds hl
        obtain ⟨hid, hreads, hnames⟩ := hfinds.reads
          (hl.notBlank "id" (by simp))
          (hl.inRange ("id", .key) (by simp))
        refine ⟨?_, ?_, trivial, hnames⟩
        · simp only [Request.required, List.forall_mem_cons]
          exact ⟨hid, fun _ hx => absurd hx List.not_mem_nil⟩
        · simp only [Request.numbers, Request.conversions, List.map_cons, List.map_nil, List.forall_mem_cons]
          exact ⟨hreads, fun _ hx => absurd hx List.not_mem_nil⟩
    rw [hrest]
    exact ⟨fun h => ⟨hsome, h⟩, fun h => h.2⟩
  · constructor
    · intro h
      have hdefined := h.defined default
      rw [Option.not_isSome_iff_eq_none] at hsome
      simp only [handle, doDeleteBlind, hsome, Option.bind_none, Option.isSome_none,
        Bool.false_eq_true] at hdefined
    · exact fun h => absurd h.1 hsome

theorem nameParam_isSome (h : (nameParam params).isSome) : (params "name").isSome := by
  unfold nameParam at h
  cases hn : params "name" with
  | none =>
      rw [hn] at h
      cases h
  | some name => rfl

/-- What a remote found under the id of a request says about the request. -/
theorem FindsRemote.reads (h : d.FindsRemote params)
    (hb : ∀ t, params "id" = some t → ¬Scan.Blank t)
    (hr : ∀ t z, params "id" = some t → Scan.int t = .assigned z → Conversion.u.Holds z) :
    (params "id").isSome ∧ (∀ t, params "id" = some t → Scan.Reads t) ∧ d.NamesRemote params := by
  obtain ⟨i, id, hi, hmay, hmem⟩ := h
  obtain ⟨hreads, hassigned⟩ := reads_of_mayHold hmay (hb i hi)
  refine ⟨by rw [hi]; rfl, fun t ht => ?_, namesRemote_of_u hi hassigned hmem hr⟩
  obtain rfl : i = t := Option.some.inj (hi.symm.trans ht)
  exact hreads

theorem FindsBlind16.reads {name : String} (h : d.FindsBlind16 params name)
    (hb : ∀ t, params name = some t → ¬Scan.Blank t)
    (hr : ∀ t z, params name = some t → Scan.int t = .assigned z → Conversion.hu.Holds z) :
    (params name).isSome ∧ (∀ t, params name = some t → Scan.Reads t) ∧
      d.NamesBlind params name := by
  obtain ⟨i, id, hi, hmay, hmem⟩ := h
  obtain ⟨hreads, hassigned⟩ := reads_of_mayHold_hu hmay (hb i hi)
  refine ⟨by rw [hi]; rfl, fun t ht => ?_, names_of_hu hi hassigned hmem hr⟩
  obtain rfl : i = t := Option.some.inj (hi.symm.trans ht)
  exact hreads

theorem checks_addRemote : d.Checks .addRemote params ↔ d.Careful params .addRemote := by
  refine checks_iff (fun hno locals => ?_) ?_ ?_ ?_
  · simp only [handle, doAddRemote]
    split
    · rfl
    case h_2 name hn => exact absurd (show (nameParam params).isSome by rw [hn]; rfl) hno
  · intro hname
    obtain ⟨name, hn⟩ := Option.isSome_iff_exists.mp hname
    exact ⟨default, .createRemote name, by simp only [handle, doAddRemote, hn]⟩
  · exact fun _ _ _ _ => rfl
  · intro hname _
    refine ⟨?_, fun _ hx => absurd hx List.not_mem_nil, trivial, trivial⟩
    simp only [Request.required, List.forall_mem_cons]
    exact ⟨nameParam_isSome hname, fun _ hx => absurd hx List.not_mem_nil⟩

theorem checks_importRemote : d.Checks .importRemote params ↔ d.Careful params .importRemote := by
  refine checks_iff (fun hno locals => ?_) ?_ ?_ ?_
  · simp only [handle, doImportRemote]
    split
    case h_1 name i hn hi =>
      split
      · rfl
      case h_2 id hri =>
        split
        · rfl
        case isFalse hnew => exact absurd ⟨by rw [hn]; rfl, i, id, hi, ⟨_, hri⟩, hnew⟩ hno
    · rfl
  · intro ⟨hname, i, id, hi, ⟨ji, hji⟩, hnew⟩
    obtain ⟨name, hn⟩ := Option.isSome_iff_exists.mp hname
    refine ⟨{ (default : Locals) with id := ji }, .importRemote name id, ?_⟩
    simp only [handle, doImportRemote, hn, hi, hji, if_neg hnew]
  · intro ⟨hname, i, id, hi, _, _⟩ hl locals locals'
    obtain ⟨name, hn⟩ := Option.isSome_iff_exists.mp hname
    simp only [handle, doImportRemote, hn, hi]
    rw [read_u (hl.notBlank "id" (by simp) i hi) locals.id locals'.id]
  · intro ⟨hname, i, id, hi, hmay, _⟩ hl
    obtain ⟨hreads, -⟩ := reads_of_mayHold hmay (hl.notBlank "id" (by simp) i hi)
    refine ⟨?_, ?_, trivial, trivial⟩
    · simp only [Request.required, List.forall_mem_cons]
      exact ⟨nameParam_isSome hname, by rw [hi]; rfl, fun _ hx => absurd hx List.not_mem_nil⟩
    · simp only [Request.numbers, Request.conversions, List.map_cons, List.map_nil, List.forall_mem_cons]
      refine ⟨fun t ht => ?_, fun _ hx => absurd hx List.not_mem_nil⟩
      obtain rfl : i = t := Option.some.inj (hi.symm.trans ht)
      exact hreads

theorem checks_updateRemote : d.Checks .updateRemote params ↔ d.Careful params .updateRemote := by
  refine checks_iff (fun hno locals => ?_) ?_ ?_ ?_
  · simp only [handle, doUpdateRemote]
    split
    case h_1 p name hp hn => exact absurd ⟨finds_of_getRemoteParam hp, by rw [hn]; rfl⟩ hno
    · rfl
  · intro ⟨hfinds, hname⟩
    obtain ⟨name, hn⟩ := Option.isSome_iff_exists.mp hname
    obtain ⟨junk, hjunk⟩ := hfinds.getRemoteParam
    obtain ⟨p, hp⟩ := hjunk { (default : Locals) with id := junk } rfl
    refine ⟨{ (default : Locals) with id := junk }, .rename p name, ?_⟩
    simp only [handle, doUpdateRemote, hp, hn]
  · intro _ hl locals locals'
    simp only [handle, getRemoteParam_congr (hl.notBlank "id" (by simp)) locals locals']
  · intro ⟨hfinds, hname⟩ hl
    obtain ⟨hid, hreads, hnames⟩ := hfinds.reads
      (hl.notBlank "id" (by simp))
      (hl.inRange ("id", .u) (by simp))
    refine ⟨?_, ?_, trivial, hnames⟩
    · simp only [Request.required, List.forall_mem_cons]
      exact ⟨hid, nameParam_isSome hname, fun _ hx => absurd hx List.not_mem_nil⟩
    · simp only [Request.numbers, Request.conversions, List.map_cons, List.map_nil, List.forall_mem_cons]
      exact ⟨hreads, fun _ hx => absurd hx List.not_mem_nil⟩

/-- Both handlers that bind and unbind. -/
theorem addOrRemove_passes {f : ℕ → UInt16 → Call}
    (hno : ¬(d.FindsRemote params ∧ d.FindsBlind16 params "blindId")) (locals : Locals) :
    d.doAddOrRemoveBlindToRemote (d.getRemoteParam params locals) params locals f = refuse := by
  unfold doAddOrRemoveBlindToRemote
  split
  case h_1 p t hp ht =>
    split
    · rfl
    case h_2 id hr =>
      split
      case isTrue hmem =>
        exact absurd ⟨finds_of_getRemoteParam hp, t, id, ht, ⟨_, hr⟩, hmem⟩ hno
      · rfl
  · rfl

theorem addOrRemove_accepts {f : ℕ → UInt16 → Call} (hr : d.FindsRemote params)
    (hb : d.FindsBlind16 params "blindId") :
    ∃ locals c, d.doAddOrRemoveBlindToRemote (d.getRemoteParam params locals) params locals f =
      accept c := by
  obtain ⟨junk, hjunk⟩ := hr.getRemoteParam
  obtain ⟨t, id, ht, ⟨jt, hjt⟩, hmem⟩ := hb
  obtain ⟨p, hp⟩ := hjunk { (default : Locals) with id := junk, blindId := jt } rfl
  refine ⟨{ (default : Locals) with id := junk, blindId := jt }, f p id, ?_⟩
  simp only [doAddOrRemoveBlindToRemote, hp, ht, hjt, if_pos hmem]

theorem addOrRemove_congr {f : ℕ → UInt16 → Call}
    (hi : ∀ t, params "id" = some t → ¬Scan.Blank t)
    (hb : ∀ t, params "blindId" = some t → ¬Scan.Blank t) (locals locals' : Locals) :
    d.doAddOrRemoveBlindToRemote (d.getRemoteParam params locals) params locals f =
      d.doAddOrRemoveBlindToRemote (d.getRemoteParam params locals') params locals' f := by
  rw [getRemoteParam_congr hi locals locals']
  unfold doAddOrRemoveBlindToRemote
  cases hp : d.getRemoteParam params locals' with
  | none => rfl
  | some p =>
      cases ht : params "blindId" with
      | none => rfl
      | some t => simp only [read_hu (hb t ht) locals.blindId locals'.blindId]

theorem wellFormed_bind (hr : d.FindsRemote params) (hk : d.FindsBlind16 params "blindId")
    (hl : Legible params .bindBlind) :
    d.WellFormed .bindBlind params ∧ d.WellFormed .unbindBlind params := by
  obtain ⟨hid, hreads, hnames⟩ := hr.reads
    (hl.notBlank "id" (by simp))
    (hl.inRange ("id", .u) (by simp))
  obtain ⟨hid', hreads', hnames'⟩ := hk.reads
    (hl.notBlank "blindId" (by simp))
    (hl.inRange ("blindId", .hu) (by simp))
  have hpresent : ∀ name ∈ ["id", "blindId"], (params name).isSome := by
    simp only [List.forall_mem_cons]
    exact ⟨hid, hid', fun _ hx => absurd hx List.not_mem_nil⟩
  have hnumbers : ∀ name ∈ ["id", "blindId"], ∀ t, params name = some t → Scan.Reads t := by
    simp only [List.forall_mem_cons]
    exact ⟨hreads, hreads', fun _ hx => absurd hx List.not_mem_nil⟩
  exact ⟨⟨hpresent, hnumbers, trivial, hnames, hnames'⟩,
    ⟨hpresent, hnumbers, trivial, hnames, hnames'⟩⟩

theorem checks_bindBlind : d.Checks .bindBlind params ↔ d.Careful params .bindBlind :=
  checks_iff (fun hno locals => addOrRemove_passes hno locals)
    (fun h => addOrRemove_accepts h.1 h.2)
    (fun _ hl => addOrRemove_congr
      (hl.notBlank "id" (by simp))
      (hl.notBlank "blindId" (by simp)))
    fun h hl => (wellFormed_bind h.1 h.2 hl).1

theorem checks_unbindBlind : d.Checks .unbindBlind params ↔ d.Careful params .unbindBlind :=
  checks_iff (fun hno locals => addOrRemove_passes hno locals)
    (fun h => addOrRemove_accepts h.1 h.2)
    (fun _ hl => addOrRemove_congr
      (hl.notBlank "id" (by simp))
      (hl.notBlank "blindId" (by simp)))
    fun h hl => (wellFormed_bind h.1 h.2 ⟨hl.notBlank, hl.inRange⟩).2

theorem checks_discover : d.Checks .discover params ↔ d.Careful params .discover :=
  checks_iff (fun hno => absurd trivial hno) (fun _ => ⟨default, .discover, rfl⟩)
    (fun _ _ _ _ => rfl)
    fun _ _ => ⟨fun _ hx => absurd hx List.not_mem_nil, fun _ hx => absurd hx List.not_mem_nil,
      trivial, trivial⟩

theorem u_assigned_reads {v : UInt32} (h : Scan.u t = .assigned v) : Scan.Reads t := by
  unfold Scan.u at h
  unfold Scan.Reads
  cases hn : Scan.number t with
  | assigned w => exact ⟨w, rfl⟩
  | mismatch =>
      rw [hn] at h
      cases h
  | eof =>
      rw [hn] at h
      cases h

/-- Without a remote a null pointer is dereferenced, so an accepted id has to be there.
A blank id is only right where every value of it would be refused. -/
theorem checks_deleteRemote : d.Checks .deleteRemote params ↔ d.Careful params .deleteRemote := by
  constructor
  · intro h
    have hfound : ∀ locals, ∃ p, d.getRemoteParam params locals = some p := by
      intro locals
      obtain ⟨answer, hanswer⟩ := Option.isSome_iff_exists.mp (h.defined locals)
      obtain ⟨p, hp, -⟩ := Option.bind_eq_some_iff.mp hanswer
      exact ⟨p, hp⟩
    obtain ⟨p₀, hp₀⟩ := hfound default
    obtain ⟨t, ht, -⟩ := Option.bind_eq_some_iff.mp hp₀
    refine ⟨t, ht, ?_⟩
    have hread : ∀ locals, d.getRemoteParam params locals =
        ((Scan.u t).read locals.id).bind fun id => d.remotes[id]? := by
      intro locals
      rw [Device.getRemoteParam, ht, Option.bind_some]
    cases hu : Scan.u t with
    | assigned v =>
        have hv : d.remotes[v]? = some p₀ := by
          rw [hread, hu] at hp₀
          exact hp₀
        refine .inl ⟨v, p₀, rfl, hv, ?_⟩
        cases hprim : d.isAPrimaryRemote (d.heap p₀).remoteId with
        | true => exact .inl rfl
        | false =>
            have hacc : d.handle .deleteRemote params default =
                accept (.deleteRemote (d.heap p₀).remoteId) := by
              simp only [handle, doDeleteRemote, hp₀, Option.bind_some, hprim, Bool.false_eq_true,
                if_false]
            exact .inr (h.accepted hacc).2.inRange
    | mismatch =>
        rw [hread, hu] at hp₀
        cases hp₀
    | eof =>
        have hblank : Scan.Blank t := scan_blank.mp hu
        refine .inr ⟨hblank, fun v => ?_⟩
        obtain ⟨p, hp⟩ := hfound { (default : Locals) with id := v }
        have hv : d.remotes[v]? = some p := by
          rw [hread, hu] at hp
          exact hp
        refine ⟨p, hv, ?_⟩
        have hmal : ¬d.WellFormed .deleteRemote params := fun hw =>
          hw.notBlank "id" (by simp) t ht hblank
        have hfalse := h.refused hmal { (default : Locals) with id := v }
        simp only [handle, doDeleteRemote, hp, Option.bind_some] at hfalse
        by_contra hprim
        rw [if_neg hprim] at hfalse
        cases hfalse
  · intro ⟨t, ht, h⟩
    have hread : ∀ locals, d.getRemoteParam params locals =
        ((Scan.u t).read locals.id).bind fun id => d.remotes[id]? := by
      intro locals
      rw [Device.getRemoteParam, ht, Option.bind_some]
    have hrefused : (∀ locals, d.handle .deleteRemote params locals = refuse) →
        d.Checks .deleteRemote params := by
      intro hrefuse
      refine ⟨fun locals => ?_, fun locals locals' => ?_, fun locals c hc => ?_, fun _ locals => ?_⟩
      · rw [hrefuse locals]
        rfl
      · rw [hrefuse locals, hrefuse locals']
      · rw [hrefuse locals] at hc
        cases hc
      · rw [hrefuse locals]
        rfl
    rcases h with ⟨v, p, hu, hp, hprim | hrange⟩ | ⟨hblank, hall⟩
    · refine hrefused fun locals => ?_
      have hget : d.getRemoteParam params locals = some p := by
        rw [hread, hu]
        exact hp
      simp only [handle, doDeleteRemote, hget, Option.bind_some, hprim, if_true]
    · have hget : ∀ locals, d.getRemoteParam params locals = some p := fun locals => by
        rw [hread, hu]
        exact hp
      have hwell : d.WellFormed .deleteRemote params := by
        refine ⟨?_, ?_, trivial, namesRemote_of_u ht hu (SortedMap.mem_iff.mpr ⟨p, hp⟩)
          (hrange ("id", .u) (by simp))⟩
        · simp only [Request.required, List.forall_mem_singleton, ht, Option.isSome_some]
        · simp only [Request.numbers, Request.conversions, List.map_cons, List.map_nil,
            List.forall_mem_singleton]
          intro t' ht'
          obtain rfl : t = t' := Option.some.inj (ht.symm.trans ht')
          exact u_assigned_reads hu
      refine ⟨fun locals => ?_, fun locals locals' => ?_, fun _ _ _ entry hentry t z ht hz => ?_,
        fun hmal => absurd hwell hmal⟩
      · simp only [handle, doDeleteRemote, hget, Option.bind_some]
        split_ifs <;> rfl
      · simp only [handle, hget]
      · exact Conversion.value_eq_iff.mpr (hrange entry hentry t z ht hz)
    · refine hrefused fun locals => ?_
      obtain ⟨p, hp, hprim⟩ := hall locals.id
      have hget : d.getRemoteParam params locals = some p := by
        rw [hread, show Scan.u t = .eof from scan_blank.mpr hblank]
        exact hp
      simp only [handle, doDeleteRemote, hget, Option.bind_some, hprim, if_true]

/-- A press goes on whatever the buttons are, so they have to be right. -/
theorem checks_remoteCommand :
    d.Checks .remoteCommand params ↔ d.Careful params .remoteCommand := by
  constructor
  · intro h hfinds
    obtain ⟨junk, hjunk⟩ := hfinds.getRemoteParam
    obtain ⟨p, hp⟩ := hjunk { (default : Locals) with id := junk } rfl
    obtain ⟨c, hacc⟩ : ∃ c, d.handle .remoteCommand params
        { (default : Locals) with id := junk } = accept c := by
      simp only [handle, doButtonPress, hp]
      exact ⟨_, rfl⟩
    obtain ⟨hwell, hl⟩ := h.accepted hacc
    obtain ⟨t, ht⟩ := Option.isSome_iff_exists.mp
      (hwell.present "buttons" (by simp [Request.required]))
    exact ⟨hl, t, ht, hwell.numbers "buttons" (by simp) t ht⟩
  · intro h
    by_cases hfinds : d.FindsRemote params
    · obtain ⟨hl, t, ht, hreads⟩ := h hfinds
      have hid := hl.notBlank "id" (by simp)
      obtain ⟨hpresent, hnumber, hnames⟩ := hfinds.reads hid
        (hl.inRange ("id", .u) (by simp))
      have hwell : d.WellFormed .remoteCommand params := by
        refine ⟨?_, ?_, trivial, hnames⟩
        · simp only [Request.required, List.forall_mem_cons]
          exact ⟨hpresent, by rw [ht]; rfl, fun _ hx => absurd hx List.not_mem_nil⟩
        · simp only [Request.numbers, Request.conversions, List.map_cons, List.map_nil, List.forall_mem_cons]
          refine ⟨hnumber, fun t' ht' => ?_, fun _ hx => absurd hx List.not_mem_nil⟩
          obtain rfl : t = t' := Option.some.inj (ht.symm.trans ht')
          exact hreads
      refine ⟨fun locals => ?_, fun locals locals' => ?_, fun _ _ _ entry hentry t z ht hz => ?_,
        fun hmal => absurd hwell hmal⟩
      · simp only [handle, doButtonPress]
        split <;> rfl
      · simp only [handle, getRemoteParam_congr hid locals locals']
        cases hp : d.getRemoteParam params locals' with
        | none => rfl
        | some p =>
            obtain ⟨v, hv⟩ := hreads
            have hbuttons : ∀ junk, (Scan.d t).read junk = (Scan.d t).read locals'.buttons :=
              fun junk => read_d (fun hblank => by
                rw [Scan.Blank, hv] at hblank
                cases hblank) junk locals'.buttons
            have hsome : ∃ w, (Scan.d t).read locals'.buttons = some w := by
              simp only [Scan.d, hv, Scan.map, Scan.read]
              exact ⟨_, rfl⟩
            obtain ⟨w, hw⟩ := hsome
            simp only [doButtonPress, ht, Option.bind_some, hbuttons locals.buttons, hw,
              Option.getD_some]
      · exact Conversion.value_eq_iff.mpr (hl.inRange entry hentry t z ht hz)
    · have hrefuse : ∀ locals, d.handle .remoteCommand params locals = refuse := by
        intro locals
        have hnone : d.getRemoteParam params locals = none :=
          Option.eq_none_iff_forall_ne_some.mpr fun p hp =>
            hfinds (finds_of_getRemoteParam hp)
        simp only [handle, doButtonPress, hnone]
      refine ⟨fun locals => ?_, fun locals locals' => ?_, fun locals c hc => ?_, fun _ locals => ?_⟩
      · rw [hrefuse locals]
        rfl
      · rw [hrefuse locals, hrefuse locals']
      · rw [hrefuse locals] at hc
        cases hc
      · rw [hrefuse locals]
        rfl

/-- A request is checked as it should be exactly when it is not one of these. -/
theorem request_checked_iff (d : Device) (request : Request) (params : CgiParams) :
    d.Checks request params ↔ d.Careful params request := by
  cases request with
  | addBlind => exact checks_addBlind
  | updateBlind => exact checks_updateBlind
  | deleteBlind => exact checks_deleteBlind
  | blindCommand => exact checks_blindCommand
  | addRemote => exact checks_addRemote
  | importRemote => exact checks_importRemote
  | updateRemote => exact checks_updateRemote
  | deleteRemote => exact checks_deleteRemote
  | bindBlind => exact checks_bindBlind
  | unbindBlind => exact checks_unbindBlind
  | remoteCommand => exact checks_remoteCommand
  | discover => exact checks_discover

/-- On a device just reset, deleting a remote goes through a null pointer. -/
theorem delete_unknown_remote :
    ∃ d, freshDevice DeviceConfig.formatted false (fun _ => ⟨⟨0, 0, 0, 0⟩, 0⟩) = some d ∧
      ¬d.Checks .deleteRemote (query [("id", "7")]) := by
  have hany : (freshDevice DeviceConfig.formatted false (fun _ => ⟨⟨0, 0, 0, 0⟩, 0⟩)).any
      (fun d => (d.handle .deleteRemote (query [("id", "7")]) default).isNone) = true := by
    decide +kernel
  obtain ⟨d, hd, hnone⟩ := (Option.any_eq_true _ _).mp hany
  refine ⟨d, hd, fun h => ?_⟩
  have hdefined := h.defined default
  rw [Option.isNone_iff_eq_none.mp hnone] at hdefined
  cases hdefined

end Device

end PicoSomfy
