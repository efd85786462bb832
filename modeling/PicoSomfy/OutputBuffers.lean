import PicoSomfy.BufferOutput

/-!
# The buffer behind the output

The class `BufferOutput` keeps a pointer, what is left of the buffer and a count of the
bytes written, and moves them on together. `sprintf` also stores a terminator that the
next call writes over. Here are its members and the memory they point to; what
`BufferOutput` says of one call is what this class does.

A call writes all of its text or nothing. Only an escaped string is cut off, and when
that happens behind a backslash, what was written is the escaping of no string.
-/
namespace PicoSomfy

open JsonText

/-- Bytes stored from an address on. -/
def store (memory : ℕ → Option UInt8) (address : ℕ) (bytes : List UInt8) : ℕ → Option UInt8 :=
  fun i => if address ≤ i ∧ i < address + bytes.length then bytes[i - address]? else memory i

/-- The digits of `"%08x"`. -/
def hexByte (d : ℕ) : UInt8 := UInt8.ofNat (if d < 10 then 48 + d else 87 + d)

def hex08 (value : UInt32) : List UInt8 :=
  (List.range 8).map fun i => hexByte (value.toNat / 16 ^ (7 - i) % 16)

/-- The members of the class. Addresses count from the start of the buffer, and a byte is
`none` until something is stored there. -/
structure OutputBuffer where
  memory : ℕ → Option UInt8
  buffer : ℕ
  length : ℤ
  written : UInt16

namespace OutputBuffer

def create (capacity : ℕ) : OutputBuffer := ⟨fun _ => none, 0, capacity, 0⟩

def bytesWritten (o : OutputBuffer) : UInt16 := o.written

/-- Stores bytes and moves on behind the first of them. -/
def put (o : OutputBuffer) (bytes : List UInt8) (len : ℕ) : OutputBuffer where
  memory := store o.memory o.buffer bytes
  buffer := o.buffer + len
  length := o.length - len
  written := o.written + UInt16.ofNat len

/-- `Append` of a string of either kind. -/
def append (o : OutputBuffer) (str : List UInt8) : OutputBuffer :=
  if (str.length : ℤ) > o.length then o else o.put str str.length

def appendEscaped (o : OutputBuffer) : List UInt8 → OutputBuffer
  | [] => o
  | c :: str =>
      if c = 0 then o
      else if o.length ≤ 0 then o
      else if c = 34 ∨ c = 92 then
        if (o.put [92] 1).length ≤ 0 then o.put [92] 1
        else appendEscaped ((o.put [92] 1).put [c] 1) str
      else appendEscaped (o.put [c] 1) str

/-- `snprintf` stores at most sixteen bytes, the last of them zero. -/
def appendInt (o : OutputBuffer) (value : Int32) : OutputBuffer :=
  if 16 > o.length then o
  else o.put ((ascii (toString value.toInt)).take 15 ++ [0]) (ascii (toString value.toInt)).length

def appendHex (o : OutputBuffer) (value : UInt32) : OutputBuffer :=
  if o.length < 9 then o else o.put (hex08 value ++ [0]) 8

def appendChar (o : OutputBuffer) (c : UInt8) : OutputBuffer :=
  if o.length = 0 then o else o.put [c] 1

/-- What `BytesWritten` counts. -/
def bytes (o : OutputBuffer) : List UInt8 := (List.range o.bytesWritten.toNat).filterMap o.memory

end OutputBuffer

/-- The calls. A C string ends at its first zero byte. -/
inductive OutputCall where
  | cString (str : List UInt8)
  | string (str : List UInt8)
  | int (value : Int32)
  | char (c : UInt8)
  | hex (value : UInt32)
  | escaped (str : List UInt8)

/-- The characters of a C string. -/
def chars (str : List UInt8) : List UInt8 := str.takeWhile (· ≠ 0)

namespace OutputCall

def run (o : OutputBuffer) : OutputCall → OutputBuffer
  | .cString str => o.append (chars str)
  | .string str => o.append str
  | .int value => o.appendInt value
  | .char c => o.appendChar c
  | .hex value => o.appendHex value
  | .escaped str => o.appendEscaped str

/-- All of the text of a call. -/
def text : OutputCall → List UInt8
  | .cString str => chars str
  | .string str => str
  | .int value => ascii (toString value.toInt)
  | .char c => [c]
  | .hex value => hex08 value
  | .escaped str => quoteBytes (chars str)

/-- What the calls wrote, one by one. -/
def contributions : OutputBuffer → List OutputCall → List (List UInt8)
  | _, [] => []
  | o, c :: cs => (c.run o).bytes.drop o.bytesWritten.toNat :: contributions (c.run o) cs

/-- A clean contribution: everything or nothing, and of an escaped string the escaping of
its start. -/
def Clean : OutputCall → List UInt8 → Prop
  | .escaped str, k => ∃ start, start <+: chars str ∧ k = quoteBytes start
  | c, k => k = c.text ∨ k = []

/-- The buffer ends between a backslash and the character it escapes. -/
def Splits (room : ℤ) (str : List UInt8) : Prop :=
  ∃ start c, start ++ [c] <+: str ∧ (c = 34 ∨ c = 92) ∧ room = (quoteBytes start).length + 1

/-- No escaped string of the calls is cut off there. -/
def NeverSplits : OutputBuffer → List OutputCall → Prop
  | _, [] => True
  | o, .escaped str :: cs =>
      ¬Splits o.length (chars str) ∧ NeverSplits (OutputCall.run o (.escaped str)) cs
  | o, c :: cs => NeverSplits (c.run o) cs

end OutputCall

namespace BufferOutput

def appendHex (out : BufferOutput) (value : UInt32) : BufferOutput :=
  if out.length < 9 then out else ⟨out.written ++ hex08 value, out.length - 8⟩

end BufferOutput

/-- What a call does to the bytes written and to the room that is left. -/
def OutputCall.perform (out : BufferOutput) : OutputCall → BufferOutput
  | .cString str => out.append (chars str)
  | .string str => out.append str
  | .int value => out.appendInt value.toInt
  | .char c => out.appendChar c
  | .hex value => out.appendHex value
  | .escaped str => out.appendEscaped str

/-- The memory holds what was written, the counters agree, and nothing was stored at or
past the capacity. -/
structure Holds (o : OutputBuffer) (capacity : ℕ) (out : BufferOutput) : Prop where
  held : ∀ i, i < out.written.length → o.memory i = out.written[i]?
  inside : ∀ i, capacity ≤ i → o.memory i = none
  buffer : o.buffer = out.written.length
  written : o.bytesWritten.toNat = out.written.length
  length : o.length = out.length
  room : out.written.length + out.length = capacity

theorem store_append (memory : ℕ → Option UInt8) (w bytes extra : List UInt8)
    (hheld : ∀ i, i < w.length → memory i = w[i]?) (i : ℕ) (hi : i < (w ++ bytes).length) :
    store memory w.length (bytes ++ extra) i = (w ++ bytes)[i]? := by
  rw [List.length_append] at hi
  unfold store
  by_cases hlt : i < w.length
  · rw [if_neg (by omega), hheld i hlt, List.getElem?_append_left hlt]
  · have hin : i - w.length < bytes.length := by omega
    rw [if_pos (by rw [List.length_append]; omega), List.getElem?_append_right (not_lt.mp hlt),
      List.getElem?_append_left hin]

theorem filterMap_range (w : List UInt8) :
    ((List.range w.length).filterMap fun i => w[i]?) = w := by
  induction w using List.reverseRecOn with
  | nil => rfl
  | append_singleton w b ih =>
      have hfront : ((List.range w.length).filterMap fun i => (w ++ [b])[i]?) =
          (List.range w.length).filterMap fun i => w[i]? :=
        List.filterMap_congr fun i hi => List.getElem?_append_left (List.mem_range.mp hi)
      rw [List.length_append, List.length_singleton, List.range_succ, List.filterMap_append, hfront,
        ih]
      simp

namespace Holds

variable {o : OutputBuffer} {capacity : ℕ} {out : BufferOutput}

theorem create (capacity : ℕ) : Holds (.create capacity) capacity (.create capacity) where
  held i hi := absurd hi (Nat.not_lt_zero i)
  inside _ _ := rfl
  buffer := rfl
  written := rfl
  length := rfl
  room := Nat.zero_add capacity

theorem bytes_eq (h : Holds o capacity out) : o.bytes = out.written := by
  rw [OutputBuffer.bytes, h.written]
  calc (List.range out.written.length).filterMap o.memory
      = (List.range out.written.length).filterMap fun i => out.written[i]? :=
        List.filterMap_congr fun i hi => h.held i (List.mem_range.mp hi)
    _ = out.written := filterMap_range out.written

/-- Bytes, and what `sprintf` stores behind them. -/
theorem put (h : Holds o capacity out) (hcap : capacity ≤ 65535) (bytes extra : List UInt8)
    (hroom : bytes.length + extra.length ≤ out.length) :
    Holds (o.put (bytes ++ extra) bytes.length) capacity
      ⟨out.written ++ bytes, out.length - bytes.length⟩ := by
  have hlen := h.length
  have hall := h.room
  have hwritten : o.written.toNat = out.written.length := h.written
  refine ⟨fun i hi => ?_, fun i hi => ?_, ?_, ?_, ?_, ?_⟩
  · rw [OutputBuffer.put, h.buffer]
    exact store_append o.memory out.written bytes extra h.held i hi
  · rw [OutputBuffer.put, h.buffer]
    change (if _ then _ else _) = none
    rw [if_neg (by rw [List.length_append]; omega)]
    exact h.inside i hi
  · rw [OutputBuffer.put, List.length_append, h.buffer]
  · rw [OutputBuffer.bytesWritten, OutputBuffer.put, UInt16.toNat_add, hwritten,
      List.length_append, UInt16.toNat_ofNat_of_lt' (by rw [UInt16.size]; omega)]
    exact Nat.mod_eq_of_lt (by omega)
  · rw [OutputBuffer.put]
    dsimp only
    omega
  · rw [List.length_append]
    dsimp only
    omega

theorem put_all (h : Holds o capacity out) (hcap : capacity ≤ 65535) (bytes : List UInt8)
    (hroom : bytes.length ≤ out.length) :
    Holds (o.put bytes bytes.length) capacity
      ⟨out.written ++ bytes, out.length - bytes.length⟩ := by
  have hput := h.put hcap bytes [] hroom
  rwa [List.append_nil] at hput

theorem append (h : Holds o capacity out) (hcap : capacity ≤ 65535) (str : List UInt8) :
    Holds (o.append str) capacity (out.append str) := by
  have hlen := h.length
  unfold OutputBuffer.append BufferOutput.append
  by_cases hlong : str.length > out.length
  · rw [if_pos (by omega), if_pos hlong]
    exact h
  · rw [if_neg (by omega), if_neg hlong]
    exact h.put_all hcap str (not_lt.mp hlong)

theorem appendChar (h : Holds o capacity out) (hcap : capacity ≤ 65535) (c : UInt8) :
    Holds (o.appendChar c) capacity (out.appendChar c) := by
  have hlen := h.length
  unfold OutputBuffer.appendChar BufferOutput.appendChar
  by_cases hfull : out.length = 0
  · rw [if_pos (by omega), if_pos hfull]
    exact h
  · rw [if_neg (by omega), if_neg hfull]
    exact h.put_all hcap [c] (Nat.one_le_iff_ne_zero.mpr hfull)

/-- The text of an `int` is short enough for `snprintf`. -/
theorem appendInt (h : Holds o capacity out) (hcap : capacity ≤ 65535) (value : Int32) :
    Holds (o.appendInt value) capacity (out.appendInt value.toInt) := by
  have hlen := h.length
  have htext : (ascii (toString value.toInt)).length ≤ 11 :=
    length_intText_le (Int32.le_toInt _) (Int32.toInt_lt _)
  unfold OutputBuffer.appendInt BufferOutput.appendInt
  by_cases hshort : 16 > out.length
  · rw [if_pos (by omega), if_pos hshort]
    exact h
  · rw [if_neg (by omega), if_neg hshort, List.take_of_length_le (by omega)]
    exact h.put hcap _ _ (by rw [List.length_singleton]; omega)

theorem appendHex (h : Holds o capacity out) (hcap : capacity ≤ 65535) (value : UInt32) :
    Holds (o.appendHex value) capacity (out.appendHex value) := by
  have hlen := h.length
  unfold OutputBuffer.appendHex BufferOutput.appendHex
  by_cases hshort : out.length < 9
  · rw [if_pos (by omega), if_pos hshort]
    exact h
  · rw [if_neg (by omega), if_neg hshort]
    exact h.put hcap (hex08 value) [0] (by
      have hhex : (hex08 value).length = 8 := rfl
      rw [hhex, List.length_singleton]
      omega)

theorem appendEscaped (h : Holds o capacity out) (hcap : capacity ≤ 65535) (str : List UInt8) :
    Holds (o.appendEscaped str) capacity (out.appendEscaped str) := by
  induction str generalizing o out with
  | nil => exact h
  | cons c str ih =>
      have hlen := h.length
      rw [OutputBuffer.appendEscaped, BufferOutput.appendEscaped]
      by_cases hc : c = 0
      · rw [if_pos hc, if_pos hc]
        exact h
      rw [if_neg hc, if_neg hc]
      by_cases hfull : out.length = 0
      · rw [if_pos (by omega), if_pos hfull]
        exact h
      rw [if_neg (by omega), if_neg hfull]
      have hone : ∀ b : UInt8, Holds (o.put [b] 1) capacity ⟨out.written ++ [b], out.length - 1⟩ :=
        fun b => h.put_all hcap [b] (Nat.one_le_iff_ne_zero.mpr hfull)
      by_cases hq : c = 34 ∨ c = 92
      · rw [if_pos hq, if_pos hq]
        have hslash := hone 92
        have hleft := hslash.length
        dsimp only at hleft
        by_cases hlast : out.length = 1
        · rw [if_pos (by omega), if_pos hlast]
          rwa [hlast] at hslash
        · rw [if_neg (by omega), if_neg hlast]
          have htwo := hslash.put_all hcap [c] (by
            rw [List.length_singleton]
            dsimp only
            omega)
          rw [List.length_singleton, List.append_assoc] at htwo
          dsimp only at htwo
          rw [Nat.sub_sub] at htwo
          exact ih htwo
      · rw [if_neg hq, if_neg hq]
        exact ih (hone c)

/-- The class does what is said of its bytes. -/
theorem run (h : Holds o capacity out) (hcap : capacity ≤ 65535) (c : OutputCall) :
    Holds (c.run o) capacity (c.perform out) := by
  cases c with
  | cString str => exact h.append hcap (chars str)
  | string str => exact h.append hcap str
  | int value => exact h.appendInt hcap value
  | char c => exact h.appendChar hcap c
  | hex value => exact h.appendHex hcap value
  | escaped str => exact h.appendEscaped hcap str

end Holds

namespace OutputCall

/-- The room that a call asks for before it writes its text. -/
def need : OutputCall → ℕ
  | .int _ => 16
  | .hex _ => 9
  | c => c.text.length

/-- What a call adds, with so much room left. -/
def added (room : ℕ) : OutputCall → List UInt8
  | .escaped str => (quoteBytes (chars str)).take room
  | c => if c.need ≤ room then c.text else []

theorem append_written (out : BufferOutput) (str : List UInt8) :
    (out.append str).written = out.written ++ if str.length ≤ out.length then str else [] := by
  unfold BufferOutput.append
  by_cases hlong : str.length > out.length
  · rw [if_pos hlong, if_neg (not_le.mpr hlong), List.append_nil]
  · rw [if_neg hlong, if_pos (not_lt.mp hlong)]

theorem perform_written (out : BufferOutput) (c : OutputCall) :
    (c.perform out).written = out.written ++ c.added out.length := by
  cases c with
  | cString str => exact append_written out (chars str)
  | string str => exact append_written out str
  | int value =>
      change (out.appendInt value.toInt).written =
        out.written ++ if 16 ≤ out.length then ascii (toString value.toInt) else []
      unfold BufferOutput.appendInt
      by_cases hshort : 16 > out.length
      · rw [if_pos hshort, if_neg (not_le.mpr hshort), List.append_nil]
      · rw [if_neg hshort, if_pos (not_lt.mp hshort)]
  | char c =>
      change (out.appendChar c).written = out.written ++ if 1 ≤ out.length then [c] else []
      unfold BufferOutput.appendChar
      by_cases hfull : out.length = 0
      · rw [if_pos hfull, if_neg (by omega), List.append_nil]
      · rw [if_neg hfull, if_pos (Nat.one_le_iff_ne_zero.mpr hfull)]
  | hex value =>
      change (out.appendHex value).written = out.written ++ if 9 ≤ out.length then hex08 value else []
      unfold BufferOutput.appendHex
      by_cases hshort : out.length < 9
      · rw [if_pos hshort, if_neg (not_le.mpr hshort), List.append_nil]
      · rw [if_neg hshort, if_pos (not_lt.mp hshort)]
  | escaped str =>
      change (out.appendEscaped str).written = _
      rw [BufferOutput.appendEscaped_eq]
      rfl

/-- The first character is one that needs no escape. -/
theorem splits_plain {c : UInt8} (hc : ¬(c = 34 ∨ c = 92)) (room : ℕ) (str : List UInt8) :
    Splits (room + 1 : ℕ) (c :: str) ↔ Splits room str := by
  constructor
  · rintro ⟨start, q, hstart, hq, hroom⟩
    cases start with
    | nil =>
        have heq : q = c := (List.cons_prefix_cons.mp hstart).1
        exact absurd (heq ▸ hq) hc
    | cons a start =>
        obtain ⟨rfl, htail⟩ := List.cons_prefix_cons.mp hstart
        rw [quoteBytes_cons_plain hc, List.length_cons] at hroom
        exact ⟨start, q, htail, hq, by omega⟩
  · rintro ⟨start, q, hstart, hq, hroom⟩
    refine ⟨c :: start, q, List.cons_prefix_cons.mpr ⟨rfl, hstart⟩, hq, ?_⟩
    rw [quoteBytes_cons_plain hc, List.length_cons]
    omega

/-- Behind the escape of the first character. -/
theorem splits_escaped {c : UInt8} (hc : c = 34 ∨ c = 92) (room : ℕ) (str : List UInt8) :
    Splits (room + 2 : ℕ) (c :: str) ↔ Splits room str := by
  constructor
  · rintro ⟨start, q, hstart, hq, hroom⟩
    cases start with
    | nil =>
        change ((room + 2 : ℕ) : ℤ) = 1 at hroom
        omega
    | cons a start =>
        obtain ⟨rfl, htail⟩ := List.cons_prefix_cons.mp hstart
        rw [quoteBytes_cons_escaped hc, List.length_cons, List.length_cons] at hroom
        exact ⟨start, q, htail, hq, by omega⟩
  · rintro ⟨start, q, hstart, hq, hroom⟩
    refine ⟨c :: start, q, List.cons_prefix_cons.mpr ⟨rfl, hstart⟩, hq, ?_⟩
    rw [quoteBytes_cons_escaped hc, List.length_cons, List.length_cons]
    omega

/-- The bytes are the escaping of a start of the string. -/
def Escapes (str k : List UInt8) : Prop := ∃ start, start <+: str ∧ k = quoteBytes start

theorem escapes_plain {c : UInt8} (hc : ¬(c = 34 ∨ c = 92)) (str k : List UInt8) :
    Escapes (c :: str) (c :: k) ↔ Escapes str k := by
  constructor
  · rintro ⟨start, hstart, hk⟩
    cases start with
    | nil => cases hk
    | cons a start =>
        obtain ⟨rfl, htail⟩ := List.cons_prefix_cons.mp hstart
        rw [quoteBytes_cons_plain hc] at hk
        exact ⟨start, htail, (List.cons.inj hk).2⟩
  · rintro ⟨start, hstart, rfl⟩
    exact ⟨c :: start, List.cons_prefix_cons.mpr ⟨rfl, hstart⟩, (quoteBytes_cons_plain hc start).symm⟩

theorem escapes_escaped {c : UInt8} (hc : c = 34 ∨ c = 92) (str k : List UInt8) :
    Escapes (c :: str) (92 :: c :: k) ↔ Escapes str k := by
  constructor
  · rintro ⟨start, hstart, hk⟩
    cases start with
    | nil => cases hk
    | cons a start =>
        obtain ⟨rfl, htail⟩ := List.cons_prefix_cons.mp hstart
        rw [quoteBytes_cons_escaped hc] at hk
        exact ⟨start, htail, (List.cons.inj (List.cons.inj hk).2).2⟩
  · rintro ⟨start, hstart, rfl⟩
    exact ⟨c :: start, List.cons_prefix_cons.mpr ⟨rfl, hstart⟩,
      (quoteBytes_cons_escaped hc start).symm⟩

/-- What is left of a cut escaping is that of a start of the string, unless it was cut
behind a backslash. -/
theorem escapes_take (str : List UInt8) (room : ℕ) :
    Escapes str ((quoteBytes str).take room) ↔ ¬Splits room str := by
  have hempty : ∀ str, Escapes str [] := fun str => ⟨[], List.nil_prefix, rfl⟩
  have hzero : ∀ str, ¬Splits (0 : ℕ) str := by
    rintro str ⟨start, q, -, -, hroom⟩
    omega
  induction str generalizing room with
  | nil =>
      refine iff_of_true (by simpa [quoteBytes] using hempty []) ?_
      rintro ⟨start, q, hstart, -, -⟩
      exact absurd (List.prefix_nil.mp hstart)
        (List.append_ne_nil_of_right_ne_nil _ (List.cons_ne_nil _ _))
  | cons c str ih =>
      cases room with
      | zero => exact iff_of_true (hempty _) (hzero _)
      | succ room =>
          by_cases hc : c = 34 ∨ c = 92
          · rw [quoteBytes_cons_escaped hc]
            cases room with
            | zero =>
                -- only the backslash is left
                refine iff_of_false ?_ fun h => h ⟨[], c, ⟨str, rfl⟩, hc, rfl⟩
                rintro ⟨start, hstart, hk⟩
                cases start with
                | nil => cases hk
                | cons a start =>
                    obtain ⟨rfl, -⟩ := List.cons_prefix_cons.mp hstart
                    rw [quoteBytes_cons_escaped hc] at hk
                    cases (List.cons.inj hk).2
            | succ room =>
                rw [List.take_succ_cons, List.take_succ_cons, escapes_escaped hc,
                  splits_escaped hc]
                exact ih room
          · rw [quoteBytes_cons_plain hc, List.take_succ_cons, escapes_plain hc, splits_plain hc]
            exact ih room

/-- A contribution is clean unless it is an escaped string cut off behind a backslash. -/
theorem clean_iff (room : ℕ) (c : OutputCall) :
    c.Clean (c.added room) ↔ ∀ str, c = .escaped str → ¬Splits room (chars str) := by
  cases c with
  | escaped str =>
      refine (escapes_take (chars str) room).trans ⟨fun h str' heq => ?_, fun h => h str rfl⟩
      cases heq
      exact h
  | _ =>
      refine iff_of_true ?_ fun _ heq => by cases heq
      dsimp only [added]
      split_ifs
      exacts [.inl rfl, .inr rfl]

/-- Nothing is stored past the end, the counts add up, and the bytes are those of the
contributions. -/
structure Bounded (capacity : ℕ) (cs : List OutputCall) (o : OutputBuffer) : Prop where
  inside : ∀ i, capacity ≤ i → o.memory i = none
  counted : o.bytesWritten.toNat + o.length = capacity
  bytes : o.bytes = (contributions (.create capacity) cs).flatten

/-- What the calls contribute behind what was written before. -/
theorem holds_runs {capacity : ℕ} (hcap : capacity ≤ 65535) {o : OutputBuffer}
    {out : BufferOutput} (h : Holds o capacity out) (cs : List OutputCall) :
    Holds (cs.foldl run o) capacity (cs.foldl perform out) ∧
      (cs.foldl perform out).written = out.written ++ (contributions o cs).flatten ∧
      (List.Forall₂ Clean cs (contributions o cs) ↔ NeverSplits o cs) := by
  induction cs generalizing o out with
  | nil => exact ⟨h, (List.append_nil _).symm, iff_of_true .nil trivial⟩
  | cons c cs ih =>
      have hnext := h.run hcap c
      obtain ⟨hholds, hwritten, hclean⟩ := ih hnext
      have hadded : (c.run o).bytes.drop o.bytesWritten.toNat = c.added out.length := by
        rw [hnext.bytes_eq, perform_written, h.written, List.drop_left]
      refine ⟨hholds, ?_, ?_⟩
      · rw [List.foldl_cons, hwritten, contributions, List.flatten_cons, hadded, perform_written,
          List.append_assoc]
      · rw [contributions, List.forall₂_cons, hadded, clean_iff, hclean]
        cases c with
        | escaped str =>
            rw [NeverSplits, h.length]
            refine and_congr_left fun _ => ⟨fun hall => hall str rfl, fun hstr str' heq => ?_⟩
            cases heq
            exact hstr
        | _ => exact and_iff_right fun _ heq => by cases heq

/-- Whatever is called, the output stays inside the buffer and is what the calls
contributed. Every contribution is clean exactly when no escaped string is cut off behind a
backslash. -/
theorem output_bounded {capacity : ℕ} (hcap : capacity ≤ 65535) (cs : List OutputCall) :
    Bounded capacity cs (cs.foldl run (.create capacity)) ∧
      (List.Forall₂ Clean cs (contributions (.create capacity) cs) ↔
        NeverSplits (.create capacity) cs) := by
  obtain ⟨hholds, hwritten, hclean⟩ := holds_runs hcap (Holds.create capacity) cs
  refine ⟨⟨hholds.inside, ?_, ?_⟩, hclean⟩
  · rw [hholds.written, hholds.length]
    exact_mod_cast hholds.room
  · rw [hholds.bytes_eq, hwritten]
    rfl

/-- An escaped string that fits is not cut off. -/
theorem not_splits_of_le {room : ℕ} {str : List UInt8} (h : (quoteBytes str).length ≤ room) :
    ¬Splits room str :=
  (escapes_take str room).mp ⟨str, List.prefix_refl str, List.take_of_length_le h⟩

/-- A label, a name with quotes and a number. -/
def labelled : List OutputCall :=
  [.cString (ascii "name: "), .escaped (ascii "a \"b\""), .int 7]

theorem output_bounded_labelled :
    Bounded 40 labelled (labelled.foldl run (.create 40)) ∧
      List.Forall₂ Clean labelled (contributions (.create 40) labelled) := by
  obtain ⟨hbounded, hclean⟩ := output_bounded (show 40 ≤ 65535 by decide) labelled
  refine ⟨hbounded, hclean.mpr ⟨?_, trivial⟩⟩
  exact not_splits_of_le (show (quoteBytes (ascii "a \"b\"")).length ≤ 34 by decide +kernel)

/-- Of a quote nothing but its backslash is written. -/
theorem quote_split :
    contributions (.create 1) [.escaped (ascii "\"")] = [[92]] ∧
      ¬List.Forall₂ Clean [.escaped (ascii "\"")]
        (contributions (.create 1) [.escaped (ascii "\"")]) := by
  have hclean := (holds_runs (show 1 ≤ 65535 by decide) (.create 1)
    [.escaped (ascii "\"")]).2.2
  refine ⟨by decide +kernel, fun hall => (hclean.mp hall).1 ?_⟩
  exact ⟨[], 34, ⟨[], rfl⟩, .inl rfl, rfl⟩

end OutputCall

end PicoSomfy
