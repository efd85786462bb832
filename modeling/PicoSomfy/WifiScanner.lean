import PicoSomfy.CStrings

/-!
# Scanning for networks

A scan reports the networks it hears one by one, some of them more than once. The scanner
collects their names in one list and shows another, the one of the last scan that was over
when its results were asked for. A name is sent as up to 32 bytes of any kind. It arrives
in an array of 32 bytes without room for a terminator, and is copied as a C string.

`ScanLog` is what the scanner is for: the networks that were heard, with nothing copied or
left out. A run of the scanner fails at the first name that fills its array. Until then its
two lists hold the names of the log, each of them once.
-/
namespace PicoSomfy

open CStrings

/-- The name of a network, as it is sent. -/
structure Ssid where
  bytes : List UInt8
  pos : 0 < bytes.length
  fits : bytes.length ≤ 32
  deriving DecidableEq

namespace Ssid

/-- `cyw43_ev_scan_result_t::ssid`, which is filled up with zeros. -/
def field (s : Ssid) : List UInt8 := s.bytes ++ List.replicate (32 - s.bytes.length) 0

/-- The array read as a C string; `none` is the read beyond its end. -/
def text (s : Ssid) : Option (List UInt8) := if 0 ∈ s.field then some (cText s.field) else none

/-- The name leaves room for a terminator or brings one along. -/
def Terminated (s : Ssid) : Prop := s.bytes.length < 32 ∨ 0 ∈ s.bytes

theorem zero_mem_field (s : Ssid) : 0 ∈ s.field ↔ s.Terminated := by
  have hroom : 32 - s.bytes.length ≠ 0 ↔ s.bytes.length < 32 := by omega
  rw [field, List.mem_append, List.mem_replicate, hroom, Terminated, or_comm]
  simp

theorem cText_zeros (bytes : List UInt8) (n : ℕ) :
    cText (bytes ++ List.replicate n 0) = cText bytes := by
  induction bytes with
  | nil => cases n <;> rfl
  | cons b bytes ih =>
      unfold cText at ih ⊢
      rw [List.cons_append, List.takeWhile_cons, List.takeWhile_cons, ih]

theorem text_eq_some {s : Ssid} {t : List UInt8} :
    s.text = some t ↔ s.Terminated ∧ t = cText s.bytes := by
  unfold text
  split_ifs with hzero
  · rw [Option.some_inj, eq_comm, field, cText_zeros]
    exact (and_iff_right (s.zero_mem_field.mp hzero)).symm
  · exact iff_of_false nofun fun h => hzero (s.zero_mem_field.mpr h.1)

/-- A copied name is no longer than the one that was sent. -/
theorem length_text_le {s : Ssid} {t : List UInt8} (h : s.text = some t) : t.length ≤ 32 := by
  rw [(text_eq_some.mp h).2]
  exact (length_cText_le _).trans s.fits

end Ssid

/-- `scanActive` is what `cyw43_wifi_scan_active` answers. -/
structure WifiScanner where
  activeResults : List (List UInt8)
  ssids : List (List UInt8)
  oneTimeScan : Bool
  scanActive : Bool
  deriving DecidableEq

namespace WifiScanner

/-- A scan that cannot be started is over at once. -/
def triggerScan (w : WifiScanner) : WifiScanner :=
  if w.scanActive then w else { w with activeResults := [], scanActive := true }

/-- The constructor. -/
def create (oneTimeScan : Bool) : WifiScanner := triggerScan ⟨[], [], oneTimeScan, false⟩

def collectResults (w : WifiScanner) : WifiScanner :=
  if w.scanActive then w
  else if w.activeResults.isEmpty then w
  else
    -- The two lists are swapped, and the old one is cleared.
    let w := { w with ssids := w.activeResults, activeResults := [] }
    if w.oneTimeScan then w else w.triggerScan

/-- `ScanResult`. A null pointer is ignored. -/
def scanResult (w : WifiScanner) : Option Ssid → Option WifiScanner
  | none => some w
  | some result =>
      result.text.map fun ssid =>
        if ssid ∈ w.activeResults then w
        else { w with activeResults := w.activeResults ++ [ssid] }

end WifiScanner

/-- What happens to a scanner: a result comes in, the scan ends, or the results are asked
for. -/
inductive ScanEvent where
  | result (ssid : Option Ssid)
  | scanOver
  | collect

def WifiScanner.step (w : WifiScanner) : ScanEvent → Option WifiScanner
  | .result ssid => w.scanResult ssid
  | .scanOver => some { w with scanActive := false }
  | .collect => some w.collectResults

/-- The networks of the scan that was started last, and those of the last scan that was
over with some results when it was asked for them. -/
structure ScanLog where
  heard : List Ssid
  listed : List Ssid
  oneTimeScan : Bool
  scanActive : Bool

namespace ScanLog

def create (oneTimeScan : Bool) : ScanLog := ⟨[], [], oneTimeScan, true⟩

def step (l : ScanLog) : ScanEvent → ScanLog
  | .result none => l
  | .result (some ssid) => { l with heard := l.heard ++ [ssid] }
  | .scanOver => { l with scanActive := false }
  | .collect =>
      if l.scanActive ∨ l.heard = [] then l
      else ⟨[], l.heard, l.oneTimeScan, !l.oneTimeScan⟩

/-- The networks that a request for the results should show after these events. -/
def shown (oneTimeScan : Bool) (es : List ScanEvent) : List Ssid :=
  ((es.foldl step (.create oneTimeScan)).step .collect).listed

end ScanLog

/-- The texts are those of the names, each of them once. -/
structure Texts (texts : List (List UInt8)) (names : List Ssid) : Prop where
  nodup : texts.Nodup
  mem : ∀ t, t ∈ texts ↔ ∃ s ∈ names, s.text = some t
  readable : ∀ s ∈ names, s.Terminated

theorem texts_nil : Texts [] [] where
  nodup := List.nodup_nil
  mem t := by simp
  readable s hs := absurd hs List.not_mem_nil

/-- A name that was heard before is left out. -/
theorem Texts.add {texts : List (List UInt8)} {names : List Ssid} (h : Texts texts names)
    {s : Ssid} {t : List UInt8} (ht : s.text = some t) :
    Texts (if t ∈ texts then texts else texts ++ [t]) (names ++ [s]) := by
  have hmem : ∀ u, (∃ r ∈ names ++ [s], r.text = some u) ↔ u ∈ texts ∨ u = t := fun u => by
    rw [h.mem]
    simp only [List.mem_append, List.mem_singleton, or_and_right, exists_or, exists_eq_left, ht,
      Option.some_inj]
    rw [eq_comm (a := t)]
  have hreadable : ∀ r ∈ names ++ [s], r.Terminated := fun r hr => by
    rcases List.mem_append.mp hr with hr | hr
    · exact h.readable r hr
    · rw [List.mem_singleton.mp hr]
      exact (Ssid.text_eq_some.mp ht).1
  split_ifs with hin
  · refine ⟨h.nodup, fun u => ?_, hreadable⟩
    rw [hmem]
    exact ⟨.inl, fun hu => hu.elim id fun hu => hu ▸ hin⟩
  · refine ⟨List.nodup_append.mpr ⟨h.nodup, List.nodup_singleton t, ?_⟩, fun u => ?_, hreadable⟩
    · rintro u hu v hv rfl
      rw [List.mem_singleton.mp hv] at hu
      exact hin hu
    · rw [hmem, List.mem_append, List.mem_singleton]

theorem Texts.isEmpty {texts : List (List UInt8)} {names : List Ssid} (h : Texts texts names) :
    texts.isEmpty = true ↔ names = [] := by
  rw [List.isEmpty_iff, List.eq_nil_iff_forall_not_mem, List.eq_nil_iff_forall_not_mem]
  constructor
  · intro hnone s hs
    exact hnone _ ((h.mem _).mpr ⟨s, hs, Ssid.text_eq_some.mpr ⟨h.readable s hs, rfl⟩⟩)
  · intro hnone t ht
    obtain ⟨s, hs, -⟩ := (h.mem t).mp ht
    exact hnone s hs

/-- The scanner holds the networks of the log. -/
structure Logs (w : WifiScanner) (l : ScanLog) : Prop where
  heard : Texts w.activeResults l.heard
  listed : Texts w.ssids l.listed
  oneTimeScan : w.oneTimeScan = l.oneTimeScan
  scanActive : w.scanActive = l.scanActive

/-- The names an event brings in can be read. -/
def ScanEvent.Readable : ScanEvent → Prop
  | .result (some ssid) => ssid.Terminated
  | _ => True

namespace Logs

variable {w w' : WifiScanner} {l : ScanLog}

theorem create (oneTimeScan : Bool) : Logs (.create oneTimeScan) (.create oneTimeScan) :=
  ⟨texts_nil, texts_nil, rfl, rfl⟩

theorem collect (h : Logs w l) : Logs w.collectResults (l.step .collect) := by
  unfold WifiScanner.collectResults ScanLog.step
  have hempty := h.heard.isEmpty
  by_cases hactive : w.scanActive = true
  · rw [if_pos hactive, if_pos (.inl (h.scanActive ▸ hactive))]
    exact h
  by_cases hnone : w.activeResults.isEmpty = true
  · rw [if_neg hactive, if_pos hnone, if_pos (.inr (hempty.mp hnone))]
    exact h
  rw [if_neg hactive, if_neg hnone, if_neg (not_or.mpr ⟨h.scanActive ▸ hactive,
    fun hnil => hnone (hempty.mpr hnil)⟩)]
  dsimp only
  cases hone : w.oneTimeScan with
  | false =>
      rw [if_neg Bool.false_ne_true, WifiScanner.triggerScan, if_neg hactive]
      exact ⟨texts_nil, h.heard, hone ▸ h.oneTimeScan, by rw [← h.oneTimeScan, hone]; rfl⟩
  | true =>
      rw [if_pos rfl]
      exact ⟨texts_nil, h.heard, hone ▸ h.oneTimeScan, by
        rw [← h.oneTimeScan, hone, Bool.not_true]
        exact Bool.eq_false_iff.mpr hactive⟩

/-- An event fails only at a name that cannot be read, and is logged otherwise. -/
theorem step (h : Logs w l) (e : ScanEvent) :
    (e.Readable → ∃ w', w.step e = some w') ∧
      ∀ w', w.step e = some w' → e.Readable ∧ Logs w' (l.step e) := by
  cases e with
  | result ssid =>
      cases ssid with
      | none => exact ⟨fun _ => ⟨w, rfl⟩, fun w' hw => ⟨trivial, Option.some_inj.mp hw ▸ h⟩⟩
      | some s =>
          refine ⟨fun hs => ⟨_, Option.map_eq_some_iff.mpr
            ⟨_, Ssid.text_eq_some.mpr ⟨hs, rfl⟩, rfl⟩⟩, fun w' hw => ?_⟩
          obtain ⟨t, ht, rfl⟩ := Option.map_eq_some_iff.mp hw
          refine ⟨(Ssid.text_eq_some.mp ht).1, ?_⟩
          have hadd := h.heard.add ht
          split_ifs at hadd ⊢ with hin
          · exact ⟨hadd, h.listed, h.oneTimeScan, h.scanActive⟩
          · exact ⟨hadd, h.listed, h.oneTimeScan, h.scanActive⟩
  | scanOver =>
      exact ⟨fun _ => ⟨_, rfl⟩, fun w' hw => ⟨trivial, Option.some_inj.mp hw ▸
        ⟨h.heard, h.listed, h.oneTimeScan, rfl⟩⟩⟩
  | collect =>
      exact ⟨fun _ => ⟨_, rfl⟩, fun w' hw => ⟨trivial, Option.some_inj.mp hw ▸ h.collect⟩⟩

/-- A run comes to its end when all names can be read, and the scanner holds the networks
that were logged. -/
theorem run (h : Logs w l) (es : List ScanEvent) :
    ((∃ w', es.foldlM WifiScanner.step w = some w') ↔ ∀ e ∈ es, e.Readable) ∧
      ∀ w', es.foldlM WifiScanner.step w = some w' → Logs w' (es.foldl ScanLog.step l) := by
  induction es generalizing w l with
  | nil =>
      exact ⟨iff_of_true ⟨w, rfl⟩ nofun, fun w' hw => Option.some_inj.mp hw ▸ h⟩
  | cons e es ih =>
      obtain ⟨hstep, hnext⟩ := h.step e
      constructor
      · constructor
        · rintro ⟨w', hw'⟩
          obtain ⟨v, hv, hrun⟩ := Option.bind_eq_some_iff.mp hw'
          obtain ⟨he, hv'⟩ := hnext v hv
          exact List.forall_mem_cons.mpr ⟨he, (ih hv').1.mp ⟨w', hrun⟩⟩
        · intro hall
          obtain ⟨he, hes⟩ := List.forall_mem_cons.mp hall
          obtain ⟨v, hv⟩ := hstep he
          obtain ⟨w', hrun⟩ := (ih (hnext v hv).2).1.mpr hes
          exact ⟨w', Option.bind_eq_some_iff.mpr ⟨v, hv, hrun⟩⟩
      · intro w' hw'
        obtain ⟨v, hv, hrun⟩ := Option.bind_eq_some_iff.mp hw'
        exact (ih (hnext v hv).2).2 w' hrun

end Logs

namespace WifiScanner

/-- The scanner of the second kind was reached from the first without a request for the
results. -/
def Listens (w w' : WifiScanner) : Prop :=
  ∃ es : List ScanEvent, (∀ e ∈ es, e ≠ .collect) ∧ es.foldlM step w = some w'

theorem step_ssids {w w' : WifiScanner} {e : ScanEvent} (he : e ≠ .collect)
    (h : w.step e = some w') : w'.ssids = w.ssids := by
  cases e with
  | result ssid =>
      cases ssid with
      | none => rw [← Option.some_inj.mp h]
      | some s =>
          obtain ⟨t, -, rfl⟩ := Option.map_eq_some_iff.mp h
          split_ifs <;> rfl
  | scanOver => rw [← Option.some_inj.mp h]
  | collect => exact absurd rfl he

/-- What is heard between two requests does not change the list that is shown. -/
theorem Listens.ssids {w w' : WifiScanner} (h : w.Listens w') : w'.ssids = w.ssids := by
  obtain ⟨es, hes, hrun⟩ := h
  induction es generalizing w with
  | nil => rw [← Option.some_inj.mp hrun]
  | cons e es ih =>
      obtain ⟨v, hv, hrest⟩ := Option.bind_eq_some_iff.mp hrun
      rw [ih (fun e he => hes e (List.mem_cons_of_mem _ he)) hrest,
        step_ssids (hes e List.mem_cons_self) hv]

end WifiScanner

end PicoSomfy
