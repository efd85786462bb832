import PicoSomfy.Answers

/-!
# Where calls come from

A call that adds something, or gives it a name or a time, was asked for in one kind of
request. `AskedBy` reads it off the parameters: what a name was checked for, and what was
scanned from the text of a time.
-/
namespace PicoSomfy

open Call

/-- The request that a call comes from, and what it says. Only a restart is a restart; the
other calls may come from anything. -/
def Call.AskedBy (e : Device.Event) : Call → Prop
  | .addBlind name openTime closeTime => ∃ params locals, e = .request .addBlind params locals ∧
      params "name" = some name ∧
      Scan.held Scan.d params "openTime" locals.openTime = some openTime ∧
      Scan.held Scan.d params "closeTime" locals.closeTime = some closeTime
  | .updateBlind _ _ name openTime closeTime => ∃ params locals,
      e = .request .updateBlind params locals ∧ params "name" = some name ∧
      Scan.held Scan.d params "openTime" locals.openTime = some openTime ∧
      Scan.held Scan.d params "closeTime" locals.closeTime = some closeTime
  | .createRemote name => ∃ params locals, e = .request .addRemote params locals ∧
      nameParam params = some name
  | .importRemote name _ => ∃ params locals, e = .request .importRemote params locals ∧
      nameParam params = some name
  | .rename _ name => ∃ params locals, e = .request .updateRemote params locals ∧
      nameParam params = some name
  | .restart mqttEnabled slots => e = .restart mqttEnabled slots
  | _ => True

namespace Device

variable {d : Device} {params : CgiParams} {locals : Locals} {c : Call} {answer : Bool}
  {e : Event}

theorem refuse_asked (h : Call.refuse = some (c, answer)) : c.AskedBy e := by
  cases h
  trivial

theorem onCommand_asked (k : UInt32) (payload : List UInt8) : (onCommand k payload).AskedBy e := by
  unfold onCommand
  split_ifs <;> trivial

theorem onSetPosition_asked (k : UInt32) (payload : List UInt8) (overflow : Int32) :
    (onSetPosition k payload overflow).AskedBy e := by
  unfold onSetPosition
  split_ifs <;> trivial

theorem remoteOnCommand_asked (p : ℕ) (payload : List UInt8) :
    (remoteOnCommand p payload).AskedBy e := by
  unfold remoteOnCommand
  split_ifs <;> trivial

theorem doAddBlind_asked (h : doAddBlind params locals = some (c, answer)) :
    c.AskedBy (.request .addBlind params locals) := by
  unfold doAddBlind at h
  split at h
  case h_1 name openText closeText hname hopen hclose =>
    split at h
    case h_1 openTime closeTime ho hc =>
      cases h
      exact ⟨params, locals, rfl, hname, by rw [Scan.held, hopen, Option.bind_some, ho],
        by rw [Scan.held, hclose, Option.bind_some, hc]⟩
    case h_2 => exact refuse_asked h
  case h_2 => exact refuse_asked h

theorem doUpdateBlind_asked (h : d.doUpdateBlind params locals = some (c, answer)) :
    c.AskedBy (.request .updateBlind params locals) := by
  unfold doUpdateBlind at h
  split at h
  case h_1 idText name openText closeText _ hname hopen hclose =>
    split at h
    case h_1 id openTime closeTime _ ho hc =>
      split at h
      · cases h
        exact ⟨params, locals, rfl, hname, by rw [Scan.held, hopen, Option.bind_some, ho],
          by rw [Scan.held, hclose, Option.bind_some, hc]⟩
      · exact refuse_asked h
    case h_2 => exact refuse_asked h
  case h_2 => exact refuse_asked h

theorem doDeleteBlind_asked (h : d.doDeleteBlind params locals = some (c, answer)) :
    c.AskedBy e := by
  obtain ⟨idText, -, h⟩ := Option.bind_eq_some_iff.mp h
  split at h
  · exact refuse_asked h
  · split at h
    · exact refuse_asked h
    · cases h
      trivial

theorem doBlindCommand_asked
    (h : d.doBlindCommand params locals = some (c, answer)) : c.AskedBy e := by
  unfold doBlindCommand at h
  split at h
  · split at h
    · exact refuse_asked h
    · split_ifs at h
      · cases h
        exact onCommand_asked _ _
      · cases h
        exact onSetPosition_asked _ _ _
      · cases h
        trivial
      · exact refuse_asked h
  · exact refuse_asked h

theorem doAddRemote_asked (h : doAddRemote params = some (c, answer)) :
    c.AskedBy (.request .addRemote params locals) := by
  unfold doAddRemote at h
  split at h
  case h_1 => exact refuse_asked h
  case h_2 name hname =>
    cases h
    exact ⟨params, locals, rfl, hname⟩

theorem doImportRemote_asked (h : d.doImportRemote params locals = some (c, answer)) :
    c.AskedBy (.request .importRemote params locals) := by
  unfold doImportRemote at h
  split at h
  case h_1 name idText hname _ =>
    split at h
    case h_1 => exact refuse_asked h
    case h_2 id _ =>
      split_ifs at h
      · exact refuse_asked h
      · cases h
        exact ⟨params, locals, rfl, hname⟩
  case h_2 => exact refuse_asked h

theorem doUpdateRemote_asked {remote : Option ℕ} (h : doUpdateRemote remote params = some (c, answer)) :
    c.AskedBy (.request .updateRemote params locals) := by
  unfold doUpdateRemote at h
  split at h
  case h_1 p name hname =>
    cases h
    exact ⟨params, locals, rfl, hname⟩
  case h_2 => exact refuse_asked h

theorem doDeleteRemote_asked {remote : Option ℕ} (h : d.doDeleteRemote remote = some (c, answer)) :
    c.AskedBy e := by
  obtain ⟨p, -, h⟩ := Option.bind_eq_some_iff.mp h
  split_ifs at h
  · exact refuse_asked h
  · cases h
    trivial

theorem doAddOrRemove_asked {remote : Option ℕ} {f : ℕ → UInt16 → Call}
    (hf : ∀ p k, (f p k).AskedBy e)
    (h : d.doAddOrRemoveBlindToRemote remote params locals f = some (c, answer)) :
    c.AskedBy e := by
  unfold doAddOrRemoveBlindToRemote at h
  split at h
  · split at h
    · exact refuse_asked h
    · split_ifs at h
      · cases h
        exact hf _ _
      · exact refuse_asked h
  · exact refuse_asked h

theorem handle_asked {request : Request} (h : d.handle request params locals = some (c, answer)) :
    c.AskedBy (.request request params locals) := by
  cases request with
  | addBlind => exact doAddBlind_asked h
  | updateBlind => exact doUpdateBlind_asked h
  | deleteBlind => exact doDeleteBlind_asked h
  | blindCommand => exact doBlindCommand_asked h
  | addRemote => exact doAddRemote_asked h
  | importRemote => exact doImportRemote_asked h
  | updateRemote => exact doUpdateRemote_asked h
  | deleteRemote => exact doDeleteRemote_asked h
  | bindBlind => exact doAddOrRemove_asked (f := .associate) (fun _ _ => trivial) h
  | unbindBlind => exact doAddOrRemove_asked (f := .disassociate) (fun _ _ => trivial) h
  | remoteCommand =>
      simp only [handle, doButtonPress] at h
      split at h
      · exact refuse_asked h
      · cases h
        trivial
  | discover =>
      cases h
      trivial

/-- What every event asks for. -/
theorem call_asked (h : d.call e = some c) : c.AskedBy e := by
  cases e with
  | request request params locals =>
      obtain ⟨⟨c', answer⟩, hc, rfl⟩ := Option.map_eq_some_iff.mp h
      exact handle_asked hc
  | remoteTopic remoteId payload =>
      cases h
      cases d.remotes[remoteId]? with
      | none => trivial
      | some p => exact remoteOnCommand_asked p payload
  | blindTopic blindId payload =>
      cases h
      split_ifs
      · exact onCommand_asked _ _
      · trivial
  | positionTopic blindId payload overflow =>
      cases h
      split_ifs
      · exact onSetPosition_asked _ _ _
      · trivial
  | _ =>
      cases h
      trivial

end Device

end PicoSomfy
