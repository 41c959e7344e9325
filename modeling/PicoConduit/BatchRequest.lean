import PicoConduit.Batch
import PicoConduit.Server

namespace PicoConduit
open Checked Heapless Utf8 Json Transducer
set_option autoImplicit true

/-- The reply's data lists the inner responses, in order. -/
def Reports (r : Response) (inners : List Response) : Prop :=
  ∃ v vs data, r.toValue = .ok v ∧ responseValues inners = .ok vs ∧
    v.get "data" = some data ∧ data.get "responses" = some (.array vs)

/-- The server loop executes the batch of a frame: the reply reports the responses of the inner
commands and the state is the one they leave, as if each had come in a frame of its own. -/
def HonoursBatch (lib : JsonLibrary) (s : DeviceState) (frame : Bytes) (cmd : Command) : Prop :=
  ∃ r s' rs, answerFrame lib s frame = .ok (r, s') ∧
    Steps execute s (cmd.inner.map CommandInner.toCommand) rs s' ∧ Reports r rs

theorem answerFrame_single (hp : parseCommand lib.fromSlice frame = .ok cmd) :
    answerFrame lib s frame = execute s cmd := by
  simp only [answerFrame, hp]

theorem not_reports (hd : r.data = none) : ¬ Reports r inners := by
  intro h
  obtain ⟨v, vs, data, hv, -, hdata, hresp⟩ := h
  simp only [Response.toValue, hd, dataValue, pure_eq, ok_bind, Except.ok.injEq] at hv
  subst hv
  cases hdata
  cases hresp

/-- The loop refuses every batch request, as an unknown interface. -/
theorem batch_not_honoured (lib : JsonLibrary) (s : DeviceState) (frame : Bytes) (cmd : Command)
    (hp : parseCommand lib.fromSlice frame = .ok cmd) (hi : cmd.interface = some "batch")
    (ha : cmd.action = some "run") : ¬ HonoursBatch lib s frame cmd := by
  intro h
  obtain ⟨r, s', rs, hr, -, hrep⟩ := h
  rw [answerFrame_single hp, execute_batch_run hi ha] at hr
  cases hr
  exact not_reports rfl hrep

def batchFrame : Bytes :=
  asBytes ("\x7b\"version\":1,\"id\":\"b1\",\"interface\":\"batch\",\"action\":\"run\"," ++
    "\"commands\":[\x7b\"version\":1,\"id\":\"1\",\"interface\":\"gpio\"," ++
    "\"action\":\"read\",\"pin\":0\x7d]\x7d")

def batchCommand : Command where
  version := some 1
  id := "b1"
  interface := some "batch"
  action := some "run"
  commands := some ⟨[{
    version := some 1
    id := "1"
    interface := some "gpio"
    action := some "read"
    pin := some 0 }], by decide⟩

theorem batchFrame_length : batchFrame.length = 137 := by
  decide +kernel

theorem parseCommand_batchFrame :
    parseCommand (replyLibrary batchFrame batchCommand).fromSlice batchFrame = .ok batchCommand :=
  parseCommand_reply (by rw [batchFrame_length]; decide) rfl

theorem batchFrame_not_honoured :
    ¬ HonoursBatch (replyLibrary batchFrame batchCommand) (.default false) batchFrame
      batchCommand :=
  batch_not_honoured _ _ _ _ parseCommand_batchFrame rfl rfl

theorem batchFrame_refused :
    parseCommand (replyLibrary batchFrame batchCommand).fromSlice batchFrame = .ok batchCommand ∧
    batchCommand.inner.length = 1 ∧
    ¬ HonoursBatch (replyLibrary batchFrame batchCommand) (.default false) batchFrame
      batchCommand := by
  refine ⟨parseCommand_batchFrame, rfl, ?_⟩
  intro h
  obtain ⟨r, s', rs, hr, -, hrep⟩ := h
  rw [answerFrame_single parseCommand_batchFrame] at hr
  cases hr
  exact not_reports rfl hrep

end PicoConduit
