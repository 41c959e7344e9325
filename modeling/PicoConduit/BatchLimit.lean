import PicoConduit.Batch

namespace PicoConduit
open Checked Heapless Utf8
set_option autoImplicit true

/-- What the text of a frame says: the fields of a command, and as many inner commands as it
lists. -/
structure Document where
  fields : Command
  elements : Option (List CommandInner)
  deriving DecidableEq

/-- Read the inner commands into a vector, which fails when it cannot hold them all. -/
def Document.toCommand (doc : Document) : Option Command :=
  match doc.elements with
  | none => some { doc.fields with commands := none }
  | some elements =>
    (HVec.empty.extendFromSlice elements).map fun cmds =>
      { doc.fields with commands := some cmds }

/-- A JSON library that reads a document from a frame or rejects it, into vectors of bounded
capacity. -/
def boundedReader (read : Bytes → Option Document) (frame : Bytes) : Option Command :=
  (read frame).bind Document.toCommand

inductive BatchOutcome
  | notParsed (e : ErrorCode)
  | notRouted (r : Response)
  | answered (b : BatchResponse)
  deriving DecidableEq

/-- `parse_command`, `validate_route` and `dispatch_batch` on one frame. -/
def batchOutcome (fromSlice : Bytes → Option Command) (s : DeviceState) (frame : Bytes) :
    Exec (BatchOutcome × DeviceState) :=
  match parseCommand fromSlice frame with
  | .error e => pure (.notParsed e, s)
  | .ok cmd =>
    match validateRoute cmd with
    | .error r => pure (.notRouted r, s)
    | .ok _ => do
      let (b, s) ← dispatchBatch s cmd
      pure (.answered b, s)

structure Document.BatchRun (doc : Document) (elements : List CommandInner) : Prop where
  version : doc.fields.version = some 1
  interface : doc.fields.interface = some "batch"
  action : doc.fields.action = some "run"
  elements : doc.elements = some elements

/-- The batch is refused as too large, under its own id, and no inner command is executed. -/
def ReportedTooLarge (fromSlice : Bytes → Option Command) (s : DeviceState) (frame : Bytes)
    (id : String) : Prop :=
  batchOutcome fromSlice s frame = .ok (.answered ⟨id, false, .empty, some .batchTooLarge⟩, s)

/-- A list that the vector cannot hold is malformed JSON to the parser. -/
theorem batchOutcome_notParsed {read : Bytes → Option Document} {doc : Document}
    (hread : read frame = some doc) (hlen : frame.length ≤ maxMsgLen)
    (hdoc : doc.BatchRun elements) (hn : maxBatchSize + 1 < elements.length) :
    batchOutcome (boundedReader read) s frame = .ok (.notParsed .malformedJson, s) := by
  have hnone : boundedReader read frame = none := by
    simp only [boundedReader, hread, Option.bind_some, Document.toCommand, hdoc.elements,
      HVec.extend_empty_of_lt hn, Option.map_none]
  have hparse : parseCommand (boundedReader read) frame = .error .malformedJson := by
    simp only [parseCommand, Nat.not_lt.2 hlen, hnone, ↓reduceIte]
  simp only [batchOutcome, hparse, pure_eq]

/-- A list with exactly one command too many is parsed, and refused when it is dispatched. -/
theorem batchOutcome_tooLarge {read : Bytes → Option Document} {doc : Document}
    (hread : read frame = some doc) (hlen : frame.length ≤ maxMsgLen)
    (hdoc : doc.BatchRun elements) (hn : elements.length = maxBatchSize + 1) :
    ReportedTooLarge (boundedReader read) s frame doc.fields.id := by
  obtain ⟨cmds, hext, hlist⟩ := HVec.extend_empty (Nat.le_of_eq hn)
  have hcmd : boundedReader read frame = some { doc.fields with commands := some cmds } := by
    simp only [boundedReader, hread, Option.bind_some, Document.toCommand, hdoc.elements, hext,
      Option.map_some]
  have hparse := parseCommand_eq_ok.2 ⟨hlen, hcmd, hdoc.version⟩
  have hroute : validateRoute { doc.fields with commands := some cmds } =
      .ok ("batch", "run") := by
    simp only [validateRoute, hdoc.interface, hdoc.action]
    rfl
  have hlarge : maxBatchSize <
      ({ doc.fields with commands := some cmds } : Command).inner.length := by
    rw [Command.inner_of_some rfl, hlist, hn]
    exact Nat.lt_succ_self _
  simp only [ReportedTooLarge, batchOutcome, hparse, hroute, dispatchBatch_tooLarge hlarge,
    ok_bind, pure_eq]

/-- A batch with more than 16 commands is reported as too large exactly when it has 17. -/
theorem too_large_reported_iff (read : Bytes → Option Document) (s : DeviceState) (frame : Bytes)
    (doc : Document) (elements : List CommandInner) (hread : read frame = some doc)
    (hlen : frame.length ≤ maxMsgLen) (hdoc : doc.BatchRun elements)
    (hn : maxBatchSize < elements.length) :
    ReportedTooLarge (boundedReader read) s frame doc.fields.id ↔
      elements.length = maxBatchSize + 1 := by
  constructor
  · intro h
    by_contra hne
    have hout := batchOutcome_notParsed (s := s) hread hlen hdoc (by omega)
    rw [ReportedTooLarge, hout] at h
    cases h
  · exact batchOutcome_tooLarge hread hlen hdoc

def minimalFrame (n : Nat) : Bytes :=
  asBytes ("\x7b\"version\":1,\"id\":\"b\",\"interface\":\"batch\",\"action\":\"run\"," ++
    "\"commands\":[" ++ ",".intercalate (List.replicate n "\x7b\"id\":\"0\"\x7d") ++ "]\x7d")

def minimalDocument (n : Nat) : Document where
  fields := {
    version := some 1
    id := "b"
    interface := some "batch"
    action := some "run" }
  elements := some (List.replicate n { id := "0" })

/-- A JSON library as far as one frame is concerned. -/
def minimalReader (n : Nat) (frame : Bytes) : Option Document :=
  if frame = minimalFrame n then some (minimalDocument n) else none

theorem minimalDocument_batchRun (n : Nat) :
    (minimalDocument n).BatchRun (List.replicate n { id := "0" }) := ⟨rfl, rfl, rfl, rfl⟩

theorem minimalFrame_length : (minimalFrame 17).length = 257 ∧ (minimalFrame 18).length = 268 := by
  decide +kernel

theorem seventeen_reported :
    ReportedTooLarge (boundedReader (minimalReader 17)) (.default false) (minimalFrame 17) "b" := by
  refine (too_large_reported_iff _ _ _ _ _ (if_pos rfl) ?_ (minimalDocument_batchRun 17) ?_).2 ?_
  · rw [minimalFrame_length.1]
    decide
  · rw [List.length_replicate]
    decide
  · exact List.length_replicate

theorem eighteen_not_reported : (minimalFrame 18).length ≤ maxMsgLen ∧
    minimalReader 18 (minimalFrame 18) = some (minimalDocument 18) ∧
    (minimalDocument 18).BatchRun (List.replicate 18 { id := "0" }) ∧
    ¬ ReportedTooLarge (boundedReader (minimalReader 18)) (.default false) (minimalFrame 18)
      "b" := by
  have hlen : (minimalFrame 18).length ≤ maxMsgLen := by
    rw [minimalFrame_length.2]
    decide
  refine ⟨hlen, if_pos rfl, minimalDocument_batchRun 18, fun h => ?_⟩
  have hlarge : maxBatchSize + 1 < (List.replicate 18 ({ id := "0" } : CommandInner)).length := by
    rw [List.length_replicate]
    decide
  rw [ReportedTooLarge, batchOutcome_notParsed (if_pos rfl) hlen (minimalDocument_batchRun 18)
    hlarge] at h
  cases h

end PicoConduit
