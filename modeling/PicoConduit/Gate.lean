import PicoConduit.Batch

namespace PicoConduit
open Checked Heapless Utf8 Transducer
set_option autoImplicit true

/-- The libraries behind the two codecs: what JSON and postcard read from a frame. -/
structure Codecs where
  fromSlice : Bytes → Option Command
  fromBytes : Bytes → Option Command

/-- `PostcardCodec::parse_command`. -/
def postcardParseCommand (fromBytes : Bytes → Option Command) (bytes : Bytes) :
    Except ErrorCode Command :=
  match fromBytes bytes with
  | some cmd => .ok cmd
  | none => .error .malformedJson

/-- What the device does with a frame that one of its parsers reads. -/
def enterFrame (parse : Bytes → Except ErrorCode Command) (s : DeviceState) (frame : Bytes) :
    Exec (Response × DeviceState) :=
  match parse frame with
  | .error code => pure (.failure "" code, s)
  | .ok cmd => execute s cmd

/-- An inner command of a batch whose size `dispatch_batch` accepts. -/
structure BatchElement where
  batch : Command
  before : List CommandInner
  inner : CommandInner
  after : List CommandInner
  place : batch.inner = before ++ inner :: after
  fits : batch.inner.length ≤ maxBatchSize

/-- The batch without the element. -/
def BatchElement.without (e : BatchElement) : Command :=
  { e.batch with
    commands := some ⟨e.before ++ e.after, by
      have hfits := e.fits
      rw [e.place, List.length_append, List.length_cons] at hfits
      rw [List.length_append]
      omega⟩ }

/-- The ways in which a command can enter the system. -/
inductive Entry
  | json (frame : Bytes)
  | postcard (frame : Bytes)
  | batchElement (e : BatchElement)

def Entry.isJson : Entry → Bool
  | .json _ => true
  | _ => false

/-- The command that an entry carries, whether or not it is let in. -/
def Entry.command (lib : Codecs) : Entry → Option Command
  | .json frame => if frame.length ≤ maxMsgLen then lib.fromSlice frame else none
  | .postcard frame => lib.fromBytes frame
  | .batchElement e => some e.inner.toCommand

/-- The command is rejected with an error where it enters, and leaves no trace in the state: a
batch comes to the same state without it. -/
def Entry.Rejects (lib : Codecs) (s : DeviceState) (code : ErrorCode) : Entry → Prop
  | .json frame => enterFrame (parseCommand lib.fromSlice) s frame = .ok (.failure "" code, s)
  | .postcard frame =>
    enterFrame (postcardParseCommand lib.fromBytes) s frame = .ok (.failure "" code, s)
  | .batchElement e => ∃ b b' s' r, dispatchBatch s e.batch = .ok (b, s') ∧
      dispatchBatch s e.without = .ok (b', s') ∧
      b.responses.toList[e.before.length]? = some r ∧ r.ok = false ∧ r.error = some code

def versionError (cmd : Command) : ErrorCode :=
  if cmd.version = none then .missingVersion else .unsupportedVersion

/-- A command of no or another version is rejected for its version, and the state stays as it
is. -/
def Gated (lib : Codecs) (s : DeviceState) (e : Entry) : Prop :=
  ∀ cmd, e.command lib = some cmd → cmd.version ≠ some 1 → e.Rejects lib s (versionError cmd)

theorem versionError_ofVersion (cmd : Command) : (versionError cmd).ofVersion = true := by
  rw [versionError]
  split <;> rfl

theorem checkVersion_error {cmd : Command} (hv : cmd.version ≠ some 1) :
    cmd.checkVersion = .error (versionError cmd) := by
  simp only [Command.checkVersion, versionError]
  split
  · simp [*]
  · exact absurd ‹_› hv
  · simp [*]

theorem parseCommand_version (hl : frame.length ≤ maxMsgLen) (hf : fromSlice frame = some cmd)
    (hv : cmd.version ≠ some 1) :
    parseCommand fromSlice frame = .error (versionError cmd) := by
  simp only [parseCommand, gt_iff_lt, Nat.not_lt.2 hl, ↓reduceIte, hf, checkVersion_error hv]

theorem execute_not_versionError (h : execute s cmd = .ok (r, s')) (c : Command) :
    r.error ≠ some (versionError c) := by
  intro he
  have hfalse := execute_unversioned h he
  rw [versionError_ofVersion] at hfalse
  cases hfalse

/-- None of the responses of a batch that is executed is a refusal for the version. -/
theorem dispatchBatch_not_versionError (h₁ : 1 ≤ batch.inner.length)
    (h₂ : batch.inner.length ≤ maxBatchSize) (h : dispatchBatch s batch = .ok (b, s'))
    (hr : r ∈ b.responses.toList) (c : Command) : r.error ≠ some (versionError c) := by
  obtain ⟨-, hsteps⟩ := (dispatchBatch_eq_ok h₁ h₂).1 h
  have hall := hsteps.along_iff (P := fun _ _ => True)
    (R := fun r => r.error ≠ some (versionError c))
    fun _ _ _ _ he => iff_of_true trivial (execute_not_versionError he c)
  exact hall.1 along_true r hr

theorem gated_iff (lib : Codecs) (s : DeviceState) (e : Entry) :
    Gated lib s e ↔
      ∀ cmd, e.command lib = some cmd → cmd.version ≠ some 1 → e.isJson = true := by
  constructor
  · intro h cmd hc hv
    have hrejects := h cmd hc hv
    cases e with
    | json frame => rfl
    | postcard frame =>
      simp only [Entry.command] at hc
      simp only [Entry.Rejects, enterFrame, postcardParseCommand, hc] at hrejects
      exact absurd rfl (execute_not_versionError hrejects cmd)
    | batchElement e =>
      obtain ⟨b, -, s', r, hb, -, hr, -, he⟩ := hrejects
      have hpos : 1 ≤ e.batch.inner.length := by
        rw [e.place, List.length_append, List.length_cons]
        omega
      exact absurd he (dispatchBatch_not_versionError hpos e.fits hb (List.mem_of_getElem? hr) cmd)
  · intro h cmd hc hv
    have hjson := h cmd hc hv
    cases e with
    | json frame =>
      simp only [Entry.command] at hc
      split at hc
      · have hr := parseCommand_version ‹_› hc hv
        simp only [Entry.Rejects, enterFrame, hr, pure_eq]
      · cases hc
    | postcard frame => cases hjson
    | batchElement e => cases hjson

def rebootInner : CommandInner where
  id := "1"
  interface := some "system"
  action := some "reboot_to_bootloader"

def rebootBatch : Command where
  version := some 1
  id := "b"
  interface := some "batch"
  action := some "run"
  commands := some ⟨[rebootInner], by decide⟩

def rebootElement : BatchElement where
  batch := rebootBatch
  before := []
  inner := rebootInner
  after := []
  place := rfl
  fits := by decide

theorem rebootElement_not_gated :
    ¬ Gated ⟨fun _ => none, fun _ => none⟩ (.default false) (.batchElement rebootElement) := by
  intro h
  obtain ⟨b, b', s', r, hb, -, hr, hok, -⟩ := h rebootInner.toCommand rfl (by decide)
  cases hb
  cases hr
  cases hok

end PicoConduit
