import PicoConduit.Backoff
import PicoConduit.Checked
import PicoConduit.Transducer

namespace PicoConduit
open Checked Transducer Backoff
set_option autoImplicit true

def maxReconnectSecs : UInt16 := 600

/-- In seconds. -/
def backoffDuration (attempt : UInt8) : Nat :=
  match attempt.toNat with
  | 0 => 5
  | 1 => 10
  | 2 => 20
  | 3 => 40
  | _ => 60

inductive LedState
  | booting
  | provisioning
  | scanning
  | connecting
  | connected
  | reconnecting
  | error
  | saving
  | rebooting
  | mqttConnecting
  | mqttConnected
  deriving DecidableEq, Repr

/-- What a turn of `tcp_server` or `ws_server` does, with all of the serving of a client as one. -/
inductive Effect
  | led (state : LedState)
  | accept (port : Nat)
  | serve
  | abort
  | log (text : String)
  | wait (secs : Nat)
  deriving DecidableEq, Repr

/-- The values in which the two servers differ. -/
structure AcceptLoop where
  port : Nat
  afterClient : List Effect
  acceptError : String
  gaveUp : String
  retrying : String

def tcpServer : AcceptLoop where
  port := 4242
  afterClient := []
  acceptError := "accept() error"
  gaveUp := "Connection failed 10 min — SOS"
  retrying := "reconnect attempt "

def wsServer : AcceptLoop where
  port := 4243
  afterClient := [.abort]
  acceptError := "WS accept() error"
  gaveUp := "WS connection failed 10 min — SOS"
  retrying := "WS reconnect attempt "

structure Retry where
  reconnectAttempt : UInt8
  totalOfflineSecs : UInt16
  deriving DecidableEq, Repr

/-- Where a server is: in its accept loop, or in the loop that it never leaves. -/
inductive Progress
  | running (retry : Retry)
  | stopped
  deriving DecidableEq, Repr

def Progress.start : Progress := .running ⟨0, 0⟩

def Retry.attempt (r : Retry) : UInt8 := UInt8.ofNat (min 255 (r.reconnectAttempt.toNat + 1))

def Retry.offline (r : Retry) (secs : UInt16) : UInt16 :=
  UInt16.ofNat (min 65535 (r.totalOfflineSecs.toNat + secs.toNat))

/-- The arm of a failed `accept`. -/
def acceptFailed (L : AcceptLoop) (r : Retry) : List Effect × Progress :=
  let backoff := backoffDuration r.reconnectAttempt
  let secs := UInt16.ofNat backoff
  let totalOfflineSecs := r.offline secs
  if totalOfflineSecs ≥ maxReconnectSecs then
    ([.log L.acceptError, .abort, .log L.gaveUp], .stopped)
  else
    ([.log L.acceptError, .abort,
      .log (L.retrying ++ toString r.reconnectAttempt ++ " after " ++ toString secs ++ "s"),
      .led .reconnecting, .wait backoff], .running ⟨r.attempt, totalOfflineSecs⟩)

/-- A turn of a server, for an `accept` that succeeds or fails. -/
def acceptTurn (L : AcceptLoop) (x : Progress) (accepted : Bool) : Exec (List Effect × Progress) :=
  match x with
  | .running r =>
    if accepted then
      pure ([.led .connected, .accept L.port, .serve] ++ L.afterClient, .running ⟨0, 0⟩)
    else
      let (effects, next) := acceptFailed L r
      pure ([.led .connected, .accept L.port] ++ effects, next)
  | .stopped => pure ([.led .error, .wait 30], .stopped)

def Effect.secs : Effect → Nat
  | .wait secs => secs
  | _ => 0

/-- What a turn waits. -/
def waited (effects : List Effect) : Nat :=
  effects.foldr (fun effect secs => effect.secs + secs) 0

/-- What has been waited since a client was last served. -/
def waitedSince (turns : List (List Effect)) : Nat :=
  turns.foldl (fun secs effects => if .serve ∈ effects then 0 else secs + waited effects) 0

/-- The policy at one point of a run: the counters say what happened since the last success without
having been held back, and a failure is answered by the delay that is due or, once ten minutes have
been waited, by giving up. -/
structure PolicyAt (L : AcceptLoop) (past : List Bool) (turns : List (List Effect)) (r : Retry)
    (accepted : Bool) : Prop where
  attempt : r.reconnectAttempt.toNat = min 255 (streak past)
  offline : r.totalOfflineSecs.toNat = waitedSince turns
  attempt_fits : r.reconnectAttempt.toNat + 1 ≤ 255
  offline_fits : r.totalOfflineSecs.toNat + backoffDuration r.reconnectAttempt ≤ 65535
  failed : accepted = false → ∀ effects next,
    acceptTurn L (.running r) accepted = .ok (effects, next) →
    (next = .stopped ↔ 600 ≤ waitedSince turns) ∧
      (next ≠ .stopped → waited effects = delay 5 60 (streak past))

/-- The policy along a whole run. -/
def PolicyKept (L : AcceptLoop) (outcomes : List Bool) : Prop :=
  ∀ past accepted later turns r, outcomes = past ++ accepted :: later →
    Steps (acceptTurn L) .start past turns (.running r) → PolicyAt L past turns r accepted

theorem delay_capped (n : Nat) : delay 5 60 (n + 4) = 60 := by
  induction n with
  | zero => rfl
  | succ n ih => rw [delay, ih]; rfl

theorem backoffDuration_eq (attempt : UInt8) :
    backoffDuration attempt = delay 5 60 attempt.toNat := by
  rw [backoffDuration]
  rcases attempt.toNat with _ | _ | _ | _ | n
  case succ.succ.succ.succ => exact (delay_capped n).symm
  all_goals rfl

/-- Twelve failures leave the device below ten minutes, and a thirteenth reaches them. -/
theorem total_reaches_iff : 600 ≤ total (delay 5 60) k ↔ 13 ≤ k := by
  constructor
  · intro h
    by_contra hk
    have hmono := total_mono (delay 5 60) (Nat.le_of_lt_succ (Nat.not_le.1 hk))
    have htwelve : total (delay 5 60) 12 = 555 := rfl
    omega
  · intro hk
    have hmono := total_mono (delay 5 60) hk
    have hthirteen : total (delay 5 60) 13 = 615 := rfl
    omega

/-- What the counters say of a run so far; a device that has given up has seen thirteen failures
in a row. -/
def Counted (past : List (Bool × List Effect)) : Progress → Prop
  | .running r => r.reconnectAttempt.toNat = streak (past.map Prod.fst) ∧
      streak (past.map Prod.fst) ≤ 12 ∧
      r.totalOfflineSecs.toNat = waitedSince (past.map Prod.snd) ∧
      waitedSince (past.map Prod.snd) = total (delay 5 60) (streak (past.map Prod.fst))
  | .stopped => List.replicate 13 false <:+: past.map Prod.fst

theorem waitedSince_serve (turns : List (List Effect)) (h : Effect.serve ∈ effects) :
    waitedSince (turns ++ [effects]) = 0 := by
  rw [waitedSince, List.foldl_append, List.foldl_cons, List.foldl_nil, if_pos h]

theorem waitedSince_wait (turns : List (List Effect)) (h : Effect.serve ∉ effects) :
    waitedSince (turns ++ [effects]) = waitedSince turns + waited effects := by
  rw [waitedSince, List.foldl_append, List.foldl_cons, List.foldl_nil, if_neg h]
  rfl

/-- After up to twelve failures no counter is held back. -/
theorem offline_toNat {r : Retry} (hattempt : r.reconnectAttempt.toNat = k) (hk : k ≤ 12)
    (hoffline : r.totalOfflineSecs.toNat = total (delay 5 60) k) :
    (r.offline (UInt16.ofNat (backoffDuration r.reconnectAttempt))).toNat =
      total (delay 5 60) (k + 1) := by
  have hbound : total (delay 5 60) (k + 1) ≤ total (delay 5 60) 13 :=
    total_mono _ (Nat.succ_le_succ hk)
  have hthirteen : total (delay 5 60) 13 = 615 := rfl
  have hdelay : delay 5 60 k ≤ 60 := delay_le (by decide) k
  have hsum : total (delay 5 60) (k + 1) = total (delay 5 60) k + delay 5 60 k := rfl
  rw [Retry.offline, backoffDuration_eq, hattempt, hoffline, UInt16.toNat_ofNat',
    UInt16.toNat_ofNat']
  omega

theorem attempt_toNat {r : Retry} (hattempt : r.reconnectAttempt.toNat = k) (hk : k ≤ 12) :
    r.attempt.toNat = k + 1 := by
  rw [Retry.attempt, hattempt, UInt8.toNat_ofNat']
  omega

theorem acceptFailed_twelve (L : AcceptLoop) {r : Retry} (hattempt : r.reconnectAttempt.toNat = 12)
    (hoffline : r.totalOfflineSecs.toNat = total (delay 5 60) 12) :
    (acceptFailed L r).2 = .stopped := by
  have hsum := offline_toNat hattempt (Nat.le_refl 12) hoffline
  have hreached : r.offline (UInt16.ofNat (backoffDuration r.reconnectAttempt)) ≥
      maxReconnectSecs := by
    rw [ge_iff_le, UInt16.le_iff_toNat_le, hsum]
    decide
  rw [acceptFailed, if_pos hreached]

theorem acceptFailed_waits (L : AcceptLoop) {r : Retry} (hattempt : r.reconnectAttempt.toNat = k)
    (hk : k < 12) (hoffline : r.totalOfflineSecs.toNat = total (delay 5 60) k) :
    ∃ effects r', acceptFailed L r = (effects, .running r') ∧ Effect.serve ∉ effects ∧
      waited effects = delay 5 60 k ∧ r'.reconnectAttempt.toNat = k + 1 ∧
      r'.totalOfflineSecs.toNat = total (delay 5 60) (k + 1) := by
  have hsum := offline_toNat hattempt (Nat.le_of_lt hk) hoffline
  have hbelow : ¬ r.offline (UInt16.ofNat (backoffDuration r.reconnectAttempt)) ≥
      maxReconnectSecs := by
    have hlimit : maxReconnectSecs.toNat = 600 := rfl
    rw [ge_iff_le, UInt16.le_iff_toNat_le, hsum, hlimit, total_reaches_iff]
    omega
  refine ⟨_, _, if_neg hbelow, ?_, ?_, attempt_toNat hattempt (Nat.le_of_lt hk), hsum⟩
  · simp
  · rw [← hattempt, ← backoffDuration_eq]
    simp [waited, Effect.secs]

theorem acceptTurn_failed (L : AcceptLoop) (r : Retry) :
    acceptTurn L (.running r) false =
      .ok ([.led .connected, .accept L.port] ++ (acceptFailed L r).1, (acceptFailed L r).2) := rfl

/-- One turn keeps the account. -/
theorem acceptTurn_counted (L : AcceptLoop) {past : List (Bool × List Effect)} {x : Progress}
    (hx : Counted past x) (h : acceptTurn L x accepted = .ok (effects, x')) :
    Counted (past ++ [(accepted, effects)]) x' := by
  cases x with
  | stopped =>
    cases h
    rw [Counted, List.map_append]
    exact hx.trans (List.prefix_append _ _).isInfix
  | running r =>
    obtain ⟨hattempt, hstreak, hoffline, hsum⟩ := hx
    cases accepted with
    | true =>
      cases h
      simp only [Counted, List.map_append, List.map_cons, List.map_nil, streak_success]
      rw [waitedSince_serve _ (by simp)]
      exact ⟨rfl, Nat.zero_le _, rfl, rfl⟩
    | false =>
      rw [acceptTurn_failed] at h
      by_cases hk : streak (past.map Prod.fst) = 12
      · rw [acceptFailed_twelve L (hattempt.trans hk) (hoffline.trans (hk ▸ hsum))] at h
        cases h
        refine failures_infix_iff.2 ⟨_, List.prefix_rfl, ?_⟩
        rw [List.map_append, List.map_cons, List.map_nil, streak_failure, hk]
      · obtain ⟨effects', r', hfailed, hserve, hwaited, hnext, htotal⟩ :=
          acceptFailed_waits L hattempt (by omega) (hoffline.trans hsum)
        rw [hfailed] at h
        cases h
        simp only [Counted, List.map_append, List.map_cons, List.map_nil, streak_failure]
        rw [waitedSince_wait _ (by simp [hserve])]
        have hdelay : waited ([.led .connected, .accept L.port] ++ effects') =
            delay 5 60 (streak (past.map Prod.fst)) := by
          rw [← hwaited]
          simp [waited, Effect.secs]
        rw [hdelay, hsum]
        exact ⟨hnext, by omega, htotal, rfl⟩

theorem run_counted (h : Steps (acceptTurn L) .start outcomes turns x) :
    Counted (outcomes.zip turns) x :=
  have hstart : Counted [] .start := ⟨rfl, Nat.zero_le _, rfl, rfl⟩
  h.history Counted (fun _ _ _ _ _ hx hstep => acceptTurn_counted L hx hstep) hstart

theorem run_running (h : Steps (acceptTurn L) .start outcomes turns (.running r)) :
    r.reconnectAttempt.toNat = streak outcomes ∧ streak outcomes ≤ 12 ∧
      r.totalOfflineSecs.toNat = waitedSince turns ∧
      waitedSince turns = total (delay 5 60) (streak outcomes) := by
  have hcounted := run_counted h
  have hlength := h.length_eq
  rwa [Counted, List.map_fst_zip (by omega), List.map_snd_zip (by omega)] at hcounted

theorem policyAt_of_lt (h : Steps (acceptTurn L) .start past turns (.running r))
    (hfew : accepted = false → streak past < 12) : PolicyAt L past turns r accepted := by
  obtain ⟨hattempt, hle, hoffline, hsum⟩ := run_running h
  have hdelay : delay 5 60 (streak past) ≤ 60 := delay_le (by decide) (streak past)
  have htwelve : total (delay 5 60) 12 = 555 := rfl
  have hmono := total_mono (delay 5 60) hle
  refine ⟨?_, hoffline, ?_, ?_, fun hfail effects next hturn => ?_⟩
  · rw [hattempt]
    omega
  · rw [hattempt]
    omega
  · rw [backoffDuration_eq, hattempt, hoffline, hsum]
    omega
  · subst hfail
    have hstreak := hfew rfl
    have hbelow : ¬ 600 ≤ waitedSince turns := by
      rw [hsum, total_reaches_iff]
      omega
    obtain ⟨effects', r', hfailed, -, hwaited, -⟩ :=
      acceptFailed_waits L hattempt hstreak (hoffline.trans hsum)
    rw [acceptTurn_failed, hfailed] at hturn
    cases hturn
    refine ⟨⟨fun hstop => ?_, fun hten => absurd hten hbelow⟩, fun _ => ?_⟩
    · cases hstop
    · rw [← hwaited]
      simp [waited, Effect.secs]

/-- The thirteenth failure in a row is answered by giving up after less than ten minutes. -/
theorem not_policyAt (h : Steps (acceptTurn L) .start past turns (.running r))
    (hstop : (acceptFailed L r).2 = .stopped) : ¬ PolicyAt L past turns r false := by
  intro hpolicy
  obtain ⟨hattempt, hle, hoffline, hsum⟩ := run_running h
  have hturn := acceptTurn_failed L r
  rw [hstop] at hturn
  have hten := (hpolicy.failed rfl _ _ hturn).1.1 rfl
  rw [hsum, total_reaches_iff] at hten
  omega

theorem acceptTurn_total (L : AcceptLoop) (x : Progress) (accepted : Bool) :
    ∃ effects x', acceptTurn L x accepted = .ok (effects, x') := by
  cases x with
  | stopped => exact ⟨_, _, rfl⟩
  | running r =>
    cases accepted with
    | true => exact ⟨_, _, rfl⟩
    | false => exact ⟨_, _, acceptTurn_failed L r⟩

theorem exists_run (L : AcceptLoop) (outcomes : List Bool) :
    ∃ turns x, Steps (acceptTurn L) .start outcomes turns x :=
  exists_steps_iff.2 (along_true.mono fun x accepted _ => acceptTurn_total L x accepted)

/-- A run that ends given up has a failure at which the device gave up. -/
theorem exists_giving_up (h : Steps (acceptTurn L) x outcomes turns .stopped)
    (hx : x ≠ .stopped) :
    ∃ past later ts r, outcomes = past ++ false :: later ∧
      Steps (acceptTurn L) x past ts (.running r) ∧ (acceptFailed L r).2 = .stopped := by
  generalize hend : Progress.stopped = final at h
  induction h with
  | nil => exact absurd hend.symm hx
  | @cons x accepted effects x' outcomes turns final hturn hrest ih =>
    cases x' with
    | running r' =>
      obtain ⟨past, later, ts, r, rfl, hpast, hstop⟩ := ih (by simp) hend
      exact ⟨accepted :: past, later, effects :: ts, r, rfl, .cons hturn hpast, hstop⟩
    | stopped =>
      cases x with
      | stopped => exact absurd rfl hx
      | running r =>
        cases accepted with
        | true => cases hturn
        | false =>
          rw [acceptTurn_failed] at hturn
          exact ⟨[], outcomes, [], r, rfl, .nil, (Prod.mk.inj (Except.ok.inj hturn)).2.trans hend⟩

theorem policyKept_iff (L : AcceptLoop) (outcomes : List Bool) :
    PolicyKept L outcomes ↔ ¬ List.replicate 13 false <:+: outcomes := by
  constructor
  · intro hkept hfailures
    obtain ⟨past, ⟨rest, rfl⟩, hstreak⟩ := failures_infix_iff.1 hfailures
    obtain ⟨turns, x, hrun⟩ := exists_run L past
    cases x with
    | running r => exact absurd hstreak (Nat.not_le.2 (Nat.lt_succ_of_le (run_running hrun).2.1))
    | stopped =>
      obtain ⟨before, later, ts, r, rfl, hbefore, hstop⟩ :=
        exists_giving_up hrun (by simp [Progress.start])
      refine not_policyAt hbefore hstop (hkept before false (later ++ rest) ts r ?_ hbefore)
      rw [List.append_assoc]
      rfl
  · intro hfew past accepted later turns r houtcomes hrun
    refine policyAt_of_lt hrun fun hfail => Nat.lt_of_not_le fun hstreak => hfew ?_
    subst hfail houtcomes
    refine failures_infix_iff.2 ⟨past ++ [false], ⟨later, List.append_assoc _ _ _⟩, ?_⟩
    rw [streak_failure]
    exact Nat.succ_le_succ hstreak

/-- Both servers keep to the ten minutes exactly as long as no thirteen attempts in a row fail. -/
theorem ten_minutes_iff (outcomes : List Bool) :
    (PolicyKept tcpServer outcomes ↔ ¬ List.replicate 13 false <:+: outcomes) ∧
    (PolicyKept wsServer outcomes ↔ ¬ List.replicate 13 false <:+: outcomes) :=
  ⟨policyKept_iff tcpServer outcomes, policyKept_iff wsServer outcomes⟩

theorem gives_up_early :
    ¬ PolicyKept tcpServer (List.replicate 13 false) ∧
    ¬ PolicyKept wsServer (List.replicate 13 false) :=
  ⟨fun h => (policyKept_iff _ _).1 h List.infix_rfl,
    fun h => (policyKept_iff _ _).1 h List.infix_rfl⟩

end PicoConduit
