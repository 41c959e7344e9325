import PicoConduit.Reconnect
import PicoConduit.Signal

namespace PicoConduit
open Trace
set_option autoImplicit true

/-- A level of the LED, and for how many milliseconds. -/
abbrev LedStep := Bool × UInt16

def bootingSteps : List LedStep :=
  [(true, 100), (false, 100), (true, 100), (false, 100), (true, 100), (false, 100), (false, 1000)]

def provisioningSteps : List LedStep := [(true, 1000), (false, 1000)]

def scanningSteps : List LedStep :=
  [(true, 100), (false, 100), (true, 100), (false, 100), (false, 700)]

def connectingSteps : List LedStep := [(true, 100), (false, 100)]

def reconnectingSteps : List LedStep := [(true, 250), (false, 250)]

def mqttConnectingSteps : List LedStep :=
  [(true, 80), (false, 80), (true, 80), (false, 80), (true, 80), (false, 80), (false, 500)]

def savingSteps : List LedStep :=
  [(true, 100), (false, 100), (true, 100), (false, 100), (true, 100), (false, 100),
    (true, 100), (false, 100), (true, 100), (false, 100)]

def rebootingSteps : List LedStep :=
  [(true, 50), (false, 50), (true, 50), (false, 50), (true, 50), (false, 50), (true, 50),
    (false, 50), (true, 50), (false, 50), (true, 50), (false, 50), (true, 50), (false, 50),
    (true, 50), (false, 50), (true, 50), (false, 50), (true, 50), (false, 50)]

def sosTiming : List LedStep :=
  [(true, 100), (false, 100), (true, 100), (false, 100), (true, 100), (false, 300),
    (true, 300), (false, 100), (true, 300), (false, 100), (true, 300), (false, 300),
    (true, 100), (false, 100), (true, 100), (false, 100), (true, 100), (false, 2000)]

inductive LedPattern
  | solid (on : Bool)
  | repeats (steps : List LedStep)
  | oneShot (steps : List LedStep)
  deriving DecidableEq

def LedState.pattern : LedState → LedPattern
  | .booting => .repeats bootingSteps
  | .provisioning => .repeats provisioningSteps
  | .scanning => .repeats scanningSteps
  | .connecting => .repeats connectingSteps
  | .connected => .solid true
  | .mqttConnected => .solid true
  | .reconnecting => .repeats reconnectingSteps
  | .error => .repeats sosTiming
  | .saving => .oneShot savingSteps
  | .rebooting => .oneShot rebootingSteps
  | .mqttConnecting => .repeats mqttConnectingSteps

/-- What the LED task does between two looks at its signal. -/
inductive LedOp
  | set (on : Bool)
  | sleep (ms : UInt16)
  deriving DecidableEq

/-- The `for` loop over the steps of a pattern. -/
def playSteps (steps : List LedStep) : List LedOp :=
  steps.flatMap fun (on, ms) => [.set on, .sleep ms]

/-- One round of a pattern. -/
def LedPattern.round : LedPattern → List LedOp
  | .solid on => [.set on]
  | .repeats steps => playSteps steps
  | .oneShot steps => playSteps steps ++ [.set false]

/-- Where `led_task` is: at `LED_SIGNAL.wait()`, or in a round of a pattern. -/
inductive LedTask
  | waiting
  | playing (pattern : LedPattern) (rest : List LedOp)
  deriving DecidableEq

/-- What happens to the LED, its signal and `CONTROL_MUTEX`, which other tasks hold and release; a
round that is over has no effect of its own. -/
inductive LedEvent
  | signal (state : LedState)
  | hold
  | release
  | take (state : LedState)
  | op (op : LedOp)
  | finished
  deriving DecidableEq

/-- The signal, the LED task, and whether another task holds `CONTROL_MUTEX`. -/
structure Led where
  slot : Option LedState
  task : LedTask
  held : Bool
  deriving DecidableEq

def Led.start : Led := ⟨none, .waiting, false⟩

/-- The next thing that `led_task` does, unless it waits: for a signal, or in `set_led` for the
mutex. -/
def Led.next (led : Led) : Option (LedEvent × Led) :=
  match led.task with
  | .waiting =>
    match led.slot with
    | some state =>
      some (.take state, ⟨none, .playing state.pattern state.pattern.round, led.held⟩)
    | none => none
  | .playing pattern (.set on :: rest) =>
    if led.held then none else some (.op (.set on), ⟨led.slot, .playing pattern rest, false⟩)
  | .playing pattern (.sleep ms :: rest) =>
    some (.op (.sleep ms), ⟨led.slot, .playing pattern rest, led.held⟩)
  | .playing (.repeats steps) [] =>
    if led.slot.isSome then some (.finished, ⟨led.slot, .waiting, led.held⟩)
    else some (.finished, ⟨led.slot, .playing (.repeats steps) (playSteps steps), led.held⟩)
  | .playing _ [] => some (.finished, ⟨led.slot, .waiting, led.held⟩)

/-- Between two things that the task does, any part of the firmware may signal, take the mutex, or
give it back. -/
inductive LedMove : Led → LedEvent → Led → Prop
  | signal : LedMove ⟨slot, task, held⟩ (.signal state) ⟨some state, task, held⟩
  | hold : LedMove ⟨slot, task, false⟩ .hold ⟨slot, task, true⟩
  | release : LedMove ⟨slot, task, true⟩ .release ⟨slot, task, false⟩
  | task (h : led.next = some (event, led')) : LedMove led event led'

def LedEvent.act : LedEvent → Option (Signal.Act LedState)
  | .signal state => some (.post state)
  | .take state => some (.take state)
  | _ => none

def LedEvent.signalled : LedEvent → Option LedState
  | .signal state => some state
  | _ => none

def LedEvent.taken : LedEvent → Option LedState
  | .take state => some state
  | _ => none

def LedEvent.level : LedEvent → Option Bool
  | .op (.set on) => some on
  | _ => none

/-- What the task has done since it last took a signal. -/
def shownSince : List LedEvent → List LedOp
  | [] => []
  | .take _ :: _ => []
  | .op op :: past => shownSince past ++ [op]
  | .signal _ :: past => shownSince past
  | .hold :: past => shownSince past
  | .release :: past => shownSince past
  | .finished :: past => shownSince past

def LedPattern.rounds (pattern : LedPattern) (n : Nat) : List LedOp :=
  (List.replicate n pattern.round).flatten

/-- A pattern that is shown once. -/
def LedPattern.Once (pattern : LedPattern) : Prop := ∀ steps, pattern ≠ .repeats steps

/-- What can happen to the LED. -/
inductive LedCases : Led → LedEvent → Led → Prop
  | signal : LedCases ⟨slot, task, held⟩ (.signal state) ⟨some state, task, held⟩
  | hold : LedCases ⟨slot, task, false⟩ .hold ⟨slot, task, true⟩
  | release : LedCases ⟨slot, task, true⟩ .release ⟨slot, task, false⟩
  | take : LedCases ⟨some state, .waiting, held⟩ (.take state)
      ⟨none, .playing state.pattern state.pattern.round, held⟩
  | op : LedCases ⟨slot, .playing pattern (op :: rest), held⟩ (.op op)
      ⟨slot, .playing pattern rest, held⟩
  | again : LedCases ⟨none, .playing (.repeats steps) [], held⟩ .finished
      ⟨none, .playing (.repeats steps) (playSteps steps), held⟩
  | finished (h : slot = none → pattern.Once) :
      LedCases ⟨slot, .playing pattern [], held⟩ .finished ⟨slot, .waiting, held⟩

theorem ledMove_cases (h : LedMove led event led') : LedCases led event led' := by
  cases h with
  | signal => exact .signal
  | hold => exact .hold
  | release => exact .release
  | task h =>
    obtain ⟨slot, task, held⟩ := led
    cases task with
    | waiting =>
      cases slot with
      | none => cases h
      | some state =>
        cases h
        exact .take
    | playing pattern rest =>
      cases rest with
      | cons op rest =>
        cases op with
        | set on =>
          cases held with
          | true => cases h
          | false =>
            cases h
            exact .op
        | sleep ms =>
          cases h
          exact .op
      | nil =>
        cases pattern with
        | solid on =>
          cases h
          exact .finished fun _ steps h => by cases h
        | oneShot steps =>
          cases h
          exact .finished fun _ steps h => by cases h
        | repeats steps =>
          cases slot with
          | none =>
            cases h
            exact .again
          | some state =>
            cases h
            exact .finished fun h => by cases h

theorem filterMap_taken (past : List LedEvent) :
    (past.filterMap LedEvent.act).filterMap Signal.Act.taken =
      past.filterMap LedEvent.taken := by
  rw [List.filterMap_filterMap]
  congr 1
  funext event
  cases event <;> rfl

theorem filterMap_signalled (past : List LedEvent) :
    (past.filterMap LedEvent.act).filterMap Signal.Act.posted =
      past.filterMap LedEvent.signalled := by
  rw [List.filterMap_filterMap]
  congr 1
  funext event
  cases event <;> rfl

theorem latest_taken (past : List LedEvent) :
    latest Signal.Act.taken (past.filterMap LedEvent.act) = latest LedEvent.taken past := by
  rw [latest, latest, ← List.head?_filterMap, ← List.head?_filterMap, filterMap_taken]

theorem latest_signalled (past : List LedEvent) :
    latest Signal.Act.posted (past.filterMap LedEvent.act) = latest LedEvent.signalled past := by
  rw [latest, latest, ← List.head?_filterMap, ← List.head?_filterMap, filterMap_signalled]

theorem run_signal (h : Run LedMove .start past led) :
    Run Signal.Step none (past.filterMap LedEvent.act) led.slot := by
  refine h.project Led.slot LedEvent.act ?_ ?_
  · intro s event s' act hs hact
    cases ledMove_cases hs with
    | signal =>
      cases hact
      exact .post
    | take =>
      cases hact
      exact .take
    | hold | release | op | again | finished => cases hact
  · intro s event s' hs hact
    cases ledMove_cases hs with
    | signal | take => cases hact
    | hold | release | op | again | finished => rfl

/-- The LED shows a state that has been taken: it is in a round of its pattern, or the pattern is
over. -/
inductive Shows (state : LedState) (shown : List LedOp) : Led → Prop
  | playing (hp : pattern = state.pattern) (h : shown ++ rest = pattern.rounds (n + 1))
      (hn : pattern.Once → n = 0) : Shows state shown ⟨slot, .playing pattern rest, held⟩
  | idle (h : shown = state.pattern.rounds (n + 1)) (hn : state.pattern.Once → n = 0)
      (hslot : slot = none → state.pattern.Once) : Shows state shown ⟨slot, .waiting, held⟩

/-- What the LED shows is the state that has been taken last. -/
def Displays (past : List LedEvent) (led : Led) : Prop :=
  match latest LedEvent.taken past with
  | none => led.task = .waiting ∧ shownSince past = []
  | some state => Shows state (shownSince past) led

theorem LedPattern.rounds_succ (pattern : LedPattern) (n : Nat) :
    pattern.rounds (n + 1) = pattern.rounds n ++ pattern.round := by
  rw [rounds, List.replicate_succ', List.flatten_concat]
  rfl

theorem displays_take (past : List LedEvent) (state : LedState) :
    Displays (.take state :: past) ⟨none, .playing state.pattern state.pattern.round, held⟩ := by
  rw [Displays, latest_cons_of_some (show LedEvent.taken (.take state) = some state from rfl)]
  exact .playing rfl (List.append_nil _).symm fun _ => rfl

theorem displays_none (ht : latest LedEvent.taken past = none) :
    Displays past led ↔ led.task = .waiting ∧ shownSince past = [] := by
  rw [Displays, ht]

theorem displays_some (ht : latest LedEvent.taken past = some state) :
    Displays past led ↔ Shows state (shownSince past) led := by
  rw [Displays, ht]

theorem displays_step (hd : Displays past led) (h : LedMove led event led') :
    Displays (event :: past) led' := by
  have hskip (he : event.taken = none) :
      latest LedEvent.taken (event :: past) = latest LedEvent.taken past :=
    latest_cons_of_none he past
  cases ht : latest LedEvent.taken past with
  | none =>
    rw [ht] at hskip
    rw [displays_none ht] at hd
    cases ledMove_cases h with
    | signal | hold | release => exact (displays_none (hskip rfl)).2 hd
    | take => exact displays_take past _
    | op | again | finished => cases hd.1
  | some state =>
    rw [ht] at hskip
    rw [displays_some ht] at hd
    cases ledMove_cases h with
    | signal =>
      rw [displays_some (hskip rfl)]
      cases hd with
      | playing hp hshown hn => exact .playing hp hshown hn
      | idle hshown hn => exact .idle hshown hn fun hnone => by cases hnone
    | hold | release =>
      rw [displays_some (hskip rfl)]
      cases hd with
      | playing hp hshown hn => exact .playing hp hshown hn
      | idle hshown hn hslot => exact .idle hshown hn hslot
    | take => exact displays_take past _
    | op =>
      rw [displays_some (hskip rfl)]
      cases hd with
      | playing hp hshown hn =>
        refine .playing hp ?_ hn
        rw [shownSince, List.append_assoc]
        exact hshown
    | @again steps =>
      rw [displays_some (hskip rfl)]
      cases hd with
      | playing hp hshown hn =>
        rename_i n
        rw [List.append_nil] at hshown
        have hmore : shownSince (.finished :: past) ++ playSteps steps =
            (LedPattern.repeats steps).rounds (n + 1 + 1) := by
          rw [LedPattern.rounds_succ, ← hshown]
          rfl
        exact .playing hp hmore fun honce => absurd rfl (honce steps)
    | finished hslot =>
      rw [displays_some (hskip rfl)]
      cases hd with
      | playing hp hshown hn =>
        subst hp
        rw [List.append_nil] at hshown
        exact .idle hshown hn hslot

theorem run_displays (h : Run LedMove .start past led) : Displays past led :=
  h.relates ⟨rfl, rfl⟩ fun _ _ _ _ hd hs => displays_step hd hs

/-- The levels of the LED since a signal was last taken. -/
theorem level_of_shown (h : shownSince past = shown ++ [.set on]) :
    latest LedEvent.level past = some on := by
  induction past with
  | nil => simp [shownSince] at h
  | cons event past ih =>
    cases event with
    | signal | hold | release =>
      rw [latest_cons_of_none rfl]
      exact ih h
    | take state => simp [shownSince] at h
    | op op =>
      have hop : op = .set on := by
        rw [shownSince] at h
        exact (List.append_inj' h rfl).2 |> List.singleton_inj.1
      subst hop
      have hlevel : LedEvent.level (.op (.set on)) = some on := rfl
      exact latest_cons_of_some hlevel past
    | finished =>
      rw [latest_cons_of_none rfl]
      exact ih h

/-- The level that a pattern which is over leaves behind. -/
theorem once_ends (state : LedState) (h : state.pattern.Once) : ∃ ops,
    state.pattern.round = ops ++ [.set (decide (state = .connected ∨ state = .mqttConnected))] := by
  cases state with
  | connected => exact ⟨[], rfl⟩
  | mqttConnected => exact ⟨[], rfl⟩
  | saving => exact ⟨playSteps savingSteps, rfl⟩
  | rebooting => exact ⟨playSteps rebootingSteps, rfl⟩
  | _ => exact absurd rfl (h _)

/-- Whoever signals when: the states that the LED task takes are among those signalled and in their
order, the last of which it does not miss; since it took a state it has done nothing but rounds of
its pattern; and once it waits with nothing to take, the LED is on exactly if the last state
signalled is that of a connection. -/
theorem led_follows_signals (past : List LedEvent) (led : Led)
    (h : Run LedMove .start past led) :
    (past.filterMap LedEvent.taken).Sublist (past.filterMap LedEvent.signalled) ∧
    (led.slot = none → latest LedEvent.taken past = latest LedEvent.signalled past) ∧
    (∀ state, latest LedEvent.taken past = some state →
      ∃ n, shownSince past <+: state.pattern.rounds n) ∧
    (led.task = .waiting → led.slot = none → ∀ state,
      latest LedEvent.signalled past = some state → latest LedEvent.level past =
        some (decide (state = .connected ∨ state = .mqttConnected))) := by
  have htaken := filterMap_taken past
  have hsignalled := filterMap_signalled past
  have hd := Signal.run_delivered (run_signal h)
  have hlatest : led.slot = none →
      latest LedEvent.taken past = latest LedEvent.signalled past := by
    intro hnone
    rw [hnone] at hd
    rw [← latest_taken, ← latest_signalled]
    exact hd.taken_latest
  have hshow := run_displays h
  refine ⟨?_, hlatest, ?_, ?_⟩
  · rw [← htaken, ← hsignalled]
    exact (List.sublist_append_right _ _).trans hd.inOrder
  · intro state ht
    rw [displays_some ht] at hshow
    cases hshow with
    | playing hp hshown => exact ⟨_, _, hp ▸ hshown⟩
    | idle hshown => exact ⟨_, [], by rw [List.append_nil]; exact hshown⟩
  · intro hwait hnone state hs
    rw [displays_some ((hlatest hnone).trans hs)] at hshow
    cases hshow with
    | playing => cases hwait
    | idle hshown hn hslot =>
      have honce := hslot hnone
      cases hn honce
      obtain ⟨ops, hround⟩ := once_ends state honce
      apply level_of_shown
      rw [hshown, ← hround]
      exact List.append_nil _

/-- Two states are signalled while the LED task is not running, and only the second is shown. -/
def connectedEvents : List LedEvent :=
  [.finished, .op (.set true), .take .connected, .signal .connected, .signal .booting]

theorem connected_run : Run LedMove .start connectedEvents ⟨none, .waiting, false⟩ := by
  have hsignals : Run LedMove .start [.signal .connected, .signal .booting]
      ⟨some .connected, .waiting, false⟩ := .next (.next .start .signal) .signal
  exact .next (.next (.next hsignals (.task rfl)) (.task rfl)) (.task rfl)

theorem connected_shown : latest LedEvent.level connectedEvents = some true := by
  have h := (led_follows_signals connectedEvents _ connected_run).2.2.2 rfl rfl .connected rfl
  exact h

def LedEvent.ms : LedEvent → Nat
  | .op (.sleep ms) => ms.toNat
  | _ => 0

def LedTask.rest : LedTask → List LedOp
  | .waiting => []
  | .playing _ rest => rest

/-- The task is in a round of a state's pattern. -/
def LedTask.Fits : LedTask → Prop
  | .waiting => True
  | .playing pattern rest => ∃ state : LedState, pattern = state.pattern ∧ rest <:+ pattern.round

end PicoConduit
