import Mathlib.Data.List.Basic
import Mathlib.Logic.Relation

namespace TransmitBuffer
open Relation
set_option autoImplicit true

/-- What a program does with a socket, as far as its outgoing bytes go. -/
inductive SocketOp (α : Type u)
  | write (items : List α)
  | flush
  | abort
  deriving DecidableEq

/-- The outgoing side of a connection. -/
structure Outgoing (α : Type u) where
  pending : List α
  delivered : List α
  discarded : List α

def Outgoing.empty : Outgoing α := ⟨[], [], []⟩

/-- A step of a program or of the network, which delivers what is pending at times of its own. A
write waits for room and goes on when all of it is pending; a flush waits until nothing is. -/
inductive Step (cap : Nat) : List (SocketOp α) × Outgoing α → List (SocketOp α) × Outgoing α → Prop
  | deliver (xs ys : List α) (h : c.pending = xs ++ ys) :
      Step cap (ops, c) (ops, { c with pending := ys, delivered := c.delivered ++ xs })
  | enqueue (h : c.pending.length < cap) :
      Step cap (.write (x :: xs) :: ops, c)
        (.write xs :: ops, { c with pending := c.pending ++ [x] })
  | written : Step cap (.write [] :: ops, c) (ops, c)
  | flushed (h : c.pending = []) : Step cap (.flush :: ops, c) (ops, c)
  | aborted : Step cap (.abort :: ops, c)
      (ops, { c with pending := [], discarded := c.discarded ++ c.pending })

/-- However the network behaves, nothing that was written is discarded. -/
def NeverDiscards (cap : Nat) (ops : List (SocketOp α)) : Prop :=
  ∀ rest c, ReflTransGen (Step cap) (ops, .empty) (rest, c) → c.discarded = []

/-- Whatever has been written has been flushed before each abort. -/
def FlushedFrom (unflushed : List α) : List (SocketOp α) → Prop
  | [] => True
  | .write xs :: ops => FlushedFrom (unflushed ++ xs) ops
  | .flush :: ops => FlushedFrom [] ops
  | .abort :: ops => unflushed = [] ∧ FlushedFrom [] ops

/-- What holds between a program and its connection while all is well. -/
def Sound (x : List (SocketOp α) × Outgoing α) : Prop :=
  x.2.discarded = [] ∧ ∃ unflushed, FlushedFrom unflushed x.1 ∧
    (unflushed = [] → x.2.pending = [])

theorem Step.sound (h : Step cap x y) (hx : Sound x) : Sound y := by
  obtain ⟨hdiscarded, unflushed, hflushed, hpending⟩ := hx
  cases h with
  | @deliver c ops xs ys h =>
    refine ⟨hdiscarded, unflushed, hflushed, fun hempty => ?_⟩
    have hnone : xs ++ ys = [] := h.symm.trans (hpending hempty)
    exact (List.append_eq_nil_iff.1 hnone).2
  | @enqueue x xs ops c h =>
    refine ⟨hdiscarded, unflushed ++ [x], ?_, fun hempty => ?_⟩
    · rw [FlushedFrom, List.append_assoc]
      exact hflushed
    · simp at hempty
  | written =>
    rw [FlushedFrom, List.append_nil] at hflushed
    exact ⟨hdiscarded, unflushed, hflushed, hpending⟩
  | flushed h => exact ⟨hdiscarded, [], hflushed, fun _ => h⟩
  | aborted =>
    refine ⟨?_, [], hflushed.2, fun _ => rfl⟩
    rw [hdiscarded, hpending hflushed.1]
    rfl

theorem neverDiscards_of_flushed {ops : List (SocketOp α)} (h : FlushedFrom [] ops) :
    NeverDiscards cap ops := by
  intro rest c hrun
  have hsound (y : List (SocketOp α) × Outgoing α)
      (hy : ReflTransGen (Step cap) (ops, .empty) y) : Sound y := by
    induction hy with
    | refl => exact ⟨rfl, [], h, fun _ => rfl⟩
    | tail _ hstep ih => exact hstep.sound ih
  exact (hsound _ hrun).1

/-- The network may deliver everything that is pending. -/
theorem deliver_all (ops : List (SocketOp α)) (c : Outgoing α) :
    Step cap (ops, c) (ops, ⟨[], c.delivered ++ c.pending, c.discarded⟩) :=
  .deliver c.pending [] (List.append_nil _).symm

/-- A network may keep back the last element that is written. -/
theorem write_reaches (hcap : 0 < cap) (xs : List α) (ops : List (SocketOp α)) (c : Outgoing α) :
    ∃ c', ReflTransGen (Step cap) (.write xs :: ops, c) (ops, c') ∧ c'.discarded = c.discarded ∧
      (c'.pending = [] → xs = [] ∧ c.pending = []) := by
  induction xs generalizing c with
  | nil => exact ⟨c, .single .written, rfl, fun h => ⟨rfl, h⟩⟩
  | cons x xs ih =>
    obtain ⟨c', hrun, hdiscarded, hpending⟩ := ih ⟨[x], c.delivered ++ c.pending, c.discarded⟩
    refine ⟨c', .head (deliver_all _ c) (.head (.enqueue hcap) hrun), hdiscarded, fun h => ?_⟩
    exact absurd (hpending h).2 (List.cons_ne_nil x [])

theorem exists_discarded (hcap : 0 < cap) {ops : List (SocketOp α)} {unflushed : List α}
    (h : ¬ FlushedFrom unflushed ops) (c : Outgoing α)
    (hc : c.pending = [] → unflushed = []) :
    ∃ rest c', ReflTransGen (Step cap) (ops, c) (rest, c') ∧ c'.discarded ≠ [] := by
  induction ops generalizing unflushed c with
  | nil => exact absurd trivial h
  | cons op ops ih =>
    cases op with
    | write xs =>
      obtain ⟨c', hrun, -, hpending⟩ := write_reaches hcap xs ops c
      have hc' : c'.pending = [] → unflushed ++ xs = [] := by
        intro hnone
        obtain ⟨hxs, hold⟩ := hpending hnone
        rw [hxs, hc hold, List.append_nil]
      obtain ⟨rest, c'', hrest, hlost⟩ := ih h c' hc'
      exact ⟨rest, c'', hrun.trans hrest, hlost⟩
    | flush =>
      obtain ⟨rest, c', hrest, hlost⟩ :=
        ih h ⟨[], c.delivered ++ c.pending, c.discarded⟩ fun _ => rfl
      exact ⟨rest, c', .head (deliver_all _ c) (.head (.flushed rfl) hrest), hlost⟩
    | abort =>
      by_cases hpending : c.pending = []
      · have hrest : ¬ FlushedFrom [] ops := fun hops => h ⟨hc hpending, hops⟩
        obtain ⟨rest, c', hrun, hlost⟩ := ih hrest ⟨[], c.delivered, c.discarded ++ c.pending⟩
          fun _ => rfl
        exact ⟨rest, c', .head .aborted hrun, hlost⟩
      · refine ⟨ops, _, .single .aborted, fun hnone => hpending ?_⟩
        exact (List.append_eq_nil_iff.1 hnone).2

/-- A program never loses what it has written exactly when it flushes before it aborts. -/
theorem neverDiscards_iff (hcap : 0 < cap) {ops : List (SocketOp α)} :
    NeverDiscards cap ops ↔ FlushedFrom [] ops := by
  constructor
  · intro h
    by_contra hnot
    obtain ⟨rest, c, hrun, hlost⟩ := exists_discarded hcap hnot .empty fun _ => rfl
    exact hlost (h rest c hrun)
  · exact neverDiscards_of_flushed

theorem flushedFrom_writes (unflushed : List α) (writes : List (List α)) :
    FlushedFrom unflushed (writes.map .write ++ [.abort]) ↔
      unflushed = [] ∧ ∀ xs ∈ writes, xs = [] := by
  induction writes generalizing unflushed with
  | nil => simp [FlushedFrom]
  | cons xs writes ih =>
    rw [List.map_cons, List.cons_append, FlushedFrom, ih, List.append_eq_nil_iff,
      List.forall_mem_cons, and_assoc]

end TransmitBuffer
