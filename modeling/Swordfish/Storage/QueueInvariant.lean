import Swordfish.Lib.Run
import Swordfish.Storage.QueueBytes

/-!
# The queue over its runs

`Queue::push` and `Queue::wait_and_pop` (`queue.cpp:18-57`), called in any order from the empty
queue: no key is in the queue twice, `curr_size_` counts the bytes of the queued keys, and the keys
leave in the order in which they came in.
-/

namespace Swordfish.Queue
open Storage (keyBytes)

/-- A call on the queue. -/
inductive Call where
  | push (data : Str)
  | waitAndPop
  deriving DecidableEq, Repr

/-- One call. -/
def step (q : Queue) : Call → Except Empty Queue
  | .push data => .ok (q.push data).1
  | .waitAndPop => .ok q.waitAndPop.1

/-- The key that the call brings in: one that is pushed while it is absent. -/
def entering (q : Queue) : Call → List Str
  | .push data => if q.queue_.contains data then [] else [data]
  | .waitAndPop => []

/-- The key that the call hands out, which is not the cleared string of an empty queue. -/
def leaving (q : Queue) : Call → List Str
  | .push _ => []
  | .waitAndPop => if q.queue_ = [] then [] else [q.waitAndPop.2]

/-- The queue has each key once, and counts their bytes in a `size_t`. -/
structure Represents (q : Queue) : Prop where
  nodup : q.queue_.Nodup
  currSize_ : q.currSize_ = UInt64.ofNat (keyBytes q.queue_)

variable {q r : Queue}

theorem push_of_absent {data : Str} (h : data ∉ q.queue_) :
    (q.push data).1 =
      { queue_ := q.queue_ ++ [data], currSize_ := q.currSize_ + strLength data } := by
  simp only [push, if_neg h]

theorem push_of_mem {data : Str} (h : data ∈ q.queue_) : (q.push data).1 = q := by
  simp only [push, if_pos h]

theorem waitAndPop_of_cons {data : Str} {rest : List Str} (h : q.queue_ = data :: rest) :
    q.waitAndPop = ({ queue_ := rest, currSize_ := q.currSize_ - strLength data }, data) := by
  simp only [waitAndPop, h]

theorem waitAndPop_of_nil (h : q.queue_ = []) : q.waitAndPop = (q, []) := by
  simp only [waitAndPop, h]

theorem keyBytes_cons (data : Str) (rest : List Str) :
    keyBytes (data :: rest) = data.length + keyBytes rest := rfl

theorem keyBytes_append (xs ys : List Str) : keyBytes (xs ++ ys) = keyBytes xs + keyBytes ys := by
  rw [keyBytes, List.map_append, List.sum_append]
  rfl

theorem represents_init : Represents init where
  nodup := List.nodup_nil
  currSize_ := rfl

theorem Represents.push (h : Represents q) (data : Str) : Represents (q.push data).1 := by
  by_cases hmem : data ∈ q.queue_
  · rw [push_of_mem hmem]
    exact h
  · rw [push_of_absent hmem]
    constructor
    · exact List.nodup_append.mpr ⟨h.nodup, List.nodup_singleton data, by grind⟩
    · rw [h.currSize_, keyBytes_append, UInt64.ofNat_add]
      rfl

theorem Represents.waitAndPop (h : Represents q) : Represents q.waitAndPop.1 := by
  cases hq : q.queue_ with
  | nil =>
    rw [waitAndPop_of_nil hq]
    exact h
  | cons data rest =>
    rw [waitAndPop_of_cons hq]
    constructor
    · exact (hq ▸ h.nodup).of_cons
    · rw [h.currSize_, hq, keyBytes_cons, UInt64.ofNat_add, strLength, UInt64.add_comm,
        UInt64.add_sub_cancel]

/-- One call keeps the representation. -/
theorem Represents.step (h : Represents q) {call : Call} (hstep : q.step call = .ok r) :
    Represents r := by
  cases call with
  | push data =>
    cases hstep
    exact h.push data
  | waitAndPop =>
    cases hstep
    exact h.waitAndPop

/-- One call passes the keys on in their order. -/
theorem step_conserves (call : Call) (hstep : q.step call = .ok r) :
    q.queue_ ++ entering q call = leaving q call ++ r.queue_ := by
  cases call with
  | push data =>
    cases hstep
    by_cases hmem : data ∈ q.queue_
    · simp [entering, leaving, hmem, push_of_mem hmem]
    · simp [entering, leaving, hmem, push_of_absent hmem]
  | waitAndPop =>
    cases hstep
    cases hq : q.queue_ with
    | nil => simp [entering, leaving, hq, waitAndPop_of_nil hq]
    | cons data rest => simp [entering, leaving, hq, waitAndPop_of_cons hq]

/-- While the bytes of the queued keys fit a `size_t`, as they do in any memory that holds the keys,
the counter is their number, and the subtraction of a pop does not wrap. -/
theorem Represents.toNat_currSize_ (h : Represents q) (hfits : keyBytes q.queue_ < 2 ^ 64) :
    q.currSize_.toNat = keyBytes q.queue_ := by
  rw [h.currSize_, UInt64.toNat_ofNat', Nat.mod_eq_of_lt hfits]

theorem Represents.strLength_le (h : Represents q) (hfits : keyBytes q.queue_ < 2 ^ 64)
    {data : Str} {rest : List Str} (hq : q.queue_ = data :: rest) :
    strLength data ≤ q.currSize_ := by
  rw [UInt64.le_iff_toNat_le, h.toNat_currSize_ hfits, hq, keyBytes_cons, strLength,
    UInt64.toNat_ofNat']
  exact Nat.le_trans (Nat.mod_le _ _) (Nat.le_add_right _ _)

theorem run_represents_of_ok {calls : List Call} (h : Run.exec step init calls = .ok q) :
    Represents q :=
  Run.exec_invariant (I := Represents) (fun _ _ _ hs hstep => hs.step hstep) represents_init h

/-- The keys that have come in are those that have left, in the same order, and those that are
queued. -/
theorem run_conserves {calls : List Call} (h : Run.exec step init calls = .ok q) :
    (Run.observe step entering init calls).flatten =
      (Run.observe step leaving init calls).flatten ++ q.queue_ :=
  Run.observe_conserves (c := queue_) (fun _ call _ hstep => step_conserves call hstep) h

/-- The queue, over every sequence of calls: no key is in it twice; `curr_size_` counts its bytes,
and no subtraction wraps; the keys leave in the order in which they came in; and a key that has been
popped as often as it has come in, such as the one just popped, comes in again when it is pushed. -/
theorem run_represents (calls : List Call) :
    ∃ q, Run.exec step init calls = .ok q ∧ q.queue_.Nodup ∧
      q.currSize_ = UInt64.ofNat (keyBytes q.queue_) ∧
      (keyBytes q.queue_ < 2 ^ 64 → q.currSize_.toNat = keyBytes q.queue_ ∧
        ∀ data rest, q.queue_ = data :: rest → strLength data ≤ q.currSize_) ∧
      (Run.observe step entering init calls).flatten =
        (Run.observe step leaving init calls).flatten ++ q.queue_ ∧
      (∀ data rest, q.queue_ = data :: rest →
        q.waitAndPop.2 = data ∧ (q.waitAndPop.1.push data).1.queue_ = rest ++ [data]) ∧
      ∀ data, (Run.observe step entering init calls).flatten.count data =
          (Run.observe step leaving init calls).flatten.count data →
        (q.push data).1.queue_ = q.queue_ ++ [data] := by
  have htotal : ∀ (q : Queue) (call : Call), ∃ r, q.step call = .ok r := by
    intro q call
    cases call with
    | push data => exact ⟨_, rfl⟩
    | waitAndPop => exact ⟨_, rfl⟩
  obtain ⟨q, hrun⟩ := Run.exec_total htotal init calls
  have hq := run_represents_of_ok hrun
  have horder := run_conserves hrun
  refine ⟨q, hrun, hq.nodup, hq.currSize_, fun hfits => ?_, horder, ?_, ?_⟩
  · exact ⟨hq.toNat_currSize_ hfits, fun data rest => hq.strLength_le hfits⟩
  · intro data rest hcons
    have habsent : data ∉ rest := (List.nodup_cons.mp (hcons ▸ hq.nodup)).1
    rw [waitAndPop_of_cons hcons]
    exact ⟨rfl, congrArg queue_ (push_of_absent habsent)⟩
  · intro data hcount
    have habsent : data ∉ q.queue_ := by
      rw [horder, List.count_append] at hcount
      exact List.count_eq_zero.mp (by omega)
    exact congrArg queue_ (push_of_absent habsent)

/-- A key that is pushed twice, popped, pushed and popped again, with the empty key in between. -/
example :
    Run.observe step leaving init
      [.push [107], .push [], .push [107], .waitAndPop, .push [107], .waitAndPop, .waitAndPop,
        .waitAndPop] = [[], [], [], [[107]], [], [[]], [[107]], []] := by
  decide

end Swordfish.Queue
