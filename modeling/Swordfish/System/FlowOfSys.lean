import Swordfish.System.FailedFill
import Swordfish.System.Flow

/-!
# The daemon's clients as threads in `push_key`

Every run of the system with its clients is a run of the flow of keys: a client stands in
`push_key` as a thread does, and its lookups are what other threads do with the store. So what
holds of the flow of keys, in every interleaving, holds of the daemon.
-/

namespace Swordfish

variable {cfg : FillerConfig} {env : Env}

/-- Where a client of the system stands in `push_key`. -/
def ClientPc.pusher : ClientPc → Pusher
  | .idle => .idle
  | .lookup => .idle
  | .sizeTest key => .sizeTest key
  | .push key => .push key
  | .setQueueSize size => .setQueueSize size

/-- The batches that a log shows, the oldest first. -/
def batches : List Event → List (List Str)
  | [] => []
  | .fetched keys _ _ :: before => batches before ++ [keys]
  | .addItem _ _ :: before | .sent _ _ _ :: before => batches before

/-- The flow of keys in the system, when `appended` are the keys that have been appended. -/
def Sys.flow (s : Sys) (appended : List Str) : Flow Nat :=
  { storage := s.storage
    pushers := fun c => (s.clients c).pc.pusher
    filler := s.filler
    isAlive_ := s.isAlive_
    appended := appended
    batches := batches s.log }

theorem batches_record {log : List Event} {event : Option Event}
    (h : ∀ keys ret vals, event ≠ some (.fetched keys ret vals)) :
    batches (History.record event log) = batches log := by
  cases event with
  | none => rfl
  | some e =>
    cases e with
    | fetched keys ret vals => exact absurd rfl (h keys ret vals)
    | addItem key val => rfl
    | sent c items res => rfl

/-- When a client moves, its thread does. -/
theorem pusher_update (clients : Nat → Client) (c : Nat) (x : Client) :
    (fun j => (Function.update clients c x j).pc.pusher) =
      Function.update (fun j => (clients j).pc.pusher) c x.pc.pusher := by
  funext j
  rcases eq_or_ne j c with rfl | hne
  · rw [Function.update_self, Function.update_self]
  · rw [Function.update_of_ne hne, Function.update_of_ne hne]

/-- A client that moves outside of `push_key`. -/
theorem pusher_keep {clients : Nat → Client} {c : Nat} {x : Client}
    (hx : x.pc.pusher = (clients c).pc.pusher) :
    (fun j => (Function.update clients c x j).pc.pusher) = fun j => (clients j).pc.pusher := by
  rw [pusher_update, hx]
  exact Function.update_eq_self c _

/-- A lookup is something that other threads do with the store, and perhaps a call of
`push_key`. -/
theorem lookup_flow (s : Sys) (appended : List Str) {c : Nat} (hpc : (s.clients c).pc = .lookup)
    (storage : DHashmap) {ret : Bool} {key : Str} {x : Client}
    (hx : x.pc = if ret then .lookup else .sizeTest key) :
    ∃ actions, Flow.run cfg env (s.flow appended) actions =
      .ok (Sys.flow
        { s with
          storage := { s.storage with storage_ := storage }
          clients := Function.update s.clients c x } appended) := by
  cases ret with
  | true =>
    refine ⟨[.others storage s.storage.stats_], ?_⟩
    rw [Sys.flow, Sys.flow, pusher_keep (by rw [hx, hpc]; rfl)]
    rfl
  | false =>
    refine ⟨[.others storage s.storage.stats_, .call c key], ?_⟩
    rw [Sys.flow, Sys.flow, pusher_update, hx]
    simp only [Flow.run, Run.exec, Flow.step, hpc]
    rfl

/-- A step of a client is some steps of the flow. -/
theorem ClientCase.flow (s : Sys) (appended : List Str) {now refresh : TimeType} {c : Nat}
    {r : Storage × Client × Option Event}
    (h : ClientCase env s.storage now refresh c (s.clients c) r) :
    ∃ actions appended', Flow.run cfg env (s.flow appended) actions =
      .ok (Sys.flow
        { s with
          storage := r.1
          clients := Function.update s.clients c r.2.1
          log := History.record r.2.2 s.log } appended') := by
  cases h with
  | answer hpc hargs =>
    refine ⟨[], appended, ?_⟩
    rw [Sys.flow, Sys.flow, pusher_keep (by rw [hpc]; rfl)]
    rfl
  | @found arg args storage out hpc hargs hget hval =>
    obtain ⟨actions, hrun⟩ := @lookup_flow cfg env s appended c hpc storage out.ret
      out.normalizedKey
      { pc := if out.ret then .lookup else .sizeTest out.normalizedKey
        args := args
        res := Storage.resAppend arg out.val (s.clients c).res
        items := (s.clients c).items ++ [(arg, out.val)] } rfl
    exact ⟨actions, appended, hrun⟩
  | @silent arg args storage out hpc hargs hget hval =>
    obtain ⟨actions, hrun⟩ := @lookup_flow cfg env s appended c hpc storage out.ret
      out.normalizedKey
      { s.clients c with
        pc := if out.ret then .lookup else .sizeTest out.normalizedKey
        args := args } rfl
    exact ⟨actions, appended, hrun⟩
  | @sizeTest key hpc =>
    refine ⟨[.pusher c], appended, ?_⟩
    rw [Sys.flow, Sys.flow, pusher_update]
    simp only [Flow.run, Run.exec, Flow.step, Flow.pusherStep, hpc, ClientPc.pusher]
    split <;> rfl
  | @push key hpc =>
    refine ⟨[.pusher c], appended ++ Flow.newKey s.storage.queue_ key, ?_⟩
    rw [Sys.flow, Sys.flow, pusher_update]
    simp only [Flow.run, Run.exec, Flow.step, Flow.pusherStep, hpc, ClientPc.pusher]
    rfl
  | @setQueueSize size hpc =>
    refine ⟨[.pusher c], appended, ?_⟩
    rw [Sys.flow, Sys.flow, pusher_update]
    simp only [Flow.run, Run.exec, Flow.step, Flow.pusherStep, hpc, ClientPc.pusher]
    rfl

/-- A step of the system is some steps of the flow. -/
theorem Sys.step_flow {s t : Sys} {action : Action} (h : s.step cfg env action = .ok t)
    (appended : List Str) :
    ∃ actions appended', Flow.run cfg env (s.flow appended) actions = .ok (t.flow appended') := by
  cases action with
  | filler now =>
    simp only [Sys.step] at h
    cases hstep : s.filler.step cfg env s.storage s.isAlive_ now with
    | error halt =>
      rw [hstep] at h
      cases h
    | ok r =>
      obtain ⟨storage, f, event⟩ := r
      rw [hstep] at h
      cases h
      refine ⟨[.filler now], appended, Run.exec_cons_ok.mpr ⟨_, ?_, rfl⟩⟩
      have hfetch : batches (History.record event s.log) = batches s.log := by
        refine batches_record (fun keys ret vals hevent => ?_)
        obtain ⟨-, key, val, hitem, -⟩ :=
          (FillerCase.locals (Filler.step_cases hstep)).2.2.2 _ hevent
        cases hitem
      simp only [Sys.flow, Flow.step, hstep, hfetch]
  | request c args =>
    cases Sys.step_cases h with
    | request _ hpc =>
      refine ⟨[], appended, ?_⟩
      rw [Sys.flow, Sys.flow, pusher_keep (by rw [hpc]; rfl)]
      rfl
  | client c now refresh =>
    cases Sys.step_cases h with
    | client hcase => exact hcase.flow s appended
  | isFillerAlive answer =>
    cases Sys.step_cases h with
    | isFillerAlive _ hpc =>
      refine ⟨[.isFillerAlive answer], appended, Run.exec_cons_ok.mpr ⟨_, ?_, rfl⟩⟩
      simp only [Sys.flow, Flow.step, hpc]
  | getVals ret vals =>
    cases Sys.step_cases h with
    | getVals _ _ hpc =>
      refine ⟨[.getVals ret vals], appended, Run.exec_cons_ok.mpr ⟨_, ?_, rfl⟩⟩
      simp only [Sys.flow, Flow.step, hpc, batches]
  | expirate =>
    cases Sys.step_cases h with
    | expirate => exact ⟨[.others s.storage.expirate.storage_ s.storage.stats_], appended, rfl⟩
  | shutdown =>
    cases Sys.step_cases h with
    | shutdown => exact ⟨[.shutdown], appended, rfl⟩

/-- A run of the system is a run of the flow, with the same storage, filler and batches. -/
theorem Sys.run_flow {storage : Storage} {actions : List Action} {s : Sys}
    (h : Sys.run cfg env (.init storage) actions = .ok s) :
    ∃ actions' appended, Flow.run cfg env (.init storage) actions' = .ok (s.flow appended) := by
  refine Run.exec_invariant (I := fun s => ∃ actions' appended,
    Flow.run cfg env (.init storage) actions' = .ok (Sys.flow s appended)) ?_ ?_ h
  · rintro s action t ⟨actions', appended, hrun⟩ hstep
    obtain ⟨more, appended', hmore⟩ := Sys.step_flow hstep appended
    exact ⟨actions' ++ more, appended', Run.exec_append_ok.mpr ⟨_, hrun, hmore⟩⟩
  · exact ⟨[], [], rfl⟩

end Swordfish
