import Swordfish.Daemon.Reload

/-!
# What becomes of the signals

A signal's handler is executed at once on a thread of the service, and waits in the queue otherwise,
also over a reload. No signal is lost and none is executed twice, each reload takes a SIGUSR1 of its
own, and after a SIGTERM or SIGINT no server is created any more.
-/

namespace Swordfish.Daemon

variable {σ : Type} {env : Environment σ} {s t : Daemon σ}

/-- The move is a signal with this handler. -/
def Move.sends (handler : Completion) : Move → Bool
  | .signal sig _ => sig.handler = handler
  | .accept _ | .read _ _ | .execute _ | .reload => false

/-- The move executes this handler. -/
def Move.executes (handler : Completion) : Move → Bool
  | .execute handler' => handler' = handler
  | .signal sig inside => inside && sig.handler = handler
  | .accept _ | .read _ _ | .reload => false

/-! ## What a handler does -/

/-- What the execution of a handler leaves alone, and when it stops the service. -/
structure Invoked (handler : Completion) (s t : Daemon σ) : Prop where
  queue : t.queue = s.queue
  created : t.created = s.created
  done_ : t.done_ = (s.done_ || handler = .onExit)
  stopped : t.stopped = (s.stopped || (handler = .onExit || handler = .onConfig))

theorem invoke_invoked {handler : Completion} (h : s.invoke env handler = .ok t) :
    Invoked handler s t := by
  cases handler with
  | onAccept g error =>
    simp only [invoke, onAccept] at h
    split at h
    · cases h
    · split at h
      · cases h
        exact ⟨rfl, rfl, by simp, by simp⟩
      · cases h
        exact ⟨rfl, rfl, by simp, by simp⟩
  | onRead w result =>
    simp only [invoke, onRead] at h
    split at h
    · cases h
    · cases h
      exact ⟨rfl, rfl, by simp, by simp⟩
    · split at h
      · cases h
      · split at h
        · cases h
        · cases h
          exact ⟨rfl, rfl, by simp, by simp⟩
  | onExit =>
    cases h
    exact ⟨rfl, rfl, by simp, by simp⟩
  | onConfig =>
    cases h
    exact ⟨rfl, rfl, by simp, by simp⟩
  | onExpirate =>
    simp only [invoke] at h
    split at h
    · cases h
      exact ⟨rfl, rfl, by simp, by simp⟩
    · cases h

theorem count_concat_of_ne (queue : List Completion) {handler other : Completion}
    (hne : other ≠ handler) : (queue ++ [other]).count handler = queue.count handler := by
  rw [List.count_append, List.count_singleton, if_neg (by simpa using hne), Nat.add_zero]

theorem handler_ne_onRead (sig : Signal) (w : Nat) (result : Option Str) :
    .onRead w result ≠ sig.handler := by
  cases sig <;> exact Completion.noConfusion

/-- A reload queues at most the accept of the server it deletes. -/
theorem Inv.createServer_queue {g : Nat} (h : Inv s g) :
    (s.createServer env).queue = s.queue ∨
      (s.createServer env).queue = s.queue ++ [.onAccept g true] := by
  obtain ⟨server, hserver, -, -⟩ := h.server
  change s.resetServer.queue = s.queue ∨ s.resetServer.queue = s.queue ++ [.onAccept g true]
  rw [resetServer_eq h hserver]
  dsimp only
  split
  · exact Or.inr rfl
  · exact Or.inl rfl

/-! ## Signals -/

/-- A step sends, executes or keeps the handler of a signal. -/
theorem StepCase.signals {move : Move} (h : StepCase env s move t) {g : Nat} (hinv : Inv s g)
    (sig : Signal) :
    s.queue.count sig.handler + (if move.sends sig.handler then 1 else 0) =
      (if move.executes sig.handler then 1 else 0) + t.queue.count sig.handler := by
  cases h with
  | accept error hserver_ hserver =>
    simp [Move.sends, Move.executes, count_concat_of_ne s.queue (handler_ne_onAccept sig _ _).symm]
  | read result hworker =>
    simp [Move.sends, Move.executes, count_concat_of_ne s.queue (handler_ne_onRead sig _ _)]
  | @dispatch sig' t hinvoke =>
    rw [(invoke_invoked hinvoke).queue, Nat.add_comm]
    simp [Move.sends, Move.executes]
  | post sig' =>
    by_cases hsame : sig'.handler = sig.handler
    · simp [Move.sends, Move.executes, hsame]
    · simp [Move.sends, Move.executes, hsame, count_concat_of_ne s.queue hsame]
  | @execute handler t hmem hinvoke =>
    rw [(invoke_invoked hinvoke).queue]
    by_cases hsame : handler = sig.handler
    · subst hsame
      have hpos := List.count_pos_iff.mpr hmem
      rw [List.count_erase_self]
      simp only [Move.sends, Move.executes, decide_true, if_true, Bool.false_eq_true, if_false]
      omega
    · rw [List.count_erase_of_ne (Ne.symm hsame)]
      simp [Move.sends, Move.executes, hsame]
  | reload hreturned hdone =>
    have hqueue : (s.createServer env).serverRun.queue.count sig.handler =
        s.queue.count sig.handler := by
      change (s.createServer env).queue.count _ = _
      rcases hinv.createServer_queue with hsame | happend
      · rw [hsame]
      · rw [happend, count_concat_of_ne s.queue (handler_ne_onAccept sig g true).symm]
    rw [hqueue]
    simp [Move.sends, Move.executes]

/-- No signal is lost and none is handled twice: in every run, over any number of reloads, the
signals that came are those whose handlers were executed and those that are queued. -/
theorem run_signals {moves : List Move} (h : Run.exec (step env) (start env) moves = .ok s)
    (sig : Signal) :
    moves.countP (Move.sends sig.handler) =
      moves.countP (Move.executes sig.handler) + s.queue.count sig.handler := by
  refine Run.exec_induction (P := fun moves s => moves.countP (Move.sends sig.handler) =
    moves.countP (Move.executes sig.handler) + s.queue.count sig.handler) ?_ ?_ h
  · rfl
  · intro moves s move t hrun ih hstep
    have hsignals := (step_cases hstep).signals (run_inv hrun) sig
    rw [List.countP_append, List.countP_append, List.countP_singleton, List.countP_singleton, ih]
    omega

/-- A SIGTERM that waits behind a SIGUSR1 is still there after the reload. -/
theorem run_signals_waiting :
    ∃ s, Run.exec (step plain) (start plain)
        [.signal .SIGUSR1 false, .signal .SIGTERM false, .execute .onConfig, .reload] = .ok s ∧
      s.queue.count .onExit = 1 := by
  obtain ⟨s, hrun, -⟩ := Run.yields_iff.mp
    (by decide : Run.Yields (step plain) (fun _ => True) (start plain)
      [.signal .SIGUSR1 false, .signal .SIGTERM false, .execute .onConfig, .reload])
  have hsignals := run_signals hrun .SIGTERM
  exact ⟨s, hrun, Nat.add_left_cancel hsignals.symm⟩

/-! ## Reloads -/

/-- What stops the service without ending the daemon is a SIGUSR1, and a reload takes it. -/
structure Accounts (moves : List Move) (s : Daemon σ) : Prop where
  done_ : (∃ move ∈ moves, move.executes .onExit = true) → s.done_ = true
  reloads : moves.count .reload + (if s.stopped = true ∧ s.done_ = false then 1 else 0) ≤
    moves.countP (Move.executes .onConfig)

theorem count_reload_concat (moves : List Move) {move : Move} (hmove : move ≠ .reload) :
    (moves ++ [move]).count .reload = moves.count .reload := by
  rw [List.count_append, List.count_singleton, if_neg (by simpa using hmove), Nat.add_zero]

/-- The execution of a handler, as part of a move. -/
theorem Accounts.invoke {moves : List Move} {move : Move} {handler : Completion}
    (h : Accounts moves s) (hinvoked : Invoked handler s t)
    (hexecutes : ∀ handler', move.executes handler' = decide (handler = handler'))
    (hmove : move ≠ .reload) : Accounts (moves ++ [move]) t where
  done_ := by
    rintro ⟨move', hmem, hexit⟩
    rw [hinvoked.done_]
    rcases List.mem_append.mp hmem with hold | hnew
    · rw [h.done_ ⟨move', hold, hexit⟩]
      rfl
    · rw [List.mem_singleton.mp hnew, hexecutes] at hexit
      rw [hexit]
      exact Bool.or_true _
  reloads := by
    have hreloads := h.reloads
    rw [count_reload_concat moves hmove, List.countP_append, List.countP_singleton, hexecutes,
      hinvoked.done_, hinvoked.stopped]
    by_cases hexit : handler = .onExit
    · simp only [hexit, decide_true, Bool.or_true, Bool.true_eq_false, and_false, if_false]
      omega
    · by_cases hconfig : handler = .onConfig
      · simp only [hconfig, decide_true, if_true]
        split <;> omega
      · simp only [hexit, hconfig, decide_false, Bool.or_false, Bool.false_eq_true, if_false]
        exact hreloads

/-- A move that executes no handler and is no reload. -/
theorem Accounts.other {moves : List Move} {move : Move} (h : Accounts moves s)
    (hdone : t.done_ = s.done_) (hstopped : t.stopped = s.stopped)
    (hexecutes : ∀ handler, move.executes handler = false) (hmove : move ≠ .reload) :
    Accounts (moves ++ [move]) t where
  done_ := by
    rintro ⟨move', hmem, hexit⟩
    rw [hdone]
    rcases List.mem_append.mp hmem with hold | hnew
    · exact h.done_ ⟨move', hold, hexit⟩
    · rw [List.mem_singleton.mp hnew, hexecutes] at hexit
      cases hexit
  reloads := by
    have hreloads := h.reloads
    rw [count_reload_concat moves hmove, List.countP_append, List.countP_singleton, hexecutes,
      hdone, hstopped]
    exact hreloads

theorem StepCase.accounts {moves : List Move} {move : Move} (hcase : StepCase env s move t)
    {g : Nat} (hinv : Inv s g) (h : Accounts moves s) : Accounts (moves ++ [move]) t := by
  cases hcase with
  | accept error hserver_ hserver =>
    exact h.other rfl rfl (fun _ => rfl) Move.noConfusion
  | read result hworker => exact h.other rfl rfl (fun _ => rfl) Move.noConfusion
  | post sig => exact h.other rfl rfl (fun _ => rfl) Move.noConfusion
  | dispatch hinvoke =>
    exact h.invoke (invoke_invoked hinvoke) (fun _ => Bool.true_and _) Move.noConfusion
  | @execute handler t hmem hinvoke =>
    have herased : Accounts moves { s with queue := s.queue.erase handler } := ⟨h.done_, h.reloads⟩
    exact herased.invoke (invoke_invoked hinvoke) (fun _ => rfl) Move.noConfusion
  | reload hreturned hdone =>
    have hstopped : s.stopped = true := by
      rcases hreturned with hstopped | hidle
      · exact hstopped
      · exact absurd hidle hinv.not_outOfWork
    have hreloads := h.reloads
    rw [if_pos ⟨hstopped, hdone⟩] at hreloads
    refine ⟨?_, ?_⟩
    · rintro ⟨move', hmem, hexit⟩
      rcases List.mem_append.mp hmem with hold | hnew
      · rw [h.done_ ⟨move', hold, hexit⟩] at hdone
        cases hdone
      · rw [List.mem_singleton.mp hnew] at hexit
        cases hexit
    · have hrunning : (s.createServer env).serverRun.stopped = false := rfl
      rw [List.count_append, List.count_singleton, List.countP_append, List.countP_singleton,
        hrunning]
      simp only [BEq.rfl, if_true, Bool.false_eq_true, false_and, if_false]
      omega

theorem run_accounts {moves : List Move} (h : Run.exec (step env) (start env) moves = .ok s) :
    Accounts moves s := by
  refine Run.exec_induction (P := Accounts) ?_ ?_ h
  · refine ⟨?_, Nat.le_refl 0⟩
    rintro ⟨move, hmem, -⟩
    cases hmem
  · intro moves s move t hrun ih hstep
    exact (step_cases hstep).accounts (run_inv hrun) ih

/-- A daemon that is done does not reload. -/
theorem StepCase.done {move : Move} (hcase : StepCase env s move t) (h : s.done_ = true) :
    t.done_ = true ∧ move ≠ .reload := by
  cases hcase with
  | accept error hserver_ hserver => exact ⟨h, Move.noConfusion⟩
  | read result hworker => exact ⟨h, Move.noConfusion⟩
  | post sig => exact ⟨h, Move.noConfusion⟩
  | dispatch hinvoke =>
    refine ⟨?_, Move.noConfusion⟩
    rw [(invoke_invoked hinvoke).done_, h]
    rfl
  | execute hmem hinvoke =>
    refine ⟨?_, Move.noConfusion⟩
    rw [(invoke_invoked hinvoke).done_]
    dsimp only
    rw [h]
    rfl
  | reload hreturned hdone =>
    rw [h] at hdone
    cases hdone

/-- Servers come and go with SIGUSR1 alone: one is created at the start and one by every reload,
there are at most as many reloads as SIGUSR1 that were handled, and none after a SIGTERM or SIGINT
has been. -/
theorem run_reloads {xs ys : List Move}
    (h : Run.exec (step env) (start env) (xs ++ ys) = .ok s) :
    s.created = (xs ++ ys).count .reload + 1 ∧
      (xs ++ ys).count .reload ≤ (xs ++ ys).countP (Move.executes .onConfig) ∧
      ((∃ move ∈ xs, move.executes .onExit = true) → s.done_ = true ∧ .reload ∉ ys) := by
  refine ⟨(run_inv h).created, ?_, ?_⟩
  · exact Nat.le_trans (Nat.le_add_right _ _) (run_accounts h).reloads
  · intro hexit
    obtain ⟨t, hxs, hys⟩ := Run.exec_append_ok.mp h
    have ht : t.done_ = true := (run_accounts hxs).done_ hexit
    clear h hxs hexit
    induction ys generalizing t with
    | nil =>
      cases hys
      exact ⟨ht, List.not_mem_nil⟩
    | cons move ys ih =>
      obtain ⟨u, hstep, hrest⟩ := Run.exec_cons_ok.mp hys
      obtain ⟨hu, hmove⟩ := (step_cases hstep).done ht
      obtain ⟨hdone, hnone⟩ := ih u hrest hu
      refine ⟨hdone, ?_⟩
      intro hmem
      rcases List.mem_cons.mp hmem with heq | hmem
      · exact hmove heq.symm
      · exact hnone hmem

/-- A SIGUSR1 and its reload, and then a SIGTERM. -/
theorem run_reloads_exit :
    ∃ s, Run.exec (step plain) (start plain)
        ([.signal .SIGUSR1 true, .reload, .signal .SIGTERM true] ++ [.signal .SIGUSR1 false]) =
          .ok s ∧ s.created = 2 ∧ s.done_ = true := by
  obtain ⟨s, hrun, -⟩ := Run.yields_iff.mp
    (by decide : Run.Yields (step plain) (fun _ => True) (start plain)
      ([.signal .SIGUSR1 true, .reload, .signal .SIGTERM true] ++ [.signal .SIGUSR1 false]))
  have hreloads := run_reloads hrun
  exact ⟨s, hrun, hreloads.1, (hreloads.2.2 (by decide)).1⟩

end Swordfish.Daemon
