import Swordfish.Daemon.Model

/-!
# Reloads

What the handlers in the queue of the `io_service` refer to. They stay there when a reload deletes
the server and its storage; the accept of a deleted server stays for good, since nothing but its own
handler would take it away.
-/

namespace Swordfish.Daemon

variable {σ : Type}

/-- What the handler refers to has not been deleted: a server and its storage, the storage of a
worker, or what the daemon points to. -/
def Live (s : Daemon σ) : Completion → Prop
  | .onAccept g _ => ∃ server, s.servers g = some server ∧ (s.storages server.storage_).isSome
  | .onRead w _ => ∀ worker ∈ s.workers[w]?, (s.storages worker.storage_).isSome
  | .onExit | .onConfig => ∃ g ∈ s.server_, (s.servers g).isSome
  | .onExpirate => ∃ g ∈ s.storage_, (s.storages g).isSome

variable {env : Environment σ} {s t : Daemon σ}

/-! ## What a step keeps -/

/-- After `g` reloads: the present server and storage have the number `g`, their accept is pending
or queued, and the accept of every earlier server is still queued. -/
structure Inv (s : Daemon σ) (g : Nat) : Prop where
  created : s.created = g + 1
  server_ : s.server_ = some g
  storage_ : s.storage_ = some g
  storage : (s.storages g).isSome
  server : ∃ server, s.servers g = some server ∧ server.storage_ = g ∧
    (server.accepting = false → ∃ error, .onAccept g error ∈ s.queue)
  older : ∀ k < g, s.servers k = none ∧ ∃ error, .onAccept k error ∈ s.queue
  workers : ∀ worker ∈ s.workers, worker.storage_ ≤ g
  names : ∀ k error, .onAccept k error ∈ s.queue → k ≤ g

/-- A step that leaves the servers and their accepts alone, and deletes no storage. -/
structure Kept (s t : Daemon σ) : Prop where
  created : t.created = s.created
  server_ : t.server_ = s.server_
  storage_ : t.storage_ = s.storage_
  servers : t.servers = s.servers
  storages : ∀ k, (s.storages k).isSome → (t.storages k).isSome
  workers : ∀ worker ∈ t.workers, ∃ worker' ∈ s.workers, worker'.storage_ = worker.storage_
  queue : ∀ k error, .onAccept k error ∈ t.queue ↔ .onAccept k error ∈ s.queue

theorem Kept.refl (s : Daemon σ) : Kept s s where
  created := rfl
  server_ := rfl
  storage_ := rfl
  servers := rfl
  storages _ hk := hk
  workers worker hworker := ⟨worker, hworker, rfl⟩
  queue _ _ := Iff.rfl

theorem Inv.kept {g : Nat} (h : Inv s g) (hkept : Kept s t) : Inv t g where
  created := hkept.created.trans h.created
  server_ := hkept.server_.trans h.server_
  storage_ := hkept.storage_.trans h.storage_
  storage := hkept.storages g h.storage
  server := by
    simp only [hkept.servers, hkept.queue]
    exact h.server
  older := by
    simp only [hkept.servers, hkept.queue]
    exact h.older
  workers worker hworker := by
    obtain ⟨worker', hmem, heq⟩ := hkept.workers worker hworker
    rw [← heq]
    exact h.workers worker' hmem
  names k error hmem := h.names k error ((hkept.queue k error).mp hmem)

/-- A storage that has not been deleted stays. -/
theorem derefDo_isSome (_do : Handler σ) (state : Option σ) (command : Command)
    (h : state.isSome = true) : (derefDo _do state command).1.isSome = true := by
  cases state with
  | some state => rfl
  | none => cases h

/-- A worker keeps its storage. -/
theorem mem_set_worker {workers : List Worker} {w : Nat} {worker worker' : Worker}
    (hworker : workers[w]? = some worker) (hsame : worker'.storage_ = worker.storage_) :
    ∀ x ∈ workers.set w worker', ∃ y ∈ workers, y.storage_ = x.storage_ := by
  intro x hx
  rcases List.mem_or_eq_of_mem_set hx with hmem | rfl
  · exact ⟨x, hmem, rfl⟩
  · exact ⟨worker, List.mem_of_getElem? hworker, hsame.symm⟩

theorem mem_modify_run {workers : List Worker} {w : Nat} :
    ∀ x ∈ workers.modify w Worker.run, ∃ y ∈ workers, y.storage_ = x.storage_ := by
  intro x hx
  obtain ⟨i, hi⟩ := List.mem_iff_getElem?.mp hx
  rw [List.getElem?_modify] at hi
  cases hy : workers[i]? with
  | none =>
    rw [hy] at hi
    cases hi
  | some y =>
    refine ⟨y, List.mem_of_getElem? hy, ?_⟩
    rw [hy] at hi
    simp only [Option.map_eq_map, Option.map_some, Option.some.injEq] at hi
    rw [← hi]
    split <;> rfl

theorem onRead_kept {w : Nat} {result : Option Str} (h : s.onRead env w result = .ok t) :
    Kept s t := by
  unfold onRead at h
  split at h
  · cases h
  · cases h
    exact .refl s
  · rename_i worker bytes hworker
    split at h
    · cases h
    · rename_i c hread
      split at h
      · cases h
      · cases h
        refine { Kept.refl s with
          storages := fun k hk => ?_
          workers := mem_set_worker hworker rfl }
        dsimp only
        by_cases hsame : k = worker.storage_
        · subst hsame
          rw [Function.update_self]
          exact Connection.onReadLoop_state (I := fun state => state.isSome = true)
            (derefDo_isSome env._do) hk hread
        · rw [Function.update_of_ne hsame]
          exact hk

/-- Only `on_accept` touches a server. -/
theorem invoke_kept {handler : Completion} (hhandler : ∀ k error, handler ≠ .onAccept k error)
    (h : s.invoke env handler = .ok t) : Kept s t := by
  cases handler with
  | onAccept g error => exact absurd rfl (hhandler g error)
  | onRead w result => exact onRead_kept h
  | onExit =>
    cases h
    exact { Kept.refl s with }
  | onConfig =>
    cases h
    exact { Kept.refl s with }
  | onExpirate =>
    simp only [invoke] at h
    split at h
    · rename_i g hg
      cases h
      refine { Kept.refl s with storages := fun k hk => ?_ }
      dsimp only
      by_cases hsame : k = g
      · subst hsame
        simpa using hk
      · rw [Function.update_of_ne hsame]
        exact hk
    · cases h

/-- Handlers that are not an accept come and go. -/
theorem Kept.of_queue {queue : List Completion} (hqueue : ∀ k error,
    .onAccept k error ∈ queue ↔ .onAccept k error ∈ s.queue) : Kept s { s with queue := queue } :=
  { Kept.refl s with queue := hqueue }

theorem handler_ne_onAccept (sig : Signal) (k : Nat) (error : Bool) :
    sig.handler ≠ .onAccept k error := by
  cases sig <;> exact Completion.noConfusion

theorem mem_queue_append {queue : List Completion} {handler : Completion}
    (hhandler : ∀ k error, handler ≠ .onAccept k error) (k : Nat) (error : Bool) :
    .onAccept k error ∈ queue ++ [handler] ↔ .onAccept k error ∈ queue := by
  simp [(hhandler k error).symm]

theorem mem_queue_erase {queue : List Completion} {handler : Completion}
    (hhandler : ∀ k error, handler ≠ .onAccept k error) (k : Nat) (error : Bool) :
    .onAccept k error ∈ queue.erase handler ↔ .onAccept k error ∈ queue :=
  List.mem_erase_of_ne (hhandler k error).symm

/-- The present server accepts: its handler is queued. -/
theorem inv_accept {g : Nat} {server : Server} (h : Inv s g) (hserver : s.servers g = some server)
    (error : Bool) :
    Inv { s with
          servers := Function.update s.servers g (some { server with accepting := false })
          queue := s.queue ++ [.onAccept g error] } g := by
  obtain ⟨server', hserver', hstorage, -⟩ := h.server
  rw [hserver, Option.some.injEq] at hserver'
  subst hserver'
  refine { h with server := ?_, older := ?_, names := ?_ }
  · exact ⟨{ server with accepting := false }, by simp, hstorage, fun _ => ⟨error, by simp⟩⟩
  · intro k hk
    obtain ⟨hnone, e, hqueued⟩ := h.older k hk
    refine ⟨?_, e, List.mem_append_left _ hqueued⟩
    dsimp only
    rw [Function.update_of_ne (Nat.ne_of_lt hk)]
    exact hnone
  · intro k e hmem
    rcases List.mem_append.mp hmem with hmem | hmem
    · exact h.names k e hmem
    · cases List.mem_singleton.mp hmem
      exact Nat.le_refl g

/-- `on_accept` is executed for the present server, or uses a deleted one. -/
theorem inv_onAccept {g k : Nat} (h : Inv s g) {error : Bool}
    (hqueued : .onAccept k error ∈ s.queue)
    (hstep : { s with queue := s.queue.erase (.onAccept k error) }.onAccept k error = .ok t) :
    Inv t g := by
  obtain ⟨server, hserver, hstorage, -⟩ := h.server
  have hk : k = g := by
    rcases Nat.lt_or_eq_of_le (h.names k error hqueued) with hlt | heq
    · simp only [onAccept, (h.older k hlt).1] at hstep
      cases hstep
    · exact heq
  subst hk
  have hkeep : ∀ j < k, ∃ e, .onAccept j e ∈ s.queue.erase (.onAccept k error) := by
    intro j hj
    obtain ⟨-, e, hmem⟩ := h.older j hj
    refine ⟨e, (List.mem_erase_of_ne ?_).mpr hmem⟩
    intro heq
    cases heq
    exact Nat.lt_irrefl _ hj
  have hnames : ∀ j e, .onAccept j e ∈ s.queue.erase (.onAccept k error) → j ≤ k :=
    fun j e hmem => h.names j e (List.mem_of_mem_erase hmem)
  have hothers : ∀ (server' : Server) (j : Nat), j < k →
      Function.update s.servers k (some server') j = none := by
    intro server' j hj
    rw [Function.update_of_ne (Nat.ne_of_lt hj)]
    exact (h.older j hj).1
  simp only [onAccept, hserver] at hstep
  split at hstep
  · cases hstep
    refine { h with server := ?_, older := ?_, names := hnames }
    · exact ⟨{ server with accepting := true }, by simp, hstorage, fun hfalse => by cases hfalse⟩
    · exact fun j hj => ⟨hothers _ j hj, hkeep j hj⟩
  · cases hstep
    refine { h with server := ?_, older := ?_, workers := ?_, names := hnames }
    · exact ⟨{ server with worker_ := s.workers.length, accepting := true }, by simp, hstorage,
        fun hfalse => by cases hfalse⟩
    · exact fun j hj => ⟨hothers _ j hj, hkeep j hj⟩
    · intro worker hworker
      rcases List.mem_append.mp hworker with hmem | hmem
      · obtain ⟨worker', hmem', heq⟩ := mem_modify_run worker hmem
        rw [← heq]
        exact h.workers worker' hmem'
      · cases List.mem_singleton.mp hmem
        exact Nat.le_of_eq hstorage

theorem resetServer_eq {g : Nat} {server : Server} (h : Inv s g)
    (hserver : s.servers g = some server) :
    s.resetServer =
      { s with
        stopped := true
        servers := Function.update s.servers g none
        storages := Function.update s.storages g none
        queue := if server.accepting then s.queue ++ [.onAccept g true] else s.queue } := by
  simp [resetServer, h.server_, h.storage_, deleteServer, deleteStorage, hserver]

/-- A reload leaves the accept of the deleted server behind in the queue. -/
theorem inv_reload {g : Nat} (h : Inv s g) : Inv (s.createServer env).serverRun (g + 1) := by
  obtain ⟨server, hserver, hstorage, haccept⟩ := h.server
  obtain ⟨queue, hqueue⟩ :
      ∃ queue, (if server.accepting then s.queue ++ [.onAccept g true] else s.queue) = queue :=
    ⟨_, rfl⟩
  have hkeep : ∀ k e, .onAccept k e ∈ s.queue → .onAccept k e ∈ queue := by
    intro k e hmem
    rw [← hqueue]
    split
    · exact List.mem_append_left _ hmem
    · exact hmem
  have hleft : ∃ e, .onAccept g e ∈ queue := by
    cases haccepting : server.accepting with
    | true => exact ⟨true, by simp [← hqueue, haccepting]⟩
    | false =>
      obtain ⟨e, hmem⟩ := haccept haccepting
      exact ⟨e, hkeep g e hmem⟩
  have hnames : ∀ k e, .onAccept k e ∈ queue → k ≤ g := by
    intro k e hmem
    rw [← hqueue] at hmem
    split at hmem
    · rcases List.mem_append.mp hmem with hmem | hmem
      · exact h.names k e hmem
      · cases List.mem_singleton.mp hmem
        exact Nat.le_refl g
    · exact h.names k e hmem
  simp only [createServer, resetServer_eq h hserver, hqueue, h.created, serverRun]
  constructor
  · rfl
  · rfl
  · rfl
  · simp
  · exact ⟨_, Function.update_self .., rfl, fun hfalse => by cases hfalse⟩
  · intro k hk
    dsimp only
    rw [Function.update_of_ne (Nat.ne_of_lt hk)]
    rcases Nat.lt_or_eq_of_le (Nat.le_of_lt_succ hk) with hlt | rfl
    · obtain ⟨hnone, e, hmem⟩ := h.older k hlt
      rw [Function.update_of_ne (Nat.ne_of_lt hlt)]
      exact ⟨hnone, e, hkeep k e hmem⟩
    · exact ⟨Function.update_self .., hleft⟩
  · intro worker hworker
    rcases List.mem_append.mp hworker with hmem | hmem
    · exact Nat.le_succ_of_le (h.workers worker hmem)
    · cases List.mem_singleton.mp hmem
      exact Nat.le_refl _
  · exact fun k e hmem => Nat.le_succ_of_le (hnames k e hmem)

/-- The daemon has made no reload when it starts. -/
theorem inv_start : Inv (start env) 0 where
  created := rfl
  server_ := rfl
  storage_ := rfl
  storage := rfl
  server := ⟨{ storage_ := 0, worker_ := 0, accepting := true }, rfl, rfl,
    fun hfalse => by cases hfalse⟩
  older k hk := absurd hk (Nat.not_lt_zero k)
  workers worker hworker := by
    cases List.mem_singleton.mp hworker
    exact Nat.le_refl 0
  names k error hmem := by cases hmem

theorem StepCase.inv {g : Nat} {move : Move} (hcase : StepCase env s move t) (h : Inv s g) :
    Inv t (g + if move = .reload then 1 else 0) := by
  cases hcase with
  | accept error hserver_ hserver =>
    rw [h.server_, Option.some.injEq] at hserver_
    subst hserver_
    exact inv_accept h hserver error
  | read result hworker =>
    refine h.kept { Kept.refl s with workers := mem_set_worker hworker rfl, queue := ?_ }
    exact mem_queue_append (fun k error => Completion.noConfusion)
  | @dispatch sig t hinvoke => exact h.kept (invoke_kept (handler_ne_onAccept sig) hinvoke)
  | post sig => exact h.kept (.of_queue (mem_queue_append (handler_ne_onAccept sig)))
  | @execute handler t hmem hinvoke =>
    rcases Classical.em (∃ k error, handler = .onAccept k error) with ⟨k, error, rfl⟩ | hother
    · exact inv_onAccept h hmem hinvoke
    · have hhandler : ∀ k error, handler ≠ .onAccept k error :=
        fun k error heq => hother ⟨k, error, heq⟩
      exact (h.kept (.of_queue (mem_queue_erase hhandler))).kept (invoke_kept hhandler hinvoke)
  | reload hreturned hdone => exact inv_reload h

/-- After a run with `g` reloads the objects present are those of the last one. -/
theorem run_inv {moves : List Move} (h : Run.exec (step env) (start env) moves = .ok s) :
    Inv s (moves.count .reload) := by
  refine Run.exec_induction (P := fun moves s => Inv s (moves.count .reload)) inv_start ?_ h
  intro moves s move t _ ih hstep
  have := (step_cases hstep).inv ih
  simpa [List.count_append, List.count_singleton] using this

/-! ## Handlers and their objects -/

/-- Before the first reload, what is queued is live. -/
theorem Inv.live (h : Inv s 0) : ∀ handler ∈ s.queue, s.Live handler := by
  obtain ⟨server, hserver, hstorage, -⟩ := h.server
  intro handler hmem
  cases handler with
  | onAccept k error =>
    have hk : k = 0 := Nat.le_zero.mp (h.names k error hmem)
    subst hk
    refine ⟨server, hserver, ?_⟩
    rw [hstorage]
    exact h.storage
  | onRead w result =>
    intro worker hworker
    rw [Nat.le_zero.mp (h.workers worker (List.mem_of_getElem? hworker))]
    exact h.storage
  | onExit | onConfig => exact ⟨0, h.server_, by rw [hserver]; rfl⟩
  | onExpirate => exact ⟨0, h.storage_, h.storage⟩

/-- Behind a reload, an accept of a deleted server is queued. -/
theorem Inv.not_live {g : Nat} (h : Inv s (g + 1)) : ∃ handler ∈ s.queue, ¬ s.Live handler := by
  obtain ⟨hnone, error, hmem⟩ := h.older 0 (Nat.succ_pos g)
  refine ⟨.onAccept 0 error, hmem, ?_⟩
  rintro ⟨server, hserver, -⟩
  rw [hnone] at hserver
  cases hserver

/-- No handler outlives its server, exactly: after any run of the daemon, with any clients, requests
and signals, everything that the service may execute refers to a server and a storage that have not
been deleted if and only if the daemon has made no reload. -/
theorem queue_live_iff {moves : List Move} (h : Run.exec (step env) (start env) moves = .ok s) :
    (∀ handler ∈ s.queue, s.Live handler) ↔ .reload ∉ moves := by
  have hinv := run_inv h
  rw [← List.count_eq_zero]
  cases hcount : moves.count .reload with
  | zero =>
    rw [hcount] at hinv
    exact iff_of_true hinv.live rfl
  | succ g =>
    rw [hcount] at hinv
    obtain ⟨handler, hmem, hdead⟩ := hinv.not_live
    exact iff_of_false (fun hlive => hdead (hlive handler hmem)) (Nat.succ_ne_zero g)

/-- A daemon whose commands have no effect and no answer of their own. -/
abbrev plain : Environment Unit :=
  { _do := fun _ _ => ((), [])
    expirate := id
    storage := fun _ => ()
    level := fun _ => .info }

/-- A client has been accepted and has sent a command, and a SIGUSR1 has just come. -/
theorem queue_live_iff_client :
    ∃ s, Run.exec (step plain) (start plain)
      [.accept false, .execute (.onAccept 0 false), .read 0 (some (text "get k\r\n")),
        .signal .SIGUSR1 false] = .ok s ∧ s.queue.length = 2 ∧
      ∀ handler ∈ s.queue, s.Live handler := by
  obtain ⟨s, hrun, hqueue⟩ := Run.yields_iff.mp
    (by decide : Run.Yields (step plain) (fun s => s.queue.length = 2) (start plain)
      [.accept false, .execute (.onAccept 0 false), .read 0 (some (text "get k\r\n")),
        .signal .SIGUSR1 false])
  exact ⟨s, hrun, hqueue, (queue_live_iff hrun).mpr (by decide)⟩

/-- One reload: the service runs again, and what it executes first uses the server that has been
deleted. -/
theorem onAccept_outlives :
    ∃ s, Run.exec (step plain) (start plain) [.signal .SIGUSR1 false, .execute .onConfig, .reload] =
        .ok s ∧ s.stopped = false ∧ .onAccept 0 true ∈ s.queue ∧ ¬ s.Live (.onAccept 0 true) ∧
      (s.step plain (.execute (.onAccept 0 true)) matches .error .deleted) := by
  obtain ⟨s, hrun, hrunning, hqueue, hnone, hdeleted⟩ := Run.yields_iff.mp
    (by decide : Run.Yields (step plain)
      (fun s => s.stopped = false ∧ .onAccept 0 true ∈ s.queue ∧ s.servers 0 = none ∧
        (s.step plain (.execute (.onAccept 0 true)) matches .error .deleted))
      (start plain) [.signal .SIGUSR1 false, .execute .onConfig, .reload])
  refine ⟨s, hrun, hrunning, hqueue, ?_, hdeleted⟩
  rintro ⟨server, hserver, -⟩
  rw [hnone] at hserver
  cases hserver

/-! ## What makes the daemon reload -/

/-- Without a SIGUSR1 nothing but the end of the daemon stops the service. -/
structure Quiet (s : Daemon σ) : Prop where
  queue : .onConfig ∉ s.queue
  stopped : s.stopped = true → s.done_ = true

theorem invoke_quiet (h : Quiet s) {handler : Completion} (hhandler : handler ≠ .onConfig)
    (hinvoke : s.invoke env handler = .ok t) : Quiet t := by
  cases handler with
  | onAccept g error =>
    simp only [invoke, onAccept] at hinvoke
    split at hinvoke
    · cases hinvoke
    · split at hinvoke
      · cases hinvoke
        exact ⟨h.queue, h.stopped⟩
      · cases hinvoke
        exact ⟨h.queue, h.stopped⟩
  | onRead w result =>
    simp only [invoke, onRead] at hinvoke
    split at hinvoke
    · cases hinvoke
    · cases hinvoke
      exact h
    · split at hinvoke
      · cases hinvoke
      · split at hinvoke
        · cases hinvoke
        · cases hinvoke
          exact ⟨h.queue, h.stopped⟩
  | onExit =>
    cases hinvoke
    exact ⟨h.queue, fun _ => rfl⟩
  | onConfig => exact absurd rfl hhandler
  | onExpirate =>
    simp only [invoke] at hinvoke
    split at hinvoke
    · cases hinvoke
      exact ⟨h.queue, h.stopped⟩
    · cases hinvoke

/-- The service never runs out of work: the accept of the present server is pending or queued. -/
theorem Inv.not_outOfWork {g : Nat} (h : Inv s g) : ¬ s.OutOfWork := by
  obtain ⟨server, hserver, -, haccept⟩ := h.server
  rintro ⟨hqueue, hacceptor, -⟩
  cases haccepting : server.accepting with
  | true =>
    rw [acceptor_eq_some.mpr ⟨h.server_, hserver, haccepting⟩] at hacceptor
    cases hacceptor
  | false =>
    obtain ⟨error, hmem⟩ := haccept haccepting
    rw [hqueue] at hmem
    cases hmem

/-- Without a SIGUSR1 a step is no reload, and keeps the daemon quiet. -/
theorem StepCase.quiet {g : Nat} {move : Move} (hcase : StepCase env s move t) (hinv : Inv s g)
    (h : Quiet s) (hmove : ∀ inside, move ≠ .signal .SIGUSR1 inside) :
    move ≠ .reload ∧ Quiet t := by
  have hsignal : ∀ sig inside, move = .signal sig inside → sig.handler ≠ .onConfig := by
    intro sig inside hsig
    cases sig with
    | SIGUSR1 => exact absurd hsig (hmove inside)
    | SIGTERM | SIGINT | SIGUSR2 => exact Completion.noConfusion
  cases hcase with
  | accept error hserver_ hserver => exact ⟨Move.noConfusion, by simp [h.queue], h.stopped⟩
  | read result hworker => exact ⟨Move.noConfusion, by simp [h.queue], h.stopped⟩
  | @dispatch sig t hinvoke =>
    exact ⟨Move.noConfusion, invoke_quiet h (hsignal sig true rfl) hinvoke⟩
  | post sig =>
    refine ⟨Move.noConfusion, ?_, h.stopped⟩
    simp [h.queue, (hsignal sig false rfl).symm]
  | @execute handler t hmem hinvoke =>
    have hhandler : handler ≠ .onConfig := fun heq => h.queue (heq ▸ hmem)
    have herased : Quiet { s with queue := s.queue.erase handler } :=
      ⟨fun hconfig => h.queue (List.mem_of_mem_erase hconfig), h.stopped⟩
    exact ⟨Move.noConfusion, invoke_quiet herased hhandler hinvoke⟩
  | reload hreturned hdone =>
    rcases hreturned with hstopped | hidle
    · rw [h.stopped hstopped] at hdone
      cases hdone
    · exact absurd hidle hinv.not_outOfWork

/-- The daemon reloads only after a SIGUSR1, as long as it has a thread to run the service. -/
theorem signal_of_reload {moves : List Move} (h : Run.exec (step env) (start env) moves = .ok s)
    (hreload : .reload ∈ moves) : ∃ inside, .signal .SIGUSR1 inside ∈ moves := by
  by_contra hnone
  push Not at hnone
  have hquiet : Quiet s ∧ .reload ∉ moves := by
    revert hnone
    refine Run.exec_induction (P := fun moves s => (∀ inside, .signal .SIGUSR1 inside ∉ moves) →
      Quiet s ∧ .reload ∉ moves) ?_ ?_ h
    · exact fun _ => ⟨⟨List.not_mem_nil, fun hstopped => by cases hstopped⟩, List.not_mem_nil⟩
    · intro moves s move t hrun ih hstep hnone
      simp only [List.mem_append, List.mem_singleton, not_or] at hnone ⊢
      obtain ⟨hquiet, hmem⟩ := ih (fun inside => (hnone inside).1)
      obtain ⟨hmove, hquiet'⟩ := (step_cases hstep).quiet (run_inv hrun) hquiet
        (fun inside heq => (hnone inside).2 heq.symm)
      exact ⟨hquiet', hmem, hmove.symm⟩
  exact hquiet.2 hreload

end Swordfish.Daemon
