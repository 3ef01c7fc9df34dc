import Swordfish.System.FailedFill

/-!
# What the filler is asked for

A key goes from a client's `get` through `push_key`, the queue and the local `keys` of the filler
into a call of `get_vals`. On all of this way it is the normal form of an argument that a client
asked for.
-/

namespace Swordfish
open DHashmap

/-- The arguments of a request. -/
def Action.asks : Action → List Str
  | .request _ args => args
  | _ => []

/-- Some request of the run has this argument. -/
def Asked (actions : List Action) (arg : Str) : Prop := ∃ action ∈ actions, arg ∈ action.asks

/-- The key waits for the filler, or was passed to `get_vals`. -/
def Sys.Queued (s : Sys) (key : Str) : Prop :=
  key ∈ s.storage.queue_.queue_ ∨ ∃ keys ret vals, .fetched keys ret vals ∈ s.log ∧ key ∈ keys

/-- The key that a client is about to push. -/
def ClientPc.key : ClientPc → Option Str
  | .sizeTest key | .push key => some key
  | .idle | .lookup | .setQueueSize _ => none

variable {cfg : FillerConfig} {env : Env}

section Places

variable {P : Str → Prop} {s t : Storage}

/-- The normal form of an argument that satisfies `P`. -/
def NormalOf (env : Env) (P : Str → Prop) (key : Str) : Prop :=
  ∃ arg, P arg ∧ key = env.normalize arg

/-- The arguments that a client has not looked up satisfy `P`, and what it is about to push is the
normal form of such an argument. -/
structure Client.Asks (env : Env) (P : Str → Prop) (x : Client) : Prop where
  args : ∀ arg ∈ x.args, P arg
  key : ∀ key, x.pc.key = some key → NormalOf env P key

theorem NormalOf.mono {Q : Str → Prop} {key : Str} (h : NormalOf env P key)
    (hPQ : ∀ arg, P arg → Q arg) : NormalOf env Q key := by
  obtain ⟨arg, harg, hkey⟩ := h
  exact ⟨arg, hPQ arg harg, hkey⟩

theorem Client.Asks.mono {Q : Str → Prop} {x : Client} (h : x.Asks env P)
    (hPQ : ∀ arg, P arg → Q arg) : x.Asks env Q where
  args arg harg := hPQ arg (h.args arg harg)
  key key hkey := (h.key key hkey).mono hPQ

theorem Client.asks_idle : Client.idle.Asks env P where
  args arg harg := by cases harg
  key key hkey := by cases hkey

theorem DHashmap.get_normalizedKey {u v : DHashmap} {now refresh : TimeType} {arg val : Str}
    {out : GetResult} (h : u.get env now refresh arg val = .ok (v, out)) :
    out.normalizedKey = env.normalize arg := by
  unfold DHashmap.get at h
  simp only [bind, Except.bind, pure, Except.pure] at h
  split at h
  · split at h
    · cases h
    · split at h
      · cases h
      · split at h
        · cases h
          rfl
        · cases h
          rfl
  · cases h
    rfl

/-- After a lookup, the client goes on to the next argument or pushes the normal form of this
one. -/
theorem Client.Asks.looked {x y : Client} {arg : Str} {args : List Str} {out : GetResult}
    (h : x.Asks env P) (hargs : x.args = arg :: args) (hkey : out.normalizedKey = env.normalize arg)
    (hyargs : y.args = args)
    (hypc : y.pc = if out.ret then .lookup else .sizeTest out.normalizedKey) : y.Asks env P where
  args arg' harg' := h.args arg' (hargs ▸ List.mem_cons_of_mem arg (hyargs ▸ harg'))
  key key hpending := by
    rw [hypc] at hpending
    split at hpending
    · cases hpending
    · cases hpending
      exact ⟨arg, h.args arg (hargs ▸ List.mem_cons_self), hkey⟩

/-! ## The way of a key, step by step -/

theorem Queue.mem_push {q : Queue} {key data : Str} (h : key ∈ (q.push data).1.queue_) :
    key ∈ q.queue_ ∨ key = data := by
  unfold Queue.push at h
  split at h
  · exact Or.inl h
  · exact (List.mem_append.mp h).imp id List.mem_singleton.mp

theorem ClientCase.asks {now refresh : TimeType} {c : Nat} {x y : Client} {event : Option Event}
    (h : ClientCase env s now refresh c x (t, y, event)) (hx : x.Asks env P) :
    y.Asks env P ∧ ∀ key ∈ t.queue_.queue_, key ∈ s.queue_.queue_ ∨ NormalOf env P key := by
  cases h with
  | answer hpc hargs => exact ⟨Client.asks_idle, fun key hkey => Or.inl hkey⟩
  | found hpc hargs hget hval =>
    exact ⟨hx.looked hargs (get_normalizedKey hget) rfl rfl, fun key hkey => Or.inl hkey⟩
  | silent hpc hargs hget hval =>
    exact ⟨hx.looked hargs (get_normalizedKey hget) rfl rfl, fun key hkey => Or.inl hkey⟩
  | @sizeTest key hpc =>
    refine ⟨⟨hx.args, fun key' hkey' => ?_⟩, fun key hkey => Or.inl hkey⟩
    have hkey : key' = key := by
      simp only at hkey'
      split at hkey'
      · cases hkey'
        rfl
      · cases hkey'
    exact hx.key key' (by rw [hpc, hkey]; rfl)
  | @push key hpc =>
    refine ⟨⟨hx.args, fun key' hkey' => by cases hkey'⟩, fun key' hkey' => ?_⟩
    rcases Queue.mem_push hkey' with hold | rfl
    · exact Or.inl hold
    · exact Or.inr (hx.key key' (by rw [hpc]; rfl))
  | setQueueSize hpc =>
    exact ⟨⟨hx.args, fun key hkey => by cases hkey⟩, fun key hkey => Or.inl hkey⟩

/-- A step of the filler brings no key in. -/
theorem FillerCase.asks {isAlive : Bool} {now : TimeType} {f : Filler}
    {r : Storage × Filler × Option Event} (h : FillerCase cfg env s isAlive now f r) :
    (∀ key ∈ r.1.queue_.queue_, key ∈ s.queue_.queue_) ∧
      ∀ key ∈ r.2.1.keys, key ∈ f.keys ∨ key ∈ s.queue_.queue_ := by
  cases h with
  | test htest => exact ⟨fun key hkey => hkey, fun key hkey => Or.inl hkey⟩
  | expirate hpc => exact ⟨fun key hkey => hkey, fun key hkey => Or.inl hkey⟩
  | pop hpc =>
    cases hq : s.queue_.queue_ with
    | nil =>
      simp only [Queue.waitAndPop, hq]
      exact ⟨fun key hkey => hkey, fun key hkey => Or.inl hkey⟩
    | cons data rest =>
      simp only [Queue.waitAndPop, hq]
      refine ⟨fun key hkey => List.mem_cons_of_mem data hkey, fun key hkey => ?_⟩
      split at hkey
      · rcases List.mem_append.mp hkey with hold | hnew
        · exact Or.inl hold
        · exact Or.inr (List.mem_singleton.mp hnew ▸ List.mem_cons_self)
      · exact Or.inl hkey
  | addItem hpc hkey hval => exact ⟨fun key hkey => hkey, fun key hkey => Or.inl hkey⟩
  | roundEnd hpc hend => exact ⟨fun key hkey => hkey, fun key hkey => by cases hkey⟩
  | evict hpc => exact ⟨fun key hkey => hkey, fun key hkey => Or.inl hkey⟩
  | add hpc hadd => exact ⟨fun key hkey => hkey, fun key hkey => Or.inl hkey⟩

end Places

/-! ## The invariant -/

/-- What the clients ask for satisfies `P`, and every key on its way to `get_vals` is the normal
form of such an argument. -/
structure Asking (env : Env) (P : Str → Prop) (s : Sys) : Prop where
  clients : ∀ c, (s.clients c).Asks env P
  batch : ∀ key ∈ s.filler.keys, NormalOf env P key
  queued : ∀ key, s.Queued key → NormalOf env P key

variable {P : Str → Prop}

theorem Asking.mono {Q : Str → Prop} {s : Sys} (h : Asking env P s) (hPQ : ∀ arg, P arg → Q arg) :
    Asking env Q s where
  clients c := (h.clients c).mono hPQ
  batch key hkey := (h.batch key hkey).mono hPQ
  queued key hkey := (h.queued key hkey).mono hPQ

theorem asking_init {storage : Storage} (hempty : storage.queue_.queue_ = []) :
    Asking env P (.init storage) where
  clients _ := Client.asks_idle
  batch _ h := by cases h
  queued key h := by
    rcases h with h | ⟨_, _, _, h, -⟩
    · rw [Sys.init, hempty] at h
      cases h
    · cases h

/-- A step that logs no call of `get_vals` passes no key to it. -/
theorem mem_log_of_record {log : List Event} {event : Option Event}
    (h : ∀ keys ret vals, event ≠ some (.fetched keys ret vals)) {keys : List Str} {ret : Bool}
    {vals : List Str} (hmem : .fetched keys ret vals ∈ History.record event log) :
    .fetched keys ret vals ∈ log := by
  cases event with
  | none => exact hmem
  | some e =>
    rcases List.mem_cons.mp hmem with heq | hold
    · exact absurd (congrArg some heq.symm) (h keys ret vals)
    · exact hold

theorem SysCase.asking {s t : Sys} {action : Action} (h : SysCase cfg env s action t)
    (hs : Asking env P s) (hasks : ∀ arg ∈ action.asks, P arg) : Asking env P t := by
  cases h with
  | @request c args hpc =>
    refine ⟨fun c' => ?_, hs.batch, hs.queued⟩
    rcases eq_or_ne c' c with rfl | hne
    · simp only [Function.update_self]
      exact ⟨hasks, fun key hkey => by cases hkey⟩
    · simpa [hne] using hs.clients c'
  | @client c now refresh storage x event h =>
    obtain ⟨hx, hqueue⟩ := h.asks (hs.clients c)
    refine ⟨fun c' => ?_, hs.batch, fun key hkey => ?_⟩
    · rcases eq_or_ne c' c with rfl | hne
      · simpa using hx
      · simpa [hne] using hs.clients c'
    · rcases hkey with hkey | ⟨keys, ret, vals, hmem, hkey⟩
      · rcases hqueue key hkey with hold | hnew
        · exact hs.queued key (Or.inl hold)
        · exact hnew
      · exact hs.queued key (Or.inr ⟨keys, ret, vals, mem_log_of_record h.no_fetch hmem, hkey⟩)
  | @filler now storage f event h =>
    obtain ⟨hqueue, hkeys⟩ := h.asks
    refine ⟨hs.clients, fun key hkey => ?_, fun key hkey => ?_⟩
    · rcases hkeys key hkey with hold | hpopped
      · exact hs.batch key hold
      · exact hs.queued key (Or.inl hpopped)
    · rcases hkey with hkey | ⟨keys, ret, vals, hmem, hkey⟩
      · exact hs.queued key (Or.inl (hqueue key hkey))
      · exact hs.queued key (Or.inr ⟨keys, ret, vals, mem_log_of_record h.no_fetch hmem, hkey⟩)
  | isFillerAlive answer hpc => exact ⟨hs.clients, hs.batch, hs.queued⟩
  | getVals ret vals hpc =>
    refine ⟨hs.clients, hs.batch, fun key hkey => ?_⟩
    rcases hkey with hkey | ⟨keys, ret', vals', hmem, hkey⟩
    · exact hs.queued key (Or.inl hkey)
    · rcases List.mem_cons.mp hmem with heq | hold
      · cases heq
        exact hs.batch key hkey
      · exact hs.queued key (Or.inr ⟨keys, ret', vals', hold, hkey⟩)
  | expirate => exact ⟨hs.clients, hs.batch, hs.queued⟩
  | shutdown => exact ⟨hs.clients, hs.batch, hs.queued⟩

/-- In every run from an empty queue, what waits for the filler and what was passed to `get_vals`
are normal forms of arguments that clients asked for. -/
theorem run_asked {storage : Storage} (hempty : storage.queue_.queue_ = [])
    {actions : List Action} {s : Sys} (h : Sys.run cfg env (.init storage) actions = .ok s)
    {key : Str} (hkey : s.Queued key) : ∃ arg, Asked actions arg ∧ key = env.normalize arg := by
  refine Asking.queued (Run.exec_induction (P := fun actions s => Asking env (Asked actions) s)
    (asking_init hempty) ?_ h) key hkey
  intro actions s action t hrun hs hstep
  have hgrow : ∀ arg, Asked actions arg → Asked (actions ++ [action]) arg := by
    rintro arg ⟨action', hmem, harg⟩
    exact ⟨action', List.mem_append_left _ hmem, harg⟩
  refine (Sys.step_cases hstep).asking (hs.mono hgrow) (fun arg harg => ?_)
  exact ⟨action, List.mem_append_right _ List.mem_cons_self, harg⟩

end Swordfish
