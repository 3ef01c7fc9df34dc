import Swordfish.DHashmap.Cache
import Swordfish.System.EndToEnd

/-!
# The hash is not observable

Two processes that differ in the `custom_hash` of the loaded library, and in `boost::hash`, and get
the same moves. Both stores are the same cache (`DHashmap.toCache`), so that every operation of the
one returns what it returns in the other: the processes stay in step, byte by byte on every
connection.
-/

namespace Swordfish

/-- The two libraries have the same `normalize_key`, and both indices link alike. -/
structure Env.SameButHash (env env' : Env) : Prop where
  normalize : env'.normalize = env.normalize
  ttlIndex : env'.ttlIndex = env.ttlIndex

variable {cfg : FillerConfig} {env env' : Env}

/-! ## The store -/

namespace DHashmap

/-- The stores of the two processes are the same cache. -/
structure Alike (env env' : Env) (s t : DHashmap) : Prop where
  left : Interned env s
  right : Interned env' t
  same : t.toCache = s.toCache

variable {s t : DHashmap}

theorem Alike.get (h : Alike env env' s t) (henv : env.SameButHash env') (now refresh : TimeType)
    (_key val : Str) :
    Run.Agree (fun p q => Alike env env' p.1 q.1 ∧ q.2 = p.2)
      (s.get env now refresh _key val) (t.get env' now refresh _key val) := by
  obtain ⟨p, hget, hcase⟩ := get_cases h.left now refresh _key val
  obtain ⟨q, hget', hcase'⟩ := get_cases h.right now refresh _key val
  have hsame : (q.1.toCache, q.2) = (p.1.toCache, p.2) := by
    rw [hcase.toCache, hcase'.toCache, h.same, henv.normalize]
  obtain ⟨hcache, hresult⟩ := Prod.ext_iff.mp hsame
  rw [hget, hget']
  exact ⟨⟨hcase.interned h.left, hcase'.interned h.right, hcache⟩, hresult⟩

theorem Alike.add (h : Alike env env' s t) (henv : env.SameButHash env') (now : TimeType)
    (key val : Str) :
    Run.Agree (Alike env env') (s.add env now key val) (t.add env' now key val) := by
  obtain ⟨u, hadd, hcase⟩ := add_cases h.left now key val
  obtain ⟨v, hadd', hcase'⟩ := add_cases h.right now key val
  rw [hadd, hadd']
  refine ⟨hcase.interned h.left, hcase'.interned h.right, ?_⟩
  rw [hcase.toCache h.left, hcase'.toCache h.right, h.same, henv.ttlIndex]

theorem Alike.expirate (h : Alike env env' s t) (n : UInt64) :
    Alike env env' (s.expirate n) (t.expirate n) where
  left := expirate_interned h.left n
  right := expirate_interned h.right n
  same := by rw [toCache_expirate h.left, toCache_expirate h.right, h.same]

theorem Alike.getStorageSize (h : Alike env env' s t) : t.getStorageSize = s.getStorageSize :=
  congrArg (fun c => c.storageSize.toUInt32) h.same

theorem Alike.getValuesSize (h : Alike env env' s t) : t.getValuesSize = s.getValuesSize := by
  rw [← toCache_getValuesSize h.left, ← toCache_getValuesSize h.right, h.same]

end DHashmap

/-! ## The storage -/

/-- The storages of the two processes differ in their stores only, and these are alike. -/
structure Storage.Alike (env env' : Env) (s t : Storage) : Prop where
  store : DHashmap.Alike env env' s.storage_ t.storage_
  queue_ : t.queue_ = s.queue_
  stats_ : t.stats_ = s.stats_
  maxStorageSize_ : t.maxStorageSize_ = s.maxStorageSize_
  maxQueueSize_ : t.maxQueueSize_ = s.maxQueueSize_
  expirateSize_ : t.expirateSize_ = s.expirateSize_

namespace Storage.Alike

variable {s t : Storage}

theorem of_store (h : Storage.Alike env env' s t) {u v : DHashmap}
    (huv : DHashmap.Alike env env' u v) :
    Storage.Alike env env' { s with storage_ := u } { t with storage_ := v } :=
  { h with store := huv }

theorem storageSize (h : Storage.Alike env env' s t) : t.storageSize = s.storageSize :=
  congrArg UInt32.toUInt64 h.store.getStorageSize

theorem full_iff (h : Storage.Alike env env' s t) : t.Full ↔ s.Full := by
  rw [Storage.Full, Storage.Full, h.maxStorageSize_, h.storageSize]

theorem expirate (h : Storage.Alike env env' s t) :
    Storage.Alike env env' s.expirate t.expirate := by
  refine h.of_store ?_
  rw [h.expirateSize_]
  exact h.store.expirate s.expirateSize_

/-- A change of the queue, made in both. -/
theorem setQueue (h : Storage.Alike env env' s t) (queue : Queue) :
    Storage.Alike env env' { s with queue_ := queue } { t with queue_ := queue } :=
  { h with queue_ := rfl }

/-- A change of the statistics, made in both. -/
theorem setStats (h : Storage.Alike env env' s t) (stats : Stats) :
    Storage.Alike env env' { s with stats_ := stats } { t with stats_ := stats } :=
  { h with stats_ := rfl }

/-- A figure reads the same in both. -/
theorem read (h : Storage.Alike env env' s t) (f : Figure) :
    Storage.Alike env env' (f.read s).1 (f.read t).1 ∧ (f.read t).2 = (f.read s).2 := by
  have hsame : ∀ {α : Type} (g : Cache → α), g t.storage_.toCache = g s.storage_.toCache :=
    fun g => congrArg g h.store.same
  cases f with
  | storageSize => exact ⟨h, h.store.getStorageSize⟩
  | deleted =>
    refine ⟨h.of_store ⟨h.store.left.of_same_owners rfl rfl rfl,
      h.store.right.of_same_owners rfl rfl rfl, ?_⟩, hsame Cache.deleted⟩
    exact hsame (fun c => { c with deleted := 0 })
  | queueSize => exact ⟨h, congrArg Queue.size h.queue_⟩
  | gets =>
    refine ⟨h.of_store ⟨h.store.left.of_same_owners rfl rfl rfl,
      h.store.right.of_same_owners rfl rfl rfl, ?_⟩, hsame Cache.gets⟩
    exact hsame (fun c => { c with gets := 0 })
  | valuesSize => exact ⟨h, h.store.getValuesSize⟩
  | updates =>
    refine ⟨h.of_store ⟨h.store.left.of_same_owners rfl rfl rfl,
      h.store.right.of_same_owners rfl rfl rfl, ?_⟩, hsame Cache.updates⟩
    exact hsame (fun c => { c with updates := 0 })

end Storage.Alike

/-! ## The clients and the filler -/

/-- The results of a step of a client or of the filler. -/
def AlikeStep {α : Type} (env env' : Env) (p q : Storage × α × Option Event) : Prop :=
  Storage.Alike env env' p.1 q.1 ∧ q.2 = p.2

theorem Client.step_alike (henv : env.SameButHash env') {s t : Storage}
    (h : Storage.Alike env env' s t) (now refresh : TimeType) (c : Nat) (x : Client) :
    Run.Agree (AlikeStep env env') (x.step env s now refresh c) (x.step env' t now refresh c) := by
  unfold Client.step
  cases x.pc with
  | idle => rfl
  | lookup =>
    cases x.args with
    | nil => exact ⟨h, rfl⟩
    | cons arg args =>
      rcases Run.agree_iff.mp (h.store.get henv now refresh arg []) with
        ⟨⟨u, out⟩, ⟨v, out'⟩, hget, hget', huv, hout⟩ | ⟨e, hget, hget'⟩
      · obtain rfl : out' = out := hout
        simp only [hget, hget']
        exact ⟨h.of_store huv, rfl⟩
      · simp only [hget, hget']
        rfl
  | sizeTest key =>
    simp only [h.queue_, h.maxQueueSize_]
    exact ⟨h, rfl⟩
  | push key =>
    simp only [h.queue_]
    exact ⟨h.setQueue _, rfl⟩
  | setQueueSize size =>
    simp only [h.stats_]
    exact ⟨h.setStats _, rfl⟩

/-- The tests of the filler see no difference. -/
theorem Filler.test_alike {s t : Storage} (h : Storage.Alike env env' s t) (isAlive : Bool)
    (f : Filler) : f.test cfg t isAlive = f.test cfg s isAlive := by
  have hfull : t.Full ↔ s.Full := h.full_iff
  unfold Filler.test
  cases f.pc <;> simp only [h.maxStorageSize_, h.storageSize, h.queue_, hfull]

theorem Filler.step_alike (cfg : FillerConfig) (henv : env.SameButHash env') {s t : Storage}
    (h : Storage.Alike env env' s t) (isAlive : Bool) (now : TimeType) (f : Filler) :
    Run.Agree (AlikeStep env env') (f.step cfg env s isAlive now)
      (f.step cfg env' t isAlive now) := by
  unfold Filler.step
  rw [Filler.test_alike h]
  cases f.test cfg s isAlive with
  | some pc => exact ⟨h, rfl⟩
  | none =>
    cases f.pc with
    | expirate => exact ⟨h.expirate, rfl⟩
    | pop k =>
      simp only [h.queue_]
      exact ⟨h.setQueue _, rfl⟩
    | pair i =>
      cases hkey : f.keys[i]? with
      | none =>
        simp only [hkey]
        exact ⟨h, rfl⟩
      | some key =>
        cases hval : f.vals[i]? <;> simp only [hkey, hval] <;> exact ⟨h, rfl⟩
    | evict i key val => exact ⟨h.expirate, rfl⟩
    | add i key val =>
      rcases Run.agree_iff.mp (h.store.add henv now key val) with
        ⟨u, v, hadd, hadd', huv⟩ | ⟨e, hadd, hadd'⟩
      · simp only [hadd, hadd']
        exact ⟨h.of_store huv, rfl⟩
      · simp only [hadd, hadd']
        rfl
    | loop | fullTest | aliveTest k | queueTest k | sizeTest k | fetchTest | askAlive | fetch
      | capacityTest i key val | stopped => rfl

/-! ## The processes -/

/-- The systems of the two processes differ in their stores only, and these are alike. -/
structure Sys.Alike (env env' : Env) (s t : Sys) : Prop where
  storage : Storage.Alike env env' s.storage t.storage
  clients : t.clients = s.clients
  filler : t.filler = s.filler
  isAlive_ : t.isAlive_ = s.isAlive_
  log : t.log = s.log

theorem Sys.step_alike (cfg : FillerConfig) (henv : env.SameButHash env') :
    Run.InStep (Sys.Alike env env') (Sys.step cfg env) (Sys.step cfg env') := by
  intro s t action h
  unfold Sys.step
  cases action with
  | request c args =>
    simp only [h.clients]
    cases (s.clients c).pc with
    | idle => exact { h with clients := rfl }
    | lookup | sizeTest key | push key | setQueueSize size => rfl
  | client c now refresh =>
    simp only [h.clients, h.log]
    rcases Run.agree_iff.mp (Client.step_alike henv h.storage now refresh c (s.clients c)) with
      ⟨⟨u, x⟩, ⟨v, y⟩, hx, hy, huv, hxy⟩ | ⟨e, hx, hy⟩
    · obtain rfl : y = x := hxy
      simp only [hx, hy]
      exact ⟨huv, rfl, h.filler, h.isAlive_, rfl⟩
    · simp only [hx, hy]
      rfl
  | filler now =>
    simp only [h.filler, h.isAlive_, h.log]
    rcases Run.agree_iff.mp
        (Filler.step_alike cfg henv h.storage s.isAlive_ now s.filler) with
      ⟨⟨u, x⟩, ⟨v, y⟩, hx, hy, huv, hxy⟩ | ⟨e, hx, hy⟩
    · obtain rfl : y = x := hxy
      simp only [hx, hy]
      exact ⟨huv, h.clients, rfl, rfl, rfl⟩
    · simp only [hx, hy]
      rfl
  | isFillerAlive answer =>
    simp only [h.filler]
    cases s.filler.pc with
    | askAlive => exact { h with filler := rfl }
    | loop | fullTest | expirate | aliveTest k | queueTest k | sizeTest k | pop k | fetchTest
      | fetch | pair i | capacityTest i key val | evict i key val | add i key val | stopped => rfl
  | getVals ret vals =>
    simp only [h.filler, h.log]
    cases s.filler.pc with
    | fetch => exact { h with filler := rfl, log := rfl }
    | loop | fullTest | expirate | aliveTest k | queueTest k | sizeTest k | pop k | fetchTest
      | askAlive | pair i | capacityTest i key val | evict i key val | add i key val
      | stopped => rfl
  | expirate => exact { h with storage := h.storage.expirate }
  | shutdown => exact { h with isAlive_ := rfl }

namespace Network

/-- The two processes differ in their stores only, and these are alike. -/
structure Alike (env env' : Env) (n m : Network) : Prop where
  sys : Sys.Alike env env' n.sys m.sys
  rest : m = { n with sys := m.sys }

theorem round_alike (henv : env.SameButHash env') {n : Network} {t : Sys}
    (h : Sys.Alike env env' n.sys t) (c : Nat) (x : CommandTokenizer.Iterator) :
    Run.Agree (Alike env env') (n.round cfg env c x) (round cfg env' { n with sys := t } c x) := by
  cases x with
  | end_ => exact ⟨h, rfl⟩
  | here token offset =>
    simp only [round]
    by_cases hquit : (Command.ofLine token).name = text "quit"
    · simp only [if_pos hquit]
      exact ⟨h, rfl⟩
    by_cases hlevel : (Command.ofLine token).name = text "log_level"
    · simp only [if_neg hquit, if_pos hlevel]
      exact ⟨h, rfl⟩
    by_cases hstats : (Command.ofLine token).name = text "stats"
    · simp only [if_neg hquit, if_neg hlevel, if_pos hstats]
      exact ⟨h, rfl⟩
    by_cases hget : (Command.ofLine token).name = text "get"
    · simp only [if_neg hquit, if_neg hlevel, if_neg hstats, if_pos hget]
      rcases Run.agree_iff.mp (Sys.step_alike cfg henv n.sys t
          (.request c (Command.ofLine token).arguments) h) with
        ⟨s, t, hs, ht, hst⟩ | ⟨e, hs, ht⟩
      · rw [hs, ht]
        exact ⟨hst, rfl⟩
      · rw [hs, ht]
        exact rfl
    · simp only [if_neg hquit, if_neg hlevel, if_neg hstats, if_neg hget]
      exact ⟨h, rfl⟩

theorem work_alike (henv : env.SameButHash env') {n : Network} {t : Sys}
    (h : Sys.Alike env env' n.sys t) (c : Nat) (now refresh : TimeType) :
    Run.Agree (Alike env env') (n.work cfg env c now refresh)
      (work cfg env' { n with sys := t } c now refresh) := by
  unfold work
  dsimp only
  cases (n.sessions c).pc with
  | reading => exact rfl
  | closed => exact rfl
  | handling x => exact round_alike henv h c x
  | getting x =>
    simp only [h.clients, h.log]
    rcases Run.agree_iff.mp
        (Client.step_alike henv h.storage now refresh c (n.sys.clients c)) with
      ⟨⟨u, y, event⟩, ⟨v, y', event'⟩, hy, hy', huv, hsame⟩ | ⟨e, hy, hy'⟩
    · cases hsame
      rw [hy, hy']
      exact ⟨⟨huv, rfl, h.filler, h.isAlive_, rfl⟩, rfl⟩
    · rw [hy, hy']
      exact rfl
  | reporting x pc =>
    cases pc with
    | read f =>
      obtain ⟨hread, hfigure⟩ := h.storage.read f
      simp only [StatsPc.step, hfigure]
      exact ⟨⟨hread, h.clients, h.filler, h.isAlive_, h.log⟩, rfl⟩
    | set f k =>
      simp only [StatsPc.step, h.storage.stats_]
      exact ⟨⟨h.storage.setStats _, h.clients, h.filler, h.isAlive_, h.log⟩, rfl⟩
    | print =>
      simp only [StatsPc.step, h.storage.stats_]
      exact ⟨h, rfl⟩
  | writing x response =>
    dsimp only
    split
    · exact ⟨h, rfl⟩
    · exact ⟨h, rfl⟩

theorem step_alike (cfg : FillerConfig) (henv : env.SameButHash env') :
    Run.InStep (Alike env env') (step cfg env) (step cfg env') := by
  intro n m move hnm
  obtain ⟨h, hrest⟩ := hnm
  rw [hrest]
  unfold step
  dsimp only
  split
  · exact rfl
  · cases move with
    | onRead c result =>
      cases hpc : (n.sessions c).pc with
      | reading =>
        cases result with
        | some bytes =>
          simp only [hpc]
          exact ⟨h, rfl⟩
        | none =>
          simp only [hpc]
          exact ⟨h, rfl⟩
      | handling x | getting x | reporting x pc | writing x response | closed =>
        simp only [hpc]
        exact rfl
    | reset c => exact ⟨h, rfl⟩
    | go c now refresh => exact work_alike henv h c now refresh
    | daemon action =>
      have hdaemon := Sys.step_alike cfg henv n.sys m.sys action h
      cases action with
      | request c args => exact rfl
      | client c now refresh => exact rfl
      | filler _ | isFillerAlive _ | getVals _ _ | expirate | shutdown =>
        dsimp only
        rcases Run.agree_iff.mp hdaemon with ⟨s, t, hs, ht, hst⟩ | ⟨e, hs, ht⟩
        · rw [hs, ht]
          exact ⟨hst, rfl⟩
        · rw [hs, ht]
          exact rfl

theorem start_alike (env env' : Env) (now : TimeType) (ttl : Nat)
    (maxStorageSize maxQueueSize expirateSize : UInt64) (level : LogLevel) :
    Alike env env' (.start (.init now ttl maxStorageSize maxQueueSize expirateSize) level)
      (.start (.init now ttl maxStorageSize maxQueueSize expirateSize) level) :=
  have hstore : DHashmap.Alike env env' (.init ttl) (.init ttl) :=
    ⟨DHashmap.interned_init env ttl, DHashmap.interned_init env' ttl, rfl⟩
  ⟨⟨⟨hstore, rfl, rfl, rfl, rfl, rfl⟩, rfl, rfl, rfl, rfl⟩, rfl⟩

/-- The hash is not observable: whatever `custom_hash` the loaded library has, and whatever
`boost::hash` is, a run of all connections, the filler and its library gives the same bytes on
every connection, the same calls of the library and of `add_item`, the same queue and the same
statistics, and leaves the same cache; and it stops where it stops with any other hash. -/
theorem run_hash_independent (cfg : FillerConfig) (env : Env)
    (customHash : Option (Str → UInt64)) (hash : Str → UInt64) (now : TimeType) (ttl : Nat)
    (maxStorageSize maxQueueSize expirateSize : UInt64) (level : LogLevel) (moves : List Move) :
    Run.Agree
      (fun n m => m.sessions = n.sessions ∧ m.level = n.level ∧ m.terminated = n.terminated ∧
        m.sys.log = n.sys.log ∧ m.sys.clients = n.sys.clients ∧ m.sys.filler = n.sys.filler ∧
        m.sys.storage.queue_ = n.sys.storage.queue_ ∧
        m.sys.storage.stats_ = n.sys.storage.stats_ ∧
        m.sys.storage.storage_.toCache = n.sys.storage.storage_.toCache)
      (run cfg env (.start (.init now ttl maxStorageSize maxQueueSize expirateSize) level) moves)
      (run cfg { env with customHash := customHash, hash := hash }
        (.start (.init now ttl maxStorageSize maxQueueSize expirateSize) level) moves) := by
  have henv : env.SameButHash { env with customHash := customHash, hash := hash } := ⟨rfl, rfl⟩
  have hrun := (step_alike cfg henv).exec
    (start_alike _ _ now ttl maxStorageSize maxQueueSize expirateSize level) moves
  refine hrun.mono (fun n m h => ?_)
  have hrest := h.rest
  refine ⟨?_, ?_, ?_, h.sys.log, h.sys.clients, h.sys.filler, h.sys.storage.queue_,
    h.sys.storage.stats_, h.sys.storage.store.same⟩
  all_goals rw [hrest]

end Network

end Swordfish
