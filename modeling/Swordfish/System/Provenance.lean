import Swordfish.DHashmap.Refinement
import Swordfish.System.Steps

/-!
# Where served values come from

A value travels from the output vector of `get_vals` through the pairs of the filler's loop, the
store and `get_val` into a response. At each of these places it stands under a key for which
`get_vals` returned it; the invariant says so of all of them at once.
-/

namespace Swordfish
open DHashmap

variable {cfg : FillerConfig} {env : Env}

/-- A call of `get_vals` in the log returned `val` for `key`. -/
def Fetched (log : List Event) (key val : Str) : Prop :=
  ∃ keys ret vals, Event.fetched keys ret vals ∈ log ∧ (key, val) ∈ keys.zip vals

theorem Fetched.record {log : List Event} {key val : Str} (h : Fetched log key val)
    (event : Option Event) : Fetched (History.record event log) key val := by
  obtain ⟨keys, ret, vals, hmem, hpair⟩ := h
  exact ⟨keys, ret, vals, History.mem_record_of_mem hmem, hpair⟩

/-- The items of a response as `res_append` writes them. -/
def render (items : List (Str × Str)) : Str :=
  items.foldl (fun res item => Storage.resAppend item.1 item.2 res) []

/-- A response consists of its items, and each carries a value that was fetched before for the
normal form of its argument. -/
def Event.Served (env : Env) (before : List Event) : Event → Prop
  | .sent _ items res =>
      res = render items ++ text "END\r\n" ∧
        ∀ item ∈ items, Fetched before (env.normalize item.1) item.2
  | _ => True

section Places

variable {P : Str → Str → Prop} {s t : Storage}

/-- Every binding of the store satisfies `P`. -/
structure StoredFrom (env : Env) (P : Str → Str → Prop) (s : Storage) : Prop where
  interned : Interned env s.storage_
  stored : ∀ key val, s.storage_.view key = some val → P key val

/-- Every item a client has received so far satisfies `P` under the normal form of its
argument. -/
structure Client.ServedFrom (env : Env) (P : Str → Str → Prop) (x : Client) : Prop where
  rendered : x.res = render x.items
  served : ∀ item ∈ x.items, P (env.normalize item.1) item.2

/-- Every pair the filler is about to store satisfies `P`. -/
structure Filler.BatchFrom (P : Str → Str → Prop) (f : Filler) : Prop where
  pairs : f.pc.Storing → ∀ pair ∈ f.keys.zip f.vals, P pair.1 pair.2
  item : ∀ pair, f.pc.item = some pair → P pair.1 pair.2

/-! ## The places where a value can be, step by step -/

theorem StoredFrom.mono {Q : Str → Str → Prop} (h : StoredFrom env P s)
    (hPQ : ∀ key val, P key val → Q key val) : StoredFrom env Q s where
  interned := h.interned
  stored key val hview := hPQ key val (h.stored key val hview)

theorem StoredFrom.of_storage_eq (h : StoredFrom env P s) (heq : t.storage_ = s.storage_) :
    StoredFrom env P t where
  interned := heq ▸ h.interned
  stored := heq ▸ h.stored

theorem StoredFrom.expirate (h : StoredFrom env P s) : StoredFrom env P s.expirate where
  interned := expirate_interned h.interned _
  stored key val hview := h.stored key val (expirate_view hview)

theorem Client.ServedFrom.mono {Q : Str → Str → Prop} {x : Client} (h : x.ServedFrom env P)
    (hPQ : ∀ key val, P key val → Q key val) : x.ServedFrom env Q where
  rendered := h.rendered
  served item hitem := hPQ _ _ (h.served item hitem)

theorem Client.ServedFrom.of_items_eq {x y : Client} (h : x.ServedFrom env P)
    (hres : y.res = x.res) (hitems : y.items = x.items) : y.ServedFrom env P where
  rendered := by rw [hres, hitems, h.rendered]
  served := hitems ▸ h.served

theorem Client.servedFrom_nil (pc : ClientPc) (args : List Str) :
    Client.ServedFrom env P { pc := pc, args := args, res := [], items := [] } where
  rendered := rfl
  served := by simp

theorem Filler.BatchFrom.mono {Q : Str → Str → Prop} {f : Filler} (h : f.BatchFrom P)
    (hPQ : ∀ key val, P key val → Q key val) : f.BatchFrom Q where
  pairs hpc pair hpair := hPQ _ _ (h.pairs hpc pair hpair)
  item pair hpair := hPQ _ _ (h.item pair hpair)

/-- Outside the loop over the fetched values nothing is about to be stored. -/
theorem Filler.batchFrom_of_not_storing {f : Filler} (h : ¬ f.pc.Storing) : f.BatchFrom P where
  pairs hpc := absurd hpc h
  item pair hpair := by
    cases hpc : f.pc <;> simp [hpc, FillerPc.item, FillerPc.Storing] at h hpair

/-- The tests of the filler's loop move no pair. -/
theorem Filler.BatchFrom.test {f : Filler} {isAlive : Bool} {pc : FillerPc} (h : f.BatchFrom P)
    (htest : f.test cfg s isAlive = some pc) : Filler.BatchFrom P { f with pc := pc } := by
  by_cases hpc : pc.Storing
  · obtain ⟨hstoring, hitem⟩ := Filler.storing_of_test htest hpc
    exact ⟨fun _ => h.pairs hstoring, fun pair hpair => h.item pair (hitem ▸ hpair)⟩
  · exact Filler.batchFrom_of_not_storing hpc

/-- A client's step reads the store, and appends to its response what the store has under the
normal form of the argument. -/
theorem ClientCase.provenance {now refresh : TimeType} {c : Nat} {x y : Client}
    {event : Option Event} (h : ClientCase env s now refresh c x (t, y, event))
    (hs : StoredFrom env P s) (hx : x.ServedFrom env P) :
    StoredFrom env P t ∧ y.ServedFrom env P ∧
      ∀ e, event = some e → ∃ items res, e = .sent c items res ∧
        res = render items ++ text "END\r\n" ∧
        ∀ item ∈ items, P (env.normalize item.1) item.2 := by
  cases h with
  | answer hpc hargs =>
    refine ⟨hs, Client.servedFrom_nil _ _, fun e he => ?_⟩
    cases he
    exact ⟨x.items, _, rfl, by rw [hx.rendered], hx.served⟩
  | @found arg args storage out hpc hargs hget hval =>
    obtain ⟨hw, hview, hout⟩ := get_view hs.interned hget
    refine ⟨⟨hw, ?_⟩, ⟨?_, ?_⟩, ?_⟩
    · intro key val hkey
      exact hs.stored key val (hview ▸ hkey)
    · change Storage.resAppend arg out.val x.res = render (x.items ++ [(arg, out.val)])
      rw [hx.rendered, render, render, List.foldl_append]
      rfl
    · intro item hitem
      rcases List.mem_append.mp hitem with hold | hnew
      · exact hx.served item hold
      · obtain rfl := List.mem_singleton.mp hnew
        exact hs.stored _ _ (hout hval)
    · intro e he
      cases he
  | silent hpc hargs hget hval =>
    obtain ⟨hw, hview, -⟩ := get_view hs.interned hget
    refine ⟨⟨hw, ?_⟩, hx.of_items_eq rfl rfl, ?_⟩
    · intro key val hkey
      exact hs.stored key val (hview ▸ hkey)
    · intro e he
      cases he
  | sizeTest hpc => exact ⟨hs, hx.of_items_eq rfl rfl, fun e he => by cases he⟩
  | push hpc => exact ⟨hs.of_storage_eq rfl, hx.of_items_eq rfl rfl, fun e he => by cases he⟩
  | setQueueSize hpc =>
    exact ⟨hs.of_storage_eq rfl, hx.of_items_eq rfl rfl, fun e he => by cases he⟩

/-- A step of the filler stores the pairs of its batch, and nothing else. -/
theorem FillerCase.provenance {isAlive : Bool} {now : TimeType} {f g : Filler}
    {event : Option Event} (h : FillerCase cfg env s isAlive now f (t, g, event))
    (hs : StoredFrom env P s) (hf : f.BatchFrom P) :
    StoredFrom env P t ∧ g.BatchFrom P ∧ ∀ e, event = some e → ∃ key val, e = .addItem key val := by
  cases h with
  | test htest => exact ⟨hs, hf.test htest, fun e he => by cases he⟩
  | expirate hpc => exact ⟨hs.expirate, Filler.batchFrom_of_not_storing id, fun e he => by cases he⟩
  | pop hpc =>
    exact ⟨hs.of_storage_eq rfl, Filler.batchFrom_of_not_storing id, fun e he => by cases he⟩
  | @addItem i key val hpc hkey hval =>
    have hpairs := hf.pairs (by rw [hpc]; trivial)
    refine ⟨hs, ⟨fun _ => hpairs, fun pair hpair => ?_⟩, fun e he => ?_⟩
    · cases hpair
      exact hpairs (key, val) (List.mem_of_getElem? (List.getElem?_zip_eq_some.mpr ⟨hkey, hval⟩))
    · cases he
      exact ⟨key, val, rfl⟩
  | roundEnd hpc hend =>
    exact ⟨hs, Filler.batchFrom_of_not_storing id, fun e he => by cases he⟩
  | evict hpc =>
    have hpairs := hf.pairs (by rw [hpc]; trivial)
    have hitem := hf.item _ (by rw [hpc]; rfl)
    refine ⟨hs.expirate, ⟨fun _ => hpairs, fun pair hpair => ?_⟩, fun e he => by cases he⟩
    cases hpair
    exact hitem
  | @add i key val storage hpc hadd =>
    have hpairs := hf.pairs (by rw [hpc]; trivial)
    have hitem := hf.item (key, val) (by rw [hpc]; rfl)
    obtain ⟨hw, hview⟩ := add_view hs.interned hadd
    refine ⟨⟨hw, fun k v hkey => ?_⟩, ⟨fun _ => hpairs, fun pair hpair => ?_⟩,
      fun e he => by cases he⟩
    · rcases hview k v hkey with hold | ⟨rfl, rfl⟩
      · exact hs.stored k v hold
      · exact hitem
    · cases hpair

end Places

/-! ## The invariant -/

/-- Every value in the system stands under a key for which it was fetched. -/
structure Provenance (env : Env) (s : Sys) : Prop where
  stored : StoredFrom env (Fetched s.log) s.storage
  clients : ∀ c, (s.clients c).ServedFrom env (Fetched s.log)
  batch : s.filler.BatchFrom (Fetched s.log)
  served : History.Explained (Event.Served env) s.log

theorem provenance_init (env : Env) (now : TimeType) (ttl : Nat)
    (maxStorageSize maxQueueSize expirateSize : UInt64) :
    Provenance env (.init (.init now ttl maxStorageSize maxQueueSize expirateSize)) where
  stored := ⟨interned_init env ttl, fun _ _ h => by cases h⟩
  clients _ := Client.servedFrom_nil _ _
  batch := Filler.batchFrom_of_not_storing id
  served := trivial

theorem SysCase.provenance {s t : Sys} {action : Action} (h : SysCase cfg env s action t)
    (hs : Provenance env s) : Provenance env t := by
  cases h with
  | @request c args hpc =>
    refine ⟨hs.stored, fun c' => ?_, hs.batch, hs.served⟩
    rcases eq_or_ne c' c with rfl | hne
    · simp only [Function.update_self]
      exact Client.servedFrom_nil _ _
    · simpa [hne] using hs.clients c'
  | @client c now refresh storage x event h =>
    obtain ⟨hstored, hx, hevent⟩ := h.provenance hs.stored (hs.clients c)
    have hgrow : ∀ key val, Fetched s.log key val → Fetched (History.record event s.log) key val :=
      fun _ _ hfetched => hfetched.record event
    refine ⟨hstored.mono hgrow, fun c' => ?_, hs.batch.mono hgrow, ?_⟩
    · rcases eq_or_ne c' c with rfl | hne
      · simpa using hx.mono hgrow
      · simpa [hne] using (hs.clients c').mono hgrow
    · refine History.explained_record hs.served (fun e he => ?_)
      obtain ⟨items, res, rfl, hres, hitems⟩ := hevent e he
      exact ⟨hres, hitems⟩
  | @filler now storage f event h =>
    obtain ⟨hstored, hf, hevent⟩ := h.provenance hs.stored hs.batch
    have hgrow : ∀ key val, Fetched s.log key val → Fetched (History.record event s.log) key val :=
      fun _ _ hfetched => hfetched.record event
    refine ⟨hstored.mono hgrow, fun c => (hs.clients c).mono hgrow, hf.mono hgrow, ?_⟩
    refine History.explained_record hs.served (fun e he => ?_)
    obtain ⟨key, val, rfl⟩ := hevent e he
    trivial
  | isFillerAlive answer hpc =>
    refine ⟨hs.stored, hs.clients, Filler.batchFrom_of_not_storing ?_, hs.served⟩
    cases answer <;> exact id
  | getVals ret vals hpc =>
    have hgrow : ∀ key val, Fetched s.log key val →
        Fetched (.fetched s.filler.keys ret vals :: s.log) key val :=
      fun _ _ hfetched => hfetched.record (some _)
    refine ⟨hs.stored.mono hgrow, fun c => (hs.clients c).mono hgrow, ⟨fun _ pair hpair => ?_, ?_⟩,
      trivial, hs.served⟩
    · exact ⟨s.filler.keys, ret, vals, List.mem_cons_self, hpair⟩
    · intro pair hpair
      cases hpair
  | expirate => exact ⟨hs.stored.expirate, hs.clients, hs.batch, hs.served⟩
  | shutdown => exact ⟨hs.stored, hs.clients, hs.batch, hs.served⟩

theorem run_provenance {now : TimeType} {ttl : Nat}
    {maxStorageSize maxQueueSize expirateSize : UInt64} {actions : List Action} {s : Sys}
    (h : Sys.run cfg env (.init (.init now ttl maxStorageSize maxQueueSize expirateSize)) actions =
      .ok s) : Provenance env s :=
  Run.exec_invariant (I := Provenance env)
    (fun _ _ _ hs hstep => (Sys.step_cases hstep).provenance hs)
    (provenance_init env now ttl maxStorageSize maxQueueSize expirateSize) h

/-- Provenance across the whole system: in every run of clients, filler and expirations, every
response consists of `VALUE` items, and the value of each was returned by an earlier call of
`get_vals` for exactly the normal form of the item's argument. -/
theorem responses_fetched {now : TimeType} {ttl : Nat}
    {maxStorageSize maxQueueSize expirateSize : UInt64} {actions : List Action} {s : Sys}
    (h : Sys.run cfg env (.init (.init now ttl maxStorageSize maxQueueSize expirateSize)) actions =
      .ok s) :
    ∀ after c items res before, s.log = after ++ .sent c items res :: before →
      res = render items ++ text "END\r\n" ∧
        ∀ a v, (a, v) ∈ items → ∃ keys ret vals,
          .fetched keys ret vals ∈ before ∧ (env.normalize a, v) ∈ keys.zip vals := by
  have hs : Provenance env s := run_provenance h
  intro after c items res before hlog
  obtain ⟨hres, hitems⟩ := History.explained_iff.mp hs.served after _ before hlog
  exact ⟨hres, fun a v hav => hitems (a, v) hav⟩

/-- A client asks for `"k"`, the filler fetches `"v"` for it, and the client asks again. -/
theorem responses_fetched_refill :
    ∃ s, Sys.run ⟨false, 1⟩ .plain (.init (.init 0 10 100 100 1))
        (askScript 0 [107] ++ fetchScript 1 true [[118]] ++ List.replicate 3 (.filler 1) ++
          [.request 0 [[107]], .client 0 2 2, .client 0 2 2]) = .ok s ∧
      ∃ res before, s.log = .sent 0 [([107], [118])] res :: before ∧
        ∃ keys ret vals, .fetched keys ret vals ∈ before ∧
          (Env.plain.normalize [107], [118]) ∈ keys.zip vals := by
  obtain ⟨s, hrun, hlog⟩ := Run.yields_iff.mp (by decide +kernel :
    Run.Yields (Sys.step ⟨false, 1⟩ .plain)
      (fun s => s.log =
        [.sent 0 [([107], [118])] (render [([107], [118])] ++ text "END\r\n"),
          .addItem [107] [118], .fetched [[107]] true [[118]], .sent 0 [] (text "END\r\n")])
      (.init (.init 0 10 100 100 1))
      (askScript 0 [107] ++ fetchScript 1 true [[118]] ++ List.replicate 3 (.filler 1) ++
        [.request 0 [[107]], .client 0 2 2, .client 0 2 2]))
  exact ⟨s, hrun, _, _, hlog,
    (responses_fetched hrun [] 0 _ _ _ hlog).2 [107] [118] List.mem_cons_self⟩

end Swordfish
