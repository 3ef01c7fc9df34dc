import Swordfish.Storage.CacheFull
import Swordfish.System.Provenance
import Swordfish.System.Sequential

/-!
# The filler that never comes back

Only the filler stores, so while it waits in `add_item` for room, the byte counter changes only by
evictions: its own, and those of the daemon. These free what the store holds and nothing else. Hence
an exact condition under which the filler can leave, whatever all others do; where it fails, the
filler does not even see that it is to be shut down, and `reset_server` joins it for ever.
-/

namespace Swordfish
open DHashmap

variable {cfg : FillerConfig} {env : Env}

/-! ## Evictions that free nothing -/

theorem DHashmap.expirate_zero_storageSize (s : DHashmap) :
    (s.expirate 0).storageSize = s.storageSize := by
  have hloop : expirateLoop 0 s.keys_.entries 0 = (0, 0) := by
    cases s.keys_.entries with
    | nil => rfl
    | cons e l => rfl
  unfold DHashmap.expirate
  rw [hloop]
  exact UInt64.sub_zero _

namespace Storage

/-- No eviction makes room: it frees nothing, or what it can free is not enough. -/
structure Choked (env : Env) (s : Storage) : Prop where
  interned : Interned env s.storage_
  reason : (s.expirateSize_ = 0 ∧ Full s) ∨
    ∃ leaked, Counted env leaked s ∧ s.maxStorageSize_.toNat ≤ leaked

variable {s t : Storage}

theorem Choked.full (h : Choked env s) : Full s := by
  rcases h.reason with ⟨-, hfull⟩ | ⟨leaked, hcounted, hle⟩
  · exact hfull
  · exact hcounted.full_iff.mpr (Nat.le_add_left_of_le hle)

theorem Choked.expirate (h : Choked env s) : Choked env s.expirate where
  interned := expirate_interned h.interned _
  reason := by
    rcases h.reason with ⟨hzero, hfull⟩ | ⟨leaked, hcounted, hle⟩
    · refine Or.inl ⟨hzero, ?_⟩
      have hsize : s.expirate.storageSize = s.storageSize := by
        rw [Storage.storageSize, Storage.storageSize, Storage.expirate, hzero]
        rw [getStorageSize, getStorageSize, expirate_zero_storageSize]
      unfold Full
      rw [hsize]
      exact hfull
    · exact Or.inr ⟨leaked, hcounted.expirate, hle⟩

/-- What leaves the counter, the values and the limits alone leaves it choked. -/
theorem Choked.of_same (h : Choked env s) (hw : Interned env t.storage_)
    (hsize : t.storage_.storageSize = s.storage_.storageSize)
    (hheld : t.storage_.heldBytes = s.storage_.heldBytes)
    (hmax : t.maxStorageSize_ = s.maxStorageSize_)
    (hexpirate : t.expirateSize_ = s.expirateSize_) : Choked env t where
  interned := hw
  reason := by
    rcases h.reason with ⟨hzero, hfull⟩ | ⟨leaked, hcounted, hle⟩
    · refine Or.inl ⟨hexpirate.trans hzero, ?_⟩
      unfold Full Storage.storageSize getStorageSize at hfull ⊢
      rw [hsize, hmax]
      exact hfull
    · refine Or.inr ⟨leaked, ⟨hw, ?_, ?_⟩, hmax ▸ hle⟩
      · rw [hsize, hheld]
        exact hcounted.counter
      · rw [hheld]
        exact hcounted.small

theorem Choked.get (h : Choked env s) {now refresh : TimeType} {key : Str} {storage : DHashmap}
    {out : GetResult} (hget : s.storage_.get env now refresh key [] = .ok (storage, out)) :
    Choked env { s with storage_ := storage } := by
  obtain ⟨r, hr, hcase⟩ := get_cases h.interned now refresh key []
  obtain rfl : (storage, out) = r := Except.ok.inj (hget.symm.trans hr)
  exact h.of_same (hcase.interned h.interned) hcase.storageSize_eq hcase.heldBytes_eq rfl rfl

/-- The condition, in terms of the counter and the bytes held. -/
theorem choked_iff (hw : Interned env s.storage_) (hfull : Full s)
    (hheld : s.storage_.heldBytes ≤ s.storage_.storageSize.toNat)
    (hsmall : s.storage_.storageSize.toNat < 2 ^ 32) :
    Choked env s ↔ s.expirateSize_ = 0 ∨
      s.maxStorageSize_.toNat ≤ s.storage_.storageSize.toNat - s.storage_.heldBytes := by
  constructor
  · intro h
    rcases h.reason with ⟨hzero, -⟩ | ⟨leaked, hleaked, hle⟩
    · exact Or.inl hzero
    · right
      have hnat := congrArg UInt64.toNat hleaked.counter
      have hsmall' := hleaked.small
      rw [UInt64.toNat_ofNat', Nat.mod_eq_of_lt (by omega)] at hnat
      omega
  · rintro (hzero | hle)
    · exact ⟨hw, Or.inl ⟨hzero, hfull⟩⟩
    · exact ⟨hw, Or.inr ⟨_, counted_of_held hw hheld hsmall, hle⟩⟩

/-- Evictions make room unless the storage is choked. -/
theorem ends_of_not_choked (hw : Interned env s.storage_) (hfull : Full s)
    (hheld : s.storage_.heldBytes ≤ s.storage_.storageSize.toNat)
    (hsmall : s.storage_.storageSize.toNat < 2 ^ 32) (h : ¬ Choked env s) :
    While.Ends Full Storage.expirate s := by
  rw [choked_iff hw hfull hheld hsmall, not_or, Nat.not_le] at h
  exact (counted_of_held hw hheld hsmall).ends (UInt64.pos_iff_ne_zero.mpr h.1) h.2

end Storage

/-! ## While the filler waits -/

/-- The filler is in the loop of `add_item`. -/
def FillerPc.Evicting (i : Nat) (key val : Str) (pc : FillerPc) : Prop :=
  pc = .capacityTest i key val ∨ pc = .evict i key val

namespace Sys

/-- The filler waits for room that no eviction makes. -/
structure Stuck (env : Env) (i : Nat) (key val : Str) (s : Sys) : Prop where
  choked : s.storage.Choked env
  evicting : s.filler.pc.Evicting i key val

/-- From `s` to `t`, nothing was stored or fetched, and the filler stays with its batch. -/
structure Dwindles (s t : Sys) : Prop where
  keys : t.filler.keys = s.filler.keys
  stored : ∀ key val, t.storage.storage_.view key = some val →
    s.storage.storage_.view key = some val
  log : ∃ events, t.log = events ++ s.log ∧ ∀ e ∈ events, ∃ c items res, e = .sent c items res

theorem Dwindles.refl (s : Sys) : Dwindles s s where
  keys := rfl
  stored _ _ h := h
  log := ⟨[], rfl, by simp⟩

theorem Dwindles.trans {s t u : Sys} (h : Dwindles s t) (h' : Dwindles t u) : Dwindles s u where
  keys := h'.keys.trans h.keys
  stored key val hview := h.stored key val (h'.stored key val hview)
  log := by
    obtain ⟨events, hlog, hsent⟩ := h.log
    obtain ⟨events', hlog', hsent'⟩ := h'.log
    refine ⟨events' ++ events, by rw [hlog', hlog, List.append_assoc], ?_⟩
    intro e he
    rcases List.mem_append.mp he with he | he
    · exact hsent' e he
    · exact hsent e he

/-- A client leaves the storage choked, and adds at most its own response to the log. -/
theorem ClientCase.stuck {s t : Storage} {now refresh : TimeType} {c : Nat} {x y : Client}
    {event : Option Event} (h : ClientCase env s now refresh c x (t, y, event))
    (hs : s.Choked env) :
    t.Choked env ∧ t.storage_.view = s.storage_.view ∧
      ∀ e, event = some e → ∃ c items res, e = .sent c items res := by
  cases h with
  | answer hpc hargs =>
    refine ⟨hs, rfl, ?_⟩
    rintro e ⟨⟩
    exact ⟨c, _, _, rfl⟩
  | found hpc hargs hget hval =>
    exact ⟨hs.get hget, (get_view hs.interned hget).2.1, by simp⟩
  | silent hpc hargs hget hval =>
    exact ⟨hs.get hget, (get_view hs.interned hget).2.1, by simp⟩
  | sizeTest hpc => exact ⟨hs, rfl, by simp⟩
  | push hpc => exact ⟨hs.of_same hs.interned rfl rfl rfl rfl, rfl, by simp⟩
  | setQueueSize hpc => exact ⟨hs.of_same hs.interned rfl rfl rfl rfl, rfl, by simp⟩

/-- The filler goes round its loop. -/
theorem FillerCase.stuck {s t : Storage} {isAlive : Bool} {now : TimeType} {f g : Filler}
    {event : Option Event} (h : FillerCase cfg env s isAlive now f (t, g, event))
    (hs : s.Choked env) {i : Nat} {key val : Str} (hf : f.pc.Evicting i key val) :
    t.Choked env ∧ g.pc.Evicting i key val ∧ g.keys = f.keys ∧ event = none ∧
      ∀ k v, t.storage_.view k = some v → s.storage_.view k = some v := by
  rcases hf with hf | hf
  · cases h with
    | test htest =>
      simp only [Filler.test, hf, if_pos hs.full, Option.some.injEq] at htest
      exact ⟨hs, Or.inr htest.symm, rfl, rfl, fun _ _ h => h⟩
    | expirate hpc | pop hpc | addItem hpc hkey hval | roundEnd hpc hend | evict hpc
      | add hpc hadd =>
      cases hf.symm.trans hpc
  · cases h with
    | test htest => simp [Filler.test, hf] at htest
    | evict hpc =>
      cases hf.symm.trans hpc
      exact ⟨hs.expirate, Or.inl rfl, rfl, rfl, fun _ _ h => expirate_view h⟩
    | expirate hpc | pop hpc | addItem hpc hkey hval | roundEnd hpc hend | add hpc hadd =>
      cases hf.symm.trans hpc

/-- No step gets the filler out, whoever takes it. -/
theorem SysCase.stuck {s t : Sys} {action : Action} (h : SysCase cfg env s action t) {i : Nat}
    {key val : Str} (hs : Stuck env i key val s) : Stuck env i key val t ∧ Dwindles s t := by
  cases h with
  | request args hpc => exact ⟨⟨hs.choked, hs.evicting⟩, rfl, fun _ _ h => h, [], rfl, by simp⟩
  | @client c now refresh storage x event hclient =>
    obtain ⟨hchoked, hview, hevent⟩ := ClientCase.stuck hclient hs.choked
    refine ⟨⟨hchoked, hs.evicting⟩, rfl, fun key val h => hview ▸ h, ?_⟩
    cases event with
    | none => exact ⟨[], rfl, by simp⟩
    | some e =>
      refine ⟨[e], rfl, ?_⟩
      intro e' he'
      rw [List.mem_singleton.mp he']
      exact hevent e rfl
  | filler hfiller =>
    obtain ⟨hchoked, hpc, hkeys, rfl, hview⟩ := FillerCase.stuck hfiller hs.choked hs.evicting
    exact ⟨⟨hchoked, hpc⟩, hkeys, hview, [], rfl, by simp⟩
  | isFillerAlive answer hpc =>
    rcases hs.evicting with hevicting | hevicting <;> cases hevicting.symm.trans hpc
  | getVals ret vals hpc =>
    rcases hs.evicting with hevicting | hevicting <;> cases hevicting.symm.trans hpc
  | expirate =>
    exact ⟨⟨hs.choked.expirate, hs.evicting⟩, rfl, fun _ _ h => expirate_view h, [], rfl, by simp⟩
  | shutdown => exact ⟨⟨hs.choked, hs.evicting⟩, rfl, fun _ _ h => h, [], rfl, by simp⟩

theorem Stuck.run {s t : Sys} {actions : List Action} {i : Nat} {key val : Str}
    (hs : Stuck env i key val s) (h : run cfg env s actions = .ok t) :
    Stuck env i key val t ∧ Dwindles s t :=
  Run.exec_invariant (I := fun t => Stuck env i key val t ∧ Dwindles s t)
    (fun _ _ _ hu hstep =>
      have hstuck := SysCase.stuck (Sys.step_cases hstep) hu.1
      ⟨hstuck.1, hu.2.trans hstuck.2⟩)
    ⟨hs, Dwindles.refl s⟩ h

/-! ## When the filler comes back -/

/-- At the test of the loop in `add_item`, with a full storage whose counter has not wrapped: the
filler gets out of the loop in some continuation if and only if evictions free bytes at all, and
the bytes that are counted and held by nothing are below the limit. Otherwise no step of anyone
gets it out: nothing is fetched or stored any more, what is stored can only be evicted, and a
filler that is shut down never stops. -/
theorem leaves_addItem_iff {now : TimeType} {ttl : Nat}
    {maxStorageSize maxQueueSize expirateSize : UInt64} {actions : List Action} {s : Sys}
    (h : run cfg env (.init (.init now ttl maxStorageSize maxQueueSize expirateSize)) actions =
      .ok s) {i : Nat} {key val : Str} (hpc : s.filler.pc = .capacityTest i key val)
    (hfull : s.storage.Full)
    (hheld : s.storage.storage_.heldBytes ≤ s.storage.storage_.storageSize.toNat)
    (hsmall : s.storage.storage_.storageSize.toNat < 2 ^ 32) :
    ((∃ actions t, run cfg env s actions = .ok t ∧ ¬ t.filler.pc.Evicting i key val) ↔
      s.storage.expirateSize_ ≠ 0 ∧
        s.storage.storage_.storageSize.toNat - s.storage.storage_.heldBytes <
          s.storage.maxStorageSize_.toNat) ∧
      (s.storage.expirateSize_ = 0 ∨ s.storage.maxStorageSize_.toNat ≤
          s.storage.storage_.storageSize.toNat - s.storage.storage_.heldBytes →
        ∀ actions t, run cfg env s actions = .ok t →
          t.filler.pc.Evicting i key val ∧ Dwindles s t) := by
  have hw : Interned env s.storage.storage_ := (run_provenance h).stored.interned
  have hchoked := Storage.choked_iff hw hfull hheld hsmall
  have hstays : s.storage.Choked env → ∀ actions t, run cfg env s actions = .ok t →
      t.filler.pc.Evicting i key val ∧ Dwindles s t := by
    intro hc actions t hrun
    obtain ⟨hstuck, hdwindles⟩ := Stuck.run ⟨hc, Or.inl hpc⟩ hrun
    exact ⟨hstuck.evicting, hdwindles⟩
  refine ⟨?_, fun hcond => hstays (hchoked.mpr hcond)⟩
  constructor
  · rintro ⟨actions, t, hrun, hout⟩
    rw [← Nat.not_le, ← not_or, ← hchoked]
    intro hc
    exact hout (hstays hc actions t hrun).1
  · rw [← Nat.not_le, ← not_or, ← hchoked]
    intro hc
    obtain ⟨rounds, storage, hloop⟩ := Storage.ends_of_not_choked hw hfull hheld hsmall hc
    obtain ⟨actions, hrun⟩ := fullLoop_alone cfg env s i key val hloop
    have hs : s.withFiller s.storage (.capacityTest i key val) = s := by
      rw [Sys.withFiller, ← hpc]
    rw [hs] at hrun
    refine ⟨actions, _, hrun, ?_⟩
    rintro (hpc' | hpc') <;> cases hpc'

/-- The keys `"k"` and `"l"` are asked for and fetched in one batch; the filler is at the test for
the second. -/
def batchScript : List Action :=
  .request 0 [[107], [108]] :: List.replicate 9 (.client 0 0 0) ++
    List.replicate 12 (.filler 0) ++ [.getVals true [[97], [98]]] ++ List.replicate 4 (.filler 0)

/-- A limit of 2 bytes, which the first pair of a batch reaches, and evictions of 0 bytes. -/
theorem leaves_addItem_never :
    ∃ s, run ⟨false, 2⟩ .plain (.init (.init 0 10 2 100 0)) batchScript = .ok s ∧
      ∀ actions t, run ⟨false, 2⟩ .plain s actions = .ok t →
        t.filler.pc.Evicting 2 [108] [98] ∧ Dwindles s t := by
  obtain ⟨s, hrun, hpc, hfull, hheld, hsmall, hzero⟩ := Run.yields_iff.mp (by decide +kernel :
    Run.Yields (step ⟨false, 2⟩ .plain)
      (fun s => s.filler.pc = .capacityTest 2 [108] [98] ∧ s.storage.Full ∧
        s.storage.storage_.heldBytes ≤ s.storage.storage_.storageSize.toNat ∧
        s.storage.storage_.storageSize.toNat < 2 ^ 32 ∧ s.storage.expirateSize_ = 0)
      (.init (.init 0 10 2 100 0)) batchScript)
  exact ⟨s, hrun, (leaves_addItem_iff hrun hpc hfull hheld hsmall).2 (Or.inl hzero)⟩

end Sys

end Swordfish
