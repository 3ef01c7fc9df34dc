import Swordfish.DHashmap.Freshness
import Swordfish.Storage.Model

/-!
# Refilled keys

What `get_val` does with a key that the filler has added: while the key is fresh, the lookup
does not queue it again.
-/

namespace Swordfish.Storage
open DHashmap

variable {env : Env}

/-- A lookup that returns `true` leaves the queue and the statistics as they are. -/
theorem lookup_of_ret {s : Storage} {x : Lookup} {storage : DHashmap} {out : GetResult}
    (hget : s.storage_.get env x.now x.refresh x.arg [] = .ok (storage, out)) (res : Str)
    (hret : out.ret = true) :
    ∃ res', s.lookup env x res = .ok ({ s with storage_ := storage }, res') := by
  simp only [lookup, hget, hret, if_true]
  exact ⟨_, rfl⟩

/-- A refilled key is fresh, exactly: when `add(key, val)` runs at `now` and no later operation
touches `key` while it stays stored, a lookup of it before `now` plus the time to live returns
`true`, if and only if the key did not hold that very value before with a time that is over at
the lookup. A lookup that returns `true` does not queue the key. -/
theorem refilled_fresh_iff {ttl : Nat} {ops later : List DHashmap.Op} {s s₁ s₂ : DHashmap}
    {now time : TimeType} {key val r : Str} (h : DHashmap.run env (.init ttl) ops = .ok s)
    (hadd : s.add env now key val = .ok s₁) (hlater : DHashmap.run env s₁ later = .ok s₂)
    (huntouched : ∀ op ∈ later, ¬ op.Touches env key)
    (hstored : ∃ e ∈ s₂.keys_.entries, e.key_ = key) (hr : env.normalize r = key)
    (htime : time < now + s.ttl_) (refresh : TimeType) :
    ∃ t out, s₂.get env time refresh r [] = .ok (t, out) ∧
      (out.ret = true ↔ ¬ HoldsStale s key val time) ∧
      (out.ret = true → ∀ (storage : Storage) (res : Str), storage.storage_ = s₂ →
        ∃ res', storage.lookup env ⟨r, time, refresh⟩ res =
          .ok ({ storage with storage_ := t }, res')) := by
  have hw := run_interned h
  obtain ⟨u, hu, hcase⟩ := add_cases hw now key val
  rw [hadd, Except.ok.injEq] at hu
  subst hu
  obtain ⟨e, he, hkey⟩ := hstored
  obtain ⟨he₁, hw₂, httl⟩ :=
    run_entry_of_not_touches (hcase.interned hw) hlater huntouched he hkey
  obtain ⟨t, out, hget, hret⟩ := get_ret hw₂ he (hkey.trans hr.symm) time refresh []
  refine ⟨t, out, hget, ?_, ?_⟩
  · rw [hret, httl, hcase.ttl_eq]
    exact hcase.fresh_iff he₁ hkey htime
  · intro hfresh storage res hstorage
    subst hstorage
    exact lookup_of_ret (x := ⟨r, time, refresh⟩) hget res hfresh

/-- The key `"k"` is refilled with another value at 20, and looked up at 25. -/
theorem refilled_fresh_other :
    ∃ s s₁ t out,
      DHashmap.run .plain (.init 10) [.add 0 [107] [97], .add 0 [108] [98]] = .ok s ∧
        s.add .plain 20 [107] [98] = .ok s₁ ∧ s₁.get .plain 25 25 [107] [] = .ok (t, out) ∧
        (out.ret = true ↔ ¬ HoldsStale s [107] [98] 25) := by
  obtain ⟨t, out, hget, hret, -⟩ := @refilled_fresh_iff .plain 10
    [.add 0 [107] [97], .add 0 [108] [98]] [] _ _ _ 20 25 [107] [98] [107] rfl rfl rfl
    (by simp) (by decide) rfl (by decide) 25
  exact ⟨_, _, t, out, rfl, rfl, hget, hret⟩

/-- `add("k", "a")` at 0 and again at 20, when its 10 seconds are over: the lookup at 21 returns
`false`, and `get_val` queues `"k"` once more. -/
theorem refilled_unchanged_stale :
    ∃ s s₁ t out,
      DHashmap.run .plain (.init 10) [.add 0 [107] [97]] = .ok s ∧
        s.add .plain 20 [107] [97] = .ok s₁ ∧ s₁.get .plain 21 21 [107] [] = .ok (t, out) ∧
        out.ret = false ∧
        ∃ storage res, lookup .plain { init 0 10 100 100 1 with storage_ := s₁ } ⟨[107], 21, 21⟩
          [] = .ok (storage, res) ∧ storage.queue_.queue_ = [[107]] :=
  ⟨_, _, _, _, rfl, rfl, rfl, rfl, _, _, rfl, by decide⟩

end Swordfish.Storage
