import Swordfish.Connection.Response

/-!
# What `reset_stats` resets

A count of `stats` is in two places: `Stats` has what was drained into it, and the store what was
not. The setters of `Stats` add (`stats.cpp:57-82`), and `reset_stats` (`storage.cpp:50-59`) calls
them with 0, so it leaves the counts as they are. What a later `stats` reports is the sum of what
happened before and after.
-/

namespace Swordfish.Storage
open DHashmap Delimited

/-- The counts that `stats` reports and `reset_stats` is to start over. -/
inductive Counter where
  | deleted
  | gets
  | updates
  deriving DecidableEq, Repr

namespace Counter

/-- The name that `Stats::get` gives it. -/
def title : Counter → String
  | deleted => "deleted"
  | gets => "gets_count"
  | updates => "updates_count"

/-- The part in the store. -/
def undrained : Counter → DHashmap → UInt32
  | deleted, s => s.deleted_
  | gets, s => s.gets_
  | updates, s => s.updates_

/-- The part in the statistics. -/
def drained : Counter → Stats → UInt32
  | deleted, x => x.deleted_
  | gets, x => x.gets_
  | updates, x => x.updates_

/-- What one call on the store is to be counted for: the keys it removes, a lookup, and a lookup
that finds its key stale. -/
def counted (env : Env) : Counter → DHashmap → DHashmap.Op → Nat
  | deleted, s, .expirate n => s.keys_.entries.length - (s.expirate n).keys_.entries.length
  | gets, _, .get _ _ _ => 1
  | updates, s, .get now _ key =>
      if ∃ e ∈ s.keys_.entries, e.key_ = env.normalize key ∧ e.ttl_ + s.ttl_ ≤ now then 1 else 0
  | _, _, _ => 0

/-- Both parts. -/
def sum (c : Counter) (s : Storage) : UInt32 := c.drained s.stats_ + c.undrained s.storage_

end Counter

/-- A call on the storage, or a `stats` command. -/
inductive Call where
  | op (op : Op)
  | stats (now : TimeType)
  deriving DecidableEq, Repr

/-- One call, executed alone. -/
def call (env : Env) (s : Storage) : Call → Except Stop Storage
  | .op op => step env s op
  | .stats now => .ok (s.getStats now).1

/-- What one call is to be counted for. -/
def Counter.happened (env : Env) (c : Counter) (s : Storage) : Call → Nat
  | .op op => Run.total (DHashmap.step env) (c.counted env) s.storage_ (op.calls s)
  | .stats _ => 0

/-- The response has a line with the count under this name. -/
def Reports (res : Str) (title : String) (count : UInt32) : Prop :=
  text "STAT " ++ text title ++ text " " ++ text (toString count) ∈ (cut crlf res).1

variable {env : Env} {s t : Storage}

/-! ## The store counts -/

theorem expirateLoop_length_le (n : UInt64) (entries : List KeyType) (bytes : UInt64) :
    (expirateLoop n entries bytes).1 ≤ entries.length := by
  induction entries generalizing bytes with
  | nil => exact Nat.le_refl 0
  | cons e rest ih =>
    unfold expirateLoop
    split
    · exact Nat.succ_le_succ (ih _)
    · exact Nat.zero_le _

/-- `expirate` counts the keys that it removes. -/
theorem expirate_deleted_ (u : DHashmap) (n : UInt64) :
    (u.expirate n).deleted_ = u.deleted_ +
      UInt32.ofNat (u.keys_.entries.length - (u.expirate n).keys_.entries.length) := by
  have hle := expirateLoop_length_le n u.keys_.entries 0
  have hlength : (u.expirate n).keys_.entries.length =
      u.keys_.entries.length - (expirateLoop n u.keys_.entries 0).1 := List.length_drop
  have hcount : u.keys_.entries.length - (u.expirate n).keys_.entries.length =
      (expirateLoop n u.keys_.entries 0).1 := by omega
  rw [hcount]
  rfl

/-- A lookup of a key that is absent or fresh is no stale hit, and one of a stale key is. -/
theorem counted_updates_get {u : DHashmap} {now refresh : TimeType} {key : Str}
    {r : DHashmap × GetResult} (h : GetCase env u now refresh key [] r) :
    r.1.updates_ =
      u.updates_ + UInt32.ofNat (Counter.updates.counted env u (.get now refresh key)) := by
  cases h with
  | missing habsent =>
    have hnone : ¬ ∃ e ∈ u.keys_.entries, e.key_ = env.normalize key ∧ e.ttl_ + u.ttl_ ≤ now := by
      rintro ⟨e, he, hkey, -⟩
      exact habsent e he hkey
    simp only [Counter.counted, if_neg hnone]
    exact (UInt32.add_zero _).symm
  | @fresh it hit hkey hfresh =>
    have hnone : ¬ ∃ e ∈ u.keys_.entries, e.key_ = env.normalize key ∧ e.ttl_ + u.ttl_ ≤ now := by
      rintro ⟨e, he, hkey', hstale⟩
      obtain rfl := MultiIndex.eq_of_key_eq he hit (hkey'.trans hkey.symm)
      exact Nat.not_lt.mpr hstale hfresh
    simp only [Counter.counted, if_neg hnone]
    exact (UInt32.add_zero _).symm
  | @stale it hit hkey hstale =>
    simp only [Counter.counted, if_pos (⟨it, hit, hkey, hstale⟩ :
      ∃ e ∈ u.keys_.entries, e.key_ = env.normalize key ∧ e.ttl_ + u.ttl_ ≤ now)]
    rfl

theorem AddCase.undrained {u v : DHashmap} {now : TimeType} {key val : Str}
    (h : AddCase env u now key val v) (c : Counter) : c.undrained v = c.undrained u := by
  cases h <;> cases c <;> rfl

/-- One call on the store is counted for what it does. -/
theorem step_undrained {u v : DHashmap} {op : DHashmap.Op} (h : StepCase env u op v)
    (c : Counter) : c.undrained v = c.undrained u + UInt32.ofNat (c.counted env u op) := by
  cases h with
  | add h =>
    rw [AddCase.undrained h c]
    cases c <;> exact (UInt32.add_zero _).symm
  | get h =>
    cases c with
    | deleted => cases h <;> exact (UInt32.add_zero _).symm
    | gets => cases h <;> rfl
    | updates => exact counted_updates_get h
  | expirate n =>
    cases c with
    | deleted => exact expirate_deleted_ u n
    | gets => exact (UInt32.add_zero _).symm
    | updates => exact (UInt32.add_zero _).symm

theorem run_undrained {u v : DHashmap} {ops : List DHashmap.Op} (hw : Interned env u)
    (h : DHashmap.run env u ops = .ok v) (c : Counter) :
    c.undrained v = c.undrained u +
        UInt32.ofNat (Run.total (DHashmap.step env) (c.counted env) u ops) ∧
      Interned env v := by
  refine Run.exec_induction
    (P := fun ops v => c.undrained v = c.undrained u +
        UInt32.ofNat (Run.total (DHashmap.step env) (c.counted env) u ops) ∧
      Interned env v) ?_ ?_ h
  · exact ⟨(UInt32.add_zero _).symm, hw⟩
  · intro ops v op w hrun ih hstep
    obtain ⟨hsum, hv⟩ := ih
    have hcase := step_case_of_ok hv hstep
    refine ⟨?_, hcase.interned hv⟩
    rw [step_undrained hcase c, hsum, Run.total_concat hrun, UInt32.ofNat_add, UInt32.add_assoc]

/-! ## The storage counts -/

theorem pushKey_drained (s : Storage) (key : Str) (c : Counter) :
    c.drained (s.pushKey key).stats_ = c.drained s.stats_ := by
  unfold pushKey
  split
  · cases c <;> rfl
  · rfl

theorem lookup_drained {x : Lookup} {res res' : Str} (h : s.lookup env x res = .ok (t, res'))
    (c : Counter) : c.drained t.stats_ = c.drained s.stats_ := by
  obtain ⟨storage, out, -, rfl, -⟩ := lookup_ok.mp h
  split
  · rfl
  · exact pushKey_drained _ _ c

theorem lookups_drained {args : List Lookup} {res res' : Str}
    (h : s.lookups env res args = .ok (t, res')) (c : Counter) :
    c.drained t.stats_ = c.drained s.stats_ := by
  induction args generalizing s res with
  | nil =>
    cases h
    rfl
  | cons x xs ih =>
    obtain ⟨u, res'', hx, hxs⟩ := lookups_cons_ok.mp h
    rw [ih hxs, lookup_drained hx]

theorem iterate_expirate_stats_ (s : Storage) (n : Nat) : (expirate^[n] s).stats_ = s.stats_ := by
  induction n generalizing s with
  | zero => rfl
  | succ n ih => exact ih s.expirate

/-- No call but `stats` drains a count. -/
theorem step_drained {op : Op} (h : step env s op = .ok t) (c : Counter) :
    c.drained t.stats_ = c.drained s.stats_ := by
  cases op with
  | addItem rounds now key val =>
    obtain ⟨u, storage, hloop, -, rfl⟩ := addItem_ok.mp h
    rw [← iterate_expirate_stats_ s, ← While.exec_eq_iterate hloop]
  | getVal args =>
    obtain ⟨items, hloop⟩ := step_getVal_ok.mp h
    exact lookups_drained hloop c
  | expirate =>
    cases h
    rfl

/-- `refresh_stats` drains a count. -/
theorem refreshStats_drained (s : Storage) (c : Counter) :
    c.drained s.refreshStats.stats_ = c.sum s := by
  cases c <;> rfl

theorem refreshStats_undrained (s : Storage) (c : Counter) :
    c.undrained s.refreshStats.storage_ = 0 := by
  cases c <;> rfl

theorem resetStats_sum (s : Storage) (now : TimeType) (c : Counter) :
    c.sum (s.resetStats now) = c.sum s := by
  cases c with
  | deleted => exact congrArg (· + s.storage_.deleted_) (UInt32.add_zero s.stats_.deleted_)
  | gets => exact congrArg (· + s.storage_.gets_) (UInt32.add_zero s.stats_.gets_)
  | updates => rfl

/-- One call adds what happens in it. -/
theorem call_sum {x : Call} (hw : Interned env s.storage_) (h : call env s x = .ok t)
    (c : Counter) :
    c.sum t = c.sum s + UInt32.ofNat (c.happened env s x) ∧ Interned env t.storage_ := by
  cases x with
  | op op =>
    obtain ⟨hsum, ht⟩ := run_undrained hw (step_calls h).1 c
    refine ⟨?_, ht⟩
    rw [Counter.sum, step_drained h c, hsum, ← UInt32.add_assoc]
    rfl
  | stats now =>
    cases h
    refine ⟨?_, hw.of_same_owners rfl rfl rfl⟩
    change c.drained s.refreshStats.stats_ + c.undrained s.refreshStats.storage_ = _
    rw [refreshStats_drained, refreshStats_undrained]
    rfl

theorem run_sum {calls : List Call} (hw : Interned env s.storage_)
    (h : Run.exec (call env) s calls = .ok t) (c : Counter) :
    c.sum t = c.sum s + UInt32.ofNat (Run.total (call env) (c.happened env) s calls) ∧
      Interned env t.storage_ := by
  refine Run.exec_induction
    (P := fun calls t => c.sum t =
        c.sum s + UInt32.ofNat (Run.total (call env) (c.happened env) s calls) ∧
      Interned env t.storage_) ?_ ?_ h
  · exact ⟨(UInt32.add_zero _).symm, hw⟩
  · intro calls t x u hrun ih hcall
    obtain ⟨hsum, ht⟩ := ih
    obtain ⟨hlast, hu⟩ := call_sum ht hcall c
    refine ⟨?_, hu⟩
    rw [hlast, hsum, Run.total_concat hrun, UInt32.ofNat_add, UInt32.add_assoc]

/-! ## The report -/

theorem text_append (x y : String) : text (x ++ y) = text x ++ text y := by
  simp [text]

/-- A decimal number is on one line. -/
theorem cr_not_mem_number (n : Nat) : 13 ∉ text (toString n) := by
  intro hmem
  exact absurd ((digits_spec n).2.1 13 hmem) (by decide)

theorem number_inj {m n : UInt32} : text (toString m) = text (toString n) ↔ m = n := by
  constructor
  · intro h
    have hm := (digits_spec m.toNat).2.2
    have hn := (digits_spec n.toNat).2.2
    change decimal (text (toString m)) = _ at hm
    change decimal (text (toString n)) = _ at hn
    rw [h, hn] at hm
    exact (UInt32.toNat_inj.mp hm).symm
  · rintro rfl
    rfl

theorem cr_not_mem_uptime (now start : TimeType) : 13 ∉ Stats.uptime now start := by
  have hdigits : ∀ n, 13 ∉ Stats.twoDigits n := by
    intro n
    unfold Stats.twoDigits
    split
    · rw [text_append, List.mem_append]
      exact not_or.mpr ⟨by decide, cr_not_mem_number n⟩
    · exact cr_not_mem_number n
  have hhms : ∀ seconds, 13 ∉ Stats.hms seconds := by
    intro seconds
    have hcolon : (13 : UInt8) ∉ text ":" := by decide
    simp [Stats.hms, hdigits, hcolon]
  have hminus : (13 : UInt8) ∉ text "-" := by decide
  unfold Stats.uptime
  split
  · simp [hhms, hminus]
  · exact hhms _

/-- A line of the report. -/
def reportLine (title : String) (value : Str) : Str :=
  text "STAT " ++ text title ++ text " " ++ value

theorem cut_stat {title : String} {value : Str} (htitle : 13 ∉ text title) (hvalue : 13 ∉ value)
    (s : Str) :
    cut crlf (Stats.stat title value ++ s) =
      (reportLine title value :: (cut crlf s).1, (cut crlf s).2) := by
  have hline : 13 ∉ reportLine title value := by
    have hstat : (13 : UInt8) ∉ text "STAT " := by decide
    have hspace : (13 : UInt8) ∉ text " " := by decide
    simp [reportLine, htitle, hvalue, hstat, hspace]
  have hsplit : Stats.stat title value ++ s = reportLine title value ++ (crlf ++ s) := by
    simp only [Stats.stat, reportLine, crlf, List.append_assoc]
  rw [hsplit]
  exact cut_piece hline s

/-- The lines of a report. -/
theorem cut_get (x : Stats) (now : TimeType) :
    (cut crlf (x.get now)).1 =
      [reportLine "uptime" (Stats.uptime now x.startTime_),
        reportLine "storage_size" (text (toString x.storageSize_)),
        reportLine "deleted" (text (toString x.deleted_)),
        reportLine "gets_count" (text (toString x.gets_)),
        reportLine "updates_count" (text (toString x.updates_)),
        reportLine "queue_size" (text (toString x.queueSize_)),
        reportLine "values_size" (text (toString x.valuesSize_)), text "END"] := by
  have hnumber : ∀ n : UInt32, 13 ∉ text (toString n) := fun n => cr_not_mem_number n.toNat
  simp only [Stats.get, List.append_assoc]
  rw [cut_stat (by decide) (cr_not_mem_uptime _ _), cut_stat (by decide) (hnumber _),
    cut_stat (by decide) (hnumber _), cut_stat (by decide) (hnumber _),
    cut_stat (by decide) (hnumber _), cut_stat (by decide) (hnumber _),
    cut_stat (by decide) (hnumber _)]
  rfl

/-- Two lines are the same when their names and their values are. -/
theorem reportLine_inj {title title' : String} {value value' : Str}
    (htitle : spacebar ∉ text title) (htitle' : spacebar ∉ text title') :
    reportLine title value = reportLine title' value' ↔
      text title = text title' ∧ value = value' := by
  have hspace : text " " = [spacebar] := rfl
  simp only [reportLine, List.append_assoc, List.append_cancel_left_eq, hspace,
    List.singleton_append]
  constructor
  · intro h
    -- both names end at the first space
    have hname : ∀ b ∈ text title, decide (b ≠ spacebar) = true :=
      fun b hb => decide_eq_true (fun heq => htitle (heq ▸ hb))
    have hname' : ∀ b ∈ text title', decide (b ≠ spacebar) = true :=
      fun b hb => decide_eq_true (fun heq => htitle' (heq ▸ hb))
    obtain ⟨htake, hdrop⟩ := span_append_cons hname (a := spacebar) (by decide) value
    obtain ⟨htake', hdrop'⟩ := span_append_cons hname' (a := spacebar) (by decide) value'
    rw [h] at htake hdrop
    exact ⟨htake.symm.trans htake', (List.cons.inj (hdrop.symm.trans hdrop')).2⟩
  · rintro ⟨hname, rfl⟩
    rw [hname]

/-- `stats` reports both parts of a count. -/
theorem reports_getStats (s : Storage) (now : TimeType) (c : Counter) (count : UInt32) :
    Reports (s.getStats now).2 c.title count ↔ c.sum s = count := by
  rw [← refreshStats_drained]
  change reportLine c.title (text (toString count)) ∈
    (cut crlf (s.refreshStats.stats_.get now)).1 ↔ _
  have hend : ∀ title value, reportLine title value ≠ text "END" := by
    intro title value h
    cases h
  have hequal : ∀ {title title' : String} {value value' : Str},
      spacebar ∉ text title ∧ spacebar ∉ text title' ∧ text title ≠ text title' →
        reportLine title value ≠ reportLine title' value' :=
    fun htitles h => htitles.2.2 ((reportLine_inj htitles.1 htitles.2.1).mp h).1
  rw [cut_get, eq_comm, ← number_inj]
  cases c <;>
    simp (disch := decide) [Counter.title, Counter.drained, hend, hequal, reportLine_inj]

/-! ## Before and after -/

theorem ofNat_eq_zero_iff (n : Nat) : UInt32.ofNat n = 0 ↔ 2 ^ 32 ∣ n := by
  rw [← UInt32.toNat_inj, UInt32.toNat_ofNat']
  exact Nat.dvd_iff_mod_eq_zero.symm

/-- One count, after a reset: it is what happened after the reset exactly when what happened before
is nothing modulo `2 ^ 32`. -/
theorem reports_iff {now₀ now now' : TimeType} {ttl : Nat}
    {maxStorageSize maxQueueSize expirateSize : UInt64} {before after : List Call}
    (hbefore : Run.exec (call env) (init now₀ ttl maxStorageSize maxQueueSize expirateSize)
      before = .ok s)
    (hafter : Run.exec (call env) (s.resetStats now) after = .ok t) (c : Counter) :
    Reports (t.getStats now').2 c.title
        (UInt32.ofNat (Run.total (call env) (c.happened env) (s.resetStats now) after)) ↔
      2 ^ 32 ∣ Run.total (call env) (c.happened env)
        (init now₀ ttl maxStorageSize maxQueueSize expirateSize) before := by
  obtain ⟨hsum, hw⟩ := run_sum (interned_init env ttl) hbefore c
  obtain ⟨hsum', -⟩ := run_sum (s := s.resetStats now) hw hafter c
  have hstart : c.sum (init now₀ ttl maxStorageSize maxQueueSize expirateSize) = 0 := by
    cases c <;> rfl
  rw [resetStats_sum, hsum, hstart, UInt32.zero_add] at hsum'
  rw [reports_getStats, hsum', ← ofNat_eq_zero_iff, UInt32.add_eq_right]

/-- `reset_stats`, exactly: whatever happened before it and after it, a later `stats` reports of
each count what happened after it if and only if what happened before it is nothing modulo
`2 ^ 32`. -/
theorem resetStats_starts_over_iff {now₀ now now' : TimeType} {ttl : Nat}
    {maxStorageSize maxQueueSize expirateSize : UInt64} {before after : List Call}
    (hbefore : Run.exec (call env) (init now₀ ttl maxStorageSize maxQueueSize expirateSize)
      before = .ok s)
    (hafter : Run.exec (call env) (s.resetStats now) after = .ok t) :
    (∀ c : Counter, Reports (t.getStats now').2 c.title
        (UInt32.ofNat (Run.total (call env) (c.happened env) (s.resetStats now) after))) ↔
      ∀ c : Counter, 2 ^ 32 ∣ Run.total (call env) (c.happened env)
        (init now₀ ttl maxStorageSize maxQueueSize expirateSize) before :=
  forall_congr' (fun c => reports_iff hbefore hafter c)

/-- Nothing but an item comes before the reset; a fresh hit, a stale hit, a `stats` and an eviction
come after it. -/
theorem resetStats_starts_over_unused :
    ∃ s t, Run.exec (call .plain) (init 0 10 100 100 1) [.op (.addItem 0 0 [107] [118])] = .ok s ∧
      Run.exec (call .plain) (s.resetStats 1)
        [.op (.getVal [⟨[107], 2, 2⟩, ⟨[107], 20, 20⟩]), .stats 21, .op .expirate] = .ok t ∧
      ∀ c : Counter, Reports (t.getStats 22).2 c.title
        (UInt32.ofNat (Run.total (call .plain) (c.happened .plain) (s.resetStats 1)
          [.op (.getVal [⟨[107], 2, 2⟩, ⟨[107], 20, 20⟩]), .stats 21, .op .expirate])) := by
  obtain ⟨s, hbefore, hrest⟩ := Run.yields_iff.mp (by decide +kernel : Run.Yields (call .plain)
    (fun s => Run.Yields (call .plain) (fun _ => True) (s.resetStats 1)
      [.op (.getVal [⟨[107], 2, 2⟩, ⟨[107], 20, 20⟩]), .stats 21, .op .expirate])
    (init 0 10 100 100 1) [.op (.addItem 0 0 [107] [118])])
  obtain ⟨t, hafter, -⟩ := Run.yields_iff.mp hrest
  refine ⟨s, t, hbefore, hafter, (resetStats_starts_over_iff hbefore hafter).mpr (fun c => ?_)⟩
  cases c <;> decide +kernel

/-- A key was looked up before the reset, and nothing happens after it: one lookup is reported. -/
theorem resetStats_keeps_counts :
    ∃ s, Run.exec (call .plain) (init 0 10 100 100 1) [.op (.getVal [⟨[107], 0, 0⟩])] = .ok s ∧
      ¬ ∀ c : Counter, Reports ((s.resetStats 1).getStats 2).2 c.title
        (UInt32.ofNat (Run.total (call .plain) (c.happened .plain) (s.resetStats 1) [])) := by
  obtain ⟨s, hrun, hsum⟩ := Run.yields_iff.mp (by decide +kernel : Run.Yields (call .plain)
    (fun s => Counter.gets.sum s = 1) (init 0 10 100 100 1) [.op (.getVal [⟨[107], 0, 0⟩])])
  refine ⟨s, hrun, fun hreports => ?_⟩
  have hnothing : Run.total (call .plain) (Counter.gets.happened .plain) (s.resetStats 1) [] = 0 :=
    rfl
  have hzero := (reports_getStats _ _ _ _).mp (hreports .gets)
  rw [resetStats_sum, hsum, hnothing] at hzero
  exact absurd hzero (by decide)

end Swordfish.Storage
