import Swordfish.System.Model

/-!
# What a step of the system can do

The inversion lemmas of `Client.step`, `Filler.step` and `Sys.step`. The invariants of the system
are proved by cases on these and never unfold the steps.
-/

namespace Swordfish

variable {cfg : FillerConfig} {env : Env}

/-- Everything a client's step can do. -/
inductive ClientCase (env : Env) (s : Storage) (now refresh : TimeType) (c : Nat) (x : Client) :
    Storage × Client × Option Event → Prop
  | answer (hpc : x.pc = .lookup) (hargs : x.args = []) :
      ClientCase env s now refresh c x
        (s, .idle, some (.sent c x.items (x.res ++ text "END\r\n")))
  | found {arg : Str} {args : List Str} {storage : DHashmap} {out : DHashmap.GetResult}
      (hpc : x.pc = .lookup) (hargs : x.args = arg :: args)
      (hget : s.storage_.get env now refresh arg [] = .ok (storage, out)) (hval : out.val ≠ []) :
      ClientCase env s now refresh c x
        ({ s with storage_ := storage },
          { pc := if out.ret then .lookup else .sizeTest out.normalizedKey
            args := args
            res := Storage.resAppend arg out.val x.res
            items := x.items ++ [(arg, out.val)] }, none)
  | silent {arg : Str} {args : List Str} {storage : DHashmap} {out : DHashmap.GetResult}
      (hpc : x.pc = .lookup) (hargs : x.args = arg :: args)
      (hget : s.storage_.get env now refresh arg [] = .ok (storage, out)) (hval : out.val = []) :
      ClientCase env s now refresh c x
        ({ s with storage_ := storage },
          { x with
            pc := if out.ret then .lookup else .sizeTest out.normalizedKey
            args := args }, none)
  | sizeTest {key : Str} (hpc : x.pc = .sizeTest key) :
      ClientCase env s now refresh c x
        (s, { x with
              pc := if s.queue_.size.toUInt64 < s.maxQueueSize_ then .push key else .lookup },
          none)
  | push {key : Str} (hpc : x.pc = .push key) :
      ClientCase env s now refresh c x
        ({ s with queue_ := (s.queue_.push key).1 },
          { x with pc := .setQueueSize (s.queue_.push key).2 }, none)
  | setQueueSize {size : UInt32} (hpc : x.pc = .setQueueSize size) :
      ClientCase env s now refresh c x
        ({ s with stats_ := s.stats_.setQueueSize size }, { x with pc := .lookup }, none)

theorem Client.step_cases {s : Storage} {now refresh : TimeType} {c : Nat} {x : Client}
    {r : Storage × Client × Option Event} (h : x.step env s now refresh c = .ok r) :
    ClientCase env s now refresh c x r := by
  unfold Client.step at h
  cases hpc : x.pc with
  | idle =>
    rw [hpc] at h
    cases h
  | lookup =>
    rw [hpc] at h
    cases hargs : x.args with
    | nil =>
      rw [hargs] at h
      cases h
      exact .answer hpc hargs
    | cons arg args =>
      simp only [hargs] at h
      cases hget : s.storage_.get env now refresh arg [] with
      | error failure =>
        rw [hget] at h
        cases h
      | ok p =>
        obtain ⟨storage, out⟩ := p
        simp only [hget, Except.ok.injEq] at h
        subst h
        by_cases hval : out.val = []
        · rw [if_neg (not_not.mpr hval)]
          exact .silent hpc hargs hget hval
        · rw [if_pos hval]
          exact .found hpc hargs hget hval
  | sizeTest key =>
    rw [hpc] at h
    cases h
    exact .sizeTest hpc
  | push key =>
    rw [hpc] at h
    cases h
    exact .push hpc
  | setQueueSize size =>
    rw [hpc] at h
    cases h
    exact .setQueueSize hpc

/-- Everything a step of the filler can do. -/
inductive FillerCase (cfg : FillerConfig) (env : Env) (s : Storage) (isAlive : Bool)
    (now : TimeType) (f : Filler) : Storage × Filler × Option Event → Prop
  | test {pc : FillerPc} (htest : f.test cfg s isAlive = some pc) :
      FillerCase cfg env s isAlive now f (s, { f with pc := pc }, none)
  | expirate (hpc : f.pc = .expirate) :
      FillerCase cfg env s isAlive now f
        (s.expirate, { f with pc := .aliveTest cfg.maxFillSize_ }, none)
  | pop {t : UInt64} (hpc : f.pc = .pop t) :
      FillerCase cfg env s isAlive now f
        ({ s with queue_ := s.queue_.waitAndPop.1 },
          { f with
            pc := .aliveTest t
            keys :=
              if s.queue_.waitAndPop.2 ≠ [] then f.keys ++ [s.queue_.waitAndPop.2] else f.keys },
          none)
  | addItem {i : Nat} {key val : Str} (hpc : f.pc = .pair i) (hkey : f.keys[i]? = some key)
      (hval : f.vals[i]? = some val) :
      FillerCase cfg env s isAlive now f
        (s, { f with pc := .capacityTest (i + 1) key val }, some (.addItem key val))
  | roundEnd {i : Nat} (hpc : f.pc = .pair i) (hend : f.keys[i]? = none ∨ f.vals[i]? = none) :
      FillerCase cfg env s isAlive now f (s, { f with pc := .loop, keys := [] }, none)
  | evict {i : Nat} {key val : Str} (hpc : f.pc = .evict i key val) :
      FillerCase cfg env s isAlive now f
        (s.expirate, { f with pc := .capacityTest i key val }, none)
  | add {i : Nat} {key val : Str} {storage : DHashmap} (hpc : f.pc = .add i key val)
      (hadd : s.storage_.add env now key val = .ok storage) :
      FillerCase cfg env s isAlive now f
        ({ s with storage_ := storage }, { f with pc := .pair i }, none)

/-- The filler is in the loop over the fetched values. -/
def FillerPc.Storing : FillerPc → Prop
  | .pair _ | .capacityTest _ _ _ | .evict _ _ _ | .add _ _ _ => True
  | _ => False

/-- The arguments of `add_item`, while the filler is in it. -/
def FillerPc.item : FillerPc → Option (Str × Str)
  | .capacityTest _ key val | .evict _ key val | .add _ key val => some (key, val)
  | _ => none

/-- No test leads into the loop over the fetched values, or changes the arguments of
`add_item`. -/
theorem Filler.storing_of_test {s : Storage} {isAlive : Bool} {f : Filler} {pc : FillerPc}
    (h : f.test cfg s isAlive = some pc) (hpc : pc.Storing) :
    f.pc.Storing ∧ pc.item = f.pc.item := by
  unfold Filler.test at h
  cases hf : f.pc with
  | capacityTest i key val =>
    rw [hf] at h
    simp only [Option.some.injEq] at h
    subst h
    refine ⟨trivial, ?_⟩
    split <;> rfl
  | loop | fullTest | aliveTest t | queueTest t | sizeTest t =>
    rw [hf] at h
    simp only [Option.some.injEq] at h
    subst h
    split at hpc <;> cases hpc
  | fetchTest =>
    rw [hf] at h
    simp only [Option.some.injEq] at h
    subst h
    split at hpc
    · cases hpc
    · split at hpc <;> cases hpc
  | expirate | pop t | askAlive | fetch | pair i | evict i key val | add i key val | stopped =>
    rw [hf] at h
    cases h

/-- Only with keys to fetch does the loop get to the library. -/
theorem Filler.keys_ne_nil_of_test {s : Storage} {isAlive : Bool} {f : Filler} {pc : FillerPc}
    (h : f.test cfg s isAlive = some pc) (hask : pc = .askAlive ∨ pc = .fetch) : f.keys ≠ [] := by
  unfold Filler.test at h
  cases hf : f.pc with
  | fetchTest =>
    rw [hf] at h
    simp only [Option.some.injEq] at h
    intro hnil
    rw [if_pos hnil] at h
    subst h
    rcases hask with hask | hask <;> cases hask
  | loop | fullTest | aliveTest t | queueTest t | sizeTest t | capacityTest i key val =>
    rw [hf] at h
    simp only [Option.some.injEq] at h
    subst h
    split at hask <;> rcases hask with hask | hask <;> cases hask
  | expirate | pop t | askAlive | fetch | pair i | evict i key val | add i key val | stopped =>
    rw [hf] at h
    cases h

theorem Filler.step_cases {s : Storage} {isAlive : Bool} {now : TimeType} {f : Filler}
    {r : Storage × Filler × Option Event} (h : f.step cfg env s isAlive now = .ok r) :
    FillerCase cfg env s isAlive now f r := by
  unfold Filler.step at h
  cases htest : f.test cfg s isAlive with
  | some pc =>
    rw [htest] at h
    cases h
    exact .test htest
  | none =>
    rw [htest] at h
    cases hpc : f.pc with
    | expirate =>
      rw [hpc] at h
      cases h
      exact .expirate hpc
    | pop t =>
      rw [hpc] at h
      cases h
      exact .pop hpc
    | pair i =>
      simp only [hpc] at h
      cases hkey : f.keys[i]? with
      | none =>
        rw [hkey] at h
        cases h
        exact .roundEnd hpc (Or.inl hkey)
      | some key =>
        cases hval : f.vals[i]? with
        | none =>
          rw [hkey, hval] at h
          cases h
          exact .roundEnd hpc (Or.inr hval)
        | some val =>
          rw [hkey, hval] at h
          cases h
          exact .addItem hpc hkey hval
    | evict i key val =>
      rw [hpc] at h
      cases h
      exact .evict hpc
    | add i key val =>
      simp only [hpc] at h
      cases hadd : s.storage_.add env now key val with
      | error failure =>
        rw [hadd] at h
        cases h
      | ok storage =>
        rw [hadd] at h
        cases h
        exact .add hpc hadd
    | loop | fullTest | aliveTest t | queueTest t | sizeTest t | fetchTest | askAlive | fetch
      | capacityTest i key val | stopped =>
      rw [hpc] at h
      cases h

/-- Everything a step of the system can do. -/
inductive SysCase (cfg : FillerConfig) (env : Env) (s : Sys) : Action → Sys → Prop
  | request {c : Nat} (args : List Str) (hpc : (s.clients c).pc = .idle) :
      SysCase cfg env s (.request c args)
        { s with clients := Function.update s.clients c (.start args) }
  | client {c : Nat} {now refresh : TimeType} {storage : Storage} {x : Client}
      {event : Option Event}
      (h : ClientCase env s.storage now refresh c (s.clients c) (storage, x, event)) :
      SysCase cfg env s (.client c now refresh)
        { s with
          storage := storage
          clients := Function.update s.clients c x
          log := History.record event s.log }
  | filler {now : TimeType} {storage : Storage} {f : Filler} {event : Option Event}
      (h : FillerCase cfg env s.storage s.isAlive_ now s.filler (storage, f, event)) :
      SysCase cfg env s (.filler now)
        { s with
          storage := storage
          filler := f
          log := History.record event s.log }
  | isFillerAlive (answer : Bool) (hpc : s.filler.pc = .askAlive) :
      SysCase cfg env s (.isFillerAlive answer)
        { s with filler := { s.filler with pc := if answer then .fetch else .loop } }
  | getVals (ret : Bool) (vals : List Str) (hpc : s.filler.pc = .fetch) :
      SysCase cfg env s (.getVals ret vals)
        { s with
          filler := { s.filler with pc := .pair 0, vals := vals }
          log := .fetched s.filler.keys ret vals :: s.log }
  | expirate : SysCase cfg env s .expirate { s with storage := s.storage.expirate }
  | shutdown : SysCase cfg env s .shutdown { s with isAlive_ := false }

theorem Sys.step_cases {s t : Sys} {action : Action} (h : s.step cfg env action = .ok t) :
    SysCase cfg env s action t := by
  cases action with
  | request c args =>
    simp only [Sys.step] at h
    cases hpc : (s.clients c).pc with
    | idle =>
      rw [hpc] at h
      cases h
      exact .request args hpc
    | lookup | sizeTest key | push key | setQueueSize size =>
      rw [hpc] at h
      cases h
  | client c now refresh =>
    simp only [Sys.step] at h
    cases hstep : (s.clients c).step env s.storage now refresh c with
    | error halt =>
      rw [hstep] at h
      cases h
    | ok r =>
      rw [hstep] at h
      cases h
      exact .client (Client.step_cases hstep)
  | filler now =>
    simp only [Sys.step] at h
    cases hstep : s.filler.step cfg env s.storage s.isAlive_ now with
    | error halt =>
      rw [hstep] at h
      cases h
    | ok r =>
      rw [hstep] at h
      cases h
      exact .filler (Filler.step_cases hstep)
  | isFillerAlive answer =>
    simp only [Sys.step] at h
    split at h
    · rename_i hpc
      cases h
      exact .isFillerAlive answer hpc
    · cases h
  | getVals ret vals =>
    simp only [Sys.step] at h
    split at h
    · rename_i hpc
      cases h
      exact .getVals ret vals hpc
    · cases h
  | expirate =>
    cases h
    exact .expirate
  | shutdown =>
    cases h
    exact .shutdown

end Swordfish
