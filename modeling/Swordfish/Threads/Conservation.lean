import Mathlib.Algebra.BigOperators.Group.Finset.Basic
import Mathlib.Data.Fintype.BigOperators
import Mathlib.Data.UInt
import Swordfish.Threads.Deadlock

/-!
# No count is lost

A counter of `DHashmap` is drained into the one of `Stats`: `get_gets` reads it and resets it, and
`set_gets` adds the amount. Between the two the amount belongs to the thread. The increments of a
counter are the sum of the three as long as every write of it finds what its thread has read. Under
a `write_scoped_lock` it does, since upgradable owners exclude each other; `get_deleted` has a
`read_scoped_lock` only.
-/

namespace Swordfish.Threads
open LockProgram
open UpgradableMutex (Mode Compatible)

/-! ## What the daemon's threads run -/

/-- What the threads of the daemon do with the storage: lookups, `add` and `expirate`, the commands
`get` and `stats`, and what the filler runs. -/
inductive Request where
  | get
  | add
  | expirate
  | getVal
  | getStats
  | pushKey
  | popKey
  | addItem
  | resetStats
  | _do
  | operator
  deriving DecidableEq, Repr

/-- The method it is. -/
def Request.method : Request → Method
  | .get => .get
  | .add => .add
  | .expirate => .expirate
  | .getVal => .getVal
  | .getStats => .getStats
  | .pushKey => .pushKey
  | .popKey => .popKey
  | .addItem => .addItem
  | .resetStats => .resetStats
  | ._do => ._do
  | .operator => .operator

/-- Its code. -/
def Request.code (request : Request) : Script := request.method.code

/-! ## The discipline -/

/-- The mutex that guards a counter. -/
def Place.mutex : Place → Mutex
  | .dhashmap _ => .upgradable .dhashmap
  | .stats _ => .upgradable .stats

/-- Every counter but `DHashmap::deleted_` is written by upgradable owners of its mutex only. -/
def Place.Guarded (place : Place) : Prop := place ≠ .dhashmap .deleted

instance (place : Place) : Decidable place.Guarded := inferInstanceAs (Decidable (_ ≠ _))

/-- What is known of a thread at a point of its code: its locks, the guarded counter it has read
since it took the lock, the amount it carries, and the two marks of `Local`. -/
structure Context where
  held : List (Mutex × Mode)
  fresh : Option Place
  carries : Option Counter
  uncounted : Bool
  inside : Bool
  deriving DecidableEq, Repr

/-- Nothing is known of an idle thread, and it owns nothing. -/
def Context.idle : Context :=
  { held := []
    fresh := none
    carries := none
    uncounted := false
    inside := false }

/-- The context allows a write of the counter: it is not guarded, or has been read under the
lock. -/
def Context.MayWrite (g : Context) (place : Place) : Prop := place.Guarded → g.fresh = some place

instance (g : Context) (place : Place) : Decidable (g.MayWrite place) :=
  inferInstanceAs (Decidable (_ → _))

/-- The discipline of acts. -/
def Context.act (g : Context) : Act → Option Context
  | .body => some g
  | .enter => if g.inside then none else some { g with inside := true }
  | .leave => if g.inside ∧ ¬ g.uncounted then some { g with inside := false } else none
  | .erase => if g.inside ∧ ¬ g.uncounted then some { g with uncounted := true } else none
  | .read place =>
      if place.Guarded then
        if (place.mutex, .upgradable) ∈ g.held then some { g with fresh := some place } else none
      else some { g with fresh := none }
  | .increment counter =>
      if g.MayWrite (.dhashmap counter) ∧ (g.uncounted ↔ counter = .deleted) then
        some { g with fresh := none, uncounted := false }
      else none
  | .take counter =>
      if g.MayWrite (.dhashmap counter) ∧ g.carries = none then
        some { g with fresh := none, carries := some counter }
      else none
  | .zero => if g.carries = none then some g else none
  | .add counter =>
      if g.MayWrite (.stats counter) ∧ (g.carries = none ∨ g.carries = some counter) then
        some { g with fresh := none, carries := none }
      else none
  | .reset => none

/-- The discipline of the counters. -/
def Context.check (g : Context) : Instr Mutex Act → Option Context
  | .lock m mode => some { g with held := (m, mode) :: g.held }
  | .unlock m mode =>
      if g.held.head? = some (m, mode) then
        some { g with held := g.held.tail, fresh := none }
      else none
  | .act a => g.act a

/-- The code of the daemon's threads keeps the discipline. -/
theorem leaves_request (request : Request) :
    request.code.leaves Context.check .idle = some .idle := by
  cases request <;> decide

/-! ## The laws -/

variable {ι : Type} [Fintype ι]

/-- What a thread carries of a counter. -/
def Local.carried (l : Local) (counter : Counter) : UInt32 :=
  if l.carries = some counter then l.amount else 0

/-- The keys that a thread has erased and not yet counted. -/
def Local.pending (l : Local) : Nat := if l.uncounted then 1 else 0

/-- The increments of a counter of `DHashmap` are, modulo `2 ^ 32`, what it shows, what threads
carry to `Stats`, and what `Stats` shows. -/
def Conserved (counter : Counter) (c : Memory ι Mutex Counters Local) : Prop :=
  UInt32.ofNat (c.shared.increments counter) =
    c.shared.value (.dhashmap counter) + ∑ i, (c.data i).carried counter +
      c.shared.value (.stats counter)

instance (counter : Counter) (c : Memory ι Mutex Counters Local) :
    Decidable (Conserved counter c) :=
  inferInstanceAs (Decidable (_ = _))

/-- What the context of a thread tells of its data, and of the guarded counter that it has read
under its lock: the counter has not changed since. -/
structure Known (g : Context) (s : Counters) (l : Local) : Prop where
  fresh : ∀ place, g.fresh = some place → place.Guarded ∧
    (place.mutex, .upgradable) ∈ g.held ∧ l.read = s.value place
  carries : l.carries = g.carries
  uncounted : l.uncounted = g.uncounted
  inside : l.inside = g.inside
  amount : g.carries = none → l.amount = 0
  outside : g.inside = false → g.uncounted = false

/-- The invariant: the contexts tell what the threads own and know, every erased key is counted or
pending, and the counters in `K` are conserved. -/
structure Kept (K : Counter → Prop) (g : ι → Context) (c : Memory ι Mutex Counters Local) :
    Prop where
  held : ∀ i, c.held i = (g i).held
  unique : ∀ m i j, i ≠ j → (m, .upgradable) ∈ (g i).held → (m, .upgradable) ∉ (g j).held
  known : ∀ i, Known (g i) c.shared (c.data i)
  removed : c.shared.removed = c.shared.increments .deleted + ∑ i, (c.data i).pending
  conserved : ∀ counter, K counter → Conserved counter c

variable [DecidableEq ι] {K : Counter → Prop} {g : ι → Context}
  {c : Memory ι Mutex Counters Local} {i : ι}

/-- The sum over the threads when one of them changes. -/
theorem sum_update {M : Type} [AddCommMonoid M] (f : Local → M) (data : ι → Local) (i : ι)
    (l : Local) :
    ∑ j, f (Function.update data i l j) + f (data i) = ∑ j, f (data j) + f l := by
  have hrest : ∑ j ∈ Finset.univ.erase i, f (Function.update data i l j) =
      ∑ j ∈ Finset.univ.erase i, f (data j) :=
    Finset.sum_congr rfl
      (fun j hj => by rw [Function.update_of_ne (Finset.ne_of_mem_erase hj)])
  rw [← Finset.add_sum_erase _ _ (Finset.mem_univ i),
    ← Finset.add_sum_erase _ (fun j => f (data j)) (Finset.mem_univ i), hrest,
    Function.update_self]
  exact add_right_comm _ _ _ |>.trans (by rw [add_comm (f l), add_right_comm])

/-- What an act has to do to keep the invariant, in terms of its thread and of the counters. -/
theorem Kept.act (h : Kept K g c) {g' : Context} {s : Counters} {l : Local}
    (hheld : g'.held = (g i).held) (hknown : Known g' s l)
    (hothers : ∀ j ≠ i, Known (g j) s (c.data j))
    (hremoved : s.removed + (c.data i).pending + c.shared.increments .deleted =
      c.shared.removed + s.increments .deleted + l.pending)
    (hconserved : ∀ counter, K counter →
      UInt32.ofNat (s.increments counter) + (c.shared.value (.dhashmap counter) +
          (c.data i).carried counter + c.shared.value (.stats counter)) =
        UInt32.ofNat (c.shared.increments counter) + (s.value (.dhashmap counter) +
          l.carried counter + s.value (.stats counter))) :
    Kept K (Function.update g i g')
      { c with shared := s, data := Function.update c.data i l } := by
  have hsame : ∀ j, (Function.update g i g' j).held = (g j).held := by
    intro j
    rcases eq_or_ne j i with rfl | hne
    · rw [Function.update_self, hheld]
    · rw [Function.update_of_ne hne]
  refine ⟨?_, ?_, ?_, ?_, ?_⟩
  · intro j
    rw [hsame]
    exact h.held j
  · intro m j k hjk
    rw [hsame, hsame]
    exact h.unique m j k hjk
  · intro j
    dsimp only
    rcases eq_or_ne j i with rfl | hne
    · rw [Function.update_self, Function.update_self]
      exact hknown
    · rw [Function.update_of_ne hne, Function.update_of_ne hne]
      exact hothers j hne
  · have hsum := sum_update Local.pending c.data i l
    have hold := h.removed
    dsimp only at hsum ⊢
    omega
  · intro counter hcounter
    have hsum := sum_update (fun l => l.carried counter) c.data i l
    have hold := h.conserved counter hcounter
    have hnew := hconserved counter hcounter
    unfold Conserved at hold ⊢
    dsimp only at hsum ⊢
    grind

/-- An act that leaves the counters alone, and what its thread carries and has to count. -/
theorem Kept.act_local (h : Kept K g c) {g' : Context} {l : Local} (hheld : g'.held = (g i).held)
    (hknown : Known g' c.shared l) (hpending : l.pending = (c.data i).pending)
    (hcarried : ∀ counter, l.carried counter = (c.data i).carried counter) :
    Kept K (Function.update g i g') { c with data := Function.update c.data i l } := by
  refine h.act hheld hknown (fun j _ => h.known j) ?_ ?_
  · rw [hpending]
    omega
  · intro counter _
    rw [hcarried]

/-- The counter that an act writes. -/
def Act.writes : Act → Option Place
  | .increment counter => some (.dhashmap counter)
  | .take counter => some (.dhashmap counter)
  | .add counter => some (.stats counter)
  | _ => none

omit [DecidableEq ι] in
/-- A write of a guarded counter leaves what other threads have read as it is. -/
theorem Kept.known_of_write (h : Kept K g c) {place : Place} (hmay : (g i).MayWrite place)
    {s : Counters} (hvalue : ∀ p ≠ place, s.value p = c.shared.value p) {j : ι} (hne : j ≠ i) :
    Known (g j) s (c.data j) := by
  have hj := h.known j
  refine { hj with fresh := fun p hp => ?_ }
  obtain ⟨hguarded, howns, hread⟩ := hj.fresh p hp
  refine ⟨hguarded, howns, ?_⟩
  rw [hread, hvalue]
  rintro rfl
  obtain ⟨-, howns', -⟩ := (h.known i).fresh p (hmay hguarded)
  exact h.unique _ j i hne howns howns'

omit [DecidableEq ι] in
/-- A thread that may write a guarded counter has read what it shows. -/
theorem Kept.read_eq (h : Kept K g c) {place : Place} (hmay : (g i).MayWrite place)
    (hdeleted : place = .dhashmap .deleted → (c.data i).read = c.shared.value place) :
    (c.data i).read = c.shared.value place := by
  by_cases hguarded : place.Guarded
  · exact ((h.known i).fresh place (hmay hguarded)).2.2
  · exact hdeleted (not_not.mp hguarded)

/-- `++` of a counter, when the write finds what was read. -/
theorem Kept.increment (h : Kept K g c) {counter : Counter}
    (hmay : (g i).MayWrite (.dhashmap counter))
    (hmark : (c.data i).uncounted = true ↔ counter = .deleted)
    (hread : K counter → (c.data i).read = c.shared.value (.dhashmap counter)) :
    Kept K (Function.update g i { g i with fresh := none, uncounted := false })
      (c.after Act.exec i (.act (.increment counter))) := by
  have hothers : ∀ j ≠ i, Known (g j) (Act.exec (.increment counter) c.shared (c.data i)).1
      (c.data j) := fun j hne =>
    h.known_of_write hmay (fun p hp => Function.update_of_ne hp _ _) hne
  refine h.act rfl ?_ hothers ?_ ?_
  · refine { h.known i with
      fresh := fun p hp => by cases hp
      uncounted := ?_
      outside := fun _ => rfl }
    dsimp only [Act.exec]
    split
    · rfl
    · rename_i hother
      exact Bool.eq_false_iff.mpr (fun htrue => hother (hmark.mp htrue))
  · by_cases hdeleted : counter = .deleted
    · have hmarked : (c.data i).uncounted = true := hmark.mpr hdeleted
      simp only [Act.exec, Local.pending, hmarked, hdeleted, if_true, Function.update_self,
        Bool.false_eq_true, if_false]
      omega
    · have hmarked : (c.data i).uncounted = false :=
        Bool.eq_false_iff.mpr (fun htrue => hdeleted (hmark.mp htrue))
      simp only [Act.exec, Local.pending, hmarked, hdeleted, if_false,
        Function.update_of_ne (Ne.symm hdeleted)]
      omega
  · intro κ hκ
    by_cases heq : κ = counter
    · subst heq
      simp only [Act.exec, Local.carried, Function.update_self, hread hκ, UInt32.ofNat_add]
      rw [Function.update_of_ne (by simp)]
      grind
    · simp only [Act.exec, Local.carried, Function.update_of_ne heq]
      rw [Function.update_of_ne (by simpa using heq), Function.update_of_ne (by simp)]
      rfl

/-- `ret = x; x = 0`, when the write finds what was read: the amount goes to the thread. -/
theorem Kept.take (h : Kept K g c) {counter : Counter}
    (hmay : (g i).MayWrite (.dhashmap counter)) (hnone : (g i).carries = none)
    (hread : K counter → (c.data i).read = c.shared.value (.dhashmap counter)) :
    Kept K (Function.update g i { g i with fresh := none, carries := some counter })
      (c.after Act.exec i (.act (.take counter))) := by
  have hothers : ∀ j ≠ i, Known (g j) (Act.exec (.take counter) c.shared (c.data i)).1
      (c.data j) := fun j hne =>
    h.known_of_write hmay (fun p hp => Function.update_of_ne hp _ _) hne
  rw [← (h.known i).carries] at hnone
  refine h.act rfl ?_ hothers ?_ ?_
  · exact { h.known i with
      fresh := fun p hp => by cases hp
      carries := rfl
      amount := fun hcarries => by cases hcarries }
  · dsimp only [Act.exec, Local.pending]
    omega
  · intro κ hκ
    by_cases heq : κ = counter
    · subst heq
      simp only [Act.exec, Local.carried, Function.update_self, hread hκ, hnone, if_true]
      rw [Function.update_of_ne (by simp)]
      simp
    · simp only [Act.exec, Local.carried, hnone]
      rw [Function.update_of_ne (by simpa using heq), Function.update_of_ne (by simp)]
      simp [Ne.symm heq]

/-- `x += count` in `Stats`: the amount of the thread goes there. -/
theorem Kept.add (h : Kept K g c) {counter : Counter} (hmay : (g i).MayWrite (.stats counter))
    (hcarries : (g i).carries = none ∨ (g i).carries = some counter) :
    Kept K (Function.update g i { g i with fresh := none, carries := none })
      (c.after Act.exec i (.act (.add counter))) := by
  have hothers : ∀ j ≠ i, Known (g j) (Act.exec (.add counter) c.shared (c.data i)).1
      (c.data j) := fun j hne =>
    h.known_of_write hmay (fun p hp => Function.update_of_ne hp _ _) hne
  have hread : (c.data i).read = c.shared.value (.stats counter) :=
    h.read_eq hmay (fun hplace => by cases hplace)
  have hamount : ∀ κ, (c.data i).carried κ = if κ = counter then (c.data i).amount else 0 := by
    intro κ
    rw [Local.carried, (h.known i).carries]
    rcases hcarries with hnone | hsome
    · rw [(h.known i).amount hnone, ite_self, ite_self]
    · rw [hsome]
      by_cases heq : κ = counter
      · simp [heq]
      · simp [heq, Ne.symm heq]
  refine h.act rfl ?_ hothers ?_ ?_
  · exact { h.known i with
      fresh := fun p hp => by cases hp
      carries := rfl
      amount := fun _ => rfl }
  · dsimp only [Act.exec, Local.pending]
    omega
  · intro κ _
    rw [hamount]
    by_cases heq : κ = counter
    · subst heq
      simp only [Act.exec, Local.carried, Function.update_self, hread, if_true]
      rw [Function.update_of_ne (by simp)]
      simp only [reduceCtorEq, if_false]
      grind
    · simp only [Act.exec, Local.carried, if_neg heq]
      rw [Function.update_of_ne (by simp), Function.update_of_ne (by simpa using heq)]
      simp

theorem Kept.enter (h : Kept K g c) {g' : Context} (hact : (g i).act .enter = some g') :
    Kept K (Function.update g i g') (c.after Act.exec i (.act .enter)) := by
  simp only [Context.act] at hact
  split at hact
  · cases hact
  · cases hact
    refine h.act_local rfl ?_ rfl (fun counter => rfl)
    exact { h.known i with inside := rfl, outside := fun hfalse => by cases hfalse }

theorem Kept.leave (h : Kept K g c) {g' : Context} (hact : (g i).act .leave = some g') :
    Kept K (Function.update g i g') (c.after Act.exec i (.act .leave)) := by
  simp only [Context.act] at hact
  split at hact
  · rename_i hleave
    cases hact
    refine h.act_local rfl ?_ rfl (fun counter => rfl)
    exact { h.known i with inside := rfl, outside := fun _ => Bool.not_eq_true _ ▸ hleave.2 }
  · cases hact

/-- A key that is erased is one more that was removed, and one that is not yet counted. -/
theorem Kept.erase (h : Kept K g c) {g' : Context} (hact : (g i).act .erase = some g') :
    Kept K (Function.update g i g') (c.after Act.exec i (.act .erase)) := by
  have hi := h.known i
  simp only [Context.act] at hact
  split at hact
  · rename_i herase
    cases hact
    have hnone : (c.data i).uncounted = false := by
      rw [hi.uncounted]
      exact Bool.not_eq_true _ ▸ herase.2
    refine h.act rfl ?_ (fun j _ => { h.known j with }) ?_ (fun counter _ => rfl)
    · exact { hi with
        uncounted := rfl
        outside := fun hfalse => absurd herase.1 (by rw [hfalse]; exact Bool.false_ne_true) }
    · simp only [Act.exec, Local.pending, hnone]
      simp only [Bool.false_eq_true, if_false, if_true]
      omega
  · cases hact

/-- What is read stays known under the lock that guards it. -/
theorem Kept.read (h : Kept K g c) {g' : Context} {place : Place}
    (hact : (g i).act (.read place) = some g') :
    Kept K (Function.update g i g') (c.after Act.exec i (.act (.read place))) := by
  have hkeep : ∀ fresh, (∀ p, fresh = some p → p.Guarded ∧ (p.mutex, .upgradable) ∈ (g i).held ∧
      c.shared.value place = c.shared.value p) →
      Kept K (Function.update g i { g i with fresh := fresh })
        (c.after Act.exec i (.act (.read place))) := by
    intro fresh hfresh
    exact h.act_local rfl { h.known i with fresh := hfresh } rfl (fun counter => rfl)
  simp only [Context.act] at hact
  split at hact
  · rename_i hguarded
    split at hact
    · rename_i howns
      cases hact
      apply hkeep
      intro p hp
      cases hp
      exact ⟨hguarded, howns, rfl⟩
    · cases hact
  · cases hact
    exact hkeep none (fun p hp => by cases hp)

theorem Kept.zero (h : Kept K g c) {g' : Context} (hact : (g i).act .zero = some g') :
    Kept K (Function.update g i g') (c.after Act.exec i (.act .zero)) := by
  have hi := h.known i
  simp only [Context.act] at hact
  split at hact
  · rename_i hnone
    cases hact
    refine h.act_local rfl { hi with amount := fun _ => rfl } rfl ?_
    intro κ
    rw [← hi.carries] at hnone
    simp [Act.exec, Local.carried, hnone]
  · cases hact

/-- An act that the discipline accepts keeps the invariant, if a write of `DHashmap::deleted_`
finds what its thread has read whenever that counter is to be conserved. -/
theorem Kept.exec (h : Kept K g c) {a : Act} {g' : Context} (hact : (g i).act a = some g')
    (hread : K .deleted → a.writes = some (.dhashmap .deleted) →
      (c.data i).read = c.shared.value (.dhashmap .deleted)) :
    Kept K (Function.update g i g') (c.after Act.exec i (.act a)) := by
  have hreads : ∀ counter, (g i).MayWrite (.dhashmap counter) →
      a.writes = some (.dhashmap counter) → K counter →
      (c.data i).read = c.shared.value (.dhashmap counter) := by
    intro counter hmay hwrites hcounter
    refine h.read_eq hmay ?_
    intro hplace
    cases hplace
    exact hread hcounter hwrites
  cases a with
  | body =>
    cases hact
    exact h.act_local rfl (h.known i) rfl (fun counter => rfl)
  | enter => exact h.enter hact
  | leave => exact h.leave hact
  | erase => exact h.erase hact
  | read place => exact h.read hact
  | increment counter =>
    simp only [Context.act] at hact
    split at hact
    · rename_i hincrement
      obtain ⟨hmay, hmark⟩ := hincrement
      rw [← (h.known i).uncounted] at hmark
      cases hact
      exact h.increment hmay hmark (hreads counter hmay rfl)
    · cases hact
  | take counter =>
    simp only [Context.act] at hact
    split at hact
    · rename_i htake
      cases hact
      exact h.take htake.1 htake.2 (hreads counter htake.1 rfl)
    · cases hact
  | zero => exact h.zero hact
  | add counter =>
    simp only [Context.act] at hact
    split at hact
    · rename_i hadd
      cases hact
      exact h.add hadd.1 hadd.2
    · cases hact
  | reset => cases hact

/-- What taking or giving back a lock has to do to keep the invariant. -/
theorem Kept.relock (h : Kept K g c) {g' : Context} {held : List (Mutex × Mode)}
    (hheld : held = g'.held) (hknown : Known g' c.shared (c.data i))
    (hunique : ∀ m, (m, .upgradable) ∈ g'.held →
      (m, .upgradable) ∈ (g i).held ∨ ∀ j, (m, .upgradable) ∉ (g j).held) :
    Kept K (Function.update g i g') { c with held := Function.update c.held i held } := by
  refine ⟨?_, ?_, ?_, h.removed, h.conserved⟩
  · intro j
    rcases eq_or_ne j i with rfl | hne
    · simp only [Function.update_self, hheld]
    · simp only [Function.update_of_ne hne]
      exact h.held j
  · intro m j k hjk hj hk
    rcases eq_or_ne j i with rfl | hji
    · rw [Function.update_self] at hj
      rw [Function.update_of_ne hjk.symm] at hk
      rcases hunique m hj with hold | hnone
      · exact h.unique m j k hjk hold hk
      · exact hnone k hk
    · rw [Function.update_of_ne hji] at hj
      rcases eq_or_ne k i with rfl | hki
      · rw [Function.update_self] at hk
        rcases hunique m hk with hold | hnone
        · exact h.unique m j k hjk hj hold
        · exact hnone j hj
      · rw [Function.update_of_ne hki] at hk
        exact h.unique m j k hjk hj hk
  · intro j
    rcases eq_or_ne j i with rfl | hne
    · rw [Function.update_self]
      exact hknown
    · rw [Function.update_of_ne hne]
      exact h.known j

/-- An instruction that the discipline accepts keeps the invariant. -/
theorem Kept.instr (h : Kept K g c) {x : Instr Mutex Act} (hadmits : c.Admits x) {g' : Context}
    (hx : (g i).check x = some g')
    (hread : K .deleted → ∀ a, x = .act a → a.writes = some (.dhashmap .deleted) →
      (c.data i).read = c.shared.value (.dhashmap .deleted)) :
    Kept K (Function.update g i g') (c.after Act.exec i x) := by
  cases x with
  | lock m mode =>
    simp only [Context.check, Option.some.injEq] at hx
    subst hx
    refine h.relock (by rw [h.held i]) ?_ ?_
    · refine { h.known i with fresh := fun p hp => ?_ }
      obtain ⟨hguarded, howns, hshows⟩ := (h.known i).fresh p hp
      exact ⟨hguarded, List.mem_cons_of_mem _ howns, hshows⟩
    · intro m' hm'
      rcases List.mem_cons.mp hm' with heq | hold
      · cases heq
        right
        intro j
        rw [← h.held j]
        exact (hadmits j).1
      · exact Or.inl hold
  | unlock m mode =>
    simp only [Context.check] at hx
    split at hx
    · rename_i hhead
      cases hx
      obtain ⟨rest, hrest⟩ := List.head?_eq_some_iff.mp hhead
      refine h.relock ?_ ?_ (fun m' hm' => Or.inl (List.mem_of_mem_tail hm'))
      · rw [h.held i, hrest, List.erase_cons_head, List.tail_cons]
      · exact { h.known i with fresh := fun p hp => by cases hp }
    · cases hx
  | act a => exact h.exec hx (fun hdeleted => hread hdeleted a rfl)

/-! ## Runs -/

/-- If the next step of the thread writes the counter, it finds there what the thread has read. -/
def WritesWhatItRead (place : Place) (s : LockProgram.State ι Mutex Act Counters Local)
    (move : ι × Move Request) : Prop :=
  match s.todo move.1 with
  | .instr (.act a) :: _ =>
      a.writes = some place → (s.memory.data move.1).read = s.memory.shared.value place
  | _ => True

instance (place : Place) (s : LockProgram.State ι Mutex Act Counters Local)
    (move : ι × Move Request) : Decidable (WritesWhatItRead place s move) := by
  unfold WritesWhatItRead
  split <;> infer_instance

omit [DecidableEq ι] in
theorem kept_start (K : Counter → Prop) :
    Kept K (fun _ => .idle) (start : LockProgram.State ι Mutex Act Counters Local).memory where
  held _ := rfl
  unique _ _ _ _ h := by cases h
  known _ :=
    { fresh := fun _ h => by cases h
      carries := rfl
      uncounted := rfl
      inside := rfl
      amount := fun _ => rfl
      outside := fun _ => rfl }
  removed := by simp [start, LockProgram.init, Local.pending]
  conserved counter _ := by simp [Conserved, start, LockProgram.init, Local.carried]

/-- The invariant holds in every run in which the writes of `DHashmap::deleted_` find what was
read, if that counter is to be conserved, and in every run otherwise. -/
theorem run_kept {moves : List (ι × Move Request)}
    {s : LockProgram.State ι Mutex Act Counters Local}
    (h : Run.exec (LockProgram.step Act.exec Request.code) start moves = .ok s)
    (hevery : Run.Every (LockProgram.step Act.exec Request.code)
      (fun s move => K .deleted → WritesWhatItRead (.dhashmap .deleted) s move) start moves) :
    ∃ g : ι → Context, Kept K g s.memory := by
  obtain ⟨g, -, hkept⟩ := run_checked leaves_request
    (I := Kept K)
    (fun s g i left x k g' hI htodo hadmits hx hC => by
      refine hI.instr hadmits hx ?_
      intro hdeleted a ha hwrites
      have hread := hC hdeleted
      simp only [WritesWhatItRead, htodo, ha] at hread
      exact hread hwrites)
    (kept_start K) h hevery
  exact ⟨g, hkept⟩

/-- Lookup and refresh counts are conserved: in every run of any number of threads, the increments
of `gets_` are, modulo `2 ^ 32`, `DHashmap::gets_`, the amounts that threads have from `get_gets`
and have not added by `set_gets`, and `Stats::gets_`; and the same for `updates_`. -/
theorem gets_updates_conserved {moves : List (ι × Move Request)}
    {s : LockProgram.State ι Mutex Act Counters Local}
    (h : Run.exec (LockProgram.step Act.exec Request.code) start moves = .ok s) :
    Conserved .gets s.memory ∧ Conserved .updates s.memory := by
  have hevery : Run.Every (LockProgram.step Act.exec Request.code)
      (fun s move => Counter.deleted ≠ .deleted → WritesWhatItRead (.dhashmap .deleted) s move)
      start moves :=
    Run.every_iff.mpr (fun _ _ _ _ _ _ hne => absurd rfl hne)
  obtain ⟨g, hkept⟩ := run_kept (K := (· ≠ .deleted)) h hevery
  exact ⟨hkept.conserved .gets (by decide), hkept.conserved .updates (by decide)⟩

/-- One thread looks a key up whose value is old, and another asks for the statistics. -/
theorem gets_updates_conserved_stats :
    ∃ s : LockProgram.State Bool Mutex Act Counters Local,
      Run.exec (LockProgram.step Act.exec Request.code) start
        ((false, .start .get) :: List.replicate 15 (false, .go true) ++
          List.replicate 14 (false, .go false) ++
          (true, .start .getStats) :: List.replicate 60 (true, .go true)) = .ok s ∧
      Conserved .gets s.memory ∧ Conserved .updates s.memory := by
  obtain ⟨s, hrun, -⟩ := Run.yields_iff.mp
    (by decide +kernel : Run.Yields (LockProgram.step Act.exec Request.code)
      (fun s : LockProgram.State Bool Mutex Act Counters Local =>
        s.memory.shared.increments .gets = 1 ∧ s.memory.shared.increments .updates = 1)
      start
      ((false, .start .get) :: List.replicate 15 (false, .go true) ++
        List.replicate 14 (false, .go false) ++
        (true, .start .getStats) :: List.replicate 60 (true, .go true)))
  exact ⟨s, hrun, gets_updates_conserved hrun⟩

/-- Deletions are conserved as far as the lock allows: in every run in which every write of
`DHashmap::deleted_` finds what its thread has read, at every point at which no thread is inside
`expirate` or `get_deleted`, the keys that `expirate` has removed are, modulo `2 ^ 32`,
`DHashmap::deleted_`, the amounts that threads have from `get_deleted` and have not added by
`set_deleted`, and `Stats::deleted_`. -/
theorem deleted_conserved {moves : List (ι × Move Request)}
    {s : LockProgram.State ι Mutex Act Counters Local}
    (h : Run.exec (LockProgram.step Act.exec Request.code) start moves = .ok s)
    (hevery : Run.Every (LockProgram.step Act.exec Request.code)
      (WritesWhatItRead (.dhashmap .deleted)) start moves)
    (hquiet : ∀ i, (s.memory.data i).inside = false) :
    UInt32.ofNat s.memory.shared.removed =
      s.memory.shared.value (.dhashmap .deleted) + ∑ i, (s.memory.data i).carried .deleted +
        s.memory.shared.value (.stats .deleted) := by
  obtain ⟨g, hkept⟩ := run_kept (K := fun _ => True) h
    (Run.every_iff.mpr (fun xs o ys t hsplit ht _ => Run.every_iff.mp hevery xs o ys t hsplit ht))
  have hpending : ∀ i, (s.memory.data i).pending = 0 := by
    intro i
    have hknown := hkept.known i
    have hoff := hknown.outside (hknown.inside ▸ hquiet i)
    rw [← hknown.uncounted] at hoff
    rw [Local.pending, hoff]
    rfl
  have hremoved : s.memory.shared.removed = s.memory.shared.increments .deleted := by
    rw [hkept.removed, Finset.sum_eq_zero (fun i _ => hpending i), Nat.add_zero]
  rw [hremoved]
  exact hkept.conserved .deleted trivial

/-- One thread removes a key, and the next one asks for the statistics. -/
theorem deleted_conserved_alone :
    ∃ s : LockProgram.State Bool Mutex Act Counters Local,
      Run.exec (LockProgram.step Act.exec Request.code) start
        ((true, .start .expirate) :: List.replicate 19 (true, .go true) ++
          List.replicate 4 (true, .go false) ++
          (false, .start .getStats) :: List.replicate 35 (false, .go true)) = .ok s ∧
      s.memory.shared.removed = 1 ∧
      UInt32.ofNat s.memory.shared.removed =
        s.memory.shared.value (.dhashmap .deleted) + ∑ i, (s.memory.data i).carried .deleted +
          s.memory.shared.value (.stats .deleted) := by
  obtain ⟨s, hrun, hremoved, hquiet⟩ := Run.yields_iff.mp
    (by decide +kernel : Run.Yields (LockProgram.step Act.exec Request.code)
      (fun s : LockProgram.State Bool Mutex Act Counters Local =>
        s.memory.shared.removed = 1 ∧ ∀ i, (s.memory.data i).inside = false)
      start
      ((true, .start .expirate) :: List.replicate 19 (true, .go true) ++
        List.replicate 4 (true, .go false) ++
        (false, .start .getStats) :: List.replicate 35 (false, .go true)))
  exact ⟨s, hrun, hremoved, deleted_conserved hrun (by decide +kernel) hquiet⟩

/-- After one key is removed, two `stats` commands are inside `get_deleted` at the same time, and
both read 1 before either resets the counter: outside of it they carry 2 together. -/
theorem deleted_counted_twice :
    ∃ s : LockProgram.State Bool Mutex Act Counters Local,
      Run.exec (LockProgram.step Act.exec Request.code) start
        ((true, .start .expirate) :: List.replicate 19 (true, .go true) ++
          List.replicate 4 (true, .go false) ++
          (true, .start .getStats) :: List.replicate 24 (true, .go true) ++
          (false, .start .getStats) :: List.replicate 27 (false, .go true) ++
          List.replicate 3 (true, .go true)) = .ok s ∧
      (∀ i, (s.memory.data i).inside = false) ∧
      s.memory.shared.removed = 1 ∧
      s.memory.shared.value (.dhashmap .deleted) + ∑ i, (s.memory.data i).carried .deleted +
        s.memory.shared.value (.stats .deleted) = 2 :=
  Run.yields_iff.mp
    (by decide +kernel : Run.Yields (LockProgram.step Act.exec Request.code)
      (fun s : LockProgram.State Bool Mutex Act Counters Local =>
        (∀ i, (s.memory.data i).inside = false) ∧
        s.memory.shared.removed = 1 ∧
        s.memory.shared.value (.dhashmap .deleted) + ∑ i, (s.memory.data i).carried .deleted +
          s.memory.shared.value (.stats .deleted) = 2)
      start
      ((true, .start .expirate) :: List.replicate 19 (true, .go true) ++
        List.replicate 4 (true, .go false) ++
        (true, .start .getStats) :: List.replicate 24 (true, .go true) ++
        (false, .start .getStats) :: List.replicate 27 (false, .go true) ++
        List.replicate 3 (true, .go true)))

end Swordfish.Threads
