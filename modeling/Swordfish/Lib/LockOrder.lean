import Swordfish.Lib.LockProgram

/-!
# Locks in the order of a rank

Locks are given back in the reverse order of their taking, and a thread takes a lock only if its
rank is above the ranks of all it owns. When a request never has to wait for an owner of a lower
rank, a thread that waits for another waits for one that, if it waits too, waits at a higher rank:
nobody waits for itself, and while the ranks have a bound somebody can always go on.
-/

namespace LockProgram
open UpgradableMutex (Mode Compatible)

/-- A request in this mode has to wait for an owner in that mode. -/
def Conflicts : Mode → Mode → Prop
  | .sharable, owner => owner = .exclusive
  | .upgradable, owner => owner = .upgradable ∨ owner = .exclusive
  | .exclusive, _ => True

instance : (request owner : Mode) → Decidable (Conflicts request owner)
  | .sharable, _ => inferInstanceAs (Decidable (_ = _))
  | .upgradable, _ => inferInstanceAs (Decidable (_ ∨ _))
  | .exclusive, _ => isTrue trivial

variable {ι μ α σ ρ ο : Type}

theorem compatible_iff {held : List (μ × Mode)} {m : μ} {mode : Mode} :
    Compatible held m mode ↔ ∀ owner, (m, owner) ∈ held → ¬ Conflicts mode owner := by
  cases mode with
  | sharable =>
    constructor
    · rintro h owner howner rfl
      exact h howner
    · exact fun h howner => h _ howner rfl
  | upgradable =>
    constructor
    · rintro ⟨hupgradable, hexclusive⟩ owner howner (rfl | rfl)
      · exact hupgradable howner
      · exact hexclusive howner
    · exact fun h => ⟨fun hmem => h _ hmem (Or.inl rfl), fun hmem => h _ hmem (Or.inr rfl)⟩
  | exclusive => simp [Compatible, Conflicts]

/-- The order of the locks. -/
structure LockOrder (μ : Type) where
  allowed : μ × Mode → Bool
  rank : μ × Mode → Nat
  bound : Nat
  rank_le : ∀ p, rank p ≤ bound
  conflict : ∀ m request owner, allowed (m, request) = true → allowed (m, owner) = true →
    Conflicts request owner → rank (m, request) ≤ rank (m, owner)

variable [DecidableEq μ] (order : LockOrder μ)

/-- The discipline, whose context is what the thread owns, the newest first. -/
def LockOrder.check (held : List (μ × Mode)) : Instr μ α → Option (List (μ × Mode))
  | .lock m mode =>
      if order.allowed (m, mode) = true ∧ ∀ p ∈ held, order.rank p < order.rank (m, mode) then
        some ((m, mode) :: held)
      else none
  | .unlock m mode => if held.head? = some (m, mode) then some held.tail else none
  | .act _ => some held

/-- Thread `i` waits for a lock that thread `j` does not let it have. -/
def Waits (s : State ι μ α σ ρ) (i j : ι) : Prop :=
  ∃ m mode k, s.todo i = .instr (.lock m mode) :: k ∧ ¬ Compatible (s.memory.held j) m mode

/-- The locks of all threads are in order, and so is the next lock of each. -/
structure Ordered (s : State ι μ α σ ρ) : Prop where
  idle : ∀ i, s.todo i = [] → s.memory.held i = []
  allowed : ∀ i, ∀ p ∈ s.memory.held i, order.allowed p = true
  next : ∀ i m mode k, s.todo i = .instr (.lock m mode) :: k →
    order.allowed (m, mode) = true ∧
      ∀ p ∈ s.memory.held i, order.rank p < order.rank (m, mode)

variable {order} {s : State ι μ α σ ρ}

omit [DecidableEq μ] in
/-- A thread that waits for one that waits, waits at a lower rank. -/
theorem Ordered.rank_lt (h : Ordered order s) {i j : ι} {m m' : μ} {mode mode' : Mode}
    {k k' : List (Code μ α)} (hi : s.todo i = .instr (.lock m mode) :: k)
    (hwaits : ¬ Compatible (s.memory.held j) m mode)
    (hj : s.todo j = .instr (.lock m' mode') :: k') :
    order.rank (m, mode) < order.rank (m', mode') := by
  rw [compatible_iff] at hwaits
  obtain ⟨owner, howner, hconflict⟩ : ∃ owner, (m, owner) ∈ s.memory.held j ∧
      Conflicts mode owner := by
    simpa using hwaits
  calc order.rank (m, mode)
      ≤ order.rank (m, owner) :=
        order.conflict m mode owner (h.next i m mode k hi).1 (h.allowed j _ howner) hconflict
    _ < order.rank (m', mode') := (h.next j m' mode' k' hj).2 _ howner

omit [DecidableEq μ] in
/-- Nobody waits, directly or through other threads, for itself. -/
theorem Ordered.not_waits_self (h : Ordered order s) (i : ι) :
    ¬ Relation.TransGen (Waits s) i i := by
  have hchain : ∀ j, Relation.TransGen (Waits s) i j → ∀ m mode k m' mode' k',
      s.todo i = .instr (.lock m mode) :: k → s.todo j = .instr (.lock m' mode') :: k' →
      order.rank (m, mode) < order.rank (m', mode') := by
    intro j hij
    induction hij with
    | single hwaits =>
      intro m mode k m' mode' k' hi hj
      obtain ⟨m₁, mode₁, k₁, hi₁, hwaits⟩ := hwaits
      rw [hi] at hi₁
      cases hi₁
      exact h.rank_lt hi hwaits hj
    | @tail j l hij hwaits ih =>
      intro m mode k m' mode' k' hi hl
      obtain ⟨m₁, mode₁, k₁, hj, hwaits⟩ := hwaits
      exact Nat.lt_trans (ih m mode k m₁ mode₁ k₁ hi hj) (h.rank_lt hj hwaits hl)
  intro hself
  obtain ⟨j, ⟨m, mode, k, hi, -⟩, -⟩ := Relation.TransGen.head'_iff.mp hself
  exact Nat.lt_irrefl _ (hchain i hself m mode k m mode k hi hi)

omit [DecidableEq μ] in
/-- While some thread is inside an operation, one such thread can take its next step: it waits for
no lock. -/
theorem Ordered.progress (h : Ordered order s) {i : ι} (hbusy : s.todo i ≠ []) :
    ∃ j, s.todo j ≠ [] ∧
      ∀ m mode k, s.todo j = .instr (.lock m mode) :: k → s.memory.Grants m mode := by
  -- Along the threads that wait for each other the rank goes up, and it has a bound.
  have hclimb : ∀ n (i : ι), s.todo i ≠ [] →
      (∀ m mode k, s.todo i = .instr (.lock m mode) :: k →
        order.bound - order.rank (m, mode) < n) →
      ∃ j, s.todo j ≠ [] ∧
        ∀ m mode k, s.todo j = .instr (.lock m mode) :: k → s.memory.Grants m mode := by
    intro n
    induction n with
    | zero =>
      intro i hi hrank
      exact ⟨i, hi, fun m mode k htodo => absurd (hrank m mode k htodo) (Nat.not_lt_zero _)⟩
    | succ n ih =>
      intro i hi hrank
      by_cases hgo : ∀ m mode k, s.todo i = .instr (.lock m mode) :: k → s.memory.Grants m mode
      · exact ⟨i, hi, hgo⟩
      · simp only [not_forall] at hgo
        obtain ⟨m, mode, k, htodo, hwaits⟩ := hgo
        obtain ⟨j, hwaits⟩ := not_forall.mp hwaits
        have hlow := hrank m mode k htodo
        have hj : s.todo j ≠ [] := by
          intro hnil
          rw [h.idle j hnil, compatible_iff] at hwaits
          exact hwaits (fun _ howner => by cases howner)
        refine ih j hj (fun m' mode' k' hnext => ?_)
        have hlt := h.rank_lt htodo hwaits hnext
        have hle := order.rank_le (m', mode')
        omega
  exact hclimb (order.bound + 1) i hbusy (fun m mode k _ =>
    Nat.lt_succ_of_le (Nat.sub_le _ _))

/-! ## Runs -/

variable [DecidableEq ι] [Fintype ι] {exec : α → σ → ρ → σ × ρ} {code : ο → Code μ α}

/-- What the discipline says of the threads: the contexts are what they own. -/
structure Owns (order : LockOrder μ) (g : ι → List (μ × Mode)) (c : Memory ι μ σ ρ) : Prop where
  held : c.held = g
  allowed : ∀ i, ∀ p ∈ g i, order.allowed p = true

omit [Fintype ι] in
/-- An instruction that the discipline accepts keeps `Owns`. -/
theorem Owns.after {g : ι → List (μ × Mode)} {c : Memory ι μ σ ρ} (h : Owns order g c) {i : ι}
    {x : Instr μ α} {g' : List (μ × Mode)} (hx : order.check (g i) x = some g') :
    Owns order (Function.update g i g') (c.after exec i x) := by
  have hallowed : (∀ p ∈ g', order.allowed p = true) →
      ∀ j, ∀ p ∈ Function.update g i g' j, order.allowed p = true := by
    intro hg' j
    rcases eq_or_ne j i with rfl | hne
    · rw [Function.update_self]
      exact hg'
    · rw [Function.update_of_ne hne]
      exact h.allowed j
  cases x with
  | lock m mode =>
    simp only [LockOrder.check] at hx
    split at hx
    · rename_i hlock
      cases hx
      refine ⟨by simp only [Memory.after, h.held], hallowed (fun p hp => ?_)⟩
      rcases List.mem_cons.mp hp with rfl | hp
      · exact hlock.1
      · exact h.allowed i p hp
    · cases hx
  | unlock m mode =>
    simp only [LockOrder.check] at hx
    split at hx
    · rename_i hhead
      cases hx
      obtain ⟨rest, hrest⟩ := List.head?_eq_some_iff.mp hhead
      refine ⟨?_, hallowed (fun p hp => h.allowed i p (List.mem_of_mem_tail hp))⟩
      simp only [Memory.after, h.held, hrest, List.erase_cons_head, List.tail_cons]
    · cases hx
  | act a =>
    simp only [LockOrder.check, Option.some.injEq] at hx
    subst hx
    exact ⟨by simp only [Memory.after, Function.update_eq_self, h.held], hallowed (h.allowed i)⟩

/-- Where the code of every operation is accepted, the locks of every reachable state are in
order. -/
theorem ordered_of_run (hcode : ∀ o, (code o).leaves order.check [] = some []) {shared : σ}
    {data : ι → ρ} {moves : List (ι × Move ο)}
    (h : Run.exec (step exec code) (init shared data) moves = .ok s) : Ordered order s := by
  obtain ⟨g, hleaves, howns⟩ := run_checked (I := Owns order) (C := fun _ _ => True) hcode
    (fun s g i left x k g' hI _ _ hx _ => hI.after hx)
    ⟨rfl, fun i p hp => by cases hp⟩ h (Run.every_iff.mpr (fun _ _ _ _ _ _ => trivial))
  refine ⟨?_, ?_, ?_⟩
  · intro i hidle
    have hi := hleaves i
    rw [hidle] at hi
    rw [howns.held]
    exact Option.some.inj hi
  · intro i p hp
    rw [howns.held] at hp
    exact howns.allowed i p hp
  · intro i m mode k htodo
    have hi := hleaves i
    rw [htodo] at hi
    obtain ⟨g', hx, -⟩ := leavesAll_instr hi
    simp only [LockOrder.check] at hx
    split at hx
    · rename_i hlock
      rw [howns.held]
      exact hlock
    · cases hx

/-- Freedom of deadlock: in every reachable state in which some thread is inside an operation, one
such thread can take its next step. -/
theorem run_progress (hcode : ∀ o, (code o).leaves order.check [] = some []) {shared : σ}
    {data : ι → ρ} {moves : List (ι × Move ο)}
    (h : Run.exec (step exec code) (init shared data) moves = .ok s) {i : ι}
    (hbusy : s.todo i ≠ []) :
    ∃ j t, s.todo j ≠ [] ∧ step exec code s (j, .go true) = .ok t := by
  obtain ⟨j, hj, hgrants⟩ := (ordered_of_run hcode h).progress hbusy
  have hgo : ∃ t, step exec code s (j, .go true) = .ok t := step_ok hj hgrants
  obtain ⟨t, ht⟩ := hgo
  exact ⟨j, t, hj, ht⟩

end LockProgram
