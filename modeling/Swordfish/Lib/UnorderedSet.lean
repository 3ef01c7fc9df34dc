import Mathlib.Tactic.Common

/-!
# A hash set with its own hash and equality

The set a hash table implements when it is given a hash and an equality: an element keeps the
hash it was inserted under, and a lookup compares it with the sought element only when the two
hashes agree. The equality is an argument of each operation, since it may read mutable state and
need not be reflexive on the stored elements. The list of nodes is the order of iteration.
-/

/-- A stored element with the hash it was inserted under. -/
structure UnorderedSet.Node (η α : Type) where
  hash : η
  item : α
  deriving DecidableEq, Repr

/-- The nodes of the table, in the order of iteration. -/
abbrev UnorderedSet (η α : Type) := List (UnorderedSet.Node η α)

namespace UnorderedSet

variable {η α ε : Type}

/-- `rehash`: every node is linked under the hash that it has now. -/
def rehash (hash : α → Except ε η) : UnorderedSet η α → Except ε (UnorderedSet η α)
  | [] => .ok []
  | n :: rest => do
      let h ← hash n.item
      let rest ← rehash hash rest
      return { n with hash := h } :: rest

/-- Nodes that still have the hash they were inserted under stay as they are. -/
theorem rehash_eq_self {hash : α → Except ε η} {s : UnorderedSet η α}
    (h : ∀ n ∈ s, hash n.item = .ok n.hash) : s.rehash hash = .ok s := by
  induction s with
  | nil => rfl
  | cons n rest ih =>
    rw [rehash, h n List.mem_cons_self, ih (fun m hm => h m (List.mem_cons_of_mem n hm))]
    rfl

/-- A node that has no hash any more stops the rehash. -/
theorem rehash_eq_error {hash : α → Except ε η} {e : ε} {s : UnorderedSet η α}
    (h : ∀ n ∈ s, hash n.item = .ok n.hash ∨ hash n.item = .error e)
    (hbad : ∃ n ∈ s, hash n.item = .error e) : s.rehash hash = .error e := by
  induction s with
  | nil =>
    obtain ⟨n, hn, -⟩ := hbad
    exact absurd hn List.not_mem_nil
  | cons n rest ih =>
    rw [rehash]
    rcases h n List.mem_cons_self with hok | herror
    · have hrest : ∃ m ∈ rest, hash m.item = .error e := by
        obtain ⟨m, hm, hm'⟩ := hbad
        rcases List.mem_cons.mp hm with rfl | hm
        · rw [hok] at hm'
          cases hm'
        · exact ⟨m, hm, hm'⟩
      rw [hok, ih (fun m hm => h m (List.mem_cons_of_mem n hm)) hrest]
      rfl
    · rw [herror]
      rfl

variable [DecidableEq η]

/-- The lookup test: equal hashes, and equal elements. -/
def hits (eq : α → α → Bool) (h : η) (x : α) (n : Node η α) : Bool :=
  n.hash == h && eq x n.item

/-- `find`: an element equal to `x`. -/
def find (s : UnorderedSet η α) (eq : α → α → Bool) (h : η) (x : α) : Option (Node η α) :=
  s.find? (hits eq h x)

/-- `insert`: nothing happens when an equal element is stored already. -/
def insert (s : UnorderedSet η α) (eq : α → α → Bool) (h : η) (x : α) : UnorderedSet η α :=
  if (s.find eq h x).isSome then s else s ++ [⟨h, x⟩]

/-- `erase` by key: the elements equal to `x` go. -/
def erase (s : UnorderedSet η α) (eq : α → α → Bool) (h : η) (x : α) : UnorderedSet η α :=
  s.filter (fun n => !hits eq h x n)

theorem find_some {s : UnorderedSet η α} {eq : α → α → Bool} {h : η} {x : α} {n : Node η α}
    (hfind : s.find eq h x = some n) : n ∈ s ∧ n.hash = h ∧ eq x n.item = true := by
  have hmatch := List.find?_some hfind
  simp only [hits, Bool.and_eq_true, beq_iff_eq] at hmatch
  exact ⟨List.mem_of_find?_eq_some hfind, hmatch⟩

theorem find_none_iff {s : UnorderedSet η α} {eq : α → α → Bool} {h : η} {x : α} :
    s.find eq h x = none ↔ ∀ n ∈ s, n.hash = h → eq x n.item = false := by
  simp [find, hits, List.find?_eq_none]

/-- An element that is not found is appended. -/
theorem insert_of_find_none {s : UnorderedSet η α} {eq : α → α → Bool} {h : η} {x : α}
    (hfind : s.find eq h x = none) : s.insert eq h x = s ++ [⟨h, x⟩] := by
  simp [insert, hfind]

/-- When the stored elements equal to `x` are exactly those that satisfy `p`, erasing `x`
removes them. -/
theorem erase_eq_filter {s : UnorderedSet η α} {eq : α → α → Bool} {h : η} {x : α}
    {p : Node η α → Prop} [DecidablePred p]
    (hp : ∀ n ∈ s, (n.hash = h ∧ eq x n.item = true) ↔ p n) :
    s.erase eq h x = s.filter (fun n => ¬ p n) := by
  refine List.filter_congr ?_
  intro n hn
  rw [decide_not, Bool.not_inj_iff, Bool.eq_iff_iff, decide_eq_true_iff, ← hp n hn]
  simp [hits]

end UnorderedSet
