import Mathlib.Data.List.Nodup
import Mathlib.Data.List.Perm.Basic
import Mathlib.Data.List.Pairwise
import Mathlib.Data.List.TakeWhile
import Mathlib.Order.Lattice
import Mathlib.Tactic.Common

/-!
# A container with a unique key and an ordered index

A multi-index container holds each element once and reads it through several indices. Here one
index is unique on `key` and one orders the elements. The container is the list of its elements
in the order of the second index, together with the proof that no two of them have equal keys.

The ordered index links a new element where its search ends: behind an element that is not
greater and in front of one that is greater (`LinkPoint`). On an index that is in order that is
the upper bound; when elements have been written in place and the index has fallen out of order,
several points qualify and the shape of the search tree decides (`LinkRule`).
-/

/-- The elements in the order of the ordered index, unique in `key`. -/
structure MultiIndex {α κ : Type} (key : α → κ) where
  entries : List α
  unique : (entries.map key).Nodup

namespace MultiIndex

variable {α κ : Type} {key : α → κ} [DecidableEq κ]

/-- The container without elements. -/
def empty : MultiIndex key := ⟨[], List.nodup_nil⟩

/-- `find` through the unique index. -/
def find (m : MultiIndex key) (k : κ) : Option α := m.entries.find? (fun a => key a = k)

/-- `insert` at position `i` of the order; the unique index refuses a key it has. -/
def insertAt (m : MultiIndex key) (i : Nat) (a : α) : MultiIndex key :=
  if h : key a ∈ m.entries.map key then m
  else
    { entries := m.entries.take i ++ a :: m.entries.drop i
      unique := by
        rw [List.Perm.nodup_iff (List.perm_middle.map key), List.take_append_drop]
        exact List.nodup_cons.mpr ⟨h, m.unique⟩ }

/-- `erase` of the element with key `k`. -/
def erase (m : MultiIndex key) (k : κ) : MultiIndex key :=
  { entries := m.entries.filter (fun a => key a ≠ k)
    unique := m.unique.sublist (List.filter_sublist.map key) }

/-- A write through an iterator to fields that are not part of the key. The element stays where
it is in the order. -/
def write (m : MultiIndex key) (k : κ) (f : α → α) (hf : ∀ a, key (f a) = key a) :
    MultiIndex key :=
  { entries := m.entries.map (fun a => if key a = k then f a else a)
    unique := by
      have hkeys : (m.entries.map (fun a => if key a = k then f a else a)).map key =
          m.entries.map key := by
        rw [List.map_map]
        refine List.map_congr_left (fun a _ => ?_)
        simp only [Function.comp_apply]
        split <;> simp [hf]
      exact hkeys ▸ m.unique }

/-- The container after the first `n` elements of the order have been erased. -/
def drop (m : MultiIndex key) (n : Nat) : MultiIndex key :=
  { entries := m.entries.drop n
    unique := m.unique.sublist ((List.drop_sublist n m.entries).map key) }

/-! ## Lookup -/

theorem find_eq_some_iff {m : MultiIndex key} {k : κ} {a : α} :
    m.find k = some a ↔ a ∈ m.entries ∧ key a = k := by
  constructor
  · intro h
    exact ⟨List.mem_of_find?_eq_some h, by simpa using List.find?_some h⟩
  · rintro ⟨ha, rfl⟩
    cases h : m.find (key a) with
    | none =>
      simp only [find, List.find?_eq_none, decide_eq_true_eq] at h
      exact absurd rfl (h a ha)
    | some b =>
      have hb := List.mem_of_find?_eq_some h
      have hkey : key b = key a := by simpa using List.find?_some h
      rw [List.inj_on_of_nodup_map m.unique hb ha hkey]

theorem find_eq_none_iff {m : MultiIndex key} {k : κ} :
    m.find k = none ↔ ∀ a ∈ m.entries, key a ≠ k := by
  simp [find, List.find?_eq_none]

theorem find_isSome_iff {m : MultiIndex key} {k : κ} :
    (m.find k).isSome ↔ ∃ a ∈ m.entries, key a = k := by
  simp [find, List.find?_isSome]

omit [DecidableEq κ] in
/-- Two elements with the same key are the same element. -/
theorem eq_of_key_eq {m : MultiIndex key} {a b : α} (ha : a ∈ m.entries) (hb : b ∈ m.entries)
    (h : key a = key b) : a = b :=
  List.inj_on_of_nodup_map m.unique ha hb h

/-! ## What each operation leaves -/

theorem mem_erase {m : MultiIndex key} {k : κ} {a : α} :
    a ∈ (m.erase k).entries ↔ a ∈ m.entries ∧ key a ≠ k := by
  simp [erase]

theorem insertAt_perm {m : MultiIndex key} {i : Nat} {a : α}
    (h : ∀ b ∈ m.entries, key b ≠ key a) : (m.insertAt i a).entries.Perm (a :: m.entries) := by
  have habsent : key a ∉ m.entries.map key := by
    intro hmem
    obtain ⟨b, hb, heq⟩ := List.mem_map.mp hmem
    exact h b hb heq
  simp only [insertAt, dif_neg habsent]
  exact List.perm_middle.trans (by rw [List.take_append_drop])

theorem mem_insertAt {m : MultiIndex key} {i : Nat} {a b : α}
    (h : ∀ b ∈ m.entries, key b ≠ key a) :
    b ∈ (m.insertAt i a).entries ↔ b = a ∨ b ∈ m.entries := by
  rw [(insertAt_perm h).mem_iff, List.mem_cons]

theorem length_insertAt_le (m : MultiIndex key) (i : Nat) (a : α) :
    (m.insertAt i a).entries.length ≤ m.entries.length + 1 := by
  unfold insertAt
  split
  · exact Nat.le_succ _
  · simp only [List.length_append, List.length_cons, List.length_take, List.length_drop]
    omega

theorem length_erase_le (m : MultiIndex key) (k : κ) :
    (m.erase k).entries.length ≤ m.entries.length :=
  List.length_filter_le _ _

/-- An erased element is the one that the rest lacks. -/
theorem perm_cons_erase {m : MultiIndex key} {a : α} (ha : a ∈ m.entries) :
    m.entries.Perm (a :: (m.erase (key a)).entries) := by
  have hrest : (a :: (m.erase (key a)).entries).Nodup := by
    refine List.nodup_cons.mpr ⟨?_, (m.erase (key a)).unique.of_map key⟩
    intro h
    exact (mem_erase.mp h).2 rfl
  refine (List.perm_ext_iff_of_nodup (m.unique.of_map key) hrest).mpr (fun b => ?_)
  rw [List.mem_cons, mem_erase]
  constructor
  · intro hb
    by_cases hkey : key b = key a
    · exact Or.inl (eq_of_key_eq hb ha hkey)
    · exact Or.inr ⟨hb, hkey⟩
  · rintro (rfl | ⟨hb, -⟩)
    · exact ha
    · exact hb

theorem mem_write {m : MultiIndex key} {k : κ} {f : α → α} (hf : ∀ a, key (f a) = key a)
    {b : α} : b ∈ (m.write k f hf).entries ↔
      (b ∈ m.entries ∧ key b ≠ k) ∨ ∃ a ∈ m.entries, key a = k ∧ b = f a := by
  simp only [write, List.mem_map]
  constructor
  · rintro ⟨a, ha, rfl⟩
    by_cases hk : key a = k
    · exact Or.inr ⟨a, ha, hk, if_pos hk⟩
    · rw [if_neg hk]
      exact Or.inl ⟨ha, hk⟩
  · rintro (⟨hb, hk⟩ | ⟨a, ha, hk, rfl⟩)
    · exact ⟨b, hb, if_neg hk⟩
    · exact ⟨a, ha, if_pos hk⟩

/-- A write changes nothing that it does not write. -/
theorem map_write {β : Type} {m : MultiIndex key} {k : κ} {f : α → α}
    (hf : ∀ a, key (f a) = key a) (g : α → β) (hg : ∀ a, g (f a) = g a) :
    (m.write k f hf).entries.map g = m.entries.map g := by
  simp only [write, List.map_map]
  refine List.map_congr_left (fun a _ => ?_)
  simp only [Function.comp_apply]
  split <;> simp [hg]

/-! ## The order -/

variable {τ : Type} [LinearOrder τ]

/-- A place where the search of the ordered index can end for `t`: the element in front of it
is not greater than `t`, the element behind it is. -/
def LinkPoint (ts : List τ) (t : τ) (i : Nat) : Prop :=
  (∀ x ∈ (ts.take i).getLast?, x ≤ t) ∧ ∀ x ∈ (ts.drop i).head?, t < x

/-- Where an ordered index links a new element. The first argument tells one insertion from
another, since the shape of the tree is a matter of the index's whole history. -/
structure LinkRule (τ : Type) [LinearOrder τ] where
  place : Nat → List τ → τ → Nat
  linkPoint : ∀ n ts t, LinkPoint ts t (place n ts t)

/-- The rule of an index that is in order: behind the last element that is not greater. -/
def LinkRule.upperBound : LinkRule τ where
  place _ ts t := (ts.takeWhile (· ≤ t)).length
  linkPoint _ ts t := by
    refine ⟨?_, ?_⟩
    · intro x hx
      have htake : ts.take (ts.takeWhile (· ≤ t)).length = ts.takeWhile (· ≤ t) :=
        List.prefix_iff_eq_take.mp (List.takeWhile_prefix _) |>.symm
      rw [htake] at hx
      simpa using List.mem_takeWhile_imp (List.mem_of_getLast? hx)
    · intro x hx
      have hdrop : ts.drop (ts.takeWhile (· ≤ t)).length = ts.dropWhile (· ≤ t) :=
        calc ts.drop (ts.takeWhile (· ≤ t)).length
            = (ts.takeWhile (· ≤ t) ++ ts.dropWhile (· ≤ t)).drop
                (ts.takeWhile (· ≤ t)).length := by rw [List.takeWhile_append_dropWhile]
          _ = ts.dropWhile (· ≤ t) := List.drop_left
      rw [hdrop] at hx
      have hnot := List.head?_dropWhile_not (· ≤ t) ts
      rw [Option.mem_def.mp hx] at hnot
      simpa using hnot

/-- Linking keeps an index in order. -/
theorem LinkPoint.sorted {ts : List τ} {t : τ} {i : Nat} (h : LinkPoint ts t i)
    (hs : ts.Pairwise (· ≤ ·)) : (ts.take i ++ t :: ts.drop i).Pairwise (· ≤ ·) := by
  have hsplit := hs
  rw [← List.take_append_drop i ts, List.pairwise_append] at hsplit
  obtain ⟨hfront, hback, hcross⟩ := hsplit
  have hle : ∀ x ∈ ts.take i, x ≤ t := by
    intro x hx
    have hne : ts.take i ≠ [] := List.ne_nil_of_mem hx
    have hlast := h.1 _ (List.getLast?_eq_some_getLast hne)
    exact le_trans (List.Pairwise.rel_getLast hfront hx) hlast
  have hge : ∀ y ∈ ts.drop i, t ≤ y := by
    intro y hy
    cases hd : ts.drop i with
    | nil => simp [hd] at hy
    | cons z zs =>
      have hz := h.2 z (by simp [hd])
      rw [hd] at hy hback
      rcases List.mem_cons.mp hy with rfl | hy
      · exact le_of_lt hz
      · exact le_trans (le_of_lt hz) (List.rel_of_pairwise_cons hback hy)
  refine List.pairwise_append.mpr ⟨hfront, List.pairwise_cons.mpr ⟨hge, hback⟩, ?_⟩
  intro x hx y hy
  rcases List.mem_cons.mp hy with rfl | hy
  · exact hle x hx
  · exact hcross x hx y hy

/-- The index on `rank` is in order. -/
def InOrder (rank : α → τ) (m : MultiIndex key) : Prop := (m.entries.map rank).Pairwise (· ≤ ·)

/-- What the ordered index has behind the element with key `k`. -/
def behind (m : MultiIndex key) (k : κ) : List α :=
  (m.entries.dropWhile (fun a => key a ≠ k)).tail

/-- An element stands between the elements in front of it and those behind it. -/
theorem entries_eq_behind {m : MultiIndex key} {a : α} (ha : a ∈ m.entries) :
    ∃ front, m.entries = front ++ a :: m.behind (key a) := by
  have hsplit : m.entries.takeWhile (fun b => key b ≠ key a) ++
      m.entries.dropWhile (fun b => key b ≠ key a) = m.entries :=
    List.takeWhile_append_dropWhile
  cases hd : m.entries.dropWhile (fun b => key b ≠ key a) with
  | nil =>
    have hall := List.dropWhile_eq_nil_iff.mp hd a ha
    simp at hall
  | cons b rest =>
    have hb : b ∈ m.entries := by
      rw [← hsplit, hd]
      exact List.mem_append_right _ List.mem_cons_self
    have hkey : key b = key a := by
      have hnot := List.head?_dropWhile_not (fun b => decide (key b ≠ key a)) m.entries
      rw [hd] at hnot
      simpa using hnot
    rw [hd, eq_of_key_eq hb ha hkey] at hsplit
    refine ⟨m.entries.takeWhile (fun c => key c ≠ key a), ?_⟩
    rw [behind, hd]
    exact hsplit.symm

theorem InOrder.insertAt {rank : α → τ} {m : MultiIndex key} (h : InOrder rank m) {i : Nat}
    {a : α} (hi : LinkPoint (m.entries.map rank) (rank a) i) : InOrder rank (m.insertAt i a) := by
  unfold MultiIndex.insertAt
  split
  · exact h
  · have hsorted := hi.sorted h
    rw [← List.map_take, ← List.map_drop] at hsorted
    simpa [InOrder] using hsorted

theorem InOrder.erase {rank : α → τ} {m : MultiIndex key} (h : InOrder rank m) (k : κ) :
    InOrder rank (m.erase k) :=
  List.Pairwise.sublist (List.filter_sublist.map rank) h

omit [DecidableEq κ] in
theorem InOrder.drop {rank : α → τ} {m : MultiIndex key} (h : InOrder rank m) (n : Nat) :
    InOrder rank (m.drop n) :=
  List.Pairwise.sublist ((List.drop_sublist n m.entries).map rank) h

omit [DecidableEq κ] in
/-- When the index is in order, what `drop` erases ranks no higher than what it keeps. -/
theorem InOrder.le_of_drop {rank : α → τ} {m : MultiIndex key} (h : InOrder rank m) {n : Nat}
    {a b : α} (ha : a ∈ m.entries) (hgone : a ∉ (m.drop n).entries)
    (hb : b ∈ (m.drop n).entries) : rank a ≤ rank b := by
  have hfront : a ∈ m.entries.take n := by
    rw [← List.take_append_drop n m.entries] at ha
    exact (List.mem_append.mp ha).resolve_right hgone
  have hsplit := h
  rw [InOrder, ← List.take_append_drop n m.entries, List.map_append, List.pairwise_append] at hsplit
  exact hsplit.2.2 _ (List.mem_map_of_mem hfront) _ (List.mem_map_of_mem hb)

/-- A write in place that gives an element the highest rank keeps the index in order exactly when
nothing behind the element ranks below it. -/
theorem inOrder_write_iff {rank : α → τ} {m : MultiIndex key} (h : InOrder rank m) {a : α}
    (ha : a ∈ m.entries) {f : α → α} (hf : ∀ a, key (f a) = key a)
    (hmax : ∀ b ∈ m.entries, rank b ≤ rank (f a)) :
    InOrder rank (m.write (key a) f hf) ↔ ∀ b ∈ m.behind (key a), rank (f a) ≤ rank b := by
  obtain ⟨front, hsplit⟩ := entries_eq_behind ha
  have hunique := m.unique
  rw [hsplit, List.map_append, List.map_cons, List.nodup_append] at hunique
  obtain ⟨-, hrest, hfront⟩ := hunique
  have hkeep : ∀ l : List α, (∀ b ∈ l, key b ≠ key a) →
      l.map (fun b => if key b = key a then f b else b) = l := by
    intro l hl
    conv_rhs => rw [← List.map_id l]
    exact List.map_congr_left (fun b hb => if_neg (hl b hb))
  have hwrite : (m.write (key a) f hf).entries = front ++ f a :: m.behind (key a) := by
    change m.entries.map (fun b => if key b = key a then f b else b) = _
    conv_lhs => rw [hsplit]
    rw [List.map_append, List.map_cons, if_pos rfl, hkeep, hkeep]
    · intro b hb heq
      exact (List.nodup_cons.mp hrest).1 (List.mem_map.mpr ⟨b, hb, heq⟩)
    · intro b hb heq
      exact hfront _ (List.mem_map_of_mem hb) _ List.mem_cons_self heq
  have horder := h
  rw [InOrder, hsplit, List.map_append, List.map_cons, List.pairwise_append,
    List.pairwise_cons] at horder
  obtain ⟨hpre, ⟨-, hpost⟩, hcross⟩ := horder
  rw [InOrder, hwrite, List.map_append, List.map_cons, List.pairwise_append, List.pairwise_cons]
  constructor
  · rintro ⟨-, ⟨hle, -⟩, -⟩ b hb
    exact hle _ (List.mem_map_of_mem hb)
  · intro hle
    refine ⟨hpre, ⟨fun y hy => ?_, hpost⟩, fun x hx y hy => ?_⟩
    · obtain ⟨b, hb, rfl⟩ := List.mem_map.mp hy
      exact hle b hb
    · rcases List.mem_cons.mp hy with rfl | hy
      · obtain ⟨b, hb, rfl⟩ := List.mem_map.mp hx
        exact hmax b (hsplit ▸ List.mem_append_left _ hb)
      · exact hcross x hx y (List.mem_cons_of_mem _ hy)

/-! ## Images

A container seen through a function that keeps the keys; every operation on the container is the
same operation on its image. -/

section Map

variable {β : Type} {key' : β → κ} {f : α → β}

omit [DecidableEq κ] in
theorem ext_entries {m m' : MultiIndex key} (h : m.entries = m'.entries) : m = m' := by
  cases m
  cases m'
  cases h
  rfl

/-- The container of the images. -/
def map (f : α → β) (hf : ∀ a, key' (f a) = key a) (m : MultiIndex key) : MultiIndex key' :=
  { entries := m.entries.map f
    unique := by
      have hkeys : (m.entries.map f).map key' = m.entries.map key := by
        rw [List.map_map]
        exact List.map_congr_left (fun a _ => hf a)
      exact hkeys ▸ m.unique }

variable (hf : ∀ a, key' (f a) = key a)

theorem map_find (m : MultiIndex key) (k : κ) : (m.map f hf).find k = (m.find k).map f := by
  simp only [find, map, List.find?_map]
  congr 2
  funext a
  simp only [Function.comp_apply, hf]

theorem map_insertAt (m : MultiIndex key) (i : Nat) (a : α) :
    (m.insertAt i a).map f hf = (m.map f hf).insertAt i (f a) := by
  have hmem : key' (f a) ∈ (m.map f hf).entries.map key' ↔ key a ∈ m.entries.map key := by
    simp only [map, List.map_map, Function.comp_def, hf]
  apply ext_entries
  by_cases h : key a ∈ m.entries.map key
  · rw [insertAt, insertAt, dif_pos h, dif_pos (hmem.mpr h)]
  · rw [insertAt, insertAt, dif_neg h, dif_neg (mt hmem.mp h)]
    simp [map]

theorem map_erase (m : MultiIndex key) (k : κ) : (m.erase k).map f hf = (m.map f hf).erase k := by
  apply ext_entries
  simp only [erase, map, List.filter_map]
  congr 2
  funext a
  simp only [Function.comp_apply, hf]

omit [DecidableEq κ] in
theorem map_drop (m : MultiIndex key) (n : Nat) : (m.drop n).map f hf = (m.map f hf).drop n :=
  ext_entries List.map_drop

theorem map_write_image {g : α → α} {g' : β → β} (hfg : ∀ a, f (g a) = g' (f a))
    (hg : ∀ a, key (g a) = key a) (hg' : ∀ b, key' (g' b) = key' b) (m : MultiIndex key) (k : κ) :
    (m.write k g hg).map f hf = (m.map f hf).write k g' hg' := by
  apply ext_entries
  simp only [write, map, List.map_map]
  apply List.map_congr_left
  intro a _
  simp only [Function.comp_apply, hf]
  split
  · exact hfg a
  · rfl

end Map

end MultiIndex
