import Mathlib.Data.List.Forall2
import Mathlib.Data.List.TakeWhile
import Mathlib.Tactic.Common

/-!
# Reading values off a stream that arrives in pieces

A reader takes a value from the front of a list and leaves the rest, or finds none yet. Two things
are asked of it: that it reads back what was written, whatever follows (`Reads`), and that more
input does not change what has been read (`Stable`). Both go through `bind`, so a format is checked
piece by piece; `all` reads one value for each of a list of requests.
-/

/-- A value from the front, and what is left. -/
abbrev Reader (α β : Type) := List α → Option (β × List α)

namespace Reader

variable {α β γ κ : Type}

/-- From the text `w` the value `b` is read, whatever follows. -/
def Reads (p : Reader α β) (w : List α) (b : β) : Prop := ∀ s, p (w ++ s) = some (b, s)

/-- What has been read stays read as more comes in. -/
def Stable (p : Reader α β) : Prop :=
  ∀ s b r x, p s = some (b, r) → p (s ++ x) = some (b, r ++ x)

/-! ## Readers of one thing after the other -/

/-- First `p`, then what is said to follow its value. -/
def bind (p : Reader α β) (q : β → Reader α γ) : Reader α γ :=
  fun s => (p s).bind (fun r => q r.1 r.2)

/-- The value of `p` as `f` understands it. -/
def check (p : Reader α β) (f : β → Option γ) : Reader α γ :=
  fun s => (p s).bind (fun r => (f r.1).map (fun c => (c, r.2)))

/-- Exactly `w`. -/
def literal [DecidableEq α] (w : List α) : Reader α Unit :=
  fun s => if w <+: s then some ((), s.drop w.length) else none

/-- A text up to the first element that `p` refuses, where `stop` stands. -/
def field [DecidableEq α] (p : α → Bool) (stop : List α) : Reader α (List α) :=
  fun s => (literal stop (s.dropWhile p)).map (fun r => (s.takeWhile p, r.2))

/-- As many elements. -/
def count (n : Nat) : Reader α (List α) :=
  fun s => if s.length < n then none else some (s.take n, s.drop n)

theorem Reads.bind {p : Reader α β} {q : β → Reader α γ} {w v : List α} {b : β} {c : γ}
    (hp : Reads p w b) (hq : Reads (q b) v c) : Reads (p.bind q) (w ++ v) c := by
  intro s
  rw [Reader.bind, List.append_assoc, hp]
  exact hq s

theorem Stable.bind {p : Reader α β} {q : β → Reader α γ} (hp : Stable p)
    (hq : ∀ b, Stable (q b)) : Stable (p.bind q) := by
  intro s c r x h
  obtain ⟨⟨b, t⟩, hs, ht⟩ := Option.bind_eq_some_iff.mp h
  rw [Reader.bind, hp s b t x hs]
  exact hq b t c r x ht

theorem Reads.check {p : Reader α β} {f : β → Option γ} {w : List α} {b : β} {c : γ}
    (hp : Reads p w b) (hf : f b = some c) : Reads (p.check f) w c := by
  intro s
  rw [Reader.check, hp, Option.bind_some, hf]
  rfl

theorem Stable.check {p : Reader α β} (hp : Stable p) (f : β → Option γ) :
    Stable (p.check f) := by
  intro s c r x h
  obtain ⟨⟨b, t⟩, hs, ht⟩ := Option.bind_eq_some_iff.mp h
  obtain ⟨c', hf, hc⟩ := Option.map_eq_some_iff.mp ht
  cases hc
  rw [Reader.check, hp s b t x hs, Option.bind_some, hf]
  rfl

section

variable [DecidableEq α]

theorem literal_eq_some_iff {w s r : List α} {b : Unit} :
    literal w s = some (b, r) ↔ s = w ++ r := by
  rw [literal]
  constructor
  · intro h
    split at h
    · rename_i hprefix
      obtain ⟨t, rfl⟩ := hprefix
      rw [List.drop_left] at h
      cases h
      rfl
    · cases h
  · rintro rfl
    rw [if_pos (List.prefix_append w r), List.drop_left]

theorem reads_literal (w : List α) : Reads (literal w) w () :=
  fun _ => literal_eq_some_iff.mpr rfl

theorem stable_literal (w : List α) : Stable (literal w) := by
  intro s b r x h
  rw [literal_eq_some_iff] at h ⊢
  rw [h, List.append_assoc]

variable {p : α → Bool} {a : α} {stop : List α}

theorem field_eq_some_iff (ha : p a = false) {s w r : List α} :
    field p (a :: stop) s = some (w, r) ↔ (∀ b ∈ w, p b = true) ∧ s = w ++ (a :: stop ++ r) := by
  rw [field]
  constructor
  · intro h
    obtain ⟨⟨u, t⟩, hliteral, ht⟩ := Option.map_eq_some_iff.mp h
    cases ht
    rw [literal_eq_some_iff] at hliteral
    refine ⟨fun b hb => List.mem_takeWhile_imp hb, ?_⟩
    rw [← hliteral, List.takeWhile_append_dropWhile]
  · rintro ⟨hw, rfl⟩
    rw [List.cons_append, List.dropWhile_append_of_pos hw, List.takeWhile_append_of_pos hw,
      List.dropWhile_cons_of_neg (by simp [ha]), List.takeWhile_cons_of_neg (by simp [ha]),
      List.append_nil, ← List.cons_append, reads_literal]
    rfl

theorem reads_field (ha : p a = false) {w : List α} (hw : ∀ b ∈ w, p b = true) :
    Reads (field p (a :: stop)) (w ++ a :: stop) w := by
  intro s
  rw [field_eq_some_iff ha, List.append_assoc]
  exact ⟨hw, rfl⟩

theorem stable_field (ha : p a = false) : Stable (field p (a :: stop)) := by
  intro s w r x h
  rw [field_eq_some_iff ha] at h ⊢
  refine ⟨h.1, ?_⟩
  rw [h.2, List.append_assoc, List.append_assoc]

end

theorem stable_count (n : Nat) : Stable (count n : Reader α (List α)) := by
  intro s b r x h
  rw [count] at h ⊢
  split at h
  · cases h
  · rename_i hlong
    rw [Nat.not_lt] at hlong
    cases h
    rw [if_neg, List.take_append_of_le_length hlong, List.drop_append_of_le_length hlong]
    rw [List.length_append]
    omega

/-! ## One value for each request -/

/-- A value for each request, as far as the stream goes, and what is left. -/
def all (p : κ → Reader α β) : List κ → List α → List β × List α
  | [], s => ([], s)
  | k :: ks, s =>
      match p k s with
      | some (b, r) => (b :: (all p ks r).1, (all p ks r).2)
      | none => ([], s)

variable {p : κ → Reader α β}

/-- Values that have been read stay read. -/
theorem all_prefix (hp : ∀ k, Stable (p k)) (ks : List κ) (s x : List α) :
    (all p ks s).1 <+: (all p ks (s ++ x)).1 := by
  induction ks generalizing s with
  | nil => exact List.prefix_refl []
  | cons k ks ih =>
    rw [all]
    split
    · rename_i b r hread
      rw [all, hp k s b r x hread]
      exact (List.prefix_cons_inj b).mpr (ih r)
    · exact List.nil_prefix

/-- The texts written for the first requests are read back, one value for each; there is nothing
to be read for the next request. -/
theorem all_of_reads {R : κ → β → Prop} {ks : List κ} {ws : List (List α)}
    (h : List.Forall₂ (fun k w => ∃ b, Reads (p k) w b ∧ R k b) ks ws) (more : List κ)
    (hnone : ∀ k, p k [] = none) :
    (all p (ks ++ more) ws.flatten).2 = [] ∧
      List.Forall₂ R ks (all p (ks ++ more) ws.flatten).1 := by
  induction h with
  | nil =>
    rw [List.nil_append, List.flatten_nil]
    cases more with
    | nil => exact ⟨rfl, .nil⟩
    | cons k more =>
      rw [all, hnone]
      exact ⟨rfl, .nil⟩
  | cons hread _ ih =>
    obtain ⟨b, hreads, hb⟩ := hread
    rw [List.cons_append, List.flatten_cons, all, hreads]
    exact ⟨ih.1, .cons hb ih.2⟩

/-- What is read of a first part of the stream answers the first requests. -/
theorem forall₂_of_prefix {R : κ → β → Prop} {ks : List κ} {bs bs' : List β}
    (h : List.Forall₂ R ks bs') (hle : bs <+: bs') :
    List.Forall₂ R (ks.take bs.length) bs := by
  obtain ⟨later, rfl⟩ := hle
  have htake := List.forall₂_take bs.length h
  rwa [List.take_left] at htake

end Reader
