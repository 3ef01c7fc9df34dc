import Mathlib.Data.List.Infix
import Mathlib.Tactic.Common

/-!
# A queue without repetitions, with a limit

An element is offered to a queue: it is appended unless it is in the queue already, or the length
of the queue counts as full. With the plain limit what a list of offers appends is a prefix of the
new elements (`offerAll_limit`). Two notions of full, one of which lets more pass, append the same
exactly when they agree wherever it matters (`offerAll_eq_iff`).
-/

namespace LimitedQueue

variable {α : Type} [DecidableEq α] (full : Nat → Prop) [DecidablePred full]

/-- The queue after an offer. -/
def offer (q : List α) (a : α) : List α := if a ∉ q ∧ ¬ full q.length then q ++ [a] else q

/-- The queue after some offers, one after the other. -/
def offerAll (q as : List α) : List α := as.foldl (offer full) q

variable {full} {q as : List α} {a : α}

@[simp] theorem offerAll_nil (q : List α) : offerAll full q [] = q := rfl

theorem offerAll_cons (q : List α) (a : α) (as : List α) :
    offerAll full q (a :: as) = offerAll full (offer full q a) as := rfl

theorem offerAll_append (q as bs : List α) :
    offerAll full q (as ++ bs) = offerAll full (offerAll full q as) bs := List.foldl_append

theorem offer_of_full (h : full q.length) : offer full q a = q := if_neg (fun hroom => hroom.2 h)

theorem offer_of_mem (h : a ∈ q) : offer full q a = q := if_neg (fun hroom => hroom.1 h)

/-- Nothing gets into a full queue. -/
theorem offerAll_of_full (h : full q.length) (as : List α) : offerAll full q as = q := by
  induction as with
  | nil => rfl
  | cons a as ih => rw [offerAll_cons, offer_of_full h, ih]

/-- Offers only append. -/
theorem prefix_offerAll (q as : List α) : q <+: offerAll full q as := by
  induction as generalizing q with
  | nil => exact List.prefix_refl q
  | cons a as ih =>
    refine List.IsPrefix.trans ?_ (ih (offer full q a))
    unfold offer
    split
    · exact List.prefix_append q [a]
    · exact List.prefix_refl q

/-- The elements that are new to the queue, each once and in order, as far as there is room. -/
def newcomers (limit : Nat) (q as : List α) : List α :=
  ((as.filter (· ∉ q)).eraseDups).take (limit - q.length)

/-- With a limit the offers append the newcomers. -/
theorem offerAll_limit (limit : Nat) (q as : List α) :
    offerAll (limit ≤ ·) q as = q ++ newcomers limit q as := by
  unfold newcomers
  induction as generalizing q with
  | nil => simp
  | cons a as ih =>
    rw [offerAll_cons]
    by_cases hmem : a ∈ q
    · rw [offer_of_mem hmem, ih, List.filter_cons_of_neg (by simpa using hmem)]
    · by_cases hfull : limit ≤ q.length
      · rw [offer_of_full hfull, offerAll_of_full hfull, Nat.sub_eq_zero_of_le hfull]
        simp
      · have hoffer : offer (limit ≤ ·) q a = q ++ [a] := if_pos ⟨hmem, hfull⟩
        have hroom : limit - q.length = limit - (q ++ [a]).length + 1 := by
          rw [List.length_append, List.length_singleton]
          omega
        have hrest : as.filter (· ∉ q ++ [a]) =
            (as.filter (· ∉ q)).filter (fun b => !b == a) := by
          rw [List.filter_filter]
          refine List.filter_congr (fun b _ => ?_)
          by_cases hb : b ∈ q <;> by_cases hba : b = a <;> simp [hb, hba]
        rw [hoffer, ih, hrest, List.filter_cons_of_pos (by simpa using hmem), List.eraseDups_cons,
          hroom, List.take_succ_cons, List.append_assoc]
        rfl

/-- Wherever an offer of a new element finds the queue full, it is full in the other sense too. -/
def AgreeOn (full full' : Nat → Prop) [DecidablePred full] (q : List α) : List α → Prop
  | [] => True
  | a :: as =>
      (a ∉ q → full q.length → full' q.length) ∧ AgreeOn full full' (offer full q a) as

variable {full' : Nat → Prop} [DecidablePred full']

/-- A sense of full that lets more pass appends the same exactly when it agrees. -/
theorem offerAll_eq_iff (hweak : ∀ n, full' n → full n) (q as : List α) :
    offerAll full' q as = offerAll full q as ↔ AgreeOn full full' q as := by
  induction as generalizing q with
  | nil => exact iff_of_true rfl trivial
  | cons a as ih =>
    rw [offerAll_cons, offerAll_cons, AgreeOn]
    by_cases hmatters : a ∉ q ∧ full q.length ∧ ¬ full' q.length
    · -- the queue gets longer in one sense, and is full for good in the other
      obtain ⟨hnew, hfull, hpasses⟩ := hmatters
      refine iff_of_false (fun heq => ?_) (fun hagree => hpasses (hagree.1 hnew hfull))
      have hoffer : offer full' q a = q ++ [a] := if_pos ⟨hnew, hpasses⟩
      rw [offer_of_full hfull, offerAll_of_full hfull, hoffer] at heq
      have hprefix : q ++ [a] <+: offerAll full' (q ++ [a]) as := prefix_offerAll (q ++ [a]) as
      have hle := (heq ▸ hprefix).length_le
      rw [List.length_append, List.length_singleton] at hle
      omega
    · have hsame : offer full' q a = offer full q a := by
        unfold offer
        refine if_congr ?_ rfl rfl
        refine and_congr_right (fun hnew => ⟨fun hpasses hfull => ?_, mt (hweak _)⟩)
        exact hmatters ⟨hnew, hfull, hpasses⟩
      rw [hsame, ih]
      refine (and_iff_right (fun hnew hfull => ?_)).symm
      by_contra hpasses
      exact hmatters ⟨hnew, hfull, hpasses⟩

omit [DecidablePred full'] in
/-- A queue within a limit agrees when the limit counts as full. -/
theorem agreeOn_of_limit {limit : Nat} (hlimit : full' limit) (hq : q.length ≤ limit)
    (as : List α) : AgreeOn (limit ≤ ·) full' q as := by
  induction as generalizing q with
  | nil => trivial
  | cons a as ih =>
    refine ⟨fun _ hfull => ?_, ih ?_⟩
    · rwa [Nat.le_antisymm hq hfull]
    · unfold offer
      split
      · rename_i hroom
        rw [List.length_append, List.length_singleton]
        exact Nat.lt_of_not_le hroom.2
      · exact hq

omit [DecidablePred full'] in
/-- While there is room for all that is offered, every sense of full agrees with the limit. -/
theorem agreeOn_of_room {limit : Nat} (hroom : q.length + as.length ≤ limit) :
    AgreeOn (limit ≤ ·) full' q as := by
  induction as generalizing q with
  | nil => trivial
  | cons a as ih =>
    rw [List.length_cons] at hroom
    refine ⟨fun _ hfull => absurd hfull (by omega), ih ?_⟩
    unfold offer
    split
    · rw [List.length_append, List.length_singleton]
      omega
    · omega

/-- New elements are all appended while there is room for them. -/
theorem offerAll_of_new {limit : Nat} (hnodup : as.Nodup) (hnew : ∀ a ∈ as, a ∉ q)
    (hroom : q.length + as.length ≤ limit) : offerAll (limit ≤ ·) q as = q ++ as := by
  induction as generalizing q with
  | nil => simp
  | cons a as ih =>
    obtain ⟨hfirst, hrest⟩ := List.nodup_cons.mp hnodup
    rw [List.length_cons] at hroom
    have hoffer : offer (limit ≤ ·) q a = q ++ [a] :=
      if_pos ⟨hnew a List.mem_cons_self, by omega⟩
    rw [offerAll_cons, hoffer, ih hrest, List.append_assoc]
    · rfl
    · intro b hb hmem
      rcases List.mem_append.mp hmem with hmem | hmem
      · exact hnew b (List.mem_cons_of_mem a hb) hmem
      · exact hfirst (List.mem_singleton.mp hmem ▸ hb)
    · rw [List.length_append, List.length_singleton]
      omega

end LimitedQueue
