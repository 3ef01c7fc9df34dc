import Mathlib.Data.List.TakeWhile
import Mathlib.Tactic.Common

/-!
# Text cut at a delimiter

The leftmost occurrence of a word in a text (`find`), and the pieces of a text cut at the leftmost
non-overlapping occurrences of a delimiter, with the part behind the last of them (`cut`). A text
that arrives in parts is cut part by part: only what is behind the last delimiter has to be kept
(`cut_append`). The words of a text are what stands between runs of separators (`words`).
-/

namespace Delimited

variable {α : Type} [DecidableEq α]

/-! ## Occurrences -/

/-- The least position, from `pos` on, at which `d` occurs in `s`. -/
def find (d s : List α) (pos : Nat) : Option Nat :=
  (List.range (s.length + 1)).find? (fun i => pos ≤ i ∧ d <+: s.drop i)

theorem find_eq_some_iff {d s : List α} {pos i : Nat} :
    find d s pos = some i ↔
      i ≤ s.length ∧ pos ≤ i ∧ d <+: s.drop i ∧ ∀ j, pos ≤ j → j < i → ¬ d <+: s.drop j := by
  simp only [find, List.find?_range_eq_some, decide_eq_true_eq, List.mem_range,
    Bool.not_eq_true', decide_eq_false_iff_not, not_and]
  constructor
  · rintro ⟨⟨hpos, hd⟩, hi, hfirst⟩
    exact ⟨by omega, hpos, hd, fun j hj hlt => hfirst j hlt hj⟩
  · rintro ⟨hi, hpos, hd, hfirst⟩
    exact ⟨⟨hpos, hd⟩, by omega, fun j hlt hj => hfirst j hj hlt⟩

theorem find_eq_none_iff {d s : List α} {pos : Nat} :
    find d s pos = none ↔ ∀ j, pos ≤ j → j ≤ s.length → ¬ d <+: s.drop j := by
  simp only [find, List.find?_range_eq_none, Bool.not_eq_true', decide_eq_false_iff_not, not_and]
  exact forall_congr' fun j => ⟨fun h hj hlt => h (by omega) hj, fun h hlt hj => h hj (by omega)⟩

/-- A found occurrence lies within the text. -/
theorem find_le {d s : List α} {pos i : Nat} (h : find d s pos = some i) :
    i + d.length ≤ s.length := by
  obtain ⟨hi, -, hd, -⟩ := find_eq_some_iff.mp h
  have hle := hd.length_le
  rw [List.length_drop] at hle
  omega

/-- A search from a position is a search in the text behind it. -/
theorem find_drop {d s : List α} {pos : Nat} (hpos : pos ≤ s.length) :
    find d s pos = (find d (s.drop pos) 0).map (· + pos) := by
  cases h : find d (s.drop pos) 0 with
  | none =>
    rw [Option.map_none, find_eq_none_iff]
    intro j hj hle hd
    refine find_eq_none_iff.mp h (j - pos) (Nat.zero_le _) (by rw [List.length_drop]; omega) ?_
    rwa [List.drop_drop, Nat.add_sub_cancel' hj]
  | some i =>
    obtain ⟨hi, -, hd, hfirst⟩ := find_eq_some_iff.mp h
    rw [List.length_drop] at hi
    rw [List.drop_drop] at hd
    rw [Option.map_some, find_eq_some_iff]
    refine ⟨by omega, by omega, by rwa [Nat.add_comm], fun j hj hlt hd' => ?_⟩
    refine hfirst (j - pos) (Nat.zero_le _) (by omega) ?_
    rwa [List.drop_drop, Nat.add_sub_cancel' hj]

/-- More text behind the leftmost occurrence does not change it. -/
theorem find_append {d s : List α} {i : Nat} (h : find d s 0 = some i) (r : List α) :
    find d (s ++ r) 0 = some i := by
  have hin := find_le h
  obtain ⟨hi, -, hd, hfirst⟩ := find_eq_some_iff.mp h
  refine find_eq_some_iff.mpr ⟨?_, Nat.zero_le _, ?_, fun j hj hlt hd' => ?_⟩
  · rw [List.length_append]
    omega
  · rw [List.drop_append_of_le_length hi]
    exact hd.trans (List.prefix_append _ _)
  · refine hfirst j hj hlt ?_
    have hfits : d.length ≤ (s.drop j).length := by
      rw [List.length_drop]
      omega
    rw [List.drop_append_of_le_length (by omega)] at hd'
    exact List.prefix_of_prefix_length_le hd' (List.prefix_append _ _) hfits

/-! ## Pieces -/

/-- One more element in front of the first piece, or of the rest when there is no piece. -/
def prepend (a : α) : List (List α) × List α → List (List α) × List α
  | ([], rest) => ([], a :: rest)
  | (piece :: pieces, rest) => ((a :: piece) :: pieces, rest)

/-- The pieces of a text without its first `skip` elements, and the rest. -/
def cutFrom (d : List α) : Nat → List α → List (List α) × List α
  | _, [] => ([], [])
  | skip + 1, _ :: s => cutFrom d skip s
  | 0, a :: s =>
      if d <+: a :: s then
        let (pieces, rest) := cutFrom d (d.length - 1) s
        ([] :: pieces, rest)
      else prepend a (cutFrom d 0 s)

/-- The pieces of a text, and the rest behind the last delimiter. -/
def cut (d s : List α) : List (List α) × List α := cutFrom d 0 s

theorem cutFrom_eq_drop (d s : List α) (skip : Nat) : cutFrom d skip s = cut d (s.drop skip) := by
  induction s generalizing skip with
  | nil => cases skip <;> rfl
  | cons a s ih =>
    cases skip with
    | zero => rfl
    | succ skip => exact ih skip

/-- A text without the delimiter is its own rest. -/
theorem cut_of_find_none {d s : List α} (h : find d s 0 = none) : cut d s = ([], s) := by
  induction s with
  | nil => rfl
  | cons a s ih =>
    have hnone := find_eq_none_iff.mp h
    have hfirst : ¬ d <+: a :: s := hnone 0 (Nat.zero_le _) (Nat.zero_le _)
    have hrest : find d s 0 = none :=
      find_eq_none_iff.mpr (fun j _ hle => hnone (j + 1) (Nat.zero_le _) (by simpa using hle))
    have hcut : cutFrom d 0 s = ([], s) := ih hrest
    rw [cut, cutFrom, if_neg hfirst, hcut]
    rfl

/-- The leftmost delimiter ends the first piece. -/
theorem cut_of_find_some {d s : List α} (hd : d ≠ []) {i : Nat} (h : find d s 0 = some i) :
    cut d s = (s.take i :: (cut d (s.drop (i + d.length))).1,
      (cut d (s.drop (i + d.length))).2) := by
  induction i generalizing s with
  | zero =>
    obtain ⟨-, -, hprefix, -⟩ := find_eq_some_iff.mp h
    cases s with
    | nil => exact absurd (List.prefix_nil.mp hprefix) hd
    | cons a s =>
      rw [List.drop_zero] at hprefix
      have hlength : d.length = d.length - 1 + 1 := by
        have := List.length_pos_iff.mpr hd
        omega
      rw [cut, cutFrom, if_pos hprefix, cutFrom_eq_drop, Nat.zero_add]
      conv_rhs => rw [hlength, List.drop_succ_cons]
      rfl
  | succ i ih =>
    obtain ⟨hi, -, hprefix, hfirst⟩ := find_eq_some_iff.mp h
    cases s with
    | nil => simp at hi
    | cons a s =>
      have hnot : ¬ d <+: a :: s := hfirst 0 (Nat.zero_le _) (Nat.succ_pos i)
      have hrest : find d s 0 = some i :=
        find_eq_some_iff.mpr ⟨by simpa using hi, Nat.zero_le _, hprefix,
          fun j _ hlt => hfirst (j + 1) (Nat.zero_le _) (Nat.succ_lt_succ hlt)⟩
      have hcut := ih hrest
      rw [cut] at hcut
      rw [cut, cutFrom, if_neg hnot, hcut, Nat.add_right_comm, List.drop_succ_cons]
      rfl

/-- A text in two parts: what is behind the last delimiter of the first part is cut together with
the second part. -/
theorem cut_append {d : List α} (hd : d ≠ []) (s r : List α) :
    cut d (s ++ r) = ((cut d s).1 ++ (cut d ((cut d s).2 ++ r)).1,
      (cut d ((cut d s).2 ++ r)).2) := by
  induction hn : s.length using Nat.strongRecOn generalizing s with
  | ind n ih =>
    cases h : find d s 0 with
    | none => rw [cut_of_find_none h, List.nil_append]
    | some i =>
      have hin := find_le h
      have hpos := List.length_pos_iff.mpr hd
      have hdrop : (s ++ r).drop (i + d.length) = s.drop (i + d.length) ++ r :=
        List.drop_append_of_le_length hin
      have htake : (s ++ r).take i = s.take i := List.take_append_of_le_length (by omega)
      have hrest := ih (s.drop (i + d.length)).length (by rw [List.length_drop]; omega) _ rfl
      rw [cut_of_find_some hd (find_append h r), hdrop, htake, hrest, cut_of_find_some hd h]
      rfl

/-- The pieces, each with the delimiter behind it, and the rest make up the text. -/
theorem join_cut {d : List α} (hd : d ≠ []) (s : List α) :
    ((cut d s).1.map (· ++ d)).flatten ++ (cut d s).2 = s := by
  induction hn : s.length using Nat.strongRecOn generalizing s with
  | ind n ih =>
    cases h : find d s 0 with
    | none => rw [cut_of_find_none h]; rfl
    | some i =>
      have hin := find_le h
      have hpos := List.length_pos_iff.mpr hd
      obtain ⟨-, -, hprefix, -⟩ := find_eq_some_iff.mp h
      have hrest := ih (s.drop (i + d.length)).length (by rw [List.length_drop]; omega) _ rfl
      have hdelimiter : d ++ s.drop (i + d.length) = s.drop i := by
        obtain ⟨tail, htail⟩ := hprefix
        rw [← List.drop_drop, ← htail, List.drop_left]
      rw [cut_of_find_some hd h, List.map_cons, List.flatten_cons, List.append_assoc, hrest,
        List.append_assoc, hdelimiter, List.take_append_drop]

/-- A text in front of a delimiter whose first element it does not have is the first piece. -/
theorem cut_piece {a : α} {d piece : List α} (ha : a ∉ piece) (s : List α) :
    cut (a :: d) (piece ++ (a :: d ++ s)) =
      (piece :: (cut (a :: d) s).1, (cut (a :: d) s).2) := by
  have hfind : find (a :: d) (piece ++ (a :: d ++ s)) 0 = some piece.length := by
    refine find_eq_some_iff.mpr ⟨?_, Nat.zero_le _, ?_, ?_⟩
    · rw [List.length_append]
      exact Nat.le_add_right _ _
    · rw [List.drop_left]
      exact List.prefix_append _ _
    · rintro j - hj ⟨r, hr⟩
      rw [List.drop_append_of_le_length (Nat.le_of_lt hj), List.drop_eq_getElem_cons hj,
        List.cons_append, List.cons_append, List.cons.injEq] at hr
      exact ha (hr.1 ▸ List.getElem_mem hj)
  have hdrop : (piece ++ (a :: d ++ s)).drop (piece.length + (a :: d).length) = s := by
    rw [← List.drop_drop, List.drop_left, List.drop_left]
  rw [cut_of_find_some (List.cons_ne_nil a d) hfind, hdrop, List.take_left]

/-- The rest has no pieces. -/
theorem cut_rest {d : List α} (hd : d ≠ []) (s : List α) :
    cut d (cut d s).2 = ([], (cut d s).2) := by
  have hsplit := cut_append hd s []
  rw [List.append_nil, List.append_nil] at hsplit
  have hpieces := congrArg Prod.fst hsplit
  have hrest := congrArg Prod.snd hsplit
  exact Prod.ext (List.append_right_eq_self.mp hpieces.symm) hrest.symm

theorem length_rest_le {d : List α} (hd : d ≠ []) (s : List α) : (cut d s).2.length ≤ s.length := by
  have hjoin := congrArg List.length (join_cut hd s)
  rw [List.length_append] at hjoin
  omega

/-- Where no position is found, the delimiter does not occur. -/
theorem not_infix_of_find_none {d s : List α} (h : find d s 0 = none) : ¬ d <:+: s := by
  rintro ⟨front, back, rfl⟩
  refine find_eq_none_iff.mp h front.length (Nat.zero_le _) ?_ ?_
  · simp only [List.length_append]
    omega
  · rw [List.append_assoc, List.drop_left]
    exact List.prefix_append _ _

/-- The delimiter does not occur in front of its leftmost occurrence. -/
theorem not_infix_take_of_find_some {d s : List α} (hd : d ≠ []) {i : Nat}
    (h : find d s 0 = some i) : ¬ d <:+: s.take i := by
  rintro ⟨front, back, hsplit⟩
  obtain ⟨-, -, -, hfirst⟩ := find_eq_some_iff.mp h
  have hpos := List.length_pos_iff.mpr hd
  have hlength := congrArg List.length hsplit
  simp only [List.length_append, List.length_take] at hlength
  refine hfirst front.length (Nat.zero_le _) (by omega) ?_
  have hs : s = front ++ (d ++ (back ++ s.drop i)) := by
    rw [← List.append_assoc d, ← List.append_assoc front, ← List.append_assoc front, hsplit,
      List.take_append_drop]
  rw [hs, List.drop_left]
  exact List.prefix_append _ _

/-- No piece contains the delimiter, and neither does the rest. -/
theorem not_infix_cut {d : List α} (hd : d ≠ []) (s : List α) :
    (∀ piece ∈ (cut d s).1, ¬ d <:+: piece) ∧ ¬ d <:+: (cut d s).2 := by
  induction hn : s.length using Nat.strongRecOn generalizing s with
  | ind n ih =>
    cases h : find d s 0 with
    | none =>
      rw [cut_of_find_none h]
      exact ⟨by simp, not_infix_of_find_none h⟩
    | some i =>
      have hin := find_le h
      have hpos := List.length_pos_iff.mpr hd
      obtain ⟨hpieces, hrest⟩ :=
        ih (s.drop (i + d.length)).length (by rw [List.length_drop]; omega) _ rfl
      rw [cut_of_find_some hd h]
      refine ⟨fun piece hpiece => ?_, hrest⟩
      rcases List.mem_cons.mp hpiece with rfl | hpiece
      · exact not_infix_take_of_find_some hd h
      · exact hpieces piece hpiece

/-- There are no more pieces than elements. -/
theorem length_cut_le {d : List α} (hd : d ≠ []) (s : List α) : (cut d s).1.length ≤ s.length := by
  have hjoin := congrArg List.length (join_cut hd s)
  have hpieces : ∀ pieces : List (List α),
      pieces.length ≤ ((pieces.map (· ++ d)).flatten).length := by
    intro pieces
    have hpos := List.length_pos_iff.mpr hd
    induction pieces with
    | nil => exact Nat.zero_le _
    | cons piece pieces ih =>
      simp only [List.map_cons, List.flatten_cons, List.length_append, List.length_cons]
      omega
  have := hpieces (cut d s).1
  rw [List.length_append] at hjoin
  omega

/-! ## Words -/

/-- One more element in front of the first word. -/
def onFirst (a : α) : List (List α) → List (List α)
  | [] => [[a]]
  | w :: ws => (a :: w) :: ws

/-- The words of a text: a run of separators counts as one, and one at the start or the end of the
text has an empty word in front of it or behind it. -/
def words (sep : α) : List α → List (List α)
  | [] => [[]]
  | a :: s =>
      if a = sep then
        if s.head? = some sep then words sep s else [] :: words sep s
      else onFirst a (words sep s)

theorem words_ne_nil (sep : α) (s : List α) : words sep s ≠ [] := by
  induction s with
  | nil => exact List.cons_ne_nil _ _
  | cons a s ih =>
    rw [words]
    split
    · split
      · exact ih
      · exact List.cons_ne_nil _ _
    · cases h : words sep s with
      | nil => exact absurd h ih
      | cons w ws => exact List.cons_ne_nil _ _

/-- No word contains a separator. -/
theorem not_mem_words {sep : α} {s w : List α} (hw : w ∈ words sep s) : sep ∉ w := by
  induction s generalizing w with
  | nil =>
    rw [List.mem_singleton.mp hw]
    exact List.not_mem_nil
  | cons a s ih =>
    rw [words] at hw
    split at hw
    · split at hw
      · exact ih hw
      · rcases List.mem_cons.mp hw with rfl | hw
        · exact List.not_mem_nil
        · exact ih hw
    · rename_i hne
      cases h : words sep s with
      | nil => exact absurd h (words_ne_nil sep s)
      | cons v vs =>
        rw [h] at ih hw
        rcases List.mem_cons.mp hw with rfl | hw
        · rw [List.mem_cons, not_or]
          exact ⟨Ne.symm hne, ih List.mem_cons_self⟩
        · exact ih (List.mem_cons_of_mem v hw)

/-- What stands in front of a text without a separator becomes part of its first word. -/
theorem words_append {sep : α} {w s v : List α} {vs : List (List α)} (hw : sep ∉ w)
    (hs : words sep s = v :: vs) : words sep (w ++ s) = (w ++ v) :: vs := by
  induction w with
  | nil => exact hs
  | cons a w ih =>
    obtain ⟨hne, hrest⟩ := not_or.mp (mt List.mem_cons.mpr hw)
    rw [List.cons_append, words, if_neg (Ne.symm hne), ih hrest]
    rfl

/-- A run of separators is one. -/
theorem words_replicate {sep : α} (n : Nat) {s : List α} (hs : s.head? ≠ some sep) :
    words sep (List.replicate (n + 1) sep ++ s) = [] :: words sep s := by
  induction n with
  | zero => rw [List.replicate_one, List.singleton_append, words, if_pos rfl, if_neg hs]
  | succ n ih =>
    rw [List.replicate_succ, List.cons_append, words, if_pos rfl, if_pos, ih]
    rw [List.replicate_succ, List.cons_append, List.head?_cons]

/-- A word: not empty, and without separators. -/
structure Word (sep : α) where
  chars : List α
  nonempty : chars ≠ []
  separate : sep ∉ chars

omit [DecidableEq α] in
theorem Word.head?_ne {sep : α} (w : Word sep) (s : List α) : (w.chars ++ s).head? ≠ some sep := by
  obtain ⟨chars, hne, hsep⟩ := w
  cases chars with
  | nil => exact absurd rfl hne
  | cons a chars =>
    intro h
    rw [List.cons_append, List.head?_cons, Option.some.injEq] at h
    exact hsep (h ▸ List.mem_cons_self)

/-- Words behind a first one, each with as many separators in front of it and one more. -/
def spaced {sep : α} (rest : List (Nat × Word sep)) : List α :=
  (rest.map (fun p => List.replicate (p.1 + 1) sep ++ p.2.chars)).flatten

/-- A line of words: the separators in front of the first and behind the last are counted. -/
def layout {sep : α} (lead : Nat) (first : Word sep) (rest : List (Nat × Word sep)) (trail : Nat) :
    List α :=
  List.replicate lead sep ++ (first.chars ++ (spaced rest ++ List.replicate trail sep))

/-- The empty word that separators at an end of the text stand for. -/
def phantom (n : Nat) : List (List α) := if n = 0 then [] else [[]]

omit [DecidableEq α] in
theorem phantom_eq_nil_iff {n : Nat} : (phantom n : List (List α)) = [] ↔ n = 0 := by
  unfold phantom
  split <;> simp [*]

theorem words_spaced {sep : α} (first : Word sep) (rest : List (Nat × Word sep)) (trail : Nat) :
    words sep (first.chars ++ (spaced rest ++ List.replicate trail sep)) =
      first.chars :: (rest.map (·.2.chars) ++ phantom trail) := by
  induction rest generalizing first with
  | nil =>
    cases trail with
    | zero =>
      have hend : words sep ([] : List α) = [] :: [] := rfl
      simpa [spaced, phantom] using words_append first.separate hend
    | succ trail =>
      have hend : words sep (List.replicate (trail + 1) sep ++ []) = [] :: words sep [] :=
        words_replicate trail (by simp)
      rw [List.append_nil] at hend
      simpa [spaced, phantom, words] using words_append first.separate hend
  | cons p rest ih =>
    obtain ⟨n, w⟩ := p
    have hrun : spaced ((n, w) :: rest) ++ List.replicate trail sep =
        List.replicate (n + 1) sep ++ (w.chars ++ (spaced rest ++ List.replicate trail sep)) := by
      simp only [spaced, List.map_cons, List.flatten_cons, List.append_assoc]
    have hgap := words_replicate n (w.head?_ne (spaced rest ++ List.replicate trail sep))
    rw [ih w] at hgap
    rw [hrun, words_append first.separate hgap, List.append_nil]
    rfl

/-- The words of a line, with a phantom at each end that has separators. -/
theorem words_layout {sep : α} (lead : Nat) (first : Word sep) (rest : List (Nat × Word sep))
    (trail : Nat) :
    words sep (layout lead first rest trail) =
      phantom lead ++ first.chars :: (rest.map (·.2.chars) ++ phantom trail) := by
  cases lead with
  | zero => exact words_spaced first rest trail
  | succ lead =>
    rw [layout, words_replicate lead (first.head?_ne _), words_spaced]
    rfl

end Delimited
