import Swordfish.Connection.Tokenizer
import Swordfish.Storage.Commands

/-!
# The response of `get`, read by a client

A client that reads `VALUE` items by their length prefix until `END` gets back the items that
`Storage::get_val` wrote, and the bytes that follow. No space in a key is all it takes: nothing is
asked of the values, since their bytes are counted and not searched.
-/

namespace Swordfish
open Delimited

/-! ## The client -/

/-- The text behind `w`, if it starts with it. -/
def expect (w s : Str) : Option Str := if w <+: s then some (s.drop w.length) else none

/-- A decimal digit. -/
def isDigit (b : UInt8) : Bool := 48 ≤ b ∧ b ≤ 57

/-- The number that digits stand for. -/
def decimal (digits : Str) : Nat := digits.foldl (fun n b => 10 * n + (b.toNat - 48)) 0

/-- One item: `VALUE `, the key up to the next space, ` 0 `, a decimal number and an end of line,
as many bytes, and an end of line. -/
def readItem (s : Str) : Option ((Str × Str) × Str) := do
  let s ← expect (text "VALUE ") s
  let key := s.takeWhile (· ≠ spacebar)
  let s ← expect (text " 0 ") (s.dropWhile (· ≠ spacebar))
  let digits := s.takeWhile isDigit
  if digits = [] then none
  let s ← expect crlf (s.dropWhile isDigit)
  if s.length < decimal digits then none
  let value := s.take (decimal digits)
  let s ← expect crlf (s.drop (decimal digits))
  return ((key, value), s)

/-- Items until `END`, when there are fewer than the number given. -/
def readItems : Nat → Str → Option (List (Str × Str) × Str)
  | 0, _ => none
  | n + 1, s =>
      match expect (text "END\r\n") s with
      | some rest => some ([], rest)
      | none => do
          let (item, s) ← readItem s
          let (items, rest) ← readItems n s
          return (item :: items, rest)

/-- What a client reads: an item has at least one byte. -/
def readResponse (s : Str) : Option (List (Str × Str) × Str) := readItems (s.length + 1) s

/-! ## Reading back -/

theorem expect_append (w s : Str) : expect w (w ++ s) = some s := by
  rw [expect, if_pos (List.prefix_append w s), List.drop_left]

/-- The digits of a number are digits, and stand for it. -/
theorem digits_spec (n : Nat) :
    text (toString n) ≠ [] ∧ (∀ b ∈ text (toString n), isDigit b = true) ∧
      decimal (text (toString n)) = n := by
  have hdigit : ∀ c ∈ Nat.toDigits 10 n, 48 ≤ c.toNat ∧ c.toNat ≤ 57 := by
    intro c hc
    have := Nat.isDigit_of_mem_toDigits (by decide) (by decide) hc
    simpa [Char.isDigit, UInt32.le_iff_toNat_le] using this
  have htext : text (toString n) = (Nat.toDigits 10 n).map (fun c => UInt8.ofNat c.toNat) := by
    simp [text]
  have hbyte : ∀ c ∈ Nat.toDigits 10 n, (UInt8.ofNat c.toNat).toNat = c.toNat := by
    intro c hc
    have := hdigit c hc
    rw [UInt8.toNat_ofNat', Nat.mod_eq_of_lt (by omega)]
  refine ⟨?_, ?_, ?_⟩
  · rw [htext]
    simp
  · intro b hb
    rw [htext] at hb
    obtain ⟨c, hc, rfl⟩ := List.mem_map.mp hb
    have := hdigit c hc
    simp only [isDigit, UInt8.le_iff_toNat_le, hbyte c hc]
    simpa using this
  · rw [htext, decimal, List.foldl_map]
    have hfold : ∀ (l : List Char) (k : Nat), (∀ c ∈ l, (UInt8.ofNat c.toNat).toNat = c.toNat) →
        l.foldl (fun n c => 10 * n + ((UInt8.ofNat c.toNat).toNat - 48)) k =
          Nat.ofDigitChars 10 l k := by
      intro l
      induction l with
      | nil => exact fun k _ => (Nat.ofDigitChars_nil).symm
      | cons c l ih =>
        intro k hl
        rw [List.foldl_cons, hl c List.mem_cons_self, Nat.ofDigitChars_cons,
          ih _ (fun c' hc' => hl c' (List.mem_cons_of_mem c hc'))]
        rfl
    rw [hfold _ _ hbyte, Nat.ofDigitChars_ten_toDigits]

/-- A text before the first element that `p` refuses. -/
theorem span_append_cons {p : UInt8 → Bool} {l : Str} {a : UInt8} (hl : ∀ b ∈ l, p b = true)
    (ha : p a = false) (s : Str) :
    (l ++ a :: s).takeWhile p = l ∧ (l ++ a :: s).dropWhile p = a :: s := by
  constructor
  · rw [List.takeWhile_append_of_pos hl, List.takeWhile_cons_of_neg (by simp [ha]),
      List.append_nil]
  · rw [List.dropWhile_append_of_pos hl, List.dropWhile_cons_of_neg (by simp [ha])]

/-- An item that was written is read back, whatever follows it. -/
theorem readItem_resAppend {key : Str} (hkey : spacebar ∉ key) (value s : Str) :
    readItem (Storage.resAppend key value [] ++ s) = some ((key, value), s) := by
  obtain ⟨hne, hdigits, hdecimal⟩ := digits_spec value.length
  have hname : ∀ b ∈ key, decide (b ≠ spacebar) = true :=
    fun b hb => decide_eq_true (fun h => hkey (h ▸ hb))
  have hitem : Storage.resAppend key value [] ++ s =
      text "VALUE " ++ (key ++ spacebar :: (text "0 " ++ (text (toString value.length) ++
        (13 :: 10 :: (value ++ (crlf ++ s)))))) := by
    simp [Storage.resAppend, text, crlf, spacebar]
  have hzero : ∀ r : Str, spacebar :: (text "0 " ++ r) = text " 0 " ++ r := fun _ => rfl
  have hline : ∀ r : Str, (13 : UInt8) :: 10 :: r = crlf ++ r := fun _ => rfl
  obtain ⟨htake, hdrop⟩ := span_append_cons hname (a := spacebar) (by decide)
    (text "0 " ++ (text (toString value.length) ++ (13 :: 10 :: (value ++ (crlf ++ s)))))
  obtain ⟨htake', hdrop'⟩ := span_append_cons hdigits (a := 13) (by decide)
    (10 :: (value ++ (crlf ++ s)))
  rw [hitem, readItem, expect_append]
  simp only [Option.bind_eq_bind, Option.bind_some, htake, hdrop]
  rw [hzero, expect_append]
  simp only [Option.bind_some, htake', hdrop', hdecimal, hne, if_false]
  rw [hline, expect_append]
  have hlong : ¬ (value ++ (crlf ++ s)).length < value.length := by
    rw [List.length_append]
    omega
  simp only [Option.bind_some, Option.pure_def, if_neg hlong]
  rw [List.drop_left, List.take_left, expect_append]
  rfl

/-- The items of a response, one after the other. -/
def itemsText (items : List (Str × Str)) : Str :=
  items.flatMap (fun item => Storage.resAppend item.1 item.2 [])

/-- An item is not the end of a response. -/
theorem expect_end_resAppend (key value s : Str) :
    expect (text "END\r\n") (Storage.resAppend key value [] ++ s) = none := by
  rw [expect, if_neg]
  rintro ⟨tail, htail⟩
  have hhead := congrArg List.head? htail
  simp [Storage.resAppend, text] at hhead

theorem readItems_itemsText {items : List (Str × Str)} (hkeys : ∀ item ∈ items, spacebar ∉ item.1)
    (rest : Str) {n : Nat} (hn : items.length < n) :
    readItems n (itemsText items ++ (text "END\r\n" ++ rest)) = some (items, rest) := by
  obtain ⟨n, rfl⟩ := Nat.exists_eq_succ_of_ne_zero (Nat.ne_of_gt (Nat.zero_lt_of_lt hn))
  induction items generalizing n with
  | nil =>
    change readItems (n + 1) (text "END\r\n" ++ rest) = _
    rw [readItems, expect_append]
  | cons item items ih =>
    have hmore := Nat.lt_of_succ_lt_succ hn
    obtain ⟨n, rfl⟩ := Nat.exists_eq_succ_of_ne_zero (Nat.ne_of_gt (Nat.zero_lt_of_lt hmore))
    have htext : itemsText (item :: items) ++ (text "END\r\n" ++ rest) =
        Storage.resAppend item.1 item.2 [] ++
          (itemsText items ++ (text "END\r\n" ++ rest)) := by
      simp only [itemsText, List.flatMap_cons, List.append_assoc]
    rw [htext, readItems, expect_end_resAppend]
    simp only [readItem_resAppend (hkeys item List.mem_cons_self), Option.bind_eq_bind,
      Option.bind_some]
    rw [ih (fun item' h => hkeys item' (List.mem_cons_of_mem item h)) n hmore]
    rfl

theorem length_le_itemsText (items : List (Str × Str)) :
    items.length ≤ (itemsText items).length := by
  induction items with
  | nil => exact Nat.zero_le _
  | cons item items ih =>
    have hitem : 0 < (Storage.resAppend item.1 item.2 []).length := by
      simp [Storage.resAppend, text]
    simp only [itemsText, List.flatMap_cons, List.length_append, List.length_cons] at ih ⊢
    omega

theorem readResponse_itemsText {items : List (Str × Str)}
    (hkeys : ∀ item ∈ items, spacebar ∉ item.1) (rest : Str) :
    readResponse (itemsText items ++ (text "END\r\n" ++ rest)) = some (items, rest) := by
  refine readItems_itemsText hkeys rest ?_
  have := length_le_itemsText items
  rw [List.length_append]
  omega

/-! ## `get_val` -/

/-- The arguments whose lookups give a value that is not empty, with these values. -/
def DHashmap.hits (env : Env) (s : DHashmap) : List Storage.Lookup → List (Str × Str)
  | [] => []
  | x :: xs =>
      match s.get env x.now x.refresh x.arg [] with
      | .ok (s, out) => (if out.val ≠ [] then [(x.arg, out.val)] else []) ++ s.hits env xs
      | .error _ => []

variable {env : Env} {s t : Storage}

theorem mem_hits {s : DHashmap} {xs : List Storage.Lookup} {item : Str × Str}
    (h : item ∈ s.hits env xs) : item.1 ∈ xs.map Storage.Lookup.arg := by
  induction xs generalizing s with
  | nil => cases h
  | cons x xs ih =>
    unfold DHashmap.hits at h
    split at h
    · rcases List.mem_append.mp h with h | h
      · split at h
        · rw [List.mem_singleton.mp h]
          exact List.mem_cons_self
        · cases h
      · exact List.mem_cons_of_mem _ (ih h)
    · cases h

theorem resAppend_eq (arg value result : Str) :
    Storage.resAppend arg value result = result ++ Storage.resAppend arg value [] := by
  simp [Storage.resAppend]

/-- The loop of `get_val` appends the items of its lookups. -/
theorem lookups_hits {xs : List Storage.Lookup} {res res' : Str}
    (h : s.lookups env res xs = .ok (t, res')) :
    res' = res ++ itemsText (s.storage_.hits env xs) := by
  induction xs generalizing s res with
  | nil =>
    cases h
    exact (List.append_nil _).symm
  | cons x xs ih =>
    obtain ⟨u, res'', hx, hxs⟩ := Storage.lookups_cons_ok.mp h
    obtain ⟨storage, out, hget, hu, rfl⟩ := Storage.lookup_ok.mp hx
    have hstorage : u.storage_ = storage := by
      rw [hu]
      split
      · rfl
      · rw [Storage.pushKey_storage_]
    unfold DHashmap.hits
    rw [ih hxs, hstorage]
    simp only [hget]
    by_cases hval : out.val = []
    · simp [hval]
    · rw [if_pos hval, resAppend_eq, List.append_assoc]
      simp [hval, itemsText]

/-- The response of `get` decodes uniquely: for the arguments of any line, any storage and any
bytes that follow, a client reads back exactly the arguments whose lookups gave a value that is
not empty, in order and with these values, and is left with exactly the bytes that follow. -/
theorem readResponse_getVal {line : Str} {xs : List Storage.Lookup} {res : Str}
    (hargs : xs.map Storage.Lookup.arg = (Command.ofLine line).arguments)
    (h : s.getVal env xs = .ok (t, res)) (rest : Str) :
    readResponse (res ++ rest) = some (s.storage_.hits env xs, rest) := by
  obtain ⟨items, hloop, rfl⟩ := Storage.getVal_ok.mp h
  rw [lookups_hits hloop, List.nil_append, List.append_assoc]
  apply readResponse_itemsText
  intro item hitem
  exact Command.not_mem_arguments (hargs ▸ mem_hits hitem)

/-- The line `get k l`, where `"k"` holds bytes that look like the end of a response. -/
theorem readResponse_getVal_end :
    ∃ s t res, Storage.run .plain (.init 0 10 100 100 1)
        [.addItem 0 0 [107] (text "END\r\n")] = .ok s ∧
      s.getVal .plain [⟨[107], 1, 1⟩, ⟨[108], 1, 1⟩] = .ok (t, res) ∧
      readResponse (res ++ text "VALUE") =
        some (s.storage_.hits .plain [⟨[107], 1, 1⟩, ⟨[108], 1, 1⟩], text "VALUE") :=
  ⟨_, _, _, rfl, rfl, @readResponse_getVal _ _ _ (text "get k l") _ _ (by decide) rfl _⟩

end Swordfish
