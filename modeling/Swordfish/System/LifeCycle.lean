import Swordfish.DHashmap.Freshness
import Swordfish.System.Asked
import Swordfish.System.Provenance

/-!
# The life of a stored key

A lookup that finds its key fresh stamps it again (`dhashmap.cpp:128`), and one that finds it stale
stamps nothing; `add` stamps nothing either when the library brings the value the key has. Hence a
key that is asked for often enough is never filled again, and a key that went stale with a value
that does not change stays stale, however often it is filled.
-/

namespace Swordfish
open DHashmap

variable {cfg : FillerConfig} {env : Env} {s t : Sys} {action : Action} {key val : Str}

/-- The lookups of `key` in the step, with their readings of the clock. -/
def Sys.lookups (env : Env) (key : Str) (s : Sys) : Action → List (TimeType × TimeType)
  | .client c now refresh =>
      if (s.clients c).pc = .lookup ∧ (s.clients c).args.head?.map env.normalize = some key then
        [(now, refresh)]
      else []
  | _ => []

/-- `key` is stored. -/
def Sys.Stored (s : Sys) (key : Str) : Prop := ∃ e ∈ s.storage.storage_.keys_.entries, e.key_ = key

instance (s : Sys) (key : Str) : Decidable (s.Stored key) :=
  inferInstanceAs (Decidable (∃ e ∈ s.storage.storage_.keys_.entries, _))

/-- The event is a part of filling `key`. -/
def Event.Fills (key : Str) : Event → Prop
  | .fetched keys _ _ => key ∈ keys
  | .addItem key' _ => key' = key
  | .sent _ _ _ => False

/-! ## The entry of a key -/

/-- Where the entry of a key comes from that is there after a step. -/
inductive EntryCase (env : Env) (key : Str) (s : Sys) (action : Action) (e : KeyType) : Prop
  | kept (hmem : e ∈ s.storage.storage_.keys_.entries)
      (hstale : ∀ p ∈ s.lookups env key action, e.ttl_ + s.storage.storage_.ttl_ ≤ p.1)
  | touched {now refresh : TimeType} {it : KeyType}
      (hlookup : s.lookups env key action = [(now, refresh)])
      (hit : it ∈ s.storage.storage_.keys_.entries) (hkey : it.key_ = key)
      (hfresh : now < it.ttl_ + s.storage.storage_.ttl_) (heq : e = it.updateTtl refresh)
  | added {i : Nat} {now : TimeType} {val : Str} (haction : action = .filler now)
      (hpc : s.filler.pc = .add i key val) (hown : OwnEntry s.storage.storage_ now key val e)

/-- What a client's step does to the store: a lookup, or nothing. -/
theorem ClientCase.store {u v : Storage} {now refresh : TimeType} {c : Nat} {x y : Client}
    {event : Option Event} (h : ClientCase env u now refresh c x (v, y, event))
    (hw : Interned env u.storage_) :
    (∃ arg args r, x.pc = .lookup ∧ x.args = arg :: args ∧
        GetCase env u.storage_ now refresh arg [] r ∧ v.storage_ = r.1 ∧ v.queue_ = u.queue_ ∧
        y.pc = (if r.2.ret then .lookup else .sizeTest r.2.normalizedKey) ∧ event = none) ∨
      (x.pc = .lookup → x.args = []) ∧ v.storage_ = u.storage_ ∧
        (y.pc.key = none ∨ y.pc.key = x.pc.key) ∧
        ∀ key ∈ v.queue_.queue_, key ∈ u.queue_.queue_ ∨ x.pc.key = some key := by
  cases h with
  | answer hpc hargs =>
    exact Or.inr ⟨fun _ => hargs, rfl, Or.inl rfl, fun key hkey => Or.inl hkey⟩
  | @found arg args storage out hpc hargs hget hval =>
    obtain ⟨r, hr, hcase⟩ := get_cases hw now refresh arg []
    obtain rfl : (storage, out) = r := Except.ok.inj (hget.symm.trans hr)
    exact Or.inl ⟨arg, args, _, hpc, hargs, hcase, rfl, rfl, rfl, rfl⟩
  | @silent arg args storage out hpc hargs hget hval =>
    obtain ⟨r, hr, hcase⟩ := get_cases hw now refresh arg []
    obtain rfl : (storage, out) = r := Except.ok.inj (hget.symm.trans hr)
    exact Or.inl ⟨arg, args, _, hpc, hargs, hcase, rfl, rfl, rfl, rfl⟩
  | @sizeTest key hpc =>
    refine Or.inr ⟨fun hlookup => ?_, rfl, ?_, fun key hkey => Or.inl hkey⟩
    · rw [hpc] at hlookup
      cases hlookup
    · by_cases hroom : u.queue_.size.toUInt64 < u.maxQueueSize_
      · right
        dsimp only
        rw [if_pos hroom, hpc]
        rfl
      · left
        dsimp only
        rw [if_neg hroom]
        rfl
  | @push key hpc =>
    refine Or.inr ⟨fun hlookup => ?_, rfl, Or.inl rfl, fun key' hkey' => ?_⟩
    · rw [hpc] at hlookup
      cases hlookup
    · rcases Queue.mem_push hkey' with hold | rfl
      · exact Or.inl hold
      · right
        rw [hpc]
        rfl
  | setQueueSize hpc =>
    refine Or.inr ⟨fun hlookup => ?_, rfl, Or.inl rfl, fun key hkey => Or.inl hkey⟩
    rw [hpc] at hlookup
    cases hlookup

theorem Sys.lookups_of_arg {c : Nat} {now refresh : TimeType} {arg : Str} {args : List Str}
    (hpc : (s.clients c).pc = .lookup) (hargs : (s.clients c).args = arg :: args) :
    s.lookups env key (.client c now refresh) =
      if env.normalize arg = key then [(now, refresh)] else [] := by
  simp [Sys.lookups, hpc, hargs]

theorem Sys.lookups_of_not_looking {c : Nat} {now refresh : TimeType}
    (h : (s.clients c).pc = .lookup → (s.clients c).args = []) :
    s.lookups env key (.client c now refresh) = [] := by
  unfold Sys.lookups
  refine if_neg ?_
  rintro ⟨hpc, hkey⟩
  rw [h hpc] at hkey
  cases hkey

theorem SysCase.entry (h : SysCase cfg env s action t) (hw : Interned env s.storage.storage_)
    {e : KeyType} (he : e ∈ t.storage.storage_.keys_.entries) (hkey : e.key_ = key) :
    EntryCase env key s action e := by
  cases h with
  | request args hpc => exact .kept he (fun p hp => by cases hp)
  | @client c now refresh storage x event h =>
    rcases h.store hw with ⟨arg, args, r, hpc, hargs, hget, hstorage, -⟩ | ⟨hnot, hstorage, -⟩
    · have hlookups : s.lookups env key (.client c now refresh) =
          if env.normalize arg = key then [(now, refresh)] else [] :=
        Sys.lookups_of_arg hpc hargs
      dsimp only at he
      rw [hstorage] at he
      cases hget with
      | missing habsent =>
        refine .kept he (fun p hp => ?_)
        have hother : env.normalize arg ≠ key := fun heq => habsent e he (hkey.trans heq.symm)
        rw [hlookups, if_neg hother] at hp
        cases hp
      | @fresh it hit hkey' hfresh =>
        rcases (MultiIndex.mem_write (f := KeyType.updateTtl refresh) (fun _ => rfl)).mp he with
          ⟨he, hne⟩ | ⟨it', hit', heq', rfl⟩
        · refine .kept he (fun p hp => ?_)
          have hother : env.normalize arg ≠ key :=
            fun heq => hne (hkey.trans (heq.symm.trans hkey'.symm))
          rw [hlookups, if_neg hother] at hp
          cases hp
        · have hsame : env.normalize arg = key := (hkey'.symm.trans heq'.symm).trans hkey
          rw [if_pos hsame] at hlookups
          have hone : it' = it := MultiIndex.eq_of_key_eq hit' hit heq'
          exact .touched hlookups hit' hkey (hone ▸ hfresh) rfl
      | @stale it hit hkey' hstale =>
        refine .kept he (fun p hp => ?_)
        rw [hlookups] at hp
        split at hp
        · rename_i hsame
          obtain rfl := List.mem_singleton.mp hp
          have hone : e = it :=
            MultiIndex.eq_of_key_eq he hit (hkey.trans (hsame.symm.trans hkey'.symm))
          exact hone ▸ hstale
        · cases hp
    · refine .kept (hstorage ▸ he) (fun p hp => ?_)
      rw [Sys.lookups_of_not_looking hnot] at hp
      cases hp
  | @filler now storage f event h =>
    cases h with
    | test htest => exact .kept he (fun p hp => by cases hp)
    | expirate hpc => exact .kept (mem_expirate he) (fun p hp => by cases hp)
    | pop hpc => exact .kept he (fun p hp => by cases hp)
    | addItem hpc hkey hval => exact .kept he (fun p hp => by cases hp)
    | roundEnd hpc hend => exact .kept he (fun p hp => by cases hp)
    | evict hpc => exact .kept (mem_expirate he) (fun p hp => by cases hp)
    | @add i key' val storage hpc hadd =>
      obtain ⟨u, hu, hcase⟩ := add_cases hw now key' val
      obtain rfl : storage = u := Except.ok.inj (hadd.symm.trans hu)
      by_cases hsame : key' = key
      · subst hsame
        obtain ⟨e', he', hkey', hown⟩ := hcase.own
        obtain rfl : e' = e := MultiIndex.eq_of_key_eq he' he (hkey'.trans hkey.symm)
        exact .added rfl hpc hown
      · have hne : e.key_ ≠ key' := fun heq => hsame (heq.symm.trans hkey)
        exact .kept ((hcase.mem_iff_of_ne hne).mp he) (fun p hp => by cases hp)
  | isFillerAlive answer hpc => exact .kept he (fun p hp => by cases hp)
  | getVals ret vals hpc => exact .kept he (fun p hp => by cases hp)
  | expirate => exact .kept (mem_expirate he) (fun p hp => by cases hp)
  | shutdown => exact .kept he (fun p hp => by cases hp)

/-! ## A key that nobody fills -/

/-- No client is about to ask for `key`, and neither the queue nor the filler has it. -/
structure Quiet (key : Str) (s : Sys) : Prop where
  clients : ∀ c, (s.clients c).pc.key ≠ some key
  queue : key ∉ s.storage.queue_.queue_
  keys : key ∉ s.filler.keys
  item : ∀ val, s.filler.pc.item ≠ some (key, val)

/-- The log grows by events none of which is a part of filling `key`. -/
def Unfilled (key : Str) (before after : List Event) : Prop :=
  ∃ news, after = news ++ before ∧ ∀ event ∈ news, ¬ event.Fills key

theorem Unfilled.refl (key : Str) (log : List Event) : Unfilled key log log :=
  ⟨[], rfl, fun event hevent => by cases hevent⟩

theorem Unfilled.trans {first second third : List Event} (h : Unfilled key first second)
    (h' : Unfilled key second third) : Unfilled key first third := by
  obtain ⟨news, rfl, hnews⟩ := h
  obtain ⟨later, rfl, hlater⟩ := h'
  refine ⟨later ++ news, (List.append_assoc _ _ _).symm, fun event hevent => ?_⟩
  rcases List.mem_append.mp hevent with hevent | hevent
  · exact hlater event hevent
  · exact hnews event hevent

theorem Unfilled.record {log : List Event} {event : Option Event}
    (h : ∀ e, event = some e → ¬ e.Fills key) : Unfilled key log (History.record event log) := by
  cases event with
  | none => exact .refl key log
  | some e =>
    refine ⟨[e], rfl, fun e' he' => ?_⟩
    obtain rfl := List.mem_singleton.mp he'
    exact h e' rfl

/-- A client asks for `key` only after a lookup that did not find it fresh. -/
theorem ClientCase.quiet {storage : Storage} {now refresh : TimeType} {c : Nat} {x : Client}
    {event : Option Event}
    (h : ClientCase env s.storage now refresh c (s.clients c) (storage, x, event))
    (hw : Interned env s.storage.storage_) (hs : Quiet key s)
    (hfresh : ∀ p ∈ s.lookups env key (.client c now refresh),
      ∃ e ∈ s.storage.storage_.keys_.entries, e.key_ = key ∧
        p.1 < e.ttl_ + s.storage.storage_.ttl_) :
    x.pc.key ≠ some key ∧ key ∉ storage.queue_.queue_ := by
  rcases h.store hw with ⟨arg, args, r, hpc, hargs, hget, -, hqueue, hy, -⟩ | ⟨-, -, hy, hqueue⟩
  · refine ⟨?_, hqueue ▸ hs.queue⟩
    rw [hy]
    rw [Sys.lookups_of_arg hpc hargs] at hfresh
    have hmissed : r.2.ret = false → r.2.normalizedKey = env.normalize arg ∧
        env.normalize arg ≠ key := by
      intro hret
      cases hget with
      | missing habsent =>
        refine ⟨rfl, fun hsame => ?_⟩
        rw [if_pos hsame] at hfresh
        obtain ⟨e, he, hkey, -⟩ := hfresh _ List.mem_cons_self
        exact habsent e he (hkey.trans hsame.symm)
      | fresh hit hkey' hfresh' => cases hret
      | @stale it hit hkey' hstale =>
        refine ⟨rfl, fun hsame => ?_⟩
        rw [if_pos hsame] at hfresh
        obtain ⟨e, he, hkey, hlt⟩ := hfresh _ List.mem_cons_self
        have hone : e = it :=
          MultiIndex.eq_of_key_eq he hit (hkey.trans (hsame.symm.trans hkey'.symm))
        exact absurd hlt (Nat.not_lt.mpr (hone ▸ hstale))
    cases hret : r.2.ret with
    | true => exact fun hkey => by cases hkey
    | false =>
      obtain ⟨hnormal, hother⟩ := hmissed hret
      rw [hnormal]
      exact fun hkey => hother (Option.some.inj hkey)
  · refine ⟨?_, fun hmem => ?_⟩
    · rcases hy with hnone | hsame
      · rw [hnone]
        exact fun hkey => by cases hkey
      · rw [hsame]
        exact hs.clients c
    · rcases hqueue key hmem with hold | hnew
      · exact hs.queue hold
      · exact hs.clients c hnew

/-- The filler fills what is queued. -/
theorem FillerCase.quiet {now : TimeType} {storage : Storage} {f : Filler} {event : Option Event}
    (h : FillerCase cfg env s.storage s.isAlive_ now s.filler (storage, f, event))
    (hs : Quiet key s) :
    key ∉ storage.queue_.queue_ ∧ key ∉ f.keys ∧ (∀ val, f.pc.item ≠ some (key, val)) ∧
      ∀ e, event = some e → ¬ e.Fills key := by
  obtain ⟨hqueue, hkeys⟩ := h.asks
  refine ⟨fun hmem => hs.queue (hqueue key hmem), fun hmem => ?_, ?_⟩
  · rcases hkeys key hmem with hold | hnew
    · exact hs.keys hold
    · exact hs.queue hnew
  · cases h with
    | @test pc htest =>
      refine ⟨fun val hitem => ?_, fun e he => by cases he⟩
      dsimp only at hitem
      have hstoring : pc.Storing := by
        cases pc <;> trivial
      rw [(Filler.storing_of_test htest hstoring).2] at hitem
      exact hs.item val hitem
    | expirate hpc => exact ⟨(fun val hitem => by cases hitem), fun e he => by cases he⟩
    | pop hpc => exact ⟨(fun val hitem => by cases hitem), fun e he => by cases he⟩
    | addItem hpc hkey hval =>
      have hmem := List.mem_of_getElem? hkey
      refine ⟨fun val hitem => ?_, fun e he => ?_⟩
      · cases hitem
        exact hs.keys hmem
      · cases he
        rintro rfl
        exact hs.keys hmem
    | roundEnd hpc hend => exact ⟨(fun val hitem => by cases hitem), fun e he => by cases he⟩
    | @evict i key' val hpc =>
      refine ⟨fun val' hitem => ?_, fun e he => by cases he⟩
      refine hs.item val' ?_
      rw [hpc]
      exact hitem
    | add hpc hadd => exact ⟨(fun val hitem => by cases hitem), fun e he => by cases he⟩

/-- While every lookup finds the key fresh, it stays quiet. -/
theorem SysCase.quiet (h : SysCase cfg env s action t) (hw : Interned env s.storage.storage_)
    (hs : Quiet key s)
    (hfresh : ∀ p ∈ s.lookups env key action,
      ∃ e ∈ s.storage.storage_.keys_.entries, e.key_ = key ∧
        p.1 < e.ttl_ + s.storage.storage_.ttl_) :
    Quiet key t ∧ Unfilled key s.log t.log := by
  have hclients : ∀ c (x : Client), x.pc.key ≠ some key →
      ∀ c', (Function.update s.clients c x c').pc.key ≠ some key := by
    intro c x hx c'
    rcases eq_or_ne c' c with rfl | hne
    · rw [Function.update_self]
      exact hx
    · rw [Function.update_of_ne hne]
      exact hs.clients c'
  cases h with
  | @request c args hpc =>
    refine ⟨⟨hclients c _ (fun hkey => by cases hkey), hs.queue, hs.keys, hs.item⟩, .refl _ _⟩
  | @client c now refresh storage x event h =>
    obtain ⟨hx, hqueue⟩ := h.quiet hw hs hfresh
    refine ⟨⟨hclients c x hx, hqueue, hs.keys, hs.item⟩, .record (fun e he => ?_)⟩
    subst he
    cases h with
    | answer hpc hargs => exact id
  | filler h =>
    obtain ⟨hqueue, hkeys, hitem, hevent⟩ := h.quiet hs
    exact ⟨⟨hs.clients, hqueue, hkeys, hitem⟩, .record hevent⟩
  | isFillerAlive answer hpc =>
    refine ⟨⟨hs.clients, hs.queue, hs.keys, fun val hitem => ?_⟩, .refl _ _⟩
    cases answer <;> cases hitem
  | getVals ret vals hpc =>
    refine ⟨⟨hs.clients, hs.queue, hs.keys, (fun val hitem => by cases hitem)⟩, ?_⟩
    refine ⟨[_], rfl, fun event hevent => ?_⟩
    obtain rfl := List.mem_singleton.mp hevent
    exact hs.keys
  | expirate => exact ⟨⟨hs.clients, hs.queue, hs.keys, hs.item⟩, .refl _ _⟩
  | shutdown => exact ⟨⟨hs.clients, hs.queue, hs.keys, hs.item⟩, .refl _ _⟩

/-! ## A key that is asked for often -/

/-- Two lookups, with their readings of the clock, so close that the second finds what the first
has stamped. -/
def Close (ttl : Nat) (p q : TimeType × TimeType) : Prop := q.1 < p.2 + ttl

instance (ttl : Nat) (p q : TimeType × TimeType) : Decidable (Close ttl p q) :=
  inferInstanceAs (Decidable (_ < _))

/-- The time to live is a constant of the store. -/
theorem SysCase.ttl_eq (h : SysCase cfg env s action t) (hw : Interned env s.storage.storage_) :
    t.storage.storage_.ttl_ = s.storage.storage_.ttl_ := by
  cases h with
  | request args hpc => rfl
  | client h =>
    rcases h.store hw with ⟨arg, args, r, -, -, hget, hstorage, -⟩ | ⟨-, hstorage, -⟩
    · dsimp only
      rw [hstorage]
      exact hget.ttl_eq
    · dsimp only
      rw [hstorage]
  | @filler now storage f event h =>
    cases h with
    | test htest => rfl
    | expirate hpc => rfl
    | pop hpc => rfl
    | addItem hpc hkey hval => rfl
    | roundEnd hpc hend => rfl
    | evict hpc => rfl
    | @add i key' val storage hpc hadd =>
      obtain ⟨u, hu, hcase⟩ := add_cases hw now key' val
      obtain rfl : storage = u := Except.ok.inj (hadd.symm.trans hu)
      exact hcase.ttl_eq
  | isFillerAlive answer hpc => rfl
  | getVals ret vals hpc => rfl
  | expirate => rfl
  | shutdown => rfl

/-- The key holds `val` and was stamped at `last`, and nobody fills it. -/
structure Popular (env : Env) (ttl : Nat) (key val : Str) (last : TimeType) (s : Sys) : Prop where
  provenance : Provenance env s
  ttl : s.storage.storage_.ttl_ = ttl
  quiet : Quiet key s
  entry : ∃ e ∈ s.storage.storage_.keys_.entries, e.key_ = key ∧ e.value_.item = val ∧ e.ttl_ = last

/-- A step without a lookup of the key leaves it as it is. -/
theorem SysCase.popular {ttl : Nat} {last : TimeType} (h : SysCase cfg env s action t)
    (hs : Popular env ttl key val last s) (hstored : t.Stored key)
    (hnone : s.lookups env key action = []) :
    Popular env ttl key val last t ∧ Unfilled key s.log t.log := by
  have hw := hs.provenance.stored.interned
  obtain ⟨it, hit, hkey, hval, hlast⟩ := hs.entry
  obtain ⟨hquiet, hlog⟩ := h.quiet hw hs.quiet (fun p hp => by rw [hnone] at hp; cases hp)
  refine ⟨⟨h.provenance hs.provenance, (h.ttl_eq hw).trans hs.ttl, hquiet, ?_⟩, hlog⟩
  obtain ⟨e, he, hkey'⟩ := hstored
  refine ⟨e, he, hkey', ?_⟩
  cases h.entry hw he hkey' with
  | kept hmem hstale =>
    rw [MultiIndex.eq_of_key_eq hmem hit (hkey'.trans hkey.symm)]
    exact ⟨hval, hlast⟩
  | touched hlookup hmem hkey₀ hfresh heq =>
    rw [hnone] at hlookup
    cases hlookup
  | @added i now val' haction hpc hown =>
    refine absurd ?_ (hs.quiet.item val')
    rw [hpc]
    rfl

/-- A lookup in time stamps the key again. -/
theorem SysCase.popular_of_lookup {ttl : Nat} {last now refresh : TimeType}
    (h : SysCase cfg env s action t) (hs : Popular env ttl key val last s) (hstored : t.Stored key)
    (hlookup : s.lookups env key action = [(now, refresh)]) (hnow : now < last + ttl) :
    Popular env ttl key val refresh t ∧ Unfilled key s.log t.log := by
  have hw := hs.provenance.stored.interned
  obtain ⟨it, hit, hkey, hval, hlast⟩ := hs.entry
  have hfresh : now < it.ttl_ + s.storage.storage_.ttl_ := by
    rw [hlast, hs.ttl]
    exact hnow
  obtain ⟨hquiet, hlog⟩ := h.quiet hw hs.quiet (by
    intro p hp
    rw [hlookup] at hp
    obtain rfl := List.mem_singleton.mp hp
    exact ⟨it, hit, hkey, hfresh⟩)
  refine ⟨⟨h.provenance hs.provenance, (h.ttl_eq hw).trans hs.ttl, hquiet, ?_⟩, hlog⟩
  obtain ⟨e, he, hkey'⟩ := hstored
  refine ⟨e, he, hkey', ?_⟩
  cases h.entry hw he hkey' with
  | kept hmem hstale =>
    have hover := hstale (now, refresh) (hlookup ▸ List.mem_cons_self)
    rw [MultiIndex.eq_of_key_eq hmem hit (hkey'.trans hkey.symm)] at hover
    exact absurd hfresh (Nat.not_lt.mpr hover)
  | @touched now' refresh' it' hlookup' hit' hkey₀ hfresh' heq =>
    rw [hlookup] at hlookup'
    cases hlookup'
    subst heq
    rw [MultiIndex.eq_of_key_eq hit' hit (hkey₀.trans hkey.symm)]
    exact ⟨hval, rfl⟩
  | @added i now' val' haction hpc hown =>
    refine absurd ?_ (hs.quiet.item val')
    rw [hpc]
    rfl

theorem Sys.lookups_cases (s : Sys) (action : Action) :
    s.lookups env key action = [] ∨ ∃ p, s.lookups env key action = [p] := by
  cases action with
  | client c now refresh =>
    by_cases hlookup : (s.clients c).pc = .lookup ∧
        (s.clients c).args.head?.map env.normalize = some key
    · exact Or.inr ⟨_, if_pos hlookup⟩
    · exact Or.inl (if_neg hlookup)
  | request c args => exact Or.inl rfl
  | filler now => exact Or.inl rfl
  | isFillerAlive answer => exact Or.inl rfl
  | getVals ret vals => exact Or.inl rfl
  | expirate => exact Or.inl rfl
  | shutdown => exact Or.inl rfl

/-- Client 0 asks for a key that is stored and fresh, and is answered. -/
def hitScript (now : TimeType) (key : Str) : List Action :=
  .request 0 [key] :: List.replicate 2 (.client 0 now now)

/-- Client 0 asks for a key, and the filler stores it at time 1. -/
def storeScript : List Action :=
  askScript 0 [107] ++ fetchScript 1 true [[118]] ++ List.replicate 4 (.filler 1)

/-- The client that takes part in the action. -/
def Action.requester : Action → Option Nat
  | .request c _ | .client c _ _ => some c
  | .filler _ | .isFillerAlive _ | .getVals _ _ | .expirate | .shutdown => none

/-- A step is none of the other clients' business. -/
theorem SysCase.client_of_other (h : SysCase cfg env s action t) {c : Nat}
    (hother : action.requester ≠ some c) : t.clients c = s.clients c := by
  cases h with
  | request args hpc => exact Function.update_of_ne (fun heq => hother (congrArg some heq.symm)) _ _
  | client h => exact Function.update_of_ne (fun heq => hother (congrArg some heq.symm)) _ _
  | filler h => rfl
  | isFillerAlive answer hpc => rfl
  | getVals ret vals hpc => rfl
  | expirate => rfl
  | shutdown => rfl

theorem Sys.run_client_of_other {c : Nat} {actions : List Action}
    (h : Sys.run cfg env s actions = .ok t)
    (hother : ∀ action ∈ actions, action.requester ≠ some c) :
    t.clients c = s.clients c := by
  induction actions generalizing s with
  | nil =>
    cases h
    rfl
  | cons action actions ih =>
    obtain ⟨u, hstep, hrest⟩ := Run.exec_cons_ok.mp h
    rw [ih hrest (fun a ha => hother a (List.mem_cons_of_mem _ ha))]
    exact (Sys.step_cases hstep).client_of_other (hother action List.mem_cons_self)

/-- Nobody is about to fill anything when one client has run alone and waits, with an empty queue
and an empty batch. -/
theorem Sys.quiet_of_alone {storage : Storage} {c : Nat} {actions : List Action}
    (h : Sys.run cfg env (.init storage) actions = .ok s)
    (halone : ∀ action ∈ actions, action.requester = none ∨ action.requester = some c)
    (hclient : (s.clients c).pc.key = none) (hqueue : s.storage.queue_.queue_ = [])
    (hkeys : s.filler.keys = []) (hitem : s.filler.pc.item = none) : Quiet key s := by
  refine ⟨fun c' hc' => ?_, ?_, ?_, fun val hval => ?_⟩
  · rcases eq_or_ne c' c with rfl | hne
    · rw [hclient] at hc'
      cases hc'
    · have hother : ∀ action ∈ actions, action.requester ≠ some c' := by
        intro action haction hrequester
        rcases halone action haction with hnone | hsome
        · rw [hnone] at hrequester
          cases hrequester
        · rw [hsome] at hrequester
          exact hne (Option.some.inj hrequester).symm
      rw [run_client_of_other h hother] at hc'
      cases hc'
  · rw [hqueue]
    exact List.not_mem_nil
  · rw [hkeys]
    exact List.not_mem_nil
  · rw [hitem] at hval
    cases hval

/-- A run in which each lookup of the key is close to the one before. -/
theorem Popular.run {ttl : Nat} {p : TimeType × TimeType} {actions : List Action}
    (hs : Popular env ttl key val p.2 s) (h : Sys.run cfg env s actions = .ok t)
    (hstored : Run.Every (Sys.step cfg env) (fun s _ => s.Stored key) s actions)
    (hend : t.Stored key)
    (hclose : List.IsChain (Close ttl)
      (p :: (Run.observe (Sys.step cfg env) (Sys.lookups env key) s actions).flatten)) :
    Quiet key t ∧ Holds t.storage.storage_ key val ∧ Unfilled key s.log t.log := by
  induction actions generalizing s p with
  | nil =>
    cases h
    obtain ⟨e, he, hkey, hval, -⟩ := hs.entry
    exact ⟨hs.quiet, ⟨e, he, hkey, hval⟩, .refl _ _⟩
  | cons action actions ih =>
    obtain ⟨u, hstep, hrest⟩ := Run.exec_cons_ok.mp h
    obtain ⟨hu, hlater⟩ := Run.every_state_next hstep hrest hstored hend
    simp only [Run.observe, hstep, List.flatten_cons] at hclose
    rcases s.lookups_cases action with hnone | ⟨q, hone⟩
    · rw [hnone] at hclose
      obtain ⟨hnext, hlog⟩ := (Sys.step_cases hstep).popular hs hu hnone
      obtain ⟨hquiet, hholds, hrest⟩ := ih hnext hrest hlater hclose
      exact ⟨hquiet, hholds, hlog.trans hrest⟩
    · rw [hone] at hclose
      obtain ⟨hnow, hclose⟩ := List.isChain_cons_cons.mp hclose
      obtain ⟨hnext, hlog⟩ := (Sys.step_cases hstep).popular_of_lookup hs hu hone hnow
      obtain ⟨hquiet, hholds, hrest⟩ := ih hnext hrest hlater hclose
      exact ⟨hquiet, hholds, hlog.trans hrest⟩

namespace Sys

/-- A key that is asked for often is never filled: from a state in which it is stored and nobody is
about to fill it, and as long as no expiration takes it, the first lookup comes before the time of
its entry and the time to live, and no two lookups are the time to live apart, it is not pushed, not
fetched and not added, and keeps its value, whatever the library would say now. -/
theorem run_popular {start : TimeType} {ttl : Nat}
    {maxStorageSize maxQueueSize expirateSize : UInt64} {before actions : List Action}
    (hbefore : run cfg env (.init (.init start ttl maxStorageSize maxQueueSize expirateSize))
      before = .ok s)
    {e : KeyType} (he : e ∈ s.storage.storage_.keys_.entries) (hquiet : Quiet e.key_ s)
    (h : run cfg env s actions = .ok t)
    (hstored : Run.Every (step cfg env) (fun s _ => s.Stored e.key_) s actions)
    (hend : t.Stored e.key_)
    (hclose : List.IsChain (Close s.storage.storage_.ttl_)
      ((e.ttl_, e.ttl_) ::
        (Run.observe (step cfg env) (lookups env e.key_) s actions).flatten)) :
    Quiet e.key_ t ∧ Holds t.storage.storage_ e.key_ e.value_.item ∧
      Unfilled e.key_ s.log t.log := by
  have hpopular : Popular env s.storage.storage_.ttl_ e.key_ e.value_.item e.ttl_ s :=
    ⟨run_provenance hbefore, rfl, hquiet, e, he, rfl, rfl, rfl⟩
  exact Popular.run (p := (e.ttl_, e.ttl_)) hpopular h hstored hend hclose

/-- The key is stored at time 1 with a time to live of 10, and looked up at 8, 15 and 24: the first
value is there still, and was fetched once. -/
theorem run_popular_often :
    ∃ s t, run ⟨false, 1⟩ .plain (.init (.init 0 10 100 100 1)) storeScript = .ok s ∧
      run ⟨false, 1⟩ .plain s (hitScript 8 [107] ++ hitScript 15 [107] ++ hitScript 24 [107]) =
        .ok t ∧
      ∃ e ∈ s.storage.storage_.keys_.entries, e.key_ = [107] ∧
        Holds t.storage.storage_ e.key_ e.value_.item ∧ Unfilled e.key_ s.log t.log := by
  obtain ⟨s, hs, hqueue, hkeys, hitem, hidle, e, he, hkey, hyields, hstored, hclose⟩ :=
    Run.yields_iff.mp (by decide +kernel :
      Run.Yields (step ⟨false, 1⟩ .plain)
        (fun s => s.storage.queue_.queue_ = [] ∧ s.filler.keys = [] ∧ s.filler.pc.item = none ∧
          (s.clients 0).pc.key = none ∧ ∃ e ∈ s.storage.storage_.keys_.entries, e.key_ = [107] ∧
            Run.Yields (step ⟨false, 1⟩ .plain) (fun t => t.Stored e.key_) s
              (hitScript 8 [107] ++ hitScript 15 [107] ++ hitScript 24 [107]) ∧
            Run.Every (step ⟨false, 1⟩ .plain) (fun s _ => s.Stored e.key_) s
              (hitScript 8 [107] ++ hitScript 15 [107] ++ hitScript 24 [107]) ∧
            List.IsChain (Close s.storage.storage_.ttl_) ((e.ttl_, e.ttl_) ::
              (Run.observe (step ⟨false, 1⟩ .plain) (lookups .plain e.key_) s
                (hitScript 8 [107] ++ hitScript 15 [107] ++ hitScript 24 [107])).flatten))
        (.init (.init 0 10 100 100 1)) storeScript)
  obtain ⟨t, ht, hend⟩ := Run.yields_iff.mp hyields
  have hquiet : Quiet e.key_ s := quiet_of_alone hs (by decide) hidle hqueue hkeys hitem
  obtain ⟨-, hholds, hlog⟩ := run_popular hs he hquiet ht hstored hend hclose
  exact ⟨s, t, hs, ht, e, he, hkey, hholds, hlog⟩

end Sys

/-! ## A key whose value does not change -/

/-- The action does not answer `get_vals` with another value than `val` for `key`. -/
def Action.Repeats (key val : Str) (s : Sys) : Action → Prop
  | .getVals _ vals => ∀ pair ∈ s.filler.keys.zip vals, pair.1 = key → pair.2 = val
  | _ => True

instance (key val : Str) (s : Sys) : (action : Action) → Decidable (action.Repeats key val s)
  | .getVals _ vals => inferInstanceAs (Decidable (∀ pair ∈ s.filler.keys.zip vals, _))
  | .request _ _ | .client _ _ _ | .filler _ | .isFillerAlive _ | .expirate | .shutdown =>
      isTrue trivial

/-- A stale key is asked for at 20, fetched, and added with the value it has. -/
def refetchScript : List Action :=
  askScript 20 [107] ++ fetchScript 21 true [[118]] ++ List.replicate 4 (.filler 21)

/-- The entry is stale from `time` on, and nobody is about to add another value for its key. -/
structure Stale (env : Env) (time : TimeType) (e : KeyType) (s : Sys) : Prop where
  provenance : Provenance env s
  entry : e ∈ s.storage.storage_.keys_.entries
  expired : e.ttl_ + s.storage.storage_.ttl_ ≤ time
  batch : s.filler.BatchFrom (fun key val => key = e.key_ → val = e.value_.item)

theorem Stale.storedFrom {time : TimeType} {e : KeyType} (hs : Stale env time e s) :
    StoredFrom env (fun key val => key = e.key_ → val = e.value_.item) s.storage where
  interned := hs.provenance.stored.interned
  stored key val hview hkey := by
    obtain ⟨e', he', hkey', hval⟩ := view_eq_some_iff.mp hview
    rw [← hval, MultiIndex.eq_of_key_eq he' hs.entry (hkey'.trans hkey)]

/-- No lookup stamps a stale key, and no `add` one that holds the value already. -/
theorem SysCase.stale {time : TimeType} {e : KeyType} (h : SysCase cfg env s action t)
    (hs : Stale env time e s) (hstored : t.Stored e.key_)
    (hlookups : ∀ p ∈ s.lookups env e.key_ action, time ≤ p.1)
    (hrepeats : action.Repeats e.key_ e.value_.item s) : Stale env time e t := by
  have hw := hs.provenance.stored.interned
  refine ⟨h.provenance hs.provenance, ?_, (h.ttl_eq hw).symm ▸ hs.expired, ?_⟩
  · obtain ⟨e', he', hkey⟩ := hstored
    have hsame : ∀ e' ∈ s.storage.storage_.keys_.entries, e'.key_ = e.key_ → e' = e :=
      fun e' hmem hkey => MultiIndex.eq_of_key_eq hmem hs.entry hkey
    cases h.entry hw he' hkey with
    | kept hmem hstale => exact hsame e' hmem hkey ▸ he'
    | @touched now refresh it hlookup hit hkey' hfresh heq =>
      have hnow := hlookups (now, refresh) (hlookup ▸ List.mem_cons_self)
      rw [hsame it hit hkey'] at hfresh
      exact absurd hfresh (Nat.not_lt.mpr (Nat.le_trans hs.expired hnow))
    | @added i now val haction hpc hown =>
      have hval : val = e.value_.item := hs.batch.item (e.key_, val) (by rw [hpc]; rfl) rfl
      subst hval
      cases hown with
      | unchanged hmem hval => exact hsame e' hmem hkey ▸ he'
      | stored hclean hother httl hval => exact absurd ⟨e, hs.entry, rfl, rfl⟩ hother
      | refreshed hreplaces hit hkey' heq =>
        exact absurd hreplaces (not_replacesByNew_of_held hs.entry rfl)
  · cases h with
    | request args hpc => exact hs.batch
    | client h => exact hs.batch
    | filler h => exact (h.provenance hs.storedFrom hs.batch).2.1
    | isFillerAlive answer hpc =>
      apply Filler.batchFrom_of_not_storing
      cases answer <;> exact id
    | getVals ret vals hpc =>
      exact ⟨fun _ pair hpair => hrepeats pair hpair, fun pair hpair => by cases hpair⟩
    | expirate => exact hs.batch
    | shutdown => exact hs.batch

namespace Sys

/-- A key that went stale with a value that does not change never gets fresh again: as long as no
expiration takes it and the library keeps saying what the store has, also in a batch that the filler
has fetched before, however often the key is asked for, fetched and added, its entry stays as it is,
and every lookup of it misses. -/
theorem run_unchanged {start time : TimeType} {ttl : Nat}
    {maxStorageSize maxQueueSize expirateSize : UInt64} {before actions : List Action}
    (hbefore : run cfg env (.init (.init start ttl maxStorageSize maxQueueSize expirateSize))
      before = .ok s)
    {e : KeyType} (he : e ∈ s.storage.storage_.keys_.entries)
    (hover : e.ttl_ + s.storage.storage_.ttl_ ≤ time)
    (hbatch : s.filler.BatchFrom (fun key val => key = e.key_ → val = e.value_.item))
    (h : run cfg env s actions = .ok t)
    (hstored : Run.Every (step cfg env) (fun s _ => s.Stored e.key_) s actions)
    (hend : t.Stored e.key_)
    (hlookups : Run.Every (step cfg env)
      (fun s action => ∀ p ∈ s.lookups env e.key_ action, time ≤ p.1) s actions)
    (hrepeats : Run.Every (step cfg env)
      (fun s action => action.Repeats e.key_ e.value_.item s) s actions) :
    e ∈ t.storage.storage_.keys_.entries ∧
      ∀ now refresh arg, env.normalize arg = e.key_ → time ≤ now →
        ∃ storage out, t.storage.storage_.get env now refresh arg [] = .ok (storage, out) ∧
          out.ret = false := by
  have hstale : Stale env time e s := ⟨run_provenance hbefore, he, hover, hbatch⟩
  have hlast : Stale env time e t := by
    clear hbefore he hover hbatch
    induction actions generalizing s with
    | nil =>
      cases h
      exact hstale
    | cons action actions ih =>
      obtain ⟨u, hstep, hrest⟩ := Run.exec_cons_ok.mp h
      obtain ⟨hu, hstored⟩ := Run.every_state_next hstep hrest hstored hend
      obtain ⟨hlookup, hlookups⟩ := (Run.every_cons hstep).mp hlookups
      obtain ⟨hrepeat, hrepeats⟩ := (Run.every_cons hstep).mp hrepeats
      exact ih hrest hstored hlookups hrepeats
        ((step_cases hstep).stale hstale hu hlookup hrepeat)
  refine ⟨hlast.entry, fun now refresh arg hkey hnow => ?_⟩
  obtain ⟨storage, out, hget, hret⟩ :=
    get_ret hlast.provenance.stored.interned hlast.entry hkey.symm now refresh []
  refine ⟨storage, out, hget, ?_⟩
  have hover := Nat.le_trans hlast.expired hnow
  cases hfresh : out.ret with
  | false => rfl
  | true => exact absurd (hret.mp hfresh) (Nat.not_lt.mpr hover)

/-- The key went stale at 11, was asked for and fetched again at 20, and is as it was. -/
theorem run_unchanged_refetched :
    ∃ s t, run ⟨false, 1⟩ .plain (.init (.init 0 10 100 100 1)) storeScript = .ok s ∧
      run ⟨false, 1⟩ .plain s refetchScript = .ok t ∧
      ∃ e ∈ s.storage.storage_.keys_.entries, t.filler.vals = [e.value_.item] ∧
        e ∈ t.storage.storage_.keys_.entries := by
  obtain ⟨s, hs, hpc, e, he, hover, hyields, hstored, hlookups, hrepeats⟩ :=
    Run.yields_iff.mp (by decide +kernel :
      Run.Yields (step ⟨false, 1⟩ .plain)
        (fun s => s.filler.pc = .loop ∧ ∃ e ∈ s.storage.storage_.keys_.entries,
          e.ttl_ + s.storage.storage_.ttl_ ≤ 11 ∧
          Run.Yields (step ⟨false, 1⟩ .plain)
            (fun t => t.Stored e.key_ ∧ t.filler.vals = [e.value_.item]) s refetchScript ∧
          Run.Every (step ⟨false, 1⟩ .plain) (fun s _ => s.Stored e.key_) s refetchScript ∧
          Run.Every (step ⟨false, 1⟩ .plain)
            (fun s action => ∀ p ∈ s.lookups .plain e.key_ action, 11 ≤ p.1) s refetchScript ∧
          Run.Every (step ⟨false, 1⟩ .plain)
            (fun s action => action.Repeats e.key_ e.value_.item s) s refetchScript)
        (.init (.init 0 10 100 100 1)) storeScript)
  obtain ⟨t, ht, hend, hvals⟩ := Run.yields_iff.mp hyields
  have hbatch : s.filler.BatchFrom (fun key val => key = e.key_ → val = e.value_.item) :=
    Filler.batchFrom_of_not_storing (by rw [hpc]; exact id)
  obtain ⟨hentry, -⟩ := run_unchanged hs he hover hbatch ht hstored hend hlookups hrepeats
  exact ⟨s, t, hs, ht, e, he, hvals, hentry⟩

end Sys

end Swordfish
