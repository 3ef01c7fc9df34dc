import Mathlib.Tactic.Common

/-!
# Histories of events

A system that logs its events, the newest first. A property of an event and the events before it
is kept by a log when every event added to it has the property at the time it is added.
-/

namespace History

variable {ε : Type} {J : List ε → ε → Prop}

/-- Every event of the log is explained by the events before it. -/
def Explained (J : List ε → ε → Prop) : List ε → Prop
  | [] => True
  | e :: before => J before e ∧ Explained J before

theorem explained_iff {log : List ε} :
    Explained J log ↔ ∀ after e before, log = after ++ e :: before → J before e := by
  induction log with
  | nil =>
    refine iff_of_true trivial (fun after e before h => ?_)
    cases after <;> cases h
  | cons e log ih =>
    rw [Explained, ih]
    constructor
    · rintro ⟨hfirst, hrest⟩ after e' before h
      cases after with
      | nil =>
        cases h
        exact hfirst
      | cons a after =>
        cases h
        exact hrest after e' before rfl
    · intro h
      refine ⟨h [] e log rfl, fun after e' before hsplit => ?_⟩
      exact h (e :: after) e' before (by rw [hsplit]; rfl)

/-- The log after a step that may add an event. -/
def record : Option ε → List ε → List ε
  | some e, log => e :: log
  | none, log => log

theorem mem_record_of_mem {o : Option ε} {log : List ε} {e : ε} (h : e ∈ log) :
    e ∈ record o log := by
  cases o with
  | none => exact h
  | some a => exact List.mem_cons_of_mem _ h

theorem explained_record {o : Option ε} {log : List ε} (h : Explained J log)
    (hnew : ∀ e, o = some e → J log e) : Explained J (record o log) := by
  cases o with
  | none => exact h
  | some e => exact ⟨hnew e rfl, h⟩

end History
