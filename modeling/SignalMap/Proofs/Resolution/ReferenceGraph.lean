import Mathlib.Data.List.Chain
import Mathlib.Logic.Relation
import SignalMap.Registry

/-!
The graph of references. Its nodes are keys, and a key refers to the keys that
the rule of its entry reads. A key is registered when an entry stands under it.
What an entry leads to is all that its value can depend on. A key from which every
way comes to an end lies on no cycle.
-/

namespace SignalMap.Registry

/-- An entry is found under its own key, since no other entry has that key. -/
theorem get?_key_of_mem {registry : Registry} {e : Entry} (he : e ∈ registry.entries) :
    registry.get? e.key = some e := by
  obtain ⟨entries, hnodup⟩ := registry
  change entries.find? (fun other => other.key == e.key) = some e
  change e ∈ entries at he
  induction entries with
  | nil => simp at he
  | cons first rest ih =>
    have hsplit : first.key ∉ rest.map Entry.key ∧ (rest.map Entry.key).Nodup := by
      simpa using hnodup
    rcases List.mem_cons.mp he with rfl | hrest
    · simp
    · have hne : first.key ≠ e.key := by
        intro heq
        exact hsplit.1 (heq ▸ List.mem_map_of_mem hrest)
      simpa [hne] using ih hsplit.2 hrest

/-- What is found under a key is the entry of that key, if there is one. -/
theorem get?_eq_some_iff {registry : Registry} {key : String} {e : Entry} :
    registry.get? key = some e ↔ e ∈ registry.entries ∧ e.key = key := by
  constructor
  · intro h
    exact ⟨mem_of_get? h, key_of_get? h⟩
  · rintro ⟨he, rfl⟩
    exact get?_key_of_mem he

/-- The order of the entries, and what stands under other keys, does not matter to
what is found under a key. -/
theorem get?_congr {registry other : Registry} {key : String}
    (h : ∀ e : Entry, e.key = key → (e ∈ registry.entries ↔ e ∈ other.entries)) :
    registry.get? key = other.get? key := by
  refine Option.ext fun e => ?_
  rw [get?_eq_some_iff, get?_eq_some_iff]
  constructor
  · rintro ⟨he, hkey⟩
    exact ⟨(h e hkey).mp he, hkey⟩
  · rintro ⟨he, hkey⟩
    exact ⟨(h e hkey).mpr he, hkey⟩

theorem mem_keys_of_get? {registry : Registry} {key : String} {e : Entry}
    (h : registry.get? key = some e) : key ∈ registry.keys := by
  have hmem : e.key ∈ registry.keys := List.mem_map_of_mem (mem_of_get? h)
  rwa [key_of_get? h] at hmem

def Refers (registry : Registry) (key other : String) : Prop :=
  ∃ e, registry.get? key = some e ∧ other ∈ e.references

def Reaches (registry : Registry) : String → String → Prop :=
  Relation.ReflTransGen registry.Refers

def Registered (registry : Registry) (key : String) : Prop :=
  ∃ e, registry.get? key = some e

/-- An entry leads to the keys that its rule reads and to all that is reached from
them. The entry itself need not be registered. -/
def LeadsTo (registry : Registry) (e : Entry) (key : String) : Prop :=
  ∃ reference ∈ e.references, registry.Reaches reference key

def Involves (registry : Registry) (e other : Entry) : Prop :=
  other = e ∨ ∃ key, registry.LeadsTo e key ∧ registry.get? key = some other

variable {registry : Registry}

theorem refers_key {e : Entry} (he : e ∈ registry.entries) {reference : String} :
    registry.Refers e.key reference ↔ reference ∈ e.references := by
  constructor
  · rintro ⟨other, hother, hreference⟩
    rw [get?_key_of_mem he] at hother
    cases hother
    exact hreference
  · intro hreference
    exact ⟨e, get?_key_of_mem he, hreference⟩

theorem leadsTo_reference {e : Entry} {reference : String} (h : reference ∈ e.references) :
    registry.LeadsTo e reference :=
  ⟨reference, h, .refl⟩

/-- Behind a reference of an entry lies nothing that the entry does not lead to. -/
theorem LeadsTo.of_reference {e next : Entry} {reference key : String}
    (h : registry.LeadsTo next key) (hreference : reference ∈ e.references)
    (hnext : registry.get? reference = some next) : registry.LeadsTo e key := by
  obtain ⟨other, hother, hreach⟩ := h
  exact ⟨reference, hreference, .head ⟨next, hnext, hother⟩ hreach⟩

theorem Involves.of_reference {e next other : Entry} {reference : String}
    (h : registry.Involves next other) (hreference : reference ∈ e.references)
    (hnext : registry.get? reference = some next) : registry.Involves e other := by
  rcases h with rfl | ⟨key, hkey, hother⟩
  · exact Or.inr ⟨reference, leadsTo_reference hreference, hnext⟩
  · exact Or.inr ⟨key, hkey.of_reference hreference hnext, hother⟩

/-- A set of keys that holds the references of an entry, and with a key all that it
refers to, holds every key that the entry leads to. -/
theorem LeadsTo.induction {e : Entry} {P : String → Prop}
    (hfirst : ∀ reference ∈ e.references, P reference)
    (hnext : ∀ key other, P key → registry.Refers key other → P other) {key : String}
    (h : registry.LeadsTo e key) : P key := by
  obtain ⟨reference, hreference, hreach⟩ := h
  induction hreach with
  | refl => exact hfirst reference hreference
  | tail _ href ih => exact hnext _ _ ih href

/-- A key on a cycle begins a way without an end. -/
theorem not_cyclic_of_acc {key : String}
    (h : Acc (fun other key => registry.Refers key other) key) :
    ¬ Relation.TransGen registry.Refers key key := by
  induction h with
  | intro key _ ih =>
    intro hcycle
    -- the key after the first reference lies on the same cycle
    obtain ⟨next, hnext, hback⟩ := Relation.TransGen.head'_iff.mp hcycle
    exact ih next hnext (Relation.TransGen.tail' hback hnext)

end SignalMap.Registry
