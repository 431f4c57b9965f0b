import SignalMap.Rule

/-!
Registries of entries. The entries stand in the order in which they were added,
and no two of them have the same key.
-/

namespace SignalMap

structure Registry where
  entries : List Entry
  nodup_keys : (entries.map Entry.key).Nodup

namespace Registry

def empty : Registry := ⟨[], List.nodup_nil⟩

def keys (r : Registry) : List String :=
  r.entries.map Entry.key

def get? (r : Registry) (key : String) : Option Entry :=
  r.entries.find? fun e => e.key == key

def contains (r : Registry) (key : String) : Bool :=
  r.keys.contains key

def size (r : Registry) : Nat :=
  r.entries.length

def insert? (r : Registry) (e : Entry) : Option Registry :=
  if h : e.key ∈ r.keys then none
  else some
    { entries := r.entries ++ [e]
      nodup_keys := by
        simp only [keys] at h
        simp only [List.map_append, List.map_cons, List.map_nil]
        exact List.nodup_append.mpr
          ⟨r.nodup_keys, by simp, fun a ha b hb => by
            simp only [List.mem_singleton] at hb
            subst hb
            exact fun hab => h (hab ▸ ha)⟩ }

/-- Add entries one after the other; the first key that is taken is reported. -/
def insertAll (r : Registry) : List Entry → Except String Registry
  | [] => .ok r
  | e :: rest =>
    match r.insert? e with
    | some r => r.insertAll rest
    | none => .error e.key

theorem key_of_get? {r : Registry} {key : String} {e : Entry} (h : r.get? key = some e) :
    e.key = key := by
  have := List.find?_some h
  simpa using this

theorem mem_of_get? {r : Registry} {key : String} {e : Entry} (h : r.get? key = some e) :
    e ∈ r.entries :=
  List.mem_of_find?_eq_some h

end Registry

end SignalMap
