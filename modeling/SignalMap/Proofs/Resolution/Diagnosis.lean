import Mathlib.Data.List.Nodup
import Mathlib.Data.List.Perm.Subperm
import SignalMap.Proofs.Resolution.Faults
import SignalMap.Proofs.Resolution.Meaning

/-!
Faults of the references are diagnosed against the graph. An entry that resolves
leads only to registered keys, to no cycle, and over no path that is too long.
An entry that does not resolve because of its references has a missing key, a
cycle or a path too long in front of it, and the error shows which.
-/

namespace SignalMap

/-- What an error says about the graph, when the keys of a chain led to a key
from which a number of further references could be followed. -/
def Registry.Explains (registry : Registry) (limit budget : Nat) (chain : List String)
    (key : String) (err : TransformError) : Prop :=
  match err.fault with
  | .missingEntry reference =>
    registry.Reaches key err.key ∧ registry.Refers err.key reference ∧
      ¬ registry.Registered reference
  | .cycle walk last =>
    err.key = last ∧ last ∈ walk ∧
      ∃ path, walk ++ [last] = chain ++ key :: path ∧ (key :: path).IsChain registry.Refers
  | .tooDeep bound =>
    bound = limit ∧ ∃ path, path.length = budget ∧ (chain ++ key :: path).Nodup ∧
      (key :: path).IsChain registry.Refers ∧ ∀ k ∈ key :: path, registry.Registered k
  | _ => registry.Reaches key err.key

namespace Registry

variable {registry : Registry} {limit budget : Nat} {chain : List String} {key : String}

/-- An error of the rule at a key itself. -/
theorem explains_own {fault : TransformFault} (h : ¬ fault.IsStructural) :
    registry.Explains limit budget chain key ⟨key, fault⟩ := by
  cases fault
  case missingEntry | cycle | tooDeep => exact absurd trivial h
  all_goals exact .refl

/-- An error behind a reference is explained from the key that refers. -/
theorem Explains.of_refers {next : String} {err : TransformError}
    (href : registry.Refers key next)
    (h : registry.Explains limit budget (chain ++ [key]) next err) :
    registry.Explains limit (budget + 1) chain key err := by
  obtain ⟨owner, fault⟩ := err
  cases fault
  case missingEntry reference =>
    obtain ⟨hreach, hmissing⟩ := h
    exact ⟨.head href hreach, hmissing⟩
  case cycle walk last =>
    obtain ⟨howner, hlast, path, hwalk, hpath⟩ := h
    refine ⟨howner, hlast, next :: path, ?_, List.isChain_cons_cons.mpr ⟨href, hpath⟩⟩
    rw [hwalk, List.append_assoc, List.singleton_append]
  case tooDeep bound =>
    obtain ⟨hbound, path, hlength, hnodup, hpath, hregistered⟩ := h
    rw [List.append_assoc, List.singleton_append] at hnodup
    refine ⟨hbound, next :: path, ?_, hnodup, List.isChain_cons_cons.mpr ⟨href, hpath⟩, ?_⟩
    · rw [List.length_cons, hlength]
    · intro k hk
      rcases List.mem_cons.mp hk with rfl | hk
      · exact ⟨href.choose, href.choose_spec.1⟩
      · exact hregistered k hk
  all_goals exact .head href h

end Registry

namespace Resolver

open Outcome Registry

variable {r : Resolver} {s : Scope}

theorem nodup_snoc {chain : List String} {key : String} (hnodup : chain.Nodup)
    (hmem : key ∉ chain) : (chain ++ [key]).Nodup :=
  List.nodup_append_comm.mpr (List.nodup_cons.mpr ⟨hmem, hnodup⟩)

theorem explains_cycle {budget : Nat} {chain : List String} {key : String}
    (hmem : key ∈ chain) :
    s.registry.Explains r.maxDepth budget chain key ⟨key, .cycle chain key⟩ :=
  ⟨rfl, hmem, [], rfl, List.isChain_singleton key⟩

theorem explains_tooDeep {chain : List String} {e : Entry} (he : e ∈ s.registry.entries)
    (hnodup : chain.Nodup) (hmem : e.key ∉ chain) :
    s.registry.Explains r.maxDepth 0 chain e.key ⟨e.key, .tooDeep r.maxDepth⟩ := by
  refine ⟨rfl, [], rfl, nodup_snoc hnodup hmem, List.isChain_singleton e.key, ?_⟩
  intro k hk
  obtain rfl := List.mem_singleton.mp hk
  exact ⟨e, get?_key_of_mem he⟩

/-- Errors are explained at every entry that is visited, and no key is visited twice on
one chain. -/
theorem errorInvariant_explains :
    ErrorInvariant r s (fun chain e => e ∈ s.registry.entries ∧ chain.Nodup)
      fun budget chain e => s.registry.Explains r.maxDepth budget chain e.key where
  cycle _ hmem := explains_cycle hmem
  tooDeep h hmem := explains_tooDeep h.1 h.2 hmem
  own _ hfault := explains_own hfault.not_isStructural
  missing h hreference hnone := by
    refine ⟨.refl, (refers_key h.1).mpr hreference, ?_⟩
    rintro ⟨other, hother⟩
    rw [hnone] at hother
    cases hother
  behind h hmem hreference hnext :=
    ⟨⟨hnext, nodup_snoc h.2 hmem⟩,
      fun _ herr => herr.of_refers ((refers_key h.1).mpr hreference)⟩

theorem failsOnly_resolve {e : Entry} (he : e ∈ s.registry.entries) :
    FailsOnly (s.registry.Explains r.maxDepth r.maxDepth [] e.key) (r.resolve s e) :=
  errorInvariant_explains.failsOnly ⟨he, List.nodup_nil⟩

/-- A reference that is followed leads on from a key that is reached. -/
theorem errorInvariant_reaches :
    ErrorInvariant r s (fun _ e => e ∈ s.registry.entries) fun _ _ e err =>
      s.registry.Registered err.key ∧ s.registry.Reaches e.key err.key where
  cycle he _ := ⟨⟨_, get?_key_of_mem he⟩, .refl⟩
  tooDeep he _ := ⟨⟨_, get?_key_of_mem he⟩, .refl⟩
  own he _ := ⟨⟨_, get?_key_of_mem he⟩, .refl⟩
  missing he _ _ := ⟨⟨_, get?_key_of_mem he⟩, .refl⟩
  behind he _ hreference hnext :=
    ⟨hnext, fun _ herr => ⟨herr.1, .head ((refers_key he).mpr hreference) herr.2⟩⟩

/-- Whatever goes wrong, the error names an entry that is reached. -/
theorem failsOnly_visit_reached {budget : Nat} {chain : List String} {e : Entry}
    (he : e ∈ s.registry.entries) :
    FailsOnly (fun err => s.registry.Registered err.key ∧ s.registry.Reaches e.key err.key)
      (r.visit s budget chain e) :=
  errorInvariant_reaches.failsOnly he

/-- A path of distinct registered keys is no longer than the registry. -/
theorem length_le_size {registry : Registry} {path : List String} (hnodup : path.Nodup)
    (hregistered : ∀ key ∈ path, registry.Registered key) : path.length ≤ registry.size := by
  have hsub : path ⊆ registry.keys := by
    intro key hkey
    obtain ⟨e, he⟩ := hregistered key hkey
    exact mem_keys_of_get? he
  have hle := (List.subperm_of_subset hnodup hsub).length_le
  simpa [Registry.keys, Registry.size] using hle

theorem derivable_of_resolve {e : Entry} {v : Value} (he : e ∈ s.registry.entries)
    (h : (r.resolve s e).result = .ok v) : Derivable r s r.maxDepth e.key := by
  obtain ⟨d, hd⟩ := derivation_of_visit h
  exact ⟨e, v, d, get?_key_of_mem he, hd⟩

/-- What is reached from an entry that resolves is registered, lies on no cycle
and is not too far away; and an error about references shows what is wrong with
the graph in front of the entry. -/
theorem resolve_diagnoses_references (r : Resolver) (s : Scope) (e : Entry)
    (he : e ∈ s.registry.entries) :
    (∀ v, (r.resolve s e).result = .ok v →
      (∀ key, s.registry.Reaches e.key key → s.registry.Registered key) ∧
      (∀ key, s.registry.Reaches e.key key → ¬ Relation.TransGen s.registry.Refers key key) ∧
      (∀ path, (e.key :: path).IsChain s.registry.Refers →
        (e.key :: path).length ≤ r.maxDepth)) ∧
    (∀ owner reference, (r.resolve s e).result = .error ⟨owner, .missingEntry reference⟩ →
      s.registry.Reaches e.key owner ∧ s.registry.Refers owner reference ∧
      ¬ s.registry.Registered reference) ∧
    (∀ owner walk last, (r.resolve s e).result = .error ⟨owner, .cycle walk last⟩ →
      (TransformFault.cycle walk last).message =
        "reference cycle: " ++ String.intercalate " -> " (walk ++ [last]) ∧
      (walk ++ [last]).head? = some e.key ∧ (walk ++ [last]).IsChain s.registry.Refers ∧
      last ∈ walk) ∧
    (∀ owner limit, (r.resolve s e).result = .error ⟨owner, .tooDeep limit⟩ →
      limit = r.maxDepth ∧ r.maxDepth < s.registry.size ∧
      ∃ path, (e.key :: path).length = r.maxDepth + 1 ∧ (e.key :: path).Nodup ∧
        (e.key :: path).IsChain s.registry.Refers ∧
        ∀ key ∈ e.key :: path, s.registry.Registered key) := by
  refine ⟨?_, ?_, ?_, ?_⟩
  · intro v hv
    have hderivable := derivable_of_resolve he hv
    refine ⟨?_, ?_, ?_⟩
    · intro key hreach
      obtain ⟨other, _, _, hother, _⟩ := hderivable.of_reaches hreach
      exact ⟨other, hother⟩
    · intro key hreach
      exact not_cyclic_of_acc (hderivable.of_reaches hreach).acc
    · intro path hpath
      exact hderivable.length_le hpath
  · intro owner reference herr
    exact failsOnly_resolve he _ herr
  · intro owner walk last herr
    obtain ⟨_, hlast, path, hwalk, hpath⟩ := failsOnly_resolve he _ herr
    refine ⟨rfl, ?_, ?_, hlast⟩
    · rw [hwalk]
      rfl
    · rw [hwalk]
      exact hpath
  · intro owner limit herr
    obtain ⟨hlimit, path, hlength, hnodup, hpath, hregistered⟩ := failsOnly_resolve he _ herr
    have hlen : (e.key :: path).length = r.maxDepth + 1 := by
      rw [List.length_cons, hlength]
    have hsize := length_le_size hnodup hregistered
    refine ⟨hlimit, ?_, path, hlen, hnodup, hpath, hregistered⟩
    rw [List.nil_append, hlen] at hsize
    exact hsize

def ringEntry : Entry := ⟨"a", .custom "reverse" (some "b") []⟩

def ringScope : Scope :=
  ⟨⟨"F", "m", "a", "m/a", [], .default, "1", none, none, none⟩,
    ⟨[ringEntry, ⟨"b", .dim (.probe "c") none⟩, ⟨"c", .custom "size" (some "b") []⟩],
      by decide⟩, []⟩

theorem resolve_ring_diagnoses_references :
    ringEntry ∈ ringScope.registry.entries ∧
      (standard.resolve ringScope ringEntry).result =
        .error ⟨"b", .cycle ["a", "b", "c"] "b"⟩ ∧
      List.IsChain ringScope.registry.Refers ["a", "b", "c", "b"] := by
  have hmem : ringEntry ∈ ringScope.registry.entries := by
    simp [ringScope]
  have hresult : (standard.resolve ringScope ringEntry).result =
      .error ⟨"b", .cycle ["a", "b", "c"] "b"⟩ := rfl
  have hcycle := (resolve_diagnoses_references standard ringScope ringEntry hmem).2.2.1
  exact ⟨hmem, hresult, (hcycle _ _ _ hresult).2.2.1⟩

end Resolver

end SignalMap
