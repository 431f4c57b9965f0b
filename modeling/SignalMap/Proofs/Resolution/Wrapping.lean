import SignalMap.Proofs.Resolution.Meaning
import SignalMap.Proofs.Value.Shapes

/-!
Rules that wrap another entry and only transform its value: OFFSET, SLICE, and CUSTOM
with one of the hooks that negate and reverse. A way over such rules leads from an
entry down to a base; the run that resolves the entry resolves the base at the end of
the way, and the element type of the base comes up through all the rules. Where none
of them is a SLICE, the shape and the number of elements come up too.
-/

namespace SignalMap

namespace Rule

inductive Wraps (hooks : Hooks) : Rule → String → Prop where
  | offset (base : String) (amount : Float) : Wraps hooks (.offset base amount) base
  | slice (base : String) (selector : Selector) : Wraps hooks (.slice base selector) base
  | negate (base : String) (parameters : Fields) {name : String} :
      hooks.get? name = some Hook.negate → Wraps hooks (.custom name (some base) parameters) base
  | reverse (base : String) (parameters : Fields) {name : String} :
      hooks.get? name = some Hook.reverse → Wraps hooks (.custom name (some base) parameters) base

variable {r : Resolver} {s : Scope} {key base : String} {follow : String → Outcome Value}
  {rule : Rule} {v : Value}

/-- What one rule keeps of the value that it wraps. -/
theorem Wraps.keeps (h : rule.Wraps r.hooks base)
    (hv : (rule.compute r s key follow).result = .ok v) :
    ∃ w, (follow base).result = .ok w ∧ v.dataType? = w.dataType? ∧
      (rule.kind ≠ .slice → v.Alike w) := by
  cases h with
  | offset base amount =>
    obtain ⟨w, hw, _, hoffset⟩ := compute_offset_eq_ok.mp hv
    have halike := Value.alike_of_mapNumbers? hoffset
    exact ⟨w, hw, halike.dataType, fun _ => halike⟩
  | slice base selector =>
    obtain ⟨a, ha, hselect⟩ := compute_slice_eq_ok.mp hv
    exact ⟨.array a, ha, Selector.dataType?_of_select hselect, fun hkind => absurd rfl hkind⟩
  | negate base parameters hhook =>
    obtain ⟨hook, w, hfound, hw, happlied⟩ := compute_wrappingHook_eq_ok.mp hv
    rw [hhook] at hfound
    cases hfound
    have halike := Hook.alike_of_negate rfl happlied
    exact ⟨w, hw, halike.dataType, fun _ => halike⟩
  | reverse base parameters hhook =>
    obtain ⟨hook, w, hfound, hw, happlied⟩ := compute_wrappingHook_eq_ok.mp hv
    rw [hhook] at hfound
    cases hfound
    have halike := Hook.alike_of_reverse rfl happlied
    exact ⟨w, hw, halike.dataType, fun _ => halike⟩

end Rule

/-- A way from an entry down to a base, over the entries above the base: each of them
wraps the next one. -/
inductive Registry.Way (registry : Registry) (hooks : Hooks) :
    Entry → List Entry → Entry → Prop where
  | here (e : Entry) : Way registry hooks e [] e
  | down {e next base : Entry} {reference : String} {above : List Entry} :
      e.rule.Wraps hooks reference → registry.get? reference = some next →
      Way registry hooks next above base → Way registry hooks e (e :: above) base

namespace Resolver

variable {r : Resolver} {s : Scope} {e base : Entry} {above : List Entry} {v : Value}

/-- The induction is on the way: a run that has a value for an entry visits the next
one with the key of the entry on its chain. -/
theorem visit_way {budget : Nat} {chain : List String}
    (hway : s.registry.Way r.hooks e above base)
    (h : (r.visit s budget chain e).result = .ok v) :
    ∃ w, (r.visit s (budget - above.length) (chain ++ above.map Entry.key) base).result = .ok w ∧
      v.dataType? = w.dataType? ∧ ((∀ x ∈ above, x.rule.kind ≠ .slice) → v.Alike w) := by
  induction hway generalizing budget chain v with
  | here e =>
    rw [List.map_nil, List.append_nil]
    exact ⟨v, h, rfl, fun _ => .refl v⟩
  | @down e next base reference above hwraps hnext _ ih =>
    cases budget with
    | zero => exact absurd h result_visit_zero_ne_ok
    | succ budget =>
      obtain ⟨_, hcompute⟩ := result_visit_succ_eq_ok.mp h
      obtain ⟨u, hu, htype, halike⟩ := hwraps.keeps hcompute
      obtain ⟨found, hfound, hvisit⟩ := result_follow_eq_ok.mp hu
      rw [hnext] at hfound
      cases hfound
      obtain ⟨w, hw, hbelow, hsame⟩ := ih hvisit
      rw [List.append_assoc, List.singleton_append, ← List.map_cons] at hw
      refine ⟨w, ?_, htype.trans hbelow, ?_⟩
      · rw [List.length_cons, Nat.add_sub_add_right]
        exact hw
      · intro hkinds
        obtain ⟨hkind, hrest⟩ := List.forall_mem_cons.mp hkinds
        exact (halike hkind).trans (hsame hrest)

/-- An entry at the end of a way is the first one, or it is registered. -/
theorem mem_of_way (hway : s.registry.Way r.hooks e above base) :
    above = [] ∧ base = e ∨ base ∈ s.registry.entries := by
  induction hway with
  | here e => exact Or.inl ⟨rfl, rfl⟩
  | down _ hnext _ ih =>
    right
    rcases ih with ⟨_, rfl⟩ | hmem
    · exact Registry.mem_of_get? hnext
    · exact hmem

/-- A visit that succeeds at the end of a way gives what the base has on its own. -/
theorem resolve_of_visit_way {w : Value} (hway : s.registry.Way r.hooks e above base)
    (h : (r.visit s (r.maxDepth - above.length) (above.map Entry.key) base).result = .ok w) :
    (r.resolve s base).result = .ok w := by
  rcases mem_of_way hway with ⟨rfl, _⟩ | hmem
  · exact h
  · obtain ⟨d, hd⟩ := derivation_of_visit h
    exact visit_of_derivation d hmem (hd.trans (Nat.sub_le _ _)) (List.forall_mem_nil _)

/-- An entry that resolves has the element type of every base that a way leads down to
over rules that offset, slice, negate or reverse. The value of the base is the one
that this very run gives it, below the entries of the way, and the one that it has
when it is resolved itself. If no rule on the way is a SLICE, the values have one shape
and as many elements. -/
theorem resolve_way (hway : s.registry.Way r.hooks e above base)
    (h : (r.resolve s e).result = .ok v) :
    ∃ w, (r.visit s (r.maxDepth - above.length) (above.map Entry.key) base).result = .ok w ∧
      (r.resolve s base).result = .ok w ∧ v.dataType? = w.dataType? ∧
      ((∀ x ∈ above, x.rule.kind ≠ .slice) →
        v.shape = w.shape ∧ v.elementCount = w.elementCount) := by
  obtain ⟨w, hw, htype, halike⟩ := visit_way hway h
  rw [List.nil_append] at hw
  refine ⟨w, hw, resolve_of_visit_way hway hw, htype, ?_⟩
  intro hkinds
  exact ⟨(halike hkinds).shape, (halike hkinds).elementCount⟩

def integersEntry : Entry :=
  ⟨"raw", .value (.literal (.array
    [.number (.unsigned 1), .number (.unsigned 2), .number (.negative (-4))])) (some .int)⟩

def windowEntry : Entry := ⟨"window", .slice "raw" (.range (some (.literal 1)) none 1)⟩

def turnedEntry : Entry := ⟨"turned", .custom "reverse" (some "window") []⟩

def raisedEntry : Entry := ⟨"raised", .offset "turned" 2.7⟩

def raisedScope : Scope :=
  ⟨⟨"F", "m", "raised", "m/raised", [], .default, "1", none, none, none⟩,
    ⟨[integersEntry, windowEntry, turnedEntry, raisedEntry], by decide⟩, []⟩

/-- The integers stay integers under an offset that is none, and the two of the window
stay two. -/
theorem resolve_way_raised :
    (standard.resolve raisedScope raisedEntry).result = .ok (.array ⟨.int, [-1, 4]⟩) ∧
      raisedScope.registry.Way standard.hooks raisedEntry
        [raisedEntry, turnedEntry, windowEntry] integersEntry ∧
      (∃ w, (standard.resolve raisedScope integersEntry).result = .ok w ∧ w.dataType? = some .int) ∧
      ∃ w, (standard.resolve raisedScope windowEntry).result = .ok w ∧ w.shape = .array ∧
        w.elementCount = 2 := by
  have hresult : (standard.resolve raisedScope raisedEntry).result =
      .ok (.array ⟨.int, [-1, 4]⟩) := by
    rfl
  have hwindow : raisedScope.registry.Way standard.hooks raisedEntry
      [raisedEntry, turnedEntry] windowEntry :=
    .down (.offset _ _) rfl (.down (.reverse _ _ rfl) rfl (.here _))
  have hraw : raisedScope.registry.Way standard.hooks raisedEntry
      [raisedEntry, turnedEntry, windowEntry] integersEntry :=
    .down (.offset _ _) rfl (.down (.reverse _ _ rfl) rfl (.down (.slice _ _) rfl (.here _)))
  have hkinds : ∀ x ∈ [raisedEntry, turnedEntry], x.rule.kind ≠ .slice := by
    decide
  obtain ⟨w, _, hw, htype, _⟩ := resolve_way hraw hresult
  obtain ⟨u, _, hu, _, hsame⟩ := resolve_way hwindow hresult
  obtain ⟨hshape, hcount⟩ := hsame hkinds
  exact ⟨hresult, hraw, ⟨w, hw, htype.symm⟩, u, hu, hshape.symm, hcount.symm⟩

end Resolver

end SignalMap
