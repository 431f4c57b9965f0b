import Mathlib.Order.Basic
import SignalMap.Proofs.Resolution.ReferenceGraph
import SignalMap.Resolution.Rules

/-!
What entries mean. A derivation gives an entry its value by the rules of the
seven kinds, and it looks up what a rule reads by key and by nothing else: it
keeps no chain and counts no depth. Its height is measured from the outside, and
is the number of entries on its longest chain of nested references. What an
entry refers to has a derivation that is less high, so that an entry with a
meaning never comes back to itself.
-/

namespace SignalMap

mutual

inductive Derivation (r : Resolver) (s : Scope) : Entry → Value → Type where
  | value {key : String} {source : ValueSource} {dtype : Option DataType} {w v : Value} :
      (Rule.computeSource s.globals key source).result = .ok w →
      (applyType key dtype w).result = .ok v →
      Derivation r s ⟨key, .value source dtype⟩ v
  | plugin {key name : String} {function : Option String} {args : Fields}
      {request : FetchRequest} {v : Value} :
      Rule.fetchRequest s.context s.globals key name function args = .ok request →
      r.fetcher request = .ok v →
      Derivation r s ⟨key, .plugin name function args⟩ v
  | range {key : String} {count : Nat} {start step : Float} {dtype : Option DataType}
      {v : Value} :
      (applyType key dtype (.ofDoubles (Rule.rangePoints count start step))).result = .ok v →
      Derivation r s ⟨key, .dim (.range count start step) dtype⟩ v
  | points {key : String} {points : List Float} {dtype : Option DataType} {v : Value} :
      (applyType key dtype (.ofDoubles points)).result = .ok v →
      Derivation r s ⟨key, .dim (.values points) dtype⟩ v
  | probe {key reference : String} {dtype : Option DataType} {e : Entry} {w v : Value} :
      s.registry.get? reference = some e → Derivation r s e w →
      (applyType key dtype (.ofCount w.elementCount)).result = .ok v →
      Derivation r s ⟨key, .dim (.probe reference) dtype⟩ v
  | slice {key base : String} {selector : Selector} {e : Entry} {array : NumericArray}
      {v : Value} :
      s.registry.get? base = some e → Derivation r s e (.array array) →
      selector.select s.context.indices array = .ok v →
      Derivation r s ⟨key, .slice base selector⟩ v
  | expr {key : String} {formula : Formula} {parameters : List (String × Parameter)}
      {bindings : List (String × Operand Float)} {result : Operand Float} :
      Bindings r s key parameters bindings →
      (formula.root.evaluate .double fun name => bindings.lookup name) = .ok result →
      Derivation r s ⟨key, .expr formula parameters⟩ (Rule.valueOf result)
  | hook {key name : String} {parameters : Fields} {hook : Hook} {v : Value} :
      r.hooks.get? name = some hook →
      hook { key, input := none, parameters, context := s.context, globals := s.globals } = .ok v →
      Derivation r s ⟨key, .custom name none parameters⟩ v
  | wrappingHook {key name base : String} {parameters : Fields} {hook : Hook} {e : Entry}
      {w v : Value} :
      r.hooks.get? name = some hook →
      s.registry.get? base = some e → Derivation r s e w →
      hook { key, input := some w, parameters, context := s.context, globals := s.globals } =
        .ok v →
      Derivation r s ⟨key, .custom name (some base) parameters⟩ v
  | offset {key base : String} {amount : Float} {e : Entry} {w v : Value} :
      s.registry.get? base = some e → Derivation r s e w →
      w.isEmpty = false → w.offset? amount = some v →
      Derivation r s ⟨key, .offset base amount⟩ v

inductive Bindings (r : Resolver) (s : Scope) : String → List (String × Parameter) →
    List (String × Operand Float) → Type where
  | nil {key : String} : Bindings r s key [] []
  | number {key name : String} {x : Float} {parameters : List (String × Parameter)}
      {bindings : List (String × Operand Float)} :
      Bindings r s key parameters bindings →
      Bindings r s key ((name, .number x) :: parameters) ((name, .scalar x) :: bindings)
  | entry {key name reference : String} {e : Entry} {w : Value} {operand : Operand Float}
      {parameters : List (String × Parameter)} {bindings : List (String × Operand Float)} :
      s.registry.get? reference = some e → Derivation r s e w →
      (Rule.operandOf key name reference w).result = .ok operand →
      Bindings r s key parameters bindings →
      Bindings r s key ((name, .entry reference) :: parameters) ((name, operand) :: bindings)

end

variable {r : Resolver} {s : Scope}

mutual

def Derivation.height {e : Entry} {v : Value} : Derivation r s e v → Nat
  | .value _ _ => 1
  | .plugin _ _ => 1
  | .range _ => 1
  | .points _ => 1
  | .probe _ d _ => d.height + 1
  | .slice _ d _ => d.height + 1
  | .expr operands _ => operands.height + 1
  | .hook _ _ => 1
  | .wrappingHook _ _ d _ => d.height + 1
  | .offset _ d _ _ => d.height + 1

def Bindings.height {key : String} {parameters : List (String × Parameter)}
    {bindings : List (String × Operand Float)} : Bindings r s key parameters bindings → Nat
  | .nil => 0
  | .number others => others.height
  | .entry _ d _ others => max d.height others.height

end

theorem Derivation.height_pos {e : Entry} {v : Value} (d : Derivation r s e v) :
    0 < d.height := by
  cases d <;> simp [Derivation.height]

def Derivable (r : Resolver) (s : Scope) (height : Nat) (key : String) : Prop :=
  ∃ (e : Entry) (v : Value) (d : Derivation r s e v),
    s.registry.get? key = some e ∧ d.height ≤ height

theorem Derivable.mono {m n : Nat} {key : String} (h : Derivable r s m key) (hmn : m ≤ n) :
    Derivable r s n key := by
  obtain ⟨e, v, d, he, hd⟩ := h
  exact ⟨e, v, d, he, Nat.le_trans hd hmn⟩

theorem Bindings.derivable_of_mem {key : String} {parameters : List (String × Parameter)}
    {bindings : List (String × Operand Float)} (operands : Bindings r s key parameters bindings)
    {reference : String} (h : reference ∈ parameters.filterMap fun (_, p) => p.key?) :
    Derivable r s operands.height reference := by
  induction parameters generalizing bindings with
  | nil => simp at h
  | cons first rest ih =>
    cases operands with
    | number others =>
      simp only [List.filterMap_cons, Parameter.key?] at h
      exact ih others h
    | @entry _ name own e w operand _ _ he d hoperand others =>
      simp only [List.filterMap_cons, Parameter.key?, List.mem_cons] at h
      rcases h with rfl | h
      · exact ⟨e, w, d, he, Nat.le_max_left _ _⟩
      · exact (ih others h).mono (Nat.le_max_right _ _)

/-- All that an entry refers to has a derivation that is less high. -/
theorem Derivation.derivable_of_mem {e : Entry} {v : Value} (d : Derivation r s e v)
    {reference : String} (h : reference ∈ e.references) :
    Derivable r s (d.height - 1) reference := by
  cases d with
  | value | plugin | range | points | hook =>
    simp [Entry.references, Rule.references, Rule.base?] at h
  | expr operands => exact operands.derivable_of_mem h
  | probe he d | slice he d | wrappingHook _ he d | offset he d =>
    simp only [Entry.references, Rule.references, Rule.base?, Option.toList_some,
      List.mem_singleton] at h
    subst h
    exact ⟨_, _, d, he, Nat.le_refl _⟩

theorem Derivable.of_refers {height : Nat} {key other : String}
    (h : Derivable r s height key) (href : s.registry.Refers key other) :
    0 < height ∧ Derivable r s (height - 1) other := by
  obtain ⟨e, v, d, he, hd⟩ := h
  obtain ⟨e', he', hother⟩ := href
  rw [he] at he'
  cases he'
  have hpos := d.height_pos
  exact ⟨by omega, (d.derivable_of_mem hother).mono (by omega)⟩

/-- Every way from a key with a derivation comes to an end. -/
theorem Derivable.acc {height : Nat} {key : String} (h : Derivable r s height key) :
    Acc (fun other key => s.registry.Refers key other) key := by
  induction height generalizing key with
  | zero =>
    obtain ⟨e, v, d, _, hd⟩ := h
    have hpos := d.height_pos
    omega
  | succ height ih =>
    refine Acc.intro key ?_
    intro other href
    exact ih (h.of_refers href).2

/-- What a key with a derivation leads to has a derivation too. -/
theorem Derivable.of_reaches {height : Nat} {key other : String}
    (h : Derivable r s height key) (hreach : s.registry.Reaches key other) :
    Derivable r s height other := by
  induction hreach with
  | refl => exact h
  | tail _ href ih => exact (ih.of_refers href).2.mono (Nat.sub_le _ _)

theorem Derivable.length_le {height : Nat} {key : String} {path : List String}
    (h : Derivable r s height key) (hpath : List.IsChain s.registry.Refers (key :: path)) :
    (key :: path).length ≤ height := by
  induction path generalizing key height with
  | nil =>
    obtain ⟨e, v, d, _, hd⟩ := h
    have hpos := d.height_pos
    simp only [List.length_cons, List.length_nil]
    omega
  | cons next rest ih =>
    obtain ⟨href, hrest⟩ := List.isChain_cons_cons.mp hpath
    obtain ⟨hpos, hnext⟩ := h.of_refers href
    have hlen := ih hnext hrest
    simp only [List.length_cons] at hlen ⊢
    omega

end SignalMap
