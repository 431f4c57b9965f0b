import SignalMap.Proofs.Expr.Operands
import SignalMap.Proofs.Resolution.Computation

/-!
Where the fault of a resolution comes from. A rule has faults of its own, which
name the key of its entry, and hands on the faults of what it reads. Faults that
are about the references themselves arise only where references are followed, and
a variable is unbound only where no parameter has its name.
-/

namespace SignalMap

def TransformFault.IsStructural : TransformFault → Prop
  | .missingEntry _ => True
  | .cycle _ _ => True
  | .tooDeep _ => True
  | _ => False

namespace Rule

def LacksParameter (name : String) : Rule → Prop
  | .expr formula parameters =>
    name ∈ formula.root.occurrences ∧ name ∉ parameters.map Prod.fst
  | _ => False

def OwnFault (rule : Rule) : TransformFault → Prop
  | .missingEntry _ => False
  | .cycle _ _ => False
  | .tooDeep _ => False
  | .evaluation (.unbound name) _ => rule.LacksParameter name
  | _ => True

theorem OwnFault.not_isStructural {rule : Rule} {fault : TransformFault}
    (h : rule.OwnFault fault) : ¬ fault.IsStructural := by
  cases fault
  case missingEntry | cycle | tooDeep => exact h.elim
  all_goals exact not_false

/-- The fault of an evaluation under the operands of all parameters is one of the
rule. -/
theorem ownFault_of_evaluate {formula : Formula} {parameters : List (String × Parameter)}
    {bindings : List (String × Operand Float)} {fault : EvalFault Float} {source : String}
    (hnames : bindings.map Prod.fst = parameters.map Prod.fst)
    (h : (formula.root.evaluate .double fun name => bindings.lookup name) = .error fault) :
    (Rule.expr formula parameters).OwnFault (.evaluation fault source) := by
  cases fault with
  | unbound name =>
    obtain ⟨hname, hnone⟩ := Expr.unbound_of_evaluate h
    refine ⟨hname, ?_⟩
    rw [← hnames]
    intro hmem
    obtain ⟨⟨_, operand⟩, hbinding, rfl⟩ := List.mem_map.mp hmem
    have hne := List.lookup_eq_none_iff.mp hnone _ hbinding
    simp at hne
  | divisionByZero => trivial
  | notFinite e => trivial
  | lengthsDiffer operator left right => trivial

end Rule

namespace Outcome

variable {α β : Type}

def FailsOnly (P : TransformError → Prop) (x : Outcome α) : Prop :=
  ∀ err, x.result = .error err → P err

variable {P : TransformError → Prop}

theorem failsOnly_pure (a : α) : FailsOnly P (pure a : Outcome α) := by
  intro err h
  cases h

theorem failsOnly_fail {key : String} {fault : TransformFault} (h : P ⟨key, fault⟩) :
    FailsOnly P (fail key fault : Outcome α) := by
  intro err herr
  cases herr
  exact h

theorem failsOnly_ofOption {key : String} {fault : TransformFault} (h : P ⟨key, fault⟩)
    (x : Option α) : FailsOnly P (ofOption key fault x) := by
  cases x with
  | none => exact failsOnly_fail h
  | some a => exact failsOnly_pure a

/-- An answer from outside, with its failures turned into errors. -/
theorem failsOnly_mapError {ε : Type} {f : ε → TransformError} (h : ∀ failure, P (f failure))
    (requests : List FetchRequest) (answer : Except ε α) :
    FailsOnly P ⟨requests, answer.mapError f⟩ := by
  intro err herr
  cases answer with
  | error failure =>
    cases herr
    exact h failure
  | ok a => cases herr

theorem FailsOnly.bind {x : Outcome α} {f : α → Outcome β} (hx : FailsOnly P x)
    (hf : ∀ a, x.result = .ok a → FailsOnly P (f a)) : FailsOnly P (x >>= f) := by
  intro err h
  change (Outcome.bind x f).result = .error err at h
  unfold Outcome.bind at h
  cases hresult : x.result with
  | error err' =>
    simp only [hresult, Except.error.injEq] at h
    subst h
    exact hx err' hresult
  | ok a =>
    simp only [hresult] at h
    exact hf a hresult err h

end Outcome

namespace Rule

open Outcome

variable {P : TransformError → Prop} {key : String}

theorem failsOnly_applyType (h : ∀ dtype, P ⟨key, .notCastable dtype⟩) (dtype : Option DataType)
    (v : Value) : FailsOnly P (applyType key dtype v) := by
  unfold applyType
  split
  · exact failsOnly_pure _
  · exact failsOnly_pure _
  · exact failsOnly_ofOption (h _) _

theorem failsOnly_computeSource (h : P ⟨key, .noRepresentation⟩) (globals : Fields)
    (source : ValueSource) : FailsOnly P (computeSource globals key source) := by
  unfold computeSource
  split
  · exact failsOnly_ofOption h _
  · split
    · exact failsOnly_ofOption h _
    · exact failsOnly_pure _

theorem failsOnly_baseArray {base : String} (hempty : P ⟨key, .noData base⟩)
    (harray : P ⟨key, .notArray base⟩) (v : Value) : FailsOnly P (baseArray key base v) := by
  unfold baseArray
  split
  · exact failsOnly_pure _
  · exact failsOnly_fail hempty
  · exact failsOnly_fail harray

theorem failsOnly_operandOf {name reference : String}
    (hempty : P ⟨key, .parameterNoData name reference⟩)
    (hnumeric : P ⟨key, .parameterNotNumeric name reference⟩) (v : Value) :
    FailsOnly P (operandOf key name reference v) := by
  unfold operandOf
  split
  · exact failsOnly_pure _
  · split
    · exact failsOnly_fail hempty
    · exact failsOnly_pure _
  · exact failsOnly_fail hempty
  · exact failsOnly_fail hnumeric

variable {follow : String → Outcome Value}

theorem failsOnly_bindParameters
    (hempty : ∀ name reference, P ⟨key, .parameterNoData name reference⟩)
    (hnumeric : ∀ name reference, P ⟨key, .parameterNotNumeric name reference⟩)
    {parameters : List (String × Parameter)}
    (hfollow : ∀ reference ∈ parameters.filterMap (fun (_, p) => p.key?),
      FailsOnly P (follow reference)) :
    FailsOnly P (bindParameters key follow parameters) := by
  induction parameters with
  | nil => exact failsOnly_pure _
  | cons first rest ih =>
    obtain ⟨name, parameter⟩ := first
    cases parameter with
    | number x => exact (ih hfollow).bind fun _ _ => failsOnly_pure _
    | entry reference =>
      have hfirst := hfollow reference (List.mem_cons_self ..)
      have hrest := ih fun other hmem => hfollow other (List.mem_cons_of_mem _ hmem)
      refine hfirst.bind fun w _ => ?_
      have hoperand : FailsOnly P (operandOf key name reference w) :=
        failsOnly_operandOf (hempty _ _) (hnumeric _ _) w
      exact hoperand.bind fun _ _ => hrest.bind fun _ _ => failsOnly_pure _

/-- The errors of a rule are its own, or they are those of the entries that it
reads. -/
theorem failsOnly_compute {r : Resolver} {s : Scope} {rule : Rule}
    (hown : ∀ fault, rule.OwnFault fault → P ⟨key, fault⟩)
    (hfollow : ∀ reference ∈ rule.references, FailsOnly P (follow reference)) :
    FailsOnly P (rule.compute r s key follow) := by
  have htype : ∀ dtype v, FailsOnly P (applyType key dtype v) :=
    failsOnly_applyType fun _ => hown _ trivial
  cases rule with
  | value source dtype =>
    exact (failsOnly_computeSource (hown _ trivial) _ _).bind fun v _ => htype dtype v
  | plugin name function args =>
    simp only [compute]
    split
    · exact failsOnly_mapError (fun failure => hown (.fetchFailed _ failure) trivial) _ _
    · exact failsOnly_fail (hown _ trivial)
  | dim axis dtype =>
    cases axis with
    | range count start step => exact htype dtype _
    | values points => exact htype dtype _
    | probe reference =>
      have hprobe := hfollow reference (List.mem_singleton_self _)
      exact hprobe.bind fun w _ => htype dtype _
  | slice base selector =>
    have hbase := hfollow base (List.mem_singleton_self _)
    refine hbase.bind fun w _ => ?_
    refine (failsOnly_baseArray (hown _ trivial) (hown _ trivial) w).bind fun a _ => ?_
    split
    · exact failsOnly_pure _
    · exact failsOnly_fail (hown _ trivial)
  | expr formula parameters =>
    have hparameters : FailsOnly P (bindParameters key follow parameters) :=
      failsOnly_bindParameters (fun _ _ => hown _ trivial) (fun _ _ => hown _ trivial) hfollow
    refine hparameters.bind fun bindings hbindings => ?_
    split
    · exact failsOnly_pure _
    next fault heval =>
      exact failsOnly_fail
        (hown _ (ownFault_of_evaluate (names_of_bindParameters hbindings) heval))
  | custom name base parameters =>
    simp only [compute]
    split
    · exact failsOnly_fail (hown _ trivial)
    · cases base with
      | none =>
        exact failsOnly_mapError (fun failure => hown (.hookFailed name failure) trivial) _ _
      | some base =>
        have hbase := hfollow base (List.mem_singleton_self _)
        refine hbase.bind fun w _ => ?_
        exact failsOnly_mapError (fun failure => hown (.hookFailed name failure) trivial) _ _
  | offset base amount =>
    have hbase := hfollow base (List.mem_singleton_self _)
    refine hbase.bind fun w _ => ?_
    split
    · exact failsOnly_fail (hown (.noData base) trivial)
    · exact failsOnly_ofOption (hown (.notNumeric base) trivial) _

end Rule

namespace Resolver

open Outcome

variable {r : Resolver} {s : Scope} {Visited : List String → Entry → Prop}
  {P : Nat → List String → Entry → TransformError → Prop}

/-- What is said of the errors of entries that are visited: it holds of the errors that
a visit makes itself, and an error behind a reference is handed on with it. -/
structure ErrorInvariant (r : Resolver) (s : Scope) (Visited : List String → Entry → Prop)
    (P : Nat → List String → Entry → TransformError → Prop) : Prop where
  cycle : ∀ {budget : Nat} {chain : List String} {e : Entry}, Visited chain e →
    e.key ∈ chain → P budget chain e ⟨e.key, .cycle chain e.key⟩
  tooDeep : ∀ {chain : List String} {e : Entry}, Visited chain e →
    e.key ∉ chain → P 0 chain e ⟨e.key, .tooDeep r.maxDepth⟩
  own : ∀ {budget : Nat} {chain : List String} {e : Entry} {fault : TransformFault},
    Visited chain e → e.rule.OwnFault fault → P (budget + 1) chain e ⟨e.key, fault⟩
  missing : ∀ {budget : Nat} {chain : List String} {e : Entry} {reference : String},
    Visited chain e → reference ∈ e.references → s.registry.get? reference = none →
      P (budget + 1) chain e ⟨e.key, .missingEntry reference⟩
  behind : ∀ {budget : Nat} {chain : List String} {e next : Entry}, Visited chain e →
    e.key ∉ chain → next.key ∈ e.references → next ∈ s.registry.entries →
      Visited (chain ++ [e.key]) next ∧
        ∀ err, P budget (chain ++ [e.key]) next err → P (budget + 1) chain e err

/-- The induction is on the budget, which every reference that is followed makes
smaller. -/
theorem ErrorInvariant.failsOnly (h : ErrorInvariant r s Visited P) {budget : Nat}
    {chain : List String} {e : Entry} (he : Visited chain e) :
    FailsOnly (P budget chain e) (r.visit s budget chain e) := by
  induction budget generalizing chain e with
  | zero =>
    unfold visit
    by_cases hmem : e.key ∈ chain
    · rw [if_pos hmem]
      exact failsOnly_fail (h.cycle he hmem)
    · rw [if_neg hmem]
      exact failsOnly_fail (h.tooDeep he hmem)
  | succ budget ih =>
    unfold visit
    by_cases hmem : e.key ∈ chain
    · rw [if_pos hmem]
      exact failsOnly_fail (h.cycle he hmem)
    · rw [if_neg hmem]
      refine Rule.failsOnly_compute (fun _ hfault => h.own he hfault) ?_
      intro reference hreference
      unfold follow
      cases hfound : s.registry.get? reference with
      | none => exact failsOnly_fail (h.missing he hreference hfound)
      | some next =>
        obtain rfl : next.key = reference := Registry.key_of_get? hfound
        obtain ⟨hnext, hback⟩ := h.behind he hmem hreference (Registry.mem_of_get? hfound)
        exact fun err herr => hback err (ih hnext err herr)

end Resolver

end SignalMap
