import SignalMap.Resolution.Rules

/-!
The questions of a rule. A rule asks for the values of entries one after the other, and
what it asks next, or gives in the end, depends on the answers before and on nothing
else. So a rule can be taken apart into its questions without an answer to any of them,
and be computed by whoever answers them. It asks for none but its references.
-/

namespace SignalMap

namespace Outcome

variable {α β γ : Type}

theorem bind_assoc (x : Outcome α) (f : α → Outcome β) (g : β → Outcome γ) :
    (x >>= f) >>= g = x >>= fun a => f a >>= g := by
  obtain ⟨requests, result⟩ := x
  cases result with
  | error err => rfl
  | ok a =>
    change bind ⟨requests ++ (f a).requests, (f a).result⟩ g =
      ⟨requests ++ (bind (f a) g).requests, (bind (f a) g).result⟩
    unfold bind
    cases (f a).result with
    | error err => rfl
    | ok b => simp only [List.append_assoc]

end Outcome

/-- A computation by its questions: it has an outcome, or it asks for the value under a
key and goes on with the answer. -/
inductive Inquiry where
  | done (outcome : Outcome Value)
  | ask (reference : String) (next : Value → Inquiry)

namespace Inquiry

def answer (follow : String → Outcome Value) : Inquiry → Outcome Value
  | .done outcome => outcome
  | .ask reference next => follow reference >>= fun value => (next value).answer follow

def AsksOnly (keys : List String) : Inquiry → Prop
  | .done _ => True
  | .ask reference next => reference ∈ keys ∧ ∀ value, (next value).AsksOnly keys

end Inquiry

namespace Rule

def inquireParameters (key : String) : List (String × Parameter) →
    (List (String × Operand Float) → Inquiry) → Inquiry
  | [], next => next []
  | (name, .number x) :: rest, next =>
    inquireParameters key rest fun others => next ((name, .scalar x) :: others)
  | (name, .entry reference) :: rest, next =>
    .ask reference fun value =>
      match (operandOf key name reference value).result with
      | .error err => .done (.ofExcept (.error err))
      | .ok operand => inquireParameters key rest fun others => next ((name, operand) :: others)

def inquiry (r : Resolver) (s : Scope) (key : String) : Rule → Inquiry
  | .dim (.probe reference) dtype =>
    .ask reference fun value => .done (applyType key dtype (.ofCount value.elementCount))
  | .slice base selector =>
    .ask base fun value => .done do
      let array ← baseArray key base value
      match selector.select s.context.indices array with
      | .ok selected => return selected
      | .error failure => .fail key (.selection base failure)
  | .expr formula parameters =>
    inquireParameters key parameters fun bindings => .done <|
      match formula.root.evaluate .double fun name => bindings.lookup name with
      | .ok result => return valueOf result
      | .error fault => .fail key (.evaluation fault formula.source)
  | .custom name (some base) parameters =>
    match r.hooks.get? name with
    | none => .done (.fail key (.unknownHook name))
    | some hook => .ask base fun value =>
      let invocation :=
        { key, input := some value, parameters, context := s.context, globals := s.globals }
      .done (.ofExcept ((hook invocation).mapError fun failure => ⟨key, .hookFailed name failure⟩))
  | .offset base amount =>
    .ask base fun value => .done <|
      if value.isEmpty then .fail key (.noData base)
      else .ofOption key (.notNumeric base) (value.offset? amount)
  | rule => .done (rule.compute r s key fun reference => .fail key (.missingEntry reference))

variable {r : Resolver} {s : Scope} {key : String} {follow : String → Outcome Value}

/-- An operand is taken from a value without asking for a signal. -/
theorem operandOf_eq_ofExcept (key name reference : String) (v : Value) :
    operandOf key name reference v = .ofExcept (operandOf key name reference v).result := by
  cases v with
  | scalar x => rfl
  | array a =>
    simp only [operandOf]
    split <;> rfl
  | empty => rfl
  | text t => rfl

theorem answer_inquireParameters (parameters : List (String × Parameter))
    (next : List (String × Operand Float) → Inquiry) :
    (inquireParameters key parameters next).answer follow =
      bindParameters key follow parameters >>= fun bindings => (next bindings).answer follow := by
  induction parameters generalizing next with
  | nil => rfl
  | cons first rest ih =>
    obtain ⟨name, parameter⟩ := first
    cases parameter with
    | number x =>
      rw [inquireParameters, ih, bindParameters, Outcome.bind_assoc]
      rfl
    | entry reference =>
      rw [inquireParameters, Inquiry.answer, bindParameters, Outcome.bind_assoc]
      congr 1
      funext value
      rw [Outcome.bind_assoc, operandOf_eq_ofExcept]
      cases (operandOf key name reference value).result with
      | error err => rfl
      | ok operand =>
        change (inquireParameters key rest _).answer follow = _
        rw [ih]
        change _ = (bindParameters key follow rest >>= fun others =>
          pure ((name, operand) :: others)) >>= _
        rw [Outcome.bind_assoc]
        rfl

/-- Answering the questions of a rule is computing it. -/
theorem compute_eq_answer (r : Resolver) (s : Scope) (key : String)
    (follow : String → Outcome Value) (rule : Rule) :
    rule.compute r s key follow = (rule.inquiry r s key).answer follow := by
  cases rule with
  | value source dtype => rfl
  | plugin name function args => rfl
  | dim axis dtype =>
    cases axis with
    | range count start step => rfl
    | values points => rfl
    | probe reference => rfl
  | slice base selector => rfl
  | expr formula parameters =>
    rw [inquiry, answer_inquireParameters]
    rfl
  | custom name base parameters =>
    cases base with
    | none => rfl
    | some base =>
      simp only [inquiry, compute]
      cases r.hooks.get? name with
      | none => rfl
      | some hook => rfl
  | offset base amount => rfl

theorem asksOnly_inquireParameters {parameters : List (String × Parameter)} {keys : List String}
    {next : List (String × Operand Float) → Inquiry}
    (hkeys : ∀ reference ∈ parameters.filterMap (fun (_, p) => p.key?), reference ∈ keys)
    (hnext : ∀ bindings, (next bindings).AsksOnly keys) :
    (inquireParameters key parameters next).AsksOnly keys := by
  induction parameters generalizing next with
  | nil => exact hnext []
  | cons first rest ih =>
    obtain ⟨name, parameter⟩ := first
    cases parameter with
    | number x => exact ih hkeys fun others => hnext _
    | entry reference =>
      obtain ⟨hreference, hrest⟩ := List.forall_mem_cons.mp hkeys
      refine ⟨hreference, fun value => ?_⟩
      dsimp only
      split
      · trivial
      · exact ih hrest fun others => hnext _

/-- A rule asks for its references and for nothing else. -/
theorem asksOnly_inquiry (r : Resolver) (s : Scope) (key : String) (rule : Rule) :
    (rule.inquiry r s key).AsksOnly rule.references := by
  cases rule with
  | value source dtype => trivial
  | plugin name function args => trivial
  | dim axis dtype =>
    cases axis with
    | range count start step => trivial
    | values points => trivial
    | probe reference => exact ⟨List.mem_singleton_self _, fun _ => trivial⟩
  | slice base selector => exact ⟨List.mem_singleton_self _, fun _ => trivial⟩
  | expr formula parameters =>
    exact asksOnly_inquireParameters (fun _ h => h) fun _ => trivial
  | custom name base parameters =>
    cases base with
    | none => trivial
    | some base =>
      simp only [inquiry]
      split
      · trivial
      · exact ⟨List.mem_singleton_self _, fun _ => trivial⟩
  | offset base amount => exact ⟨List.mem_singleton_self _, fun _ => trivial⟩

end Rule

end SignalMap
