import SignalMap.Proofs.Resolution.Diagnosis
import SignalMap.Proofs.Resolution.Inquiries

/-!
Resolution on one stack. The keys of the entries under way can be kept on a single
stack: a call for an entry pushes its key, computes its rule with further calls, and
pops what is on top, whether there was a value or a fault. The outcome is that of a
resolution. Every call finds a walk along references that begins with the root, and
leaves the stack as it was, so that entries read one after the other do not see each
other. Distinct keys on a bounded stack bring every resolution to an end.
-/

namespace SignalMap

namespace Resolver

structure Call where
  entry : Entry
  before : List String
  after : List String

/-- What a computation on the stack leaves: the calls in the order in which they ended,
the stack, and the outcome. -/
structure Run where
  calls : List Call
  stack : List String
  outcome : Outcome Value

def answerOn (lookUp : String → List String → Option Run) : Inquiry → List String → Option Run
  | .done outcome, stack => some ⟨[], stack, outcome⟩
  | .ask reference next, stack => do
    let first ← lookUp reference stack
    match first.outcome.result with
    | .error _ => return first
    | .ok value =>
      let rest ← answerOn lookUp (next value) first.stack
      return ⟨first.calls ++ rest.calls, rest.stack, first.outcome >>= fun _ => rest.outcome⟩

def callUnder (s : Scope) (call : Entry → List String → Option Run) (owner reference : String)
    (stack : List String) : Option Run :=
  match s.registry.get? reference with
  | some e => call e stack
  | none => some ⟨[], stack, .fail owner (.missingEntry reference)⟩

/-- A call on the stack, with `nested` for the calls in it. A key that is on the stack
already is refused, and so is every key when the stack is full. -/
def enter (r : Resolver) (s : Scope) (nested : Entry → List String → Option Run) (e : Entry)
    (stack : List String) : Option Run :=
  if e.key ∈ stack then some ⟨[⟨e, stack, stack⟩], stack, .fail e.key (.cycle stack e.key)⟩
  else if r.maxDepth ≤ stack.length then
    some ⟨[⟨e, stack, stack⟩], stack, .fail e.key (.tooDeep r.maxDepth)⟩
  else do
    let computed ← answerOn (callUnder s nested e.key) (e.rule.inquiry r s e.key)
      (stack ++ [e.key])
    let popped := computed.stack.dropLast
    return ⟨computed.calls ++ [⟨e, stack, popped⟩], popped, computed.outcome⟩

def call (r : Resolver) (s : Scope) : (nesting : Nat) → Entry → List String → Option Run
  | 0 => enter r s fun _ _ => none
  | nesting + 1 => enter r s (call r s nesting)

/-- What is true of a call below a root: with the key of its entry behind it, the stack is
a walk from the root along references. It has no key twice and room for no more than the
limit, and the call gives it back unchanged. -/
structure Call.IsSound (registry : Registry) (limit : Nat) (root : String) (c : Call) : Prop where
  nodup : c.before.Nodup
  length_le : c.before.length ≤ limit
  head : (c.before ++ [c.entry.key]).head? = some root
  path : (c.before ++ [c.entry.key]).IsChain registry.Refers
  restored : c.after = c.before

def Settles (good : Call → Prop) (stack : List String) (outcome : Outcome Value)
    (x : Option Run) : Prop :=
  ∃ calls, x = some ⟨calls, stack, outcome⟩ ∧ ∀ c ∈ calls, good c

section Calls

variable {r : Resolver} {s : Scope} {e : Entry} {stack : List String} {root : String}
  {good : Call → Prop}

/-- The induction is on the inquiry; between two questions the stack is as before. -/
theorem settles_answerOn {lookUp : String → List String → Option Run}
    {follow : String → Outcome Value} {keys : List String} {q : Inquiry}
    (hasks : q.AsksOnly keys)
    (hkeys : ∀ reference ∈ keys, Settles good stack (follow reference) (lookUp reference stack)) :
    Settles good stack (q.answer follow) (answerOn lookUp q stack) := by
  induction q with
  | done outcome => exact ⟨[], rfl, List.forall_mem_nil _⟩
  | ask reference next ih =>
    obtain ⟨hreference, hnext⟩ := hasks
    obtain ⟨calls, hfirst, hgood⟩ := hkeys reference hreference
    rw [answerOn, Inquiry.answer, hfirst]
    obtain ⟨requests, result⟩ := follow reference
    cases result with
    | error err => exact ⟨calls, rfl, hgood⟩
    | ok value =>
      obtain ⟨others, hrest, hothers⟩ := ih value (hnext value)
      refine ⟨calls ++ others, ?_, List.forall_mem_append.mpr ⟨hgood, hothers⟩⟩
      simp only [Option.bind_eq_bind, Option.bind_some, hrest]
      rfl

/-- A call for a reference is sound when the call in which it is asked for is. -/
theorem Call.IsSound.next {next : Entry}
    (h : Call.IsSound s.registry r.maxDepth root ⟨e, stack, stack⟩)
    (he : e ∈ s.registry.entries) (hnew : e.key ∉ stack) (hroom : stack.length < r.maxDepth)
    (href : next.key ∈ e.references) :
    Call.IsSound s.registry r.maxDepth root ⟨next, stack ++ [e.key], stack ++ [e.key]⟩ where
  nodup := nodup_snoc h.nodup hnew
  length_le := by
    rw [List.length_append, List.length_singleton]
    exact hroom
  head := by
    have hhead : (stack ++ [e.key]).head? = some root := h.head
    rw [List.head?_append, hhead, Option.some_or]
  path := by
    refine List.isChain_append.mpr ⟨h.path, List.isChain_singleton _, ?_⟩
    intro last hlast first hfirst
    obtain rfl : e.key = last := by simpa using hlast
    obtain rfl : next.key = first := by simpa using hfirst
    exact (Registry.refers_key he).mpr href
  restored := rfl

theorem visit_of_mem (budget : Nat) (hmem : e.key ∈ stack) :
    r.visit s budget stack e = .fail e.key (.cycle stack e.key) := by
  cases budget with
  | zero => exact if_pos hmem
  | succ budget => exact if_pos hmem

theorem settles_callUnder {visit : Entry → Outcome Value} {call : Entry → List String → Option Run}
    {owner reference : String}
    (h : ∀ next, next.key = reference → s.registry.get? reference = some next →
      Settles good stack (visit next) (call next stack)) :
    Settles good stack (follow s visit owner reference)
      (callUnder s call owner reference stack) := by
  unfold follow callUnder
  cases hfound : s.registry.get? reference with
  | none => exact ⟨[], rfl, List.forall_mem_nil _⟩
  | some next => exact h next (Registry.key_of_get? hfound) hfound

/-- A call that is refused leaves the stack alone. -/
theorem settles_refused (h : good ⟨e, stack, stack⟩) (outcome : Outcome Value) :
    Settles good stack outcome (some ⟨[⟨e, stack, stack⟩], stack, outcome⟩) :=
  ⟨_, rfl, List.forall_mem_singleton.mpr h⟩

/-- A call that is let in pops what it has pushed, when the calls for the references of
its entry leave the stack as they find it. -/
theorem settles_enter {nested : Entry → List String → Option Run} (h : good ⟨e, stack, stack⟩)
    (hnested : e.key ∉ stack → stack.length < r.maxDepth → ∀ next, next.key ∈ e.references →
      s.registry.get? next.key = some next →
        Settles good (stack ++ [e.key])
          (r.visit s (r.maxDepth - (stack ++ [e.key]).length) (stack ++ [e.key]) next)
          (nested next (stack ++ [e.key]))) :
    Settles good stack (r.visit s (r.maxDepth - stack.length) stack e)
      (enter r s nested e stack) := by
  unfold enter
  by_cases hmem : e.key ∈ stack
  · rw [if_pos hmem, visit_of_mem _ hmem]
    exact settles_refused h _
  rw [if_neg hmem]
  by_cases hfull : r.maxDepth ≤ stack.length
  · rw [if_pos hfull, Nat.sub_eq_zero_of_le hfull, visit, if_neg hmem]
    exact settles_refused h _
  rw [if_neg hfull]
  have hroom : stack.length < r.maxDepth := Nat.not_le.mp hfull
  have hbudget : r.maxDepth - stack.length = r.maxDepth - (stack ++ [e.key]).length + 1 := by
    rw [List.length_append, List.length_singleton]
    omega
  rw [hbudget, visit, if_neg hmem, Rule.compute_eq_answer]
  have hcomputed : Settles good (stack ++ [e.key])
      ((e.rule.inquiry r s e.key).answer (follow s
        (r.visit s (r.maxDepth - (stack ++ [e.key]).length) (stack ++ [e.key])) e.key))
      (answerOn (callUnder s nested e.key) (e.rule.inquiry r s e.key) (stack ++ [e.key])) := by
    refine settles_answerOn (Rule.asksOnly_inquiry r s e.key e.rule) ?_
    intro reference hreference
    refine settles_callUnder ?_
    rintro next rfl hnext
    exact hnested hmem hroom next hreference hnext
  obtain ⟨calls, hrun, hgood⟩ := hcomputed
  refine ⟨calls ++ [⟨e, stack, stack⟩], ?_,
    List.forall_mem_append.mpr ⟨hgood, List.forall_mem_singleton.mpr h⟩⟩
  simp only [hrun, Option.bind_eq_bind, Option.bind_some, List.dropLast_concat, Option.pure_def]

/-- The induction is on the depth to which calls may be nested; that is as much as there
is room for on the stack. -/
theorem settles_call {nesting : Nat} (he : e ∈ s.registry.entries)
    (h : Call.IsSound s.registry r.maxDepth root ⟨e, stack, stack⟩)
    (hnesting : r.maxDepth ≤ stack.length + nesting) :
    Settles (Call.IsSound s.registry r.maxDepth root) stack
      (r.visit s (r.maxDepth - stack.length) stack e) (r.call s nesting e stack) := by
  induction nesting generalizing e stack with
  | zero =>
    refine settles_enter h ?_
    intro _ hroom
    exact absurd hnesting (Nat.not_le.mpr hroom)
  | succ nesting ih =>
    refine settles_enter h ?_
    intro hnew hroom next href hnext
    refine ih (Registry.mem_of_get? hnext) (h.next he hnew hroom href) ?_
    rw [List.length_append, List.length_singleton]
    omega

theorem Call.IsSound.start (registry : Registry) (limit : Nat) (e : Entry) :
    Call.IsSound registry limit e.key ⟨e, [], []⟩ where
  nodup := List.nodup_nil
  length_le := Nat.zero_le limit
  head := rfl
  path := List.isChain_singleton e.key
  restored := rfl

/-- With a root in front of the last key, a walk that is not empty begins with it. -/
theorem Call.IsSound.head_before {registry : Registry} {limit : Nat} {c : Call}
    (h : c.IsSound registry limit root) (hne : c.before ≠ []) : c.before.head? = some root := by
  rw [← h.head, List.head?_append_of_ne_nil _ hne]

end Calls

/-- A resolution of a registered entry on an empty stack comes to an end, whatever refers
to what, with its calls nested no deeper than the limit, and it has the outcome of the
resolution. Every call in it finds distinct keys on the stack, no more than the limit,
which lead along references from the key of the entry; and it leaves them as they were,
whether it has a value or a fault. -/
theorem resolve_on_stack {r : Resolver} {s : Scope} {e : Entry} (he : e ∈ s.registry.entries)
    {nesting : Nat} (hnesting : r.maxDepth ≤ nesting) :
    ∃ calls, r.call s nesting e [] = some ⟨calls, [], r.resolve s e⟩ ∧
      ∀ c ∈ calls,
        c.before.Nodup ∧ c.before.length ≤ r.maxDepth ∧
        (c.before ≠ [] → c.before.head? = some e.key) ∧
        c.before.IsChain s.registry.Refers ∧ c.after = c.before := by
  have hroom : r.maxDepth ≤ ([] : List String).length + nesting := by
    rw [List.length_nil, Nat.zero_add]
    exact hnesting
  obtain ⟨calls, hrun, hsound⟩ := settles_call he (.start s.registry r.maxDepth e) hroom
  refine ⟨calls, hrun, ?_⟩
  intro c hc
  have hcall := hsound c hc
  exact ⟨hcall.nodup, hcall.length_le, hcall.head_before,
    (List.isChain_append.mp hcall.path).1, hcall.restored⟩

def returningEntry : Entry :=
  ⟨"sum", .expr ⟨"x", .var "x"⟩ [("x", .entry "turned"), ("y", .entry "count")]⟩

def returningScope : Scope :=
  ⟨⟨"F", "m", "sum", "m/sum", [], .default, "1", none, none, none⟩,
    ⟨[⟨"base", .value (.literal (.number (.float 2.5))) none⟩,
      ⟨"turned", .custom "reverse" (some "base") []⟩, ⟨"count", .dim (.probe "sum") none⟩,
      returningEntry], by decide⟩, []⟩

/-- The second parameter finds the stack as the first one found it, and the call that
closes the cycle is the only one that is refused. -/
theorem resolve_on_stack_returning :
    returningEntry ∈ returningScope.registry.entries ∧ standard.maxDepth ≤ 32 ∧
      ∃ calls, standard.call returningScope 32 returningEntry [] =
          some ⟨calls, [], standard.resolve returningScope returningEntry⟩ ∧
        calls.map (fun c => (c.entry.key, c.before)) =
          [("base", ["sum", "turned"]), ("turned", ["sum"]), ("sum", ["sum", "count"]),
            ("count", ["sum"]), ("sum", [])] ∧
        ∀ c ∈ calls, c.after = c.before := by
  have hmem : returningEntry ∈ returningScope.registry.entries := by
    simp [returningScope]
  have hdepth : standard.maxDepth ≤ 32 := Nat.le_refl 32
  obtain ⟨calls, hrun, hsound⟩ := resolve_on_stack hmem hdepth
  have hmade : (standard.call returningScope 32 returningEntry []).map (fun run =>
      run.calls.map fun c => (c.entry.key, c.before)) =
        some [("base", ["sum", "turned"]), ("turned", ["sum"]), ("sum", ["sum", "count"]),
          ("count", ["sum"]), ("sum", [])] := by
    decide +kernel
  rw [hrun] at hmade
  exact ⟨hmem, hdepth, calls, hrun, Option.some.inj hmade,
    fun c hc => (hsound c hc).2.2.2.2⟩

end Resolver

end SignalMap
