import SignalMap.Resolution.Rules

/-!
Resolution of entries. The keys on the way to an entry are remembered, so that an
entry that would be reached from itself is a fault, and so is a way that is too
long.
-/

namespace SignalMap.Resolver

def follow (s : Scope) (visit : Entry → Outcome Value) (owner reference : String) :
    Outcome Value :=
  match s.registry.get? reference with
  | some e => visit e
  | none => .fail owner (.missingEntry reference)

/-- The value of an entry that is reached over a chain of keys, while at most
`budget` more entries may follow on one way. -/
def visit (r : Resolver) (s : Scope) : (budget : Nat) → (chain : List String) → Entry →
    Outcome Value
  | 0, chain, e =>
    if e.key ∈ chain then .fail e.key (.cycle chain e.key) else .fail e.key (.tooDeep r.maxDepth)
  | budget + 1, chain, e =>
    if e.key ∈ chain then .fail e.key (.cycle chain e.key)
    else e.rule.compute r s e.key (follow s (visit r s budget (chain ++ [e.key])) e.key)

def resolve (r : Resolver) (s : Scope) (e : Entry) : Outcome Value :=
  r.visit s r.maxDepth [] e

end SignalMap.Resolver
