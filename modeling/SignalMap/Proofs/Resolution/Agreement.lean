import SignalMap.Proofs.Resolution.Diagnosis

/-!
Resolutions of one entry in two scopes. A rule that sees the same in both, and that
reads references with the same values, computes the same value or the same fault.
So two scopes in which every involved rule sees the same, and every key in front of
the entry leads to the same, give one outcome, whatever else is registered in them.
-/

namespace SignalMap

namespace Rule

/-- Whether a rule sees the same in two scopes, apart from the entries that it
names. A selector sees the indices only through what it selects, and a hook is
given the rest of the scope. -/
def SeesAlike (r : Resolver) (s t : Scope) : Rule → Prop
  | .value _ _ => s.globals = t.globals
  | .plugin _ _ _ => s.context = t.context ∧ s.globals = t.globals
  | .slice _ selector =>
    ∀ a, selector.select s.context.indices a = selector.select t.context.indices a
  | .custom name _ _ =>
    ∀ hook, r.hooks.get? name = some hook → ∀ key input parameters,
      hook { key, input, parameters, context := s.context, globals := s.globals } =
        hook { key, input, parameters, context := t.context, globals := t.globals }
  | _ => True

variable {r : Resolver} {s t : Scope} {key : String} {follow other : String → Outcome Value}

theorem seesAlike_of_eq (hcontext : s.context = t.context) (hglobals : s.globals = t.globals)
    (rule : Rule) : rule.SeesAlike r s t := by
  cases rule with
  | value source dtype => exact hglobals
  | plugin name function args => exact ⟨hcontext, hglobals⟩
  | slice base selector =>
    intro a
    rw [hcontext]
  | custom name base parameters =>
    intro hook _ key input parameters
    rw [hcontext, hglobals]
  | dim axis dtype => trivial
  | expr formula parameters => trivial
  | offset base amount => trivial

theorem bindParameters_congr {parameters : List (String × Parameter)}
    (h : ∀ reference ∈ parameters.filterMap (fun (_, p) => p.key?),
      follow reference = other reference) :
    bindParameters key follow parameters = bindParameters key other parameters := by
  induction parameters with
  | nil => rfl
  | cons first rest ih =>
    obtain ⟨name, parameter⟩ := first
    cases parameter with
    | number x =>
      unfold bindParameters
      rw [ih h]
    | entry reference =>
      obtain ⟨hreference, hrest⟩ := List.forall_mem_cons.mp h
      unfold bindParameters
      rw [hreference, ih hrest]

/-- A rule computes the same from the same: only what it sees of the scope and what
its references give it goes into its value, its faults and the signals it asks for. -/
theorem compute_congr {rule : Rule} (hsees : rule.SeesAlike r s t)
    (hfollow : ∀ reference ∈ rule.references, follow reference = other reference) :
    rule.compute r s key follow = rule.compute r t key other := by
  cases rule with
  | value source dtype =>
    change s.globals = t.globals at hsees
    simp only [compute, hsees]
  | plugin name function args =>
    obtain ⟨hcontext, hglobals⟩ := hsees
    simp only [compute, hcontext, hglobals]
  | dim axis dtype =>
    cases axis with
    | range count start step => rfl
    | values points => rfl
    | probe reference =>
      simp only [compute, hfollow reference (List.mem_singleton_self _)]
  | slice base selector =>
    change ∀ a, selector.select _ a = selector.select _ a at hsees
    simp only [compute, hfollow base (List.mem_singleton_self _), hsees]
  | expr formula parameters =>
    simp only [compute, bindParameters_congr hfollow]
  | custom name base parameters =>
    simp only [compute]
    cases hhook : r.hooks.get? name with
    | none => rfl
    | some hook =>
      have hanswer := hsees hook hhook key
      cases base with
      | none => simp only [hanswer]
      | some base => simp only [hanswer, hfollow base (List.mem_singleton_self _)]
  | offset base amount =>
    simp only [compute, hfollow base (List.mem_singleton_self _)]

end Rule

namespace Resolver

variable {r : Resolver} {s t : Scope}

/-- The induction is on the budget: what is involved behind a reference is involved
in the entry that has the reference. -/
theorem visit_congr {budget : Nat} {chain : List String} {e : Entry}
    (hsees : ∀ other, s.registry.Involves e other → other.rule.SeesAlike r s t)
    (hfound : ∀ key, s.registry.LeadsTo e key → s.registry.get? key = t.registry.get? key) :
    r.visit s budget chain e = r.visit t budget chain e := by
  induction budget generalizing chain e with
  | zero => rfl
  | succ budget ih =>
    unfold visit
    by_cases hmem : e.key ∈ chain
    · rw [if_pos hmem, if_pos hmem]
    · rw [if_neg hmem, if_neg hmem]
      refine Rule.compute_congr (hsees e (Or.inl rfl)) ?_
      intro reference hreference
      unfold follow
      rw [← hfound reference (Registry.leadsTo_reference hreference)]
      cases hnext : s.registry.get? reference with
      | none => rfl
      | some next =>
        refine ih ?_ ?_
        · intro other hother
          exact hsees other (hother.of_reference hreference hnext)
        · intro key hkey
          exact hfound key (hkey.of_reference hreference hnext)

theorem resolve_congr {e : Entry}
    (hsees : ∀ other, s.registry.Involves e other → other.rule.SeesAlike r s t)
    (hfound : ∀ key, s.registry.LeadsTo e key → s.registry.get? key = t.registry.get? key) :
    r.resolve s e = r.resolve t e :=
  visit_congr hsees hfound

theorem resolve_registry_congr {context : Context} {globals : Fields}
    {registry other : Registry} {e : Entry}
    (h : ∀ key, registry.LeadsTo e key → registry.get? key = other.get? key) :
    r.resolve ⟨context, registry, globals⟩ e = r.resolve ⟨context, other, globals⟩ e :=
  resolve_congr (fun involved _ => Rule.seesAlike_of_eq rfl rfl involved.rule) h

/-- Only what an entry leads to matters to its value, to its fault and to the signals
that are asked for: registries that agree on the keys it leads to give one outcome.
They agree whenever the same entries stand under these keys, whatever is added,
removed, changed or put into another order beside them. -/
theorem resolve_eq_of_leadsTo (r : Resolver) (context : Context) (globals : Fields)
    (registry other : Registry) (e : Entry) :
    ((∀ key, registry.LeadsTo e key → registry.get? key = other.get? key) →
      r.resolve ⟨context, registry, globals⟩ e = r.resolve ⟨context, other, globals⟩ e) ∧
    ((∀ x : Entry, registry.LeadsTo e x.key → (x ∈ registry.entries ↔ x ∈ other.entries)) →
      r.resolve ⟨context, registry, globals⟩ e = r.resolve ⟨context, other, globals⟩ e) := by
  constructor
  · intro h
    exact resolve_registry_congr h
  · intro h
    refine resolve_registry_congr fun key hkey => Registry.get?_congr ?_
    rintro x rfl
    exact h x hkey

def turnedRing : Registry :=
  ⟨[⟨"c", .custom "size" (some "b") []⟩, ⟨"d", .offset "b" 1⟩, ⟨"b", .dim (.probe "c") none⟩],
    by decide⟩

theorem key_of_leadsTo_ring {key : String} (h : ringScope.registry.LeadsTo ringEntry key) :
    key = "b" ∨ key = "c" := by
  refine h.induction (P := fun key => key = "b" ∨ key = "c") ?_ ?_
  · intro reference hreference
    exact Or.inl (List.mem_singleton.mp hreference)
  · rintro key other hkey ⟨e, he, hother⟩
    rcases hkey with rfl | rfl
    · cases he
      exact Or.inr (List.mem_singleton.mp hother)
    · cases he
      exact Or.inl (List.mem_singleton.mp hother)

theorem resolve_eq_of_leadsTo_ring :
    (∀ key, ringScope.registry.LeadsTo ringEntry key →
      ringScope.registry.get? key = turnedRing.get? key) ∧
    (∀ x : Entry, ringScope.registry.LeadsTo ringEntry x.key →
      (x ∈ ringScope.registry.entries ↔ x ∈ turnedRing.entries)) ∧
    standard.resolve ringScope ringEntry =
      standard.resolve ⟨ringScope.context, turnedRing, []⟩ ringEntry ∧
    (standard.resolve ⟨ringScope.context, turnedRing, []⟩ ringEntry).result =
      .error ⟨"b", .cycle ["a", "b", "c"] "b"⟩ := by
  obtain ⟨hkeys, hentries⟩ := resolve_eq_of_leadsTo standard ringScope.context []
    ringScope.registry turnedRing ringEntry
  have hfound : ∀ key, ringScope.registry.LeadsTo ringEntry key →
      ringScope.registry.get? key = turnedRing.get? key := by
    intro key hkey
    rcases key_of_leadsTo_ring hkey with rfl | rfl
    · rfl
    · rfl
  have hmem : ∀ x : Entry, ringScope.registry.LeadsTo ringEntry x.key →
      (x ∈ ringScope.registry.entries ↔ x ∈ turnedRing.entries) := by
    rintro ⟨key, rule⟩ hkey
    rcases key_of_leadsTo_ring hkey with rfl | rfl
    · simp [ringScope, ringEntry, turnedRing]
    · simp [ringScope, ringEntry, turnedRing]
  refine ⟨hfound, hmem, hkeys hfound, ?_⟩
  rw [← hentries hmem]
  rfl

end Resolver

end SignalMap
