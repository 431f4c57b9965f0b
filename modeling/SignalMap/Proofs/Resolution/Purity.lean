import SignalMap.Proofs.Lookup.Parts
import SignalMap.Proofs.Resolution.Agreement

/-!
Rules that ask for no signal and whose hooks are built in. Such rules see a request
only through its list of indices, and without a placeholder in a selector they do not
see it at all. So an entry that involves no other rules has the same outcome for all
requests that bind the same indices, whether they find it under its own key or as the
part of a signal.
-/

namespace SignalMap

/-- The hooks that are built in look at the value that they are given and at nothing
else of the invocation. -/
theorem Hook.congr_of_builtin {hook : Hook} (h : hook ∈ Hooks.builtin.map Prod.snd)
    {invocation other : Invocation} (hinput : invocation.input = other.input) :
    hook invocation = hook other := by
  have htransform : ∀ transform,
      ofTransform transform invocation = ofTransform transform other := by
    intro transform
    unfold ofTransform
    rw [hinput]
  simp only [Hooks.builtin, List.map_cons, List.map_nil, List.mem_cons, List.not_mem_nil,
    or_false] at h
  rcases h with rfl | rfl | rfl
  · exact htransform _
  · exact htransform _
  · exact htransform _

namespace Selector

/-- A bound that is no placeholder has one place for all indices, and leaves them. -/
theorem bindClamped_of_ne_placeholder {bound? : Option Bound} (h : some .placeholder ≠ bound?)
    (length omitted : Nat) :
    ∃ place, ∀ indices, bindClamped indices length omitted bound? = .ok (place, indices) := by
  cases bound? with
  | none => exact ⟨omitted, fun _ => rfl⟩
  | some bound =>
    cases bound with
    | literal n => exact ⟨clamp n length, fun _ => rfl⟩
    | placeholder => exact absurd rfl h

/-- A selector without a placeholder selects the same for all indices. -/
theorem select_congr {s : Selector} (h : Bound.placeholder ∉ s.bounds) (indices other : List Nat)
    (a : NumericArray) : s.select indices a = s.select other a := by
  have hcount : s.placeholderCount = 0 := by
    refine List.countP_eq_zero.mpr fun bound hbound hplace => h ?_
    rwa [← eq_of_beq hplace]
  unfold select
  rw [hcount, if_neg (Nat.not_lt_zero _), if_neg (Nat.not_lt_zero _)]
  cases s with
  | index bound =>
    cases bound with
    | literal n => rfl
    | placeholder => exact absurd (List.mem_singleton_self _) h
  | range start stop step =>
    have hstart : some .placeholder ≠ start := by
      rintro rfl
      exact h (List.mem_append_left _ (List.mem_singleton_self _))
    have hstop : some .placeholder ≠ stop := by
      rintro rfl
      exact h (List.mem_append_right _ (List.mem_singleton_self _))
    obtain ⟨first, hfirst⟩ := bindClamped_of_ne_placeholder hstart a.length 0
    obtain ⟨last, hlast⟩ := bindClamped_of_ne_placeholder hstop a.length a.length
    dsimp only
    rw [hfirst indices, hfirst other]
    change (bindClamped indices _ _ _ >>= fun last => _) =
      (bindClamped other _ _ _ >>= fun last => _)
    rw [hlast indices, hlast other]
    rfl

end Selector

namespace Rule

/-- A rule that asks for no signal and has no hook but a built-in one. A hook that is
not there at all is the same fault for every request. -/
def IsPure (hooks : Hooks) : Rule → Prop
  | .plugin _ _ _ => False
  | .custom name _ _ =>
    ∀ hook, hooks.get? name = some hook → hook ∈ Hooks.builtin.map Prod.snd
  | _ => True

def TakesNoIndex : Rule → Prop
  | .slice _ selector => Bound.placeholder ∉ selector.bounds
  | _ => True

theorem IsPure.seesAlike {r : Resolver} {s t : Scope} {rule : Rule} (h : rule.IsPure r.hooks)
    (hglobals : s.globals = t.globals)
    (hindices : rule.TakesNoIndex ∨ s.context.indices = t.context.indices) :
    rule.SeesAlike r s t := by
  cases rule with
  | plugin name function args => exact h.elim
  | slice base selector =>
    intro a
    rcases hindices with hnone | hsame
    · exact Selector.select_congr hnone _ _ a
    · rw [hsame]
  | custom name base parameters =>
    intro hook hhook key input parameters
    exact Hook.congr_of_builtin (h hook hhook) rfl
  | value source dtype => exact hglobals
  | dim axis dtype => trivial
  | expr formula parameters => trivial
  | offset base amount => trivial

end Rule

namespace Resolver

variable {r : Resolver} {registry : Registry} {globals : Fields} {e : Entry}

theorem resolve_of_pure (hpure : ∀ involved, registry.Involves e involved →
      involved.rule.IsPure r.hooks) {context other : Context}
    (hindices : (∀ involved, registry.Involves e involved → involved.rule.TakesNoIndex) ∨
      context.indices = other.indices) :
    r.resolve ⟨context, registry, globals⟩ e = r.resolve ⟨other, registry, globals⟩ e := by
  refine resolve_congr ?_ fun _ _ => rfl
  intro involved hinvolved
  refine (hpure involved hinvolved).seesAlike rfl ?_
  rcases hindices with hnone | hsame
  · exact Or.inl (hnone involved hinvolved)
  · exact Or.inr hsame

/-- Where only pure rules are involved, a request matters through its indices alone.
In particular it makes no difference whether an entry is asked for under its own key
or, by the path of a part, as its data or its time; and if no selector that is
involved holds a placeholder, the indices do not matter either. -/
theorem resolve_eq_of_indices_eq (r : Resolver) (registry : Registry) (globals : Fields)
    (e : Entry)
    (hpure : ∀ involved, registry.Involves e involved → involved.rule.IsPure r.hooks) :
    (∀ context other : Context, context.indices = other.indices →
      r.resolve ⟨context, registry, globals⟩ e = r.resolve ⟨other, registry, globals⟩ e) ∧
    (∀ (request other : Request) (version otherVersion : String) (n m : NormalizedPath)
        (part : String) (signal : SignalType),
      request.normalize = .ok n → other.normalize = .ok m →
      m.key = n.key ++ "/" ++ part → SignalType.ofSegment? part = some signal →
      registry.get? n.key = some e → registry.get? m.key = none → n.indices = m.indices →
        Session.reply r version request n ⟨globals, registry⟩ =
          Session.reply r otherVersion other m ⟨globals, registry⟩) ∧
    ((∀ involved, registry.Involves e involved → involved.rule.TakesNoIndex) →
      ∀ context other : Context,
        r.resolve ⟨context, registry, globals⟩ e =
          r.resolve ⟨other, registry, globals⟩ e) := by
  refine ⟨?_, ?_, ?_⟩
  · intro context other hindices
    exact resolve_of_pure hpure (Or.inr hindices)
  · intro request other version otherVersion n m part signal _ hother hkey hpart hexact habsent
      hindices
    have hfallback := NormalizedPath.fallback?_of_part (Request.signal_of_normalize hother) hkey
      hpart
    have hsame : r.resolve ⟨.ofRequest request n version, registry, globals⟩ e =
        r.resolve ⟨.ofRequest other { m with key := n.key, signal } otherVersion, registry,
          globals⟩ e :=
      resolve_of_pure hpure (Or.inr hindices)
    rw [Session.reply_of_findEntry (Session.findEntry_of_get? hexact),
      Session.reply_of_findEntry (Session.findEntry_of_fallback? habsent hfallback hexact)]
    dsimp only
    rw [hsame]
  · intro hnone context other
    exact resolve_of_pure hpure (Or.inl hnone)

def fluxEntry : Entry := ⟨"flux", .custom "reverse" (some "part") []⟩

def sizeEntry : Entry := ⟨"all", .custom "size" (some "counts") []⟩

def fluxRegistry : Registry :=
  ⟨[⟨"counts", .value (.literal (.array [.number (.unsigned 1), .number (.unsigned 2),
      .number (.unsigned 3)])) none⟩,
    ⟨"part", .slice "counts" (.range (some .placeholder) none 1)⟩,
    fluxEntry, sizeEntry], by decide⟩

def askedFlux : Request := ⟨"F", "m/flux", [1], none, none, none, none⟩

def askedFluxData : Request := ⟨"G", "m//flux / data", [1], some "2", some "x", some 7, none⟩

theorem isPure_of_mem_fluxRegistry {x : Entry} (h : x ∈ fluxRegistry.entries) :
    x.rule.IsPure standard.hooks := by
  simp only [fluxRegistry, List.mem_cons, List.not_mem_nil, or_false] at h
  rcases h with rfl | rfl | rfl | rfl
  · trivial
  · trivial
  · intro hook hhook
    cases hhook
    simp [Hooks.builtin]
  · intro hook hhook
    cases hhook
    simp [Hooks.builtin]

theorem isPure_of_involves_flux {e involved : Entry} (he : e ∈ fluxRegistry.entries)
    (h : fluxRegistry.Involves e involved) : involved.rule.IsPure standard.hooks := by
  rcases h with rfl | ⟨key, _, hfound⟩
  · exact isPure_of_mem_fluxRegistry he
  · exact isPure_of_mem_fluxRegistry (Registry.mem_of_get? hfound)

theorem takesNoIndex_of_involves_size {involved : Entry}
    (h : fluxRegistry.Involves sizeEntry involved) : involved.rule.TakesNoIndex := by
  rcases h with rfl | ⟨key, hkey, hfound⟩
  · trivial
  · have hcounts : key = "counts" := by
      refine hkey.induction (P := (· = "counts")) ?_ ?_
      · intro reference hreference
        exact List.mem_singleton.mp hreference
      · rintro _ other rfl ⟨e, he, hother⟩
        cases he
        cases hother
    subst hcounts
    cases hfound
    trivial

theorem resolve_eq_of_indices_eq_flux :
    (∀ involved, fluxRegistry.Involves fluxEntry involved →
      involved.rule.IsPure standard.hooks) ∧
    (Session.reply standard "1" askedFlux ⟨"m", "flux", [1], .default⟩
      ⟨[], fluxRegistry⟩).result = .ok (.array ⟨.long, [3, 2]⟩) ∧
    Session.reply standard "1" askedFlux ⟨"m", "flux", [1], .default⟩ ⟨[], fluxRegistry⟩ =
      Session.reply standard "3" askedFluxData ⟨"m", "flux/data", [1], .default⟩
        ⟨[], fluxRegistry⟩ ∧
    (∀ involved, fluxRegistry.Involves sizeEntry involved → involved.rule.TakesNoIndex) ∧
    ∀ context other : Context,
      standard.resolve ⟨context, fluxRegistry, []⟩ sizeEntry =
        standard.resolve ⟨other, fluxRegistry, []⟩ sizeEntry := by
  have hflux : ∀ involved, fluxRegistry.Involves fluxEntry involved →
      involved.rule.IsPure standard.hooks :=
    fun _ => isPure_of_involves_flux (by simp [fluxRegistry])
  have hsize : ∀ involved, fluxRegistry.Involves sizeEntry involved →
      involved.rule.IsPure standard.hooks :=
    fun _ => isPure_of_involves_flux (by simp [fluxRegistry])
  have hreply := (resolve_eq_of_indices_eq standard fluxRegistry [] fluxEntry hflux).2.1
    askedFlux askedFluxData "1" "3" ⟨"m", "flux", [1], .default⟩
    ⟨"m", "flux/data", [1], .default⟩ "data" .data rfl rfl rfl rfl rfl rfl rfl
  have hnone : ∀ involved, fluxRegistry.Involves sizeEntry involved →
      involved.rule.TakesNoIndex :=
    fun _ => takesNoIndex_of_involves_size
  exact ⟨hflux, rfl, hreply, hnone,
    (resolve_eq_of_indices_eq standard fluxRegistry [] sizeEntry hsize).2.2 hnone⟩

end Resolver

end SignalMap
