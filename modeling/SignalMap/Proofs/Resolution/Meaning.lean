import SignalMap.Proofs.Resolution.Computation
import SignalMap.Proofs.Resolution.Derivation

/-!
Resolution gives exactly what entries mean. A resolution that succeeds has done
what a derivation says; and along a derivation the chain is never met again,
since an entry with a meaning does not come back to itself. Entries that several
others read are no hindrance: they are not on the chain when they are read again.
-/

namespace SignalMap.Resolver

open Outcome

variable {r : Resolver} {s : Scope}

/-- Following a reference succeeds when its entry is there and can be visited. -/
theorem result_follow_eq_ok {visit : Entry → Outcome Value} {owner reference : String}
    {w : Value} : (follow s visit owner reference).result = .ok w ↔
      ∃ e, s.registry.get? reference = some e ∧ (visit e).result = .ok w := by
  unfold follow
  cases s.registry.get? reference with
  | none => simp [result_fail]
  | some e => simp

theorem result_visit_succ_eq_ok {budget : Nat} {chain : List String} {e : Entry} {v : Value} :
    (r.visit s (budget + 1) chain e).result = .ok v ↔
      e.key ∉ chain ∧
      (e.rule.compute r s e.key (follow s (r.visit s budget (chain ++ [e.key])) e.key)).result =
        .ok v := by
  unfold visit
  by_cases hmem : e.key ∈ chain
  · simp [hmem, result_fail]
  · simp [hmem]

theorem result_visit_zero_ne_ok {chain : List String} {e : Entry} {v : Value} :
    (r.visit s 0 chain e).result ≠ .ok v := by
  unfold visit
  by_cases hmem : e.key ∈ chain
  · simp [hmem, result_fail]
  · simp [hmem, result_fail]

/-! From resolutions to derivations -/

theorem bindings_of_result {n : Nat} {key : String} {follow : String → Outcome Value}
    (hfollow : ∀ reference w, (follow reference).result = .ok w →
      ∃ e, s.registry.get? reference = some e ∧ ∃ d : Derivation r s e w, d.height ≤ n)
    {parameters : List (String × Parameter)} {bindings : List (String × Operand Float)}
    (h : (Rule.bindParameters key follow parameters).result = .ok bindings) :
    ∃ operands : Bindings r s key parameters bindings, operands.height ≤ n := by
  induction parameters generalizing bindings with
  | nil =>
    simp only [Rule.bindParameters, result_pure, Except.ok.injEq] at h
    subst h
    exact ⟨.nil, Nat.zero_le n⟩
  | cons first rest ih =>
    obtain ⟨name, parameter⟩ := first
    cases parameter with
    | number x =>
      obtain ⟨others, hothers, rfl⟩ := Rule.bindParameters_number_eq_ok.mp h
      obtain ⟨operands, hoperands⟩ := ih hothers
      exact ⟨.number operands, hoperands⟩
    | entry reference =>
      obtain ⟨w, operand, others, hw, hoperand, hothers, rfl⟩ :=
        Rule.bindParameters_entry_eq_ok.mp h
      obtain ⟨e, he, d, hd⟩ := hfollow reference w hw
      obtain ⟨operands, hoperands⟩ := ih hothers
      exact ⟨.entry he d hoperand operands, Nat.max_le.mpr ⟨hd, hoperands⟩⟩

/-- A rule that is computed from derivations makes a derivation. -/
theorem derivation_of_compute {n : Nat} {e : Entry} {v : Value}
    {follow : String → Outcome Value}
    (hfollow : ∀ reference w, (follow reference).result = .ok w →
      ∃ e, s.registry.get? reference = some e ∧ ∃ d : Derivation r s e w, d.height ≤ n)
    (h : (e.rule.compute r s e.key follow).result = .ok v) :
    ∃ d : Derivation r s e v, d.height ≤ n + 1 := by
  obtain ⟨key, rule⟩ := e
  cases rule with
  | value source dtype =>
    obtain ⟨w, hsource, htype⟩ := Rule.compute_value_eq_ok.mp h
    exact ⟨.value hsource htype, Nat.le_add_left 1 n⟩
  | plugin name function args =>
    obtain ⟨request, hrequest, hfetch⟩ := Rule.compute_plugin_eq_ok.mp h
    exact ⟨.plugin hrequest hfetch, Nat.le_add_left 1 n⟩
  | dim axis dtype =>
    cases axis with
    | range count start step => exact ⟨.range h, Nat.le_add_left 1 n⟩
    | values points => exact ⟨.points h, Nat.le_add_left 1 n⟩
    | probe reference =>
      obtain ⟨w, hw, htype⟩ := Rule.compute_probe_eq_ok.mp h
      obtain ⟨e, he, d, hd⟩ := hfollow reference w hw
      exact ⟨.probe he d htype, Nat.succ_le_succ hd⟩
  | slice base selector =>
    obtain ⟨a, ha, hselect⟩ := Rule.compute_slice_eq_ok.mp h
    obtain ⟨e, he, d, hd⟩ := hfollow base _ ha
    exact ⟨.slice he d hselect, Nat.succ_le_succ hd⟩
  | expr formula parameters =>
    obtain ⟨bindings, result, hbindings, heval, rfl⟩ := Rule.compute_expr_eq_ok.mp h
    obtain ⟨operands, hoperands⟩ := bindings_of_result hfollow hbindings
    exact ⟨.expr operands heval, Nat.succ_le_succ hoperands⟩
  | custom name base parameters =>
    cases base with
    | none =>
      obtain ⟨hook, hhook, hv⟩ := Rule.compute_hook_eq_ok.mp h
      exact ⟨.hook hhook hv, Nat.le_add_left 1 n⟩
    | some base =>
      obtain ⟨hook, w, hhook, hw, hv⟩ := Rule.compute_wrappingHook_eq_ok.mp h
      obtain ⟨e, he, d, hd⟩ := hfollow base w hw
      exact ⟨.wrappingHook hhook he d hv, Nat.succ_le_succ hd⟩
  | offset base amount =>
    obtain ⟨w, hw, hempty, hoffset⟩ := Rule.compute_offset_eq_ok.mp h
    obtain ⟨e, he, d, hd⟩ := hfollow base w hw
    exact ⟨.offset he d hempty hoffset, Nat.succ_le_succ hd⟩

theorem derivation_of_visit {budget : Nat} {chain : List String} {e : Entry} {v : Value}
    (h : (r.visit s budget chain e).result = .ok v) :
    ∃ d : Derivation r s e v, d.height ≤ budget := by
  induction budget generalizing chain e v with
  | zero => exact absurd h result_visit_zero_ne_ok
  | succ budget ih =>
    obtain ⟨_, hcompute⟩ := result_visit_succ_eq_ok.mp h
    refine derivation_of_compute ?_ hcompute
    intro reference w hw
    obtain ⟨e', he', hvisit⟩ := result_follow_eq_ok.mp hw
    exact ⟨e', he', ih hvisit⟩

/-! From derivations to resolutions -/

theorem result_of_bindings {key : String} {follow : String → Outcome Value}
    {parameters : List (String × Parameter)} {bindings : List (String × Operand Float)}
    (operands : Bindings r s key parameters bindings)
    (hfollow : ∀ (reference : String) (e : Entry) (w : Value) (d : Derivation r s e w),
      s.registry.get? reference = some e → d.height ≤ operands.height →
      reference ∈ parameters.filterMap (fun (_, p) => p.key?) →
      (follow reference).result = .ok w) :
    (Rule.bindParameters key follow parameters).result = .ok bindings := by
  induction parameters generalizing bindings with
  | nil =>
    cases operands
    rfl
  | cons first rest ih =>
    cases operands with
    | number others =>
      refine Rule.bindParameters_number_eq_ok.mpr ⟨_, ?_, rfl⟩
      exact ih others hfollow
    | @entry _ name reference e w operand _ _ he d hoperand others =>
      have hw : (follow reference).result = .ok w :=
        hfollow reference e w d he (Nat.le_max_left _ _) (List.mem_cons_self ..)
      refine Rule.bindParameters_entry_eq_ok.mpr ⟨w, operand, _, hw, hoperand, ?_, rfl⟩
      refine ih others ?_
      intro other e' w' d' he' hd' hmem
      exact hfollow other e' w' d' he' (hd'.trans (Nat.le_max_right _ _))
        (List.mem_cons_of_mem _ hmem)

/-- A rule is computed as its derivation says, where every reference is followed
as the derivations below say. -/
theorem compute_of_derivation {e : Entry} {v : Value} {follow : String → Outcome Value}
    (d : Derivation r s e v)
    (hfollow : ∀ (reference : String) (e' : Entry) (w : Value) (d' : Derivation r s e' w),
      s.registry.get? reference = some e' → d'.height < d.height →
      reference ∈ e.references → (follow reference).result = .ok w) :
    (e.rule.compute r s e.key follow).result = .ok v := by
  cases d with
  | value hsource htype => exact Rule.compute_value_eq_ok.mpr ⟨_, hsource, htype⟩
  | plugin hrequest hfetch => exact Rule.compute_plugin_eq_ok.mpr ⟨_, hrequest, hfetch⟩
  | range htype => exact htype
  | points htype => exact htype
  | probe he d htype =>
    have hw := hfollow _ _ _ d he (Nat.lt_succ_self _) (List.mem_singleton_self _)
    exact Rule.compute_probe_eq_ok.mpr ⟨_, hw, htype⟩
  | slice he d hselect =>
    have ha := hfollow _ _ _ d he (Nat.lt_succ_self _) (List.mem_singleton_self _)
    exact Rule.compute_slice_eq_ok.mpr ⟨_, ha, hselect⟩
  | expr operands heval =>
    refine Rule.compute_expr_eq_ok.mpr ⟨_, _, ?_, heval, rfl⟩
    refine result_of_bindings operands ?_
    intro reference e' w d' he' hd' hmem
    exact hfollow reference e' w d' he' (Nat.lt_succ_of_le hd') hmem
  | hook hhook hv => exact Rule.compute_hook_eq_ok.mpr ⟨_, hhook, hv⟩
  | wrappingHook hhook he d hv =>
    have hw := hfollow _ _ _ d he (Nat.lt_succ_self _) (List.mem_singleton_self _)
    exact Rule.compute_wrappingHook_eq_ok.mpr ⟨_, _, hhook, hw, hv⟩
  | offset he d hempty hoffset =>
    have hw := hfollow _ _ _ d he (Nat.lt_succ_self _) (List.mem_singleton_self _)
    exact Rule.compute_offset_eq_ok.mpr ⟨_, hw, hempty, hoffset⟩

/-- The induction is on the budget. What carries it is that nothing on the chain
can be reached from the entry any more. -/
theorem visit_of_derivation {budget : Nat} {chain : List String} {e : Entry} {v : Value}
    (d : Derivation r s e v) (he : e ∈ s.registry.entries) (hd : d.height ≤ budget)
    (hchain : ∀ key ∈ chain, ¬ s.registry.Reaches e.key key) :
    (r.visit s budget chain e).result = .ok v := by
  induction budget generalizing chain e v with
  | zero =>
    have hpos := d.height_pos
    omega
  | succ budget ih =>
    have hfresh : e.key ∉ chain := fun hmem => hchain e.key hmem .refl
    have hderivable : Derivable r s d.height e.key :=
      ⟨e, v, d, Registry.get?_key_of_mem he, Nat.le_refl _⟩
    have hacyclic := Registry.not_cyclic_of_acc hderivable.acc
    refine result_visit_succ_eq_ok.mpr ⟨hfresh, compute_of_derivation d ?_⟩
    intro reference e' w d' he' hd' hmem
    have href : s.registry.Refers e.key e'.key := by
      rw [Registry.key_of_get? he']
      exact (Registry.refers_key he).mpr hmem
    refine result_follow_eq_ok.mpr ⟨e', he', ?_⟩
    refine ih d' (Registry.mem_of_get? he') (by omega) ?_
    intro key hkey hreach
    rcases List.mem_append.mp hkey with hkey | hkey
    · exact hchain key hkey (.head href hreach)
    · obtain rfl := List.mem_singleton.mp hkey
      exact hacyclic (.head' href hreach)

/-- A resolution gives a value exactly when the entry means that value by a
derivation no higher than the limit. -/
theorem resolve_eq_ok_iff_derivation (r : Resolver) (s : Scope) (e : Entry)
    (he : e ∈ s.registry.entries) (v : Value) :
    (r.resolve s e).result = .ok v ↔ ∃ d : Derivation r s e v, d.height ≤ r.maxDepth := by
  constructor
  · exact derivation_of_visit
  · rintro ⟨d, hd⟩
    exact visit_of_derivation d he hd (by simp)

def diamondEntry : Entry :=
  ⟨"sum", .expr ⟨"x", .var "x"⟩ [("x", .entry "turned"), ("y", .entry "base")]⟩

def diamondRegistry : Registry :=
  ⟨[⟨"base", .value (.literal (.number (.float 2.5))) none⟩,
    ⟨"turned", .custom "reverse" (some "base") []⟩, diamondEntry], by decide⟩

def diamondScope : Scope :=
  ⟨⟨"F", "m", "sum", "m/sum", [], .default, "1", none, none, none⟩, diamondRegistry, []⟩

theorem resolve_diamond_iff_derivation :
    diamondEntry ∈ diamondScope.registry.entries ∧
      (standard.resolve diamondScope diamondEntry).result = .ok (.ofDouble 2.5) ∧
      ∃ d : Derivation standard diamondScope diamondEntry (.ofDouble 2.5),
        d.height ≤ standard.maxDepth := by
  have hmem : diamondEntry ∈ diamondScope.registry.entries := by
    simp [diamondScope, diamondRegistry]
  have hresult : (standard.resolve diamondScope diamondEntry).result = .ok (.ofDouble 2.5) := rfl
  exact ⟨hmem, hresult, (resolve_eq_ok_iff_derivation _ _ _ hmem _).mp hresult⟩

end SignalMap.Resolver
