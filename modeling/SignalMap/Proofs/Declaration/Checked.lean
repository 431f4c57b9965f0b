import SignalMap.Proofs.Declaration.Decoding
import SignalMap.Proofs.Lookup.Keys

/-!
What decoding guarantees of an entry. Its key is clean, a selector goes on with
every element that it takes, a range is not too long, and an expression has a
parameter for each of its variables.
-/

namespace SignalMap

namespace Selector

def Advances : Selector → Prop
  | .index _ => True
  | .range _ _ step => 1 ≤ step

theorem one_le_of_parseStep {cs : List Char} {step : Nat} (h : parseStep cs = .ok step) :
    1 ≤ step := by
  unfold parseStep at h
  split at h
  next =>
    cases h
    exact Nat.le_refl 1
  next =>
    split at h
    next => cases h
    next n hzero _ =>
      cases h
      exact Nat.one_le_iff_ne_zero.mpr fun hn => hzero hn
    next => cases h

inductive Reads : List (List Char) → Selector → Prop
  | index {cs bound} (hbound : parseBound cs = .ok (some bound)) : Reads [cs] (.index bound)
  | pair {cs cs' start stop} (hstart : parseBound cs = .ok start)
      (hstop : parseBound cs' = .ok stop) : Reads [cs, cs'] (.range start stop 1)
  | triple {cs cs' cs'' start stop step} (hstart : parseBound cs = .ok start)
      (hstop : parseBound cs' = .ok stop) (hstep : parseStep cs'' = .ok step) :
      Reads [cs, cs', cs''] (.range start stop step)

theorem parse_eq_ok_iff {text : String} {s : Selector} :
    parse text = .ok s ↔ Reads (Text.splitOn ':' (body text)) s := by
  unfold parse
  constructor
  · intro h
    split at h
    next hparts =>
      obtain ⟨bound?, hbound, h⟩ := bind_eq_ok.mp h
      cases bound? with
      | none => cases h
      | some bound =>
        cases h
        rw [hparts]
        exact .index hbound
    next hparts =>
      obtain ⟨start, hstart, h⟩ := bind_eq_ok.mp h
      obtain ⟨stop, hstop, h⟩ := bind_eq_ok.mp h
      cases h
      rw [hparts]
      exact .pair hstart hstop
    next hparts =>
      obtain ⟨step, hstep, h⟩ := bind_eq_ok.mp h
      obtain ⟨start, hstart, h⟩ := bind_eq_ok.mp h
      obtain ⟨stop, hstop, h⟩ := bind_eq_ok.mp h
      cases h
      rw [hparts]
      exact .triple hstart hstop hstep
    next => cases h
  · intro h
    generalize Text.splitOn ':' (body text) = parts at h
    cases h with
    | index hbound => exact bind_eq_ok.mpr ⟨_, hbound, rfl⟩
    | pair hstart hstop => exact bind_eq_ok.mpr ⟨_, hstart, bind_eq_ok.mpr ⟨_, hstop, rfl⟩⟩
    | triple hstart hstop hstep =>
      exact bind_eq_ok.mpr ⟨_, hstep, bind_eq_ok.mpr ⟨_, hstart, bind_eq_ok.mpr ⟨_, hstop, rfl⟩⟩⟩

theorem Reads.advances {parts : List (List Char)} {s : Selector} (h : Reads parts s) :
    s.Advances := by
  cases h with
  | index => trivial
  | pair => exact Nat.le_refl 1
  | triple _ _ hstep => exact one_le_of_parseStep hstep

theorem advances_of_parse {text : String} {s : Selector} (h : parse text = .ok s) :
    s.Advances :=
  (parse_eq_ok_iff.mp h).advances

end Selector

def Rule.Checked : Rule → Prop
  | .slice _ selector => selector.Advances
  | .dim (.range count _ _) _ => count ≤ maxCount
  | .expr formula parameters =>
    ∀ name ∈ formula.root.occurrences, name ∈ parameters.map Prod.fst
  | _ => True

namespace Declaration

variable {schema : String} {parameters : Fields} {made : Rule}

theorem checked_of_rule {kind : RuleKind} (h : rule schema kind parameters = .ok made) :
    made.Checked := by
  cases kind with
  | value =>
    obtain ⟨_, _, rfl⟩ := exists_of_valueRule h
    trivial
  | plugin =>
    obtain ⟨_, _, _, rfl⟩ := exists_of_pluginRule h
    trivial
  | dim =>
    obtain ⟨_, ⟨_, _, rfl⟩ | ⟨_, ⟨_, rfl⟩ | ⟨_, _, _, hcount, rfl⟩⟩⟩ := exists_of_dimRule h
    · trivial
    · trivial
    · exact hcount
  | slice =>
    obtain ⟨_, _, _, _, hselector, rfl⟩ := exists_of_sliceRule h
    exact Selector.advances_of_parse hselector
  | expr =>
    obtain ⟨_, _, _, _, hcovered, rfl⟩ := exists_of_exprRule h
    exact hcovered
  | custom =>
    obtain ⟨_, _, _, _, rfl⟩ := exists_of_customRule h
    trivial
  | offset =>
    obtain ⟨_, _, _, _, rfl⟩ := exists_of_offsetRule h
    trivial

end Declaration

end SignalMap
