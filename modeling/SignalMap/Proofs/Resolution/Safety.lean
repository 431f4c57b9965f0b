import SignalMap.Proofs.Declaration.Checked
import SignalMap.Proofs.Expr.Completeness
import SignalMap.Proofs.Expr.Lexemes
import SignalMap.Proofs.Resolution.Faults

/-!
Resolution of entries that decoding let through. Cutting an array needs a slice
inside the array and a step that is not zero, and an expression needs an operand
for each of its variables. What decoding guarantees is enough for both, at every
entry that a resolution visits.
-/

namespace SignalMap

namespace NumericArray

/-- The elements from `start` up to `stop`, every `step`-th of them, when these
are a slice of the array that can be stepped through. A `stop` in front of
`start` stands for `start`. -/
def strided? (a : NumericArray) (start stop step : Nat) : Option NumericArray :=
  if max stop start ≤ a.length ∧ step ≠ 0 then some (a.strided start stop step) else none

theorem strided?_eq_some {a : NumericArray} {start stop step : Nat} (hstart : start ≤ a.length)
    (hstop : stop ≤ a.length) (hstep : 1 ≤ step) :
    a.strided? start stop step = some (a.strided start stop step) :=
  if_pos ⟨Nat.max_le.mpr ⟨hstop, hstart⟩, Nat.one_le_iff_ne_zero.mp hstep⟩

end NumericArray

namespace Selector

theorem clamp_le (n : Int) (length : Nat) : clamp n length ≤ length := by
  unfold clamp
  split
  · exact Nat.sub_le _ _
  · exact Nat.min_le_right _ _

theorem bindClamped_le {indices rest : List Nat} {length omitted place : Nat}
    {bound? : Option Bound} (homitted : omitted ≤ length)
    (h : bindClamped indices length omitted bound? = .ok (place, rest)) : place ≤ length := by
  cases bound? with
  | none =>
    cases h
    exact homitted
  | some bound =>
    obtain ⟨⟨n, _⟩, _, h⟩ := bind_eq_ok.mp h
    cases h
    exact clamp_le n length

def places (indices : List Nat) (length : Nat) (start stop : Option Bound) :
    Except Failure (Nat × Nat) := do
  let (first, rest) ← bindClamped indices length 0 start
  let (last, _) ← bindClamped rest length length stop
  return (first, last)

theorem places_le {indices : List Nat} {length first last : Nat} {start stop : Option Bound}
    (h : places indices length start stop = .ok (first, last)) :
    first ≤ length ∧ last ≤ length := by
  obtain ⟨⟨_, rest⟩, hstart, h⟩ := bind_eq_ok.mp h
  obtain ⟨⟨_, _⟩, hstop, h⟩ := bind_eq_ok.mp h
  cases h
  exact ⟨bindClamped_le (Nat.zero_le length) hstart, bindClamped_le (Nat.le_refl length) hstop⟩

def select? (s : Selector) (indices : List Nat) (a : NumericArray) :
    Option (Except Failure Value) :=
  match s with
  | .index _ => some (s.select indices a)
  | .range start stop step =>
    if indices.length < s.placeholderCount then some (s.select indices a)
    else match places indices a.length start stop with
      | .error failure => some (.error failure)
      | .ok (first, last) => (a.strided? first last step).map fun taken => .ok (.array taken)

theorem select_range {start stop : Option Bound} {step : Nat} {indices : List Nat}
    (h : ¬ indices.length < (range start stop step).placeholderCount) (a : NumericArray) :
    (range start stop step).select indices a =
      (places indices a.length start stop).map fun ends =>
        .array (a.strided ends.1 ends.2 step) := by
  unfold select places
  rw [if_neg h]
  dsimp only
  cases bindClamped indices a.length 0 start with
  | error failure => rfl
  | ok bound =>
    obtain ⟨first, rest⟩ := bound
    change (bindClamped rest a.length a.length stop >>= fun last => _) =
      (bindClamped rest a.length a.length stop >>= fun last => _).map _
    cases bindClamped rest a.length a.length stop with
    | error failure => rfl
    | ok last => rfl

/-- A selector that advances keeps inside every array: the places are clamped. -/
theorem select?_eq_some {s : Selector} (h : s.Advances) (indices : List Nat) (a : NumericArray) :
    s.select? indices a = some (s.select indices a) := by
  unfold select?
  cases s with
  | index bound => rfl
  | range start stop step =>
    dsimp only
    by_cases hfew : indices.length < (range start stop step).placeholderCount
    · rw [if_pos hfew]
    · rw [if_neg hfew, select_range hfew]
      cases hplaces : places indices a.length start stop with
      | error failure => rfl
      | ok ends =>
        obtain ⟨hfirst, hlast⟩ := places_le hplaces
        dsimp only
        rw [NumericArray.strided?_eq_some hfirst hlast h]
        rfl

/-- A step of zero has no result. -/
example : (range none none 0).select? [] (.ofDoubles []) = none := rfl

end Selector

namespace TransformError

def IsUnbound (err : TransformError) : Prop :=
  ∃ name source, err.fault = .evaluation (.unbound name) source

theorem not_isUnbound_of_isStructural {key : String} {fault : TransformFault}
    (h : fault.IsStructural) : ¬ IsUnbound ⟨key, fault⟩ := by
  rintro ⟨name, source, rfl⟩
  exact h

end TransformError

namespace Resolver

/-- A selection that may be made on the way to the value of an entry: that of its
own rule from the array of its base, or one behind an entry that it reads. -/
inductive Selects (r : Resolver) (s : Scope) :
    (budget : Nat) → (chain : List String) → Entry → Selector → NumericArray → Prop
  | own {budget : Nat} {chain : List String} {e : Entry} {base : String} {selector : Selector}
      {a : NumericArray} (hnew : e.key ∉ chain) (hrule : e.rule = .slice base selector)
      (hbase : (follow s (r.visit s budget (chain ++ [e.key])) e.key base).result =
        .ok (.array a)) :
      Selects r s (budget + 1) chain e selector a
  | behind {budget : Nat} {chain : List String} {e next : Entry} {reference : String}
      {selector : Selector} {a : NumericArray} (hnew : e.key ∉ chain)
      (href : reference ∈ e.references) (hnext : s.registry.get? reference = some next)
      (hselects : Selects r s budget (chain ++ [e.key]) next selector a) :
      Selects r s (budget + 1) chain e selector a

section Checked

open Outcome

variable {r : Resolver} {s : Scope}

theorem not_isUnbound_of_ownFault {rule : Rule} (hchecked : rule.Checked) {key : String}
    {fault : TransformFault} (h : rule.OwnFault fault) :
    ¬ TransformError.IsUnbound ⟨key, fault⟩ := by
  rintro ⟨name, source, rfl⟩
  cases rule
  case expr formula parameters => exact h.2 (hchecked name h.1)
  all_goals exact h

/-- The value of an entry with a slice comes from a selection that is made. -/
theorem selects_of_visit {budget : Nat} {chain : List String} {e : Entry} {base : String}
    {selector : Selector} {v : Value} (hrule : e.rule = .slice base selector)
    (h : (r.visit s budget chain e).result = .ok v) :
    ∃ a, r.Selects s budget chain e selector a ∧ selector.select s.context.indices a = .ok v := by
  unfold visit at h
  by_cases hmem : e.key ∈ chain
  · cases budget <;> simp [hmem, result_fail] at h
  · cases budget with
    | zero => simp [hmem, result_fail] at h
    | succ budget =>
      simp only [if_neg hmem, hrule] at h
      obtain ⟨a, hbase, hselect⟩ := Rule.compute_slice_eq_ok.mp h
      exact ⟨a, .own hmem hrule hbase, hselect⟩

/-- No error is about an unbound variable if every entry that is visited is checked. -/
theorem errorInvariant_not_isUnbound (hentries : ∀ e ∈ s.registry.entries, e.rule.Checked) :
    ErrorInvariant r s (fun _ e => e.rule.Checked) fun _ _ _ err => ¬ err.IsUnbound where
  cycle _ _ := TransformError.not_isUnbound_of_isStructural trivial
  tooDeep _ _ := TransformError.not_isUnbound_of_isStructural trivial
  own he hown := not_isUnbound_of_ownFault he hown
  missing _ _ _ := TransformError.not_isUnbound_of_isStructural trivial
  behind _ _ _ hnext := ⟨hentries _ hnext, fun _ herr => herr⟩

theorem not_isUnbound_of_visit (hentries : ∀ e ∈ s.registry.entries, e.rule.Checked)
    {budget : Nat} {chain : List String} {e : Entry} (he : e.rule.Checked) :
    FailsOnly (fun err => ¬ err.IsUnbound) (r.visit s budget chain e) :=
  (errorInvariant_not_isUnbound hentries).failsOnly he

theorem advances_of_selects (hentries : ∀ e ∈ s.registry.entries, e.rule.Checked)
    {budget : Nat} {chain : List String} {e : Entry} {selector : Selector} {a : NumericArray}
    (he : e.rule.Checked) (h : r.Selects s budget chain e selector a) : selector.Advances := by
  induction h with
  | own _ hrule _ =>
    rw [hrule] at he
    exact he
  | behind _ _ hnext _ ih => exact ih (hentries _ (Registry.mem_of_get? hnext))

end Checked

end Resolver

namespace Entry

structure Checked (e : Entry) : Prop where
  key_ne : e.key ≠ ""
  key_pieces : ∀ piece ∈ Text.splitOn '/' e.key.toList,
    piece ≠ [] ∧ Text.trimChars piece = piece ∧ '/' ∉ piece ∧ piece.all Char.isDigit = false
  rule : e.rule.Checked

def Decoded (e : Entry) : Prop :=
  ∃ schema document entries, ofDocument schema document = .ok entries ∧ e ∈ entries

theorem checked_of_ofDocument {schema : String} {document : Json} {entries : List Entry}
    (h : ofDocument schema document = .ok entries) : ∀ e ∈ entries, e.Checked := by
  intro e he
  obtain ⟨d, hd⟩ := exists_declaration h e he
  obtain ⟨_, hne, kind, _, hrule⟩ := Declaration.entry_eq_ok.mp hd
  exact ⟨hne, (Declaration.isKey_of_entry hd).pieces, Declaration.checked_of_rule hrule⟩

theorem Decoded.checked {e : Entry} (h : e.Decoded) : e.Checked := by
  obtain ⟨schema, document, entries, hentries, he⟩ := h
  exact checked_of_ofDocument hentries e he

end Entry

namespace Resolver

/-- Decoding a document gives checked entries only. A registry of such entries is
resolved, whatever answers fetches and hooks, without a variable that has no
operand and without a cut outside an array or with a step of zero; and the value
of a slice is what such a cut gives. -/
theorem resolve_decoded_safely :
    (∀ schema document entries, Entry.ofDocument schema document = .ok entries →
      ∀ e ∈ entries, e.Checked) ∧
    ∀ (r : Resolver) (s : Scope), (∀ e ∈ s.registry.entries, e.Decoded) →
      ∀ e ∈ s.registry.entries,
        (∀ err, (r.resolve s e).result = .error err → ¬ err.IsUnbound) ∧
        (∀ selector a, r.Selects s r.maxDepth [] e selector a →
          selector.select? s.context.indices a = some (selector.select s.context.indices a)) ∧
        ∀ base selector v, e.rule = .slice base selector → (r.resolve s e).result = .ok v →
          ∃ a, r.Selects s r.maxDepth [] e selector a ∧
            selector.select? s.context.indices a = some (.ok v) := by
  constructor
  · intro schema document entries h
    exact Entry.checked_of_ofDocument h
  · intro r s hdecoded e he
    have hentries : ∀ e ∈ s.registry.entries, e.rule.Checked :=
      fun e he => (hdecoded e he).checked.rule
    have hcut : ∀ selector a, r.Selects s r.maxDepth [] e selector a →
        selector.select? s.context.indices a = some (selector.select s.context.indices a) := by
      intro selector a hselects
      exact Selector.select?_eq_some (advances_of_selects hentries (hentries e he) hselects) _ a
    refine ⟨?_, hcut, ?_⟩
    · intro err herr
      exact not_isUnbound_of_visit hentries (hentries e he) err herr
    · intro base selector v hrule hv
      obtain ⟨a, hselects, hselect⟩ := selects_of_visit hrule hv
      refine ⟨a, hselects, ?_⟩
      rw [hcut selector a hselects, hselect]

def oneToThree : Json :=
  .array [.number (.unsigned 1), .number (.unsigned 2), .number (.unsigned 3)]

def sumParameters : Fields :=
  [("expression", .string "x + y"),
    ("parameters", .object [("x", .string "part/3"), ("y", .string "raw")])]

def sumDocument : Json :=
  .array
    [.object [("key", .string "m/raw"), ("type", .string "VALUE"), ("value", oneToThree)],
     .object [("key", .string "/part/ 7/"), ("slice", .string "[1:#:2]"),
      ("type", .string "SLICE"), ("variable", .string "m/raw")],
     .object ([("key", .string "sum"), ("type", .string "expr")] ++ sumParameters)]

def partSelector : Selector :=
  .range (some (.literal 1)) (some .placeholder) 2

def rawEntry : Entry := ⟨"raw", .value (.literal oneToThree) none⟩

def partEntry : Entry := ⟨"part/#", .slice "raw" partSelector⟩

def sumFormula : Formula := ⟨"x + y", .binary .add (.var "x") (.var "y")⟩

def sumEntry : Entry :=
  ⟨"sum", .expr sumFormula [("x", .entry "part/#"), ("y", .entry "raw")]⟩

def sumScope : Scope :=
  ⟨⟨"F", "m", "sum", "m/sum", [9], .default, "1", none, none, none⟩,
    ⟨[rawEntry, partEntry, sumEntry], by decide⟩, []⟩

theorem ofDocument_sumDocument :
    Entry.ofDocument "m" sumDocument = .ok [rawEntry, partEntry, sumEntry] := by
  have hright : Token.Scans Numeric.readDecimal? ("y".toList ++ []) [.identifier "y"] :=
    Token.scans_nil.name Token.separated_nil (by decide)
  have hleft : Token.Scans Numeric.readDecimal? ("x".toList ++ " + y".toList)
      [.identifier "x", .operator .add, .identifier "y"] :=
    (hright.space.ofChar rfl).space.name (Token.separated_cons _ rfl (by decide)) (by decide)
  have hscan : Token.scan Numeric.readDecimal? "x + y" =
      .ok [.identifier "x", .operator .add, .identifier "y"] :=
    hleft 0
  have hparse : Formula.parse "x + y" = .ok sumFormula := by
    rw [Formula.parse_of_scan hscan]
    rfl
  have hrule : Declaration.exprRule "m" sumParameters = .ok sumEntry.rule :=
    bind_eq_ok.mpr ⟨"x + y", rfl, bind_eq_ok.mpr ⟨sumFormula, mapError_eq_ok.mpr hparse, rfl⟩⟩
  have hsum : Declaration.entry "m" ⟨"sum", "expr", sumParameters⟩ = .ok sumEntry :=
    Declaration.entry_eq_ok.mpr ⟨rfl, by decide, .expr, rfl, hrule⟩
  refine bind_eq_ok.mpr ⟨rawEntry, rfl, bind_eq_ok.mpr ⟨[partEntry, sumEntry], ?_, rfl⟩⟩
  refine bind_eq_ok.mpr ⟨partEntry, rfl, bind_eq_ok.mpr ⟨[sumEntry], ?_, rfl⟩⟩
  exact bind_eq_ok.mpr ⟨sumEntry, mapError_eq_ok.mpr hsum, rfl⟩

theorem resolve_decoded_safely_sum :
    Entry.ofDocument "m" sumDocument = .ok sumScope.registry.entries ∧
      (∀ e ∈ sumScope.registry.entries, e.Checked) ∧
      (standard.resolve sumScope sumEntry).result =
        .error ⟨"sum", .evaluation (.lengthsDiffer .add 1 3) "x + y"⟩ ∧
      standard.Selects sumScope standard.maxDepth [] sumEntry partSelector ⟨.long, [1, 2, 3]⟩ ∧
      partSelector.select? [9] ⟨.long, [1, 2, 3]⟩ = some (.ok (.array ⟨.long, [2]⟩)) := by
  have hentries := ofDocument_sumDocument
  have hdecoded : ∀ e ∈ sumScope.registry.entries, e.Decoded :=
    fun e he => ⟨"m", sumDocument, _, hentries, he⟩
  have hsum : sumEntry ∈ sumScope.registry.entries := by
    simp [sumScope]
  have hselects : standard.Selects sumScope standard.maxDepth [] sumEntry partSelector
      ⟨.long, [1, 2, 3]⟩ :=
    .behind List.not_mem_nil List.mem_cons_self rfl (.own (by decide) rfl rfl)
  refine ⟨hentries, resolve_decoded_safely.1 _ _ _ hentries, by rfl, hselects, ?_⟩
  exact (resolve_decoded_safely.2 standard sumScope hdecoded sumEntry hsum).2.1 _ _ hselects

end Resolver

end SignalMap
