import SignalMap.Expr.Evaluation
import SignalMap.Proofs.Expr.Completeness

/-!
The variables of an expression. A name that begins no call is free in the tokens, and the
tree has exactly the free names, in the order in which they stand: parentheses and plus
signs leave no trace, but no part changes places with another. Each name is listed once,
and evaluation asks for no binding of any other name.
-/

namespace SignalMap

namespace Token

variable {α : Type} {tokens rest : List (Token α)} {token : Token α} {name other : String}

/-- The name stands at the place and is not the name of a function that is called. -/
def IsFree (tokens : List (Token α)) (name : String) (place : Nat) : Prop :=
  tokens[place]? = some (.identifier name) ∧ tokens[place + 1]? ≠ some .opening

def freeName? : Token α → List (Token α) → Option String
  | .identifier _, .opening :: _ => none
  | .identifier name, _ => some name
  | _, _ => none

def freeIdentifiers : List (Token α) → List String
  | [] => []
  | token :: rest => (freeName? token rest).toList ++ freeIdentifiers rest

theorem freeName?_of_not_opening (h : rest.head? ≠ some .opening) (name : String) :
    freeName? (.identifier name) rest = some name := by
  rcases rest with _ | ⟨_ | _ | _ | _ | _, rest⟩
  case cons.opening => exact absurd rfl h
  all_goals rfl

theorem isFree_zero_iff : IsFree (token :: rest) name 0 ↔ freeName? token rest = some name := by
  unfold IsFree
  rw [List.getElem?_cons_zero, Nat.zero_add, List.getElem?_cons_succ, ← List.head?_eq_getElem?]
  cases token with
  | identifier own =>
    by_cases hopening : rest.head? = some .opening
    · obtain ⟨behind, rfl⟩ := List.head?_eq_some_iff.mp hopening
      simp [freeName?]
    · rw [freeName?_of_not_opening hopening]
      simp [hopening]
  | number value => simp [freeName?]
  | operator symbol => simp [freeName?]
  | opening => simp [freeName?]
  | closing => simp [freeName?]

theorem isFree_succ_iff {place : Nat} :
    IsFree (token :: rest) name (place + 1) ↔ IsFree rest name place := Iff.rfl

theorem mem_freeIdentifiers_iff :
    name ∈ freeIdentifiers tokens ↔ ∃ place, IsFree tokens name place := by
  induction tokens with
  | nil => simp [freeIdentifiers, IsFree]
  | cons token rest ih =>
    rw [freeIdentifiers, List.mem_append, Option.mem_toList, ih]
    constructor
    · rintro (hown | ⟨place, hplace⟩)
      · exact ⟨0, isFree_zero_iff.mpr hown⟩
      · exact ⟨place + 1, isFree_succ_iff.mpr hplace⟩
    · rintro ⟨place, hplace⟩
      cases place with
      | zero => exact Or.inl (isFree_zero_iff.mp hplace)
      | succ place => exact Or.inr ⟨place, isFree_succ_iff.mp hplace⟩

def FreeBefore (tokens : List (Token α)) (name other : String) : Prop :=
  ∃ place, IsFree tokens name place ∧ ∀ behind, IsFree tokens other behind → place < behind

theorem FreeBefore.cons (h : FreeBefore rest name other)
    (hown : freeName? token rest ≠ some other) : FreeBefore (token :: rest) name other := by
  obtain ⟨place, hplace, hfirst⟩ := h
  refine ⟨place + 1, isFree_succ_iff.mpr hplace, ?_⟩
  intro behind hbehind
  cases behind with
  | zero => exact absurd (isFree_zero_iff.mp hbehind) hown
  | succ behind => exact Nat.succ_lt_succ (hfirst behind (isFree_succ_iff.mp hbehind))

/-- A name in the list comes before those that are not in the list up to it. The induction
is over the tokens, each of which brings at most one name. -/
theorem freeBefore_of_split {before after : List String}
    (h : freeIdentifiers tokens = before ++ name :: after) (hother : other ∉ before ++ [name]) :
    FreeBefore tokens name other := by
  induction tokens generalizing before with
  | nil => simp [freeIdentifiers] at h
  | cons token rest ih =>
    rw [freeIdentifiers] at h
    cases hown : freeName? token rest with
    | none =>
      rw [hown] at h
      exact (ih h hother).cons (by simp [hown])
    | some own =>
      rw [hown] at h
      cases before with
      | nil =>
        obtain ⟨rfl, _⟩ := List.cons.inj h
        refine ⟨0, isFree_zero_iff.mpr hown, ?_⟩
        intro behind hbehind
        cases behind with
        | zero =>
          have heq := hown.symm.trans (isFree_zero_iff.mp hbehind)
          cases heq
          exact absurd (List.mem_singleton_self _) hother
        | succ behind => exact Nat.succ_pos behind
      | cons first before =>
        obtain ⟨rfl, hrest⟩ := List.cons.inj h
        obtain ⟨hfirst, hbefore⟩ := not_or.mp (mt List.mem_cons.mpr hother)
        refine (ih hrest hbefore).cons ?_
        rw [hown]
        intro heq
        exact hfirst (Option.some.inj heq).symm

end Token

/-- Of two names the one that is listed first stands at a place up to which the other one
does not stand. The induction is from the end, where a name is added if it is new. -/
theorem pairwise_eraseDups (names : List String) :
    names.eraseDups.Pairwise fun name other =>
      ∃ before after, names = before ++ name :: after ∧ other ∉ before ++ [name] := by
  induction names using List.reverseRecOn with
  | nil => exact List.Pairwise.nil
  | append_singleton names last ih =>
    have hbehind : names.eraseDups.Pairwise fun name other =>
        ∃ before after, names ++ [last] = before ++ name :: after ∧ other ∉ before ++ [name] := by
      refine ih.imp ?_
      rintro name other ⟨before, after, rfl, hother⟩
      exact ⟨before, after ++ [last], by simp, hother⟩
    rw [List.eraseDups_append]
    by_cases hlast : last ∈ names
    · have hnone : [last].removeAll names = [] := by simp [List.removeAll, hlast]
      rw [hnone, List.eraseDups_nil, List.append_nil]
      exact hbehind
    · have hnew : [last].removeAll names = [last] := by simp [List.removeAll, hlast]
      rw [hnew]
      refine List.pairwise_append.mpr ⟨hbehind, List.pairwise_singleton _ _, ?_⟩
      intro name hname other hother
      obtain rfl := List.mem_singleton.mp hother
      obtain ⟨before, after, rfl⟩ := List.append_of_mem (List.mem_eraseDups.mp hname)
      refine ⟨before, after ++ [other], by simp, ?_⟩
      intro hmem
      apply hlast
      rw [List.append_cons]
      exact List.mem_append_left after hmem

namespace Expr

variable {α : Type} {l : Level} {tokens rest : List (Token α)}

/-! Names of trees -/

/-- The variables that a reading brings. What is read behind a first term or factor puts
its variables behind those of the tree before it. -/
def Level.Brings : (l : Level) → l.Reading α → List String → Prop
  | .sum, e, names => e.occurrences = names
  | .terms, grow, names => ∀ left, (grow left).occurrences = left.occurrences ++ names
  | .product, e, names => e.occurrences = names
  | .factors, grow, names => ∀ left, (grow left).occurrences = left.occurrences ++ names
  | .signed, e, names => e.occurrences = names
  | .power, e, names => e.occurrences = names
  | .operand, e, names => e.occurrences = names

/-- The names of a next term or factor stand between those of the tree before it and those
of what follows. -/
theorem occurrences_grown {op : BinaryOperator} {next : Expr α} {grow : Expr α → Expr α}
    {names others : List String} (hnext : next.occurrences = names)
    (hgrow : ∀ left, (grow left).occurrences = left.occurrences ++ others) (left : Expr α) :
    (grow (.binary op left next)).occurrences = left.occurrences ++ (names ++ others) := by
  rw [hgrow, occurrences, hnext, List.append_assoc]

theorem append_trans {all middle last names others : List String} (hnames : all = names ++ middle)
    (hothers : middle = others ++ last) : all = (names ++ others) ++ last := by
  rw [hnames, hothers, List.append_assoc]

/-- A derivation takes the free names of the tokens that it reads into its tree, in their
order. -/
theorem Derivation.brings (d : Derivation l tokens rest) :
    ∃ names, l.Brings d.tree names ∧
      Token.freeIdentifiers tokens = names ++ Token.freeIdentifiers rest := by
  induction d with
  | sum first more ihf ihm =>
    obtain ⟨names, hnames, hfirst⟩ := ihf
    obtain ⟨others, hothers, hmore⟩ := ihm
    refine ⟨names ++ others, ?_, append_trans hfirst hmore⟩
    exact (hothers first.tree).trans (congrArg (· ++ others) hnames)
  | noTerm => exact ⟨[], fun left => (List.append_nil _).symm, rfl⟩
  | term op hop next more ihn ihm =>
    obtain ⟨names, hnames, hnext⟩ := ihn
    obtain ⟨others, hothers, hmore⟩ := ihm
    exact ⟨names ++ others, occurrences_grown hnames hothers, append_trans hnext hmore⟩
  | product first more ihf ihm =>
    obtain ⟨names, hnames, hfirst⟩ := ihf
    obtain ⟨others, hothers, hmore⟩ := ihm
    refine ⟨names ++ others, ?_, append_trans hfirst hmore⟩
    exact (hothers first.tree).trans (congrArg (· ++ others) hnames)
  | noFactor => exact ⟨[], fun left => (List.append_nil _).symm, rfl⟩
  | factor op hop next more ihn ihm =>
    obtain ⟨names, hnames, hnext⟩ := ihn
    obtain ⟨others, hothers, hmore⟩ := ihm
    exact ⟨names ++ others, occurrences_grown hnames hothers, append_trans hnext hmore⟩
  | minus inner ih => exact ih
  | plus inner ih => exact ih
  | unsigned inner ih => exact ih
  | base inner ih => exact ih
  | raised inner exponent ihi ihe =>
    obtain ⟨names, hnames, hinner⟩ := ihi
    obtain ⟨others, hothers, hexponent⟩ := ihe
    exact ⟨names ++ others, congrArg₂ (· ++ ·) hnames hothers, append_trans hinner hexponent⟩
  | number value => exact ⟨[], rfl, rfl⟩
  | @var rest name hnext =>
    refine ⟨[name], rfl, ?_⟩
    rw [Token.freeIdentifiers, Token.freeName?_of_not_opening hnext]
    rfl
  | call function hname argument ih => exact ih
  | group inner ih => exact ih

/-- The variables of the tree are the free names of the tokens. -/
theorem occurrences_of_ofTokens {root : Expr α} (h : ofTokens tokens = .ok root) :
    root.occurrences = Token.freeIdentifiers tokens := by
  obtain ⟨d, rfl⟩ := ofTokens_eq_ok_iff.mp h
  obtain ⟨names, hnames, htokens⟩ := d.brings
  rw [htokens]
  exact hnames.trans (List.append_nil names).symm

/-! Bindings of other names -/

theorem evaluate_congr {ar : Arithmetic α} {bindings other : String → Option (Operand α)}
    {e : Expr α} (h : ∀ name ∈ e.occurrences, bindings name = other name) :
    e.evaluate ar bindings = e.evaluate ar other := by
  induction e with
  | number value => rfl
  | var name =>
    rw [evaluate, evaluate, h name (List.mem_singleton_self name)]
  | negate inner ih => rw [evaluate, evaluate, ih h]
  | binary operator left right ihl ihr =>
    obtain ⟨hleft, hright⟩ := List.forall_mem_append.mp h
    rw [evaluate, evaluate, ihl hleft, ihr hright]
  | call function argument ih => rw [evaluate, evaluate, ih h]

end Expr

namespace Formula

open SignalMap.Expr

/-- The variables of a formula are the names that stand free in its text, in the order of
their first places and each of them once, and its value depends on no binding but theirs. -/
theorem freeNames_of_parse {source : String} {f : Formula} (h : parse source = .ok f) :
    ∃ tokens, Token.scan Numeric.readDecimal? source = .ok tokens ∧
      (∀ name, name ∈ f.root.freeNames ↔ ∃ place, Token.IsFree tokens name place) ∧
      f.root.freeNames.Pairwise (Token.FreeBefore tokens) ∧ f.root.freeNames.Nodup ∧
      ∀ (ar : Arithmetic Float) (bindings other : String → Option (Operand Float)),
        (∀ name ∈ f.root.freeNames, bindings name = other name) →
        f.root.evaluate ar bindings = f.root.evaluate ar other := by
  obtain ⟨root, hroot, hf⟩ := bind_eq_ok.mp h
  cases hf
  obtain ⟨tokens, hscan, htokens⟩ := bind_eq_ok.mp hroot
  have hfree := occurrences_of_ofTokens htokens
  have hmem : ∀ name, name ∈ root.freeNames ↔ ∃ place, Token.IsFree tokens name place := by
    intro name
    unfold freeNames
    rw [List.mem_eraseDups, hfree]
    exact Token.mem_freeIdentifiers_iff
  have hordered : root.freeNames.Pairwise (Token.FreeBefore tokens) := by
    unfold freeNames
    rw [hfree]
    refine (pairwise_eraseDups _).imp ?_
    rintro name other ⟨before, after, hsplit, hother⟩
    exact Token.freeBefore_of_split hsplit hother
  refine ⟨tokens, hscan, hmem, hordered, ?_, ?_⟩
  · refine hordered.imp ?_
    rintro name _ ⟨place, hplace, hfirst⟩ rfl
    exact absurd (hfirst place hplace) (Nat.lt_irrefl place)
  · intro ar bindings other hagree
    apply evaluate_congr
    intro name hname
    exact hagree name (List.mem_eraseDups.mpr hname)

def twiceNamed : Expr Float :=
  .binary .multiply (.var "b") (.binary .power (.call .log (.var "a")) (.var "b"))

/-- A name that stands twice, and one that is called. -/
theorem freeNames_of_parse_twice :
    parse "b*ln(a)^b" = .ok ⟨"b*ln(a)^b", twiceNamed⟩ ∧ twiceNamed.freeNames = ["b", "a"] ∧
      ∃ tokens, Token.scan Numeric.readDecimal? "b*ln(a)^b" = .ok tokens ∧
        ∀ name, name ∈ twiceNamed.freeNames ↔ ∃ place, Token.IsFree tokens name place := by
  have hlast : Token.Scans Numeric.readDecimal? ("b".toList ++ []) [.identifier "b"] :=
    Token.scans_nil.name Token.separated_nil (by decide)
  have hargument : Token.Scans Numeric.readDecimal? ("a".toList ++ ")^b".toList)
      [.identifier "a", .closing, .operator .power, .identifier "b"] :=
    ((hlast.ofChar rfl).ofChar rfl).name (Token.separated_cons _ rfl (by decide)) (by decide)
  have hcall : Token.Scans Numeric.readDecimal? ("ln".toList ++ "(a)^b".toList)
      [.identifier "ln", .opening, .identifier "a", .closing, .operator .power,
        .identifier "b"] :=
    (hargument.ofChar rfl).name (Token.separated_cons _ rfl (by decide)) (by decide)
  have hfirst : Token.Scans Numeric.readDecimal? ("b".toList ++ "*ln(a)^b".toList)
      [.identifier "b", .operator .multiply, .identifier "ln", .opening, .identifier "a",
        .closing, .operator .power, .identifier "b"] :=
    (hcall.ofChar rfl).name (Token.separated_cons _ rfl (by decide)) (by decide)
  have hscan : Token.scan Numeric.readDecimal? "b*ln(a)^b" =
      .ok [.identifier "b", .operator .multiply, .identifier "ln", .opening, .identifier "a",
        .closing, .operator .power, .identifier "b"] := hfirst 0
  have htrim : Text.trim "b*ln(a)^b" = "b*ln(a)^b" := by decide
  have hparse : parse "b*ln(a)^b" = .ok ⟨"b*ln(a)^b", twiceNamed⟩ := by
    rw [parse_of_scan hscan, htrim]
    rfl
  obtain ⟨tokens, htokens, hmem, _⟩ := freeNames_of_parse hparse
  exact ⟨hparse, by decide, tokens, htokens, hmem⟩

end Formula

end SignalMap
