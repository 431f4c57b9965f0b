import SignalMap.Expr.Token
import SignalMap.Proofs.Result
import SignalMap.Proofs.Text.Trimming

/-!
The spelling of tokens. A numeral made of digits and points, and a name, end
where a character comes that could not be part of either; in front of such a
place each of them is one token again.
-/

namespace SignalMap.Token

variable {α : Type} {literal? : List Char → Option α}

def IsName : List Char → Prop
  | [] => False
  | c :: rest => startsName c ∧ rest.all continuesName

instance : DecidablePred IsName
  | [] => inferInstanceAs (Decidable False)
  | c :: rest => inferInstanceAs (Decidable (startsName c ∧ rest.all continuesName))

def IsNumeral (cs : List Char) : Prop :=
  cs ≠ [] ∧ cs.all startsNumber

instance : DecidablePred IsNumeral := fun cs =>
  inferInstanceAs (Decidable (cs ≠ [] ∧ cs.all startsNumber))

def Spelled (literal? : List Char → Option α) : Token α → Prop
  | number value => ∃ c rest, startsNumber c ∧ literal? (c :: rest) = some value
  | identifier name => IsName name.toList
  | operator _ => True
  | opening => True
  | closing => True

def Separated (cs : List Char) : Prop :=
  ∀ c, cs.head? = some c → continuesName c = false ∧ c ≠ '.'

theorem separated_nil : Separated [] := by
  rintro c ⟨⟩

theorem separated_cons {c : Char} (rest : List Char) (hname : continuesName c = false)
    (hpoint : c ≠ '.') : Separated (c :: rest) := by
  rintro d ⟨⟩
  exact ⟨hname, hpoint⟩

/-! Classes of characters -/

theorem toNat_of_startsNumber {c : Char} (h : startsNumber c) :
    46 ≤ c.toNat ∧ c.toNat ≤ 57 := by
  change (decide (48 ≤ c.toNat) && decide (c.toNat ≤ 57) || c == '.') = true at h
  simp only [Bool.or_eq_true, Bool.and_eq_true, decide_eq_true_eq, beq_iff_eq] at h
  rcases h with h | rfl
  · omega
  · decide

theorem toNat_of_startsName {c : Char} (h : startsName c) : 65 ≤ c.toNat ∧ c.toNat ≤ 122 := by
  change (decide (65 ≤ c.toNat ∧ c.toNat ≤ 90) ||
    decide (97 ≤ c.toNat) && decide (c.toNat ≤ 122) || c == '_') = true at h
  simp only [Bool.or_eq_true, Bool.and_eq_true, decide_eq_true_eq, beq_iff_eq] at h
  rcases h with (h | h) | rfl
  · omega
  · omega
  · decide

theorem not_isBlank_of_startsNumber {c : Char} (h : startsNumber c) : ¬ Text.isBlank c := by
  have hrange := toNat_of_startsNumber h
  exact Text.not_isBlank_of_graphic (by omega) (by omega)

theorem not_isBlank_of_startsName {c : Char} (h : startsName c) : ¬ Text.isBlank c := by
  have hrange := toNat_of_startsName h
  exact Text.not_isBlank_of_graphic (by omega) (by omega)

theorem not_startsNumber_of_startsName {c : Char} (h : startsName c) : ¬ startsNumber c := by
  intro hnumber
  have hname := toNat_of_startsName h
  have hnumber := toNat_of_startsNumber hnumber
  omega

/-- No digit and no point is an exponent mark. -/
theorem not_mark_of_startsNumber {c : Char} (h : startsNumber c) :
    (c == 'e' || c == 'E') = false := by
  have hrange := toNat_of_startsNumber h
  have he : c ≠ 'e' := by
    rintro rfl
    exact absurd hrange (by decide)
  have hE : c ≠ 'E' := by
    rintro rfl
    exact absurd hrange (by decide)
  simp [he, hE]

theorem not_isBlank_of_ofChar? {c : Char} {token : Token α} (h : ofChar? c = some token) :
    ¬ Text.isBlank c := by
  unfold ofChar? at h
  split at h
  all_goals first
    | decide
    | cases h

theorem ofChar?_of_startsNumber {c : Char} (h : startsNumber c) :
    (ofChar? c : Option (Token α)) = none := by
  unfold ofChar?
  split
  all_goals first
    | rfl
    | exact absurd h (by decide)

theorem ofChar?_of_startsName {c : Char} (h : startsName c) :
    (ofChar? c : Option (Token α)) = none := by
  unfold ofChar?
  split
  all_goals first
    | rfl
    | exact absurd h (by decide)

/-! One step of the scan -/

theorem scanFrom_blank {c : Char} (h : Text.isBlank c) (offset : Nat) (rest : List Char) :
    scanFrom literal? offset (c :: rest) = scanFrom literal? (offset + c.utf8Size) rest := by
  rw [scanFrom, if_pos h]

theorem scanFrom_space (offset : Nat) (rest : List Char) :
    scanFrom literal? offset (' ' :: rest) = scanFrom literal? (offset + 1) rest :=
  scanFrom_blank (by decide) offset rest

theorem scanFrom_ofChar {c : Char} {token : Token α} (h : ofChar? c = some token) (offset : Nat)
    (rest : List Char) :
    scanFrom literal? offset (c :: rest) =
      (do let tokens ← scanFrom literal? (offset + c.utf8Size) rest
          return token :: tokens) := by
  rw [scanFrom, if_neg (not_isBlank_of_ofChar? h), h]

theorem scanFrom_numeral {c : Char} (h : startsNumber c) (offset : Nat) (rest : List Char) :
    scanFrom literal? offset (c :: rest) =
      match literal? (c :: (spanNumber false rest).1) with
      | some value => do
        let tokens ← scanFrom literal?
          (offset + Text.byteLength (c :: (spanNumber false rest).1)) (spanNumber false rest).2
        return number value :: tokens
      | none => .error (.invalidNumber (String.ofList (c :: (spanNumber false rest).1))) := by
  rw [scanFrom, if_neg (not_isBlank_of_startsNumber h), ofChar?_of_startsNumber h]
  exact if_pos h

theorem scanFrom_number {c : Char} (h : startsNumber c) {rest : List Char} {value : α}
    (hvalue : literal? (c :: (spanNumber false rest).1) = some value) (offset : Nat) :
    scanFrom literal? offset (c :: rest) =
      (do let tokens ← scanFrom literal?
            (offset + Text.byteLength (c :: (spanNumber false rest).1)) (spanNumber false rest).2
          return number value :: tokens) := by
  rw [scanFrom_numeral h, hvalue]

theorem scanFrom_invalidNumber {c : Char} (h : startsNumber c) {rest : List Char}
    (hvalue : literal? (c :: (spanNumber false rest).1) = none) (offset : Nat) :
    scanFrom literal? offset (c :: rest) =
      .error (.invalidNumber (String.ofList (c :: (spanNumber false rest).1))) := by
  rw [scanFrom_numeral h, hvalue]

theorem scanFrom_name {c : Char} (h : startsName c) (offset : Nat) (rest : List Char) :
    scanFrom literal? offset (c :: rest) =
      (do let tokens ← scanFrom literal?
            (offset + Text.byteLength (c :: rest.takeWhile continuesName))
            (rest.dropWhile continuesName)
          return identifier (String.ofList (c :: rest.takeWhile continuesName)) :: tokens) := by
  rw [scanFrom, if_neg (not_isBlank_of_startsName h), ofChar?_of_startsName h]
  exact (if_neg (not_startsNumber_of_startsName h)).trans (if_pos h)

theorem scanFrom_unexpected {c : Char} (hblank : ¬ Text.isBlank c)
    (hchar : (ofChar? c : Option (Token α)) = none) (hnumber : ¬ startsNumber c)
    (hname : ¬ startsName c) (offset : Nat) (rest : List Char) :
    scanFrom literal? offset (c :: rest) = .error (.unexpectedCharacter c offset) := by
  rw [scanFrom, if_neg hblank, hchar]
  exact (if_neg hnumber).trans (if_neg hname)

/-! Tokens of a text -/

theorem spelled_of_ofChar? {c : Char} {token : Token α} (h : ofChar? c = some token) :
    token.Spelled literal? := by
  unfold ofChar? at h
  split at h
  all_goals first
    | trivial
    | cases h; trivial

/-- A property of the first token and of the tokens behind it. -/
theorem forall_mem_of_cons {p : Token α → Prop} {token : Token α} {tokens : List (Token α)}
    {behind : Except (ExprFault α) (List (Token α))}
    (h : (do let more ← behind; return token :: more) = .ok tokens) (htoken : p token)
    (hmore : ∀ {more}, behind = .ok more → ∀ t ∈ more, p t) : ∀ t ∈ tokens, p t := by
  obtain ⟨more, hbehind, htokens⟩ := bind_eq_ok.mp h
  cases htokens
  exact List.forall_mem_cons.mpr ⟨htoken, hmore hbehind⟩

/-- Every token of a text has a spelling. -/
theorem spelled_of_scanFrom {offset : Nat} {cs : List Char} {tokens : List (Token α)}
    (h : scanFrom literal? offset cs = .ok tokens) :
    ∀ token ∈ tokens, token.Spelled literal? := by
  fun_induction scanFrom literal? offset cs generalizing tokens
  case case1 =>
    cases h
    exact List.forall_mem_nil _
  case case2 ih => exact ih h
  case case3 hchar ih => exact forall_mem_of_cons h (spelled_of_ofChar? hchar) ih
  case case4 hstart _ _ hvalue _ ih => exact forall_mem_of_cons h ⟨_, _, hstart, hvalue⟩ ih
  case case5 => cases h
  case case6 hstart _ _ ih =>
    refine forall_mem_of_cons h ?_ ih
    change IsName (String.ofList _).toList
    rw [String.toList_ofList]
    exact ⟨hstart, List.all_takeWhile⟩
  case case7 => cases h

/-! Texts that are spelled -/

def Scans (literal? : List Char → Option α) (cs : List Char) (tokens : List (Token α)) : Prop :=
  ∀ offset, scanFrom literal? offset cs = .ok tokens

theorem scans_nil : Scans literal? [] [] := by
  intro offset
  rw [scanFrom]

section Scans

variable {cs : List Char} {tokens : List (Token α)}

theorem Scans.space (h : Scans literal? cs tokens) : Scans literal? (' ' :: cs) tokens := by
  intro offset
  rw [scanFrom_space]
  exact h _

theorem Scans.ofChar (h : Scans literal? cs tokens) {c : Char} {token : Token α}
    (hc : ofChar? c = some token) : Scans literal? (c :: cs) (token :: tokens) := by
  intro offset
  rw [scanFrom_ofChar hc, h]
  rfl

theorem spanNumber_of_separated (h : Separated cs) : spanNumber false cs = ([], cs) := by
  cases cs with
  | nil => rfl
  | cons c rest =>
    obtain ⟨hname, hpoint⟩ := h c rfl
    change (c.isAlpha || c.isDigit || c == '_') = false at hname
    simp only [Bool.or_eq_false_iff] at hname
    have he : c ≠ 'e' := by
      rintro rfl
      exact absurd hname (by decide)
    have hE : c ≠ 'E' := by
      rintro rfl
      exact absurd hname (by decide)
    rw [spanNumber]
    simp [hname.1.2, hpoint, he, hE]

theorem spanNumber_append {taken : List Char} (htaken : taken.all startsNumber)
    (h : Separated cs) : spanNumber false (taken ++ cs) = (taken, cs) := by
  induction taken with
  | nil => exact spanNumber_of_separated h
  | cons c rest ih =>
    obtain ⟨hc, hrest⟩ := (Bool.and_eq_true _ _).mp htaken
    rw [List.cons_append, spanNumber]
    simp only [not_mark_of_startsNumber hc, ih hrest]
    simp only [startsNumber, Bool.or_eq_true, beq_iff_eq] at hc
    rcases hc with hc | hc <;> simp [hc]

theorem Scans.numeral (h : Scans literal? cs tokens) (hcs : Separated cs) {taken : List Char}
    {value : α} (htaken : IsNumeral taken) (hvalue : literal? taken = some value) :
    Scans literal? (taken ++ cs) (.number value :: tokens) := by
  intro offset
  obtain ⟨hne, hchars⟩ := htaken
  obtain ⟨c, rest, rfl⟩ := List.exists_cons_of_ne_nil hne
  obtain ⟨hc, hrest⟩ := (Bool.and_eq_true _ _).mp hchars
  rw [List.cons_append, scanFrom_numeral hc, spanNumber_append hrest hcs, hvalue]
  change (scanFrom literal? _ cs >>= fun tokens => _) = _
  rw [h]
  rfl

theorem takeWhile_of_separated (h : Separated cs) : cs.takeWhile continuesName = [] := by
  cases cs with
  | nil => rfl
  | cons c rest => rw [List.takeWhile_cons_of_neg (by simp [(h c rfl).1])]

theorem dropWhile_of_separated (h : Separated cs) : cs.dropWhile continuesName = cs := by
  cases cs with
  | nil => rfl
  | cons c rest => rw [List.dropWhile_cons_of_neg (by simp [(h c rfl).1])]

theorem Scans.name (h : Scans literal? cs tokens) (hcs : Separated cs) {name : String}
    (hname : IsName name.toList) :
    Scans literal? (name.toList ++ cs) (.identifier name :: tokens) := by
  intro offset
  obtain ⟨c, rest, htext⟩ : ∃ c rest, name.toList = c :: rest :=
    List.exists_cons_of_ne_nil fun hnil => (hnil ▸ hname : IsName [])
  rw [htext] at hname
  obtain ⟨hc, hrest⟩ := hname
  have hrest : ∀ d ∈ rest, continuesName d := List.all_eq_true.mp hrest
  have htake : (rest ++ cs).takeWhile continuesName = rest := by
    rw [List.takeWhile_append_of_pos hrest, takeWhile_of_separated hcs, List.append_nil]
  have hdrop : (rest ++ cs).dropWhile continuesName = cs := by
    rw [List.dropWhile_append_of_pos hrest, dropWhile_of_separated hcs]
  rw [htext, List.cons_append, scanFrom_name hc, htake, hdrop, h, ← htext, String.ofList_toList]
  rfl

end Scans

end SignalMap.Token
