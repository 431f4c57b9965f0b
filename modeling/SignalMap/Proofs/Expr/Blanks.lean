import SignalMap.Numeric.DecimalText
import SignalMap.Proofs.Expr.Lexemes

/-!
Tokens of texts with a blank between them. No token goes over a blank, so the tokens of
the whole are those of the left text and then those of the right one. What is wrong with
the left text is wrong with the whole, and what is wrong with the right text stands as
many bytes further on as there are in front of it.
-/

namespace SignalMap

namespace Text

theorem byteLength_toList (s : String) : byteLength s.toList = s.utf8ByteSize := by
  have hlist : ∀ cs : List Char, byteLength cs = (String.ofList cs).utf8ByteSize := by
    intro cs
    induction cs with
    | nil => rfl
    | cons c rest ih =>
      rw [String.ofList_cons, String.utf8ByteSize_append, String.utf8ByteSize_singleton, ← ih]
      rfl
  rw [hlist, String.ofList_toList]

/-- The bytes in front of a part and those of the part. -/
theorem add_byteLength_append {taken after cs : List Char} (h : taken ++ after = cs)
    (offset : Nat) (rest : List Char) :
    offset + byteLength taken + byteLength (after ++ rest) = offset + byteLength (cs ++ rest) := by
  rw [← h, List.append_assoc, byteLength_append taken, Nat.add_assoc]

/-- A character outside of a class ends what is taken of the class. -/
theorem takeWhile_append_of_stop {p : Char → Bool} {c : Char} (h : p c = false)
    (cs rest : List Char) : (cs ++ c :: rest).takeWhile p = cs.takeWhile p := by
  have hstop : (c :: rest).takeWhile p = [] := List.takeWhile_cons_of_neg (by simp [h])
  rw [List.takeWhile_append, hstop, List.append_nil]
  split
  next hall => exact ((List.takeWhile_prefix p).eq_of_length hall).symm
  next => rfl

theorem dropWhile_append_of_stop {p : Char → Bool} {c : Char} (h : p c = false)
    (cs rest : List Char) : (cs ++ c :: rest).dropWhile p = cs.dropWhile p ++ c :: rest := by
  have hstop : (c :: rest).dropWhile p = c :: rest := List.dropWhile_cons_of_neg (by simp [h])
  rw [List.dropWhile_append, hstop]
  split
  next hempty => rw [List.isEmpty_iff.mp hempty, List.nil_append]
  next => rfl

end Text

def ExprFault.behind {α : Type} (bytes : Nat) : ExprFault α → ExprFault α
  | .unexpectedCharacter c offset => .unexpectedCharacter c (bytes + offset)
  | fault => fault

namespace Token

variable {α : Type} {literal? : List Char → Option α} {w : Char}

/-! Nothing goes over a blank -/

theorem ne_of_isBlank {c : Char} (hw : Text.isBlank w) (hc : ¬ Text.isBlank c) : w ≠ c := by
  rintro rfl
  exact hc hw

theorem not_startsNumber_of_isBlank (hw : Text.isBlank w) : startsNumber w = false := by
  rw [Bool.eq_false_iff]
  intro hnumber
  exact not_isBlank_of_startsNumber hnumber hw

theorem not_continuesName_of_isBlank (hw : Text.isBlank w) : continuesName w = false := by
  have hname : startsName w = false := by
    rw [Bool.eq_false_iff]
    intro hname
    exact not_isBlank_of_startsName hname hw
  have hnumber := not_startsNumber_of_isBlank hw
  simp only [startsName, startsNumber, Bool.or_eq_false_iff] at hname hnumber
  simp [continuesName, Char.isAlphanum, hname, hnumber]

theorem spanNumber_blank (hw : Text.isBlank w) (afterMark : Bool) (rest : List Char) :
    spanNumber afterMark (w :: rest) = ([], w :: rest) := by
  have hnumber := not_startsNumber_of_isBlank hw
  simp only [startsNumber, Bool.or_eq_false_iff] at hnumber
  have he : w ≠ 'e' := ne_of_isBlank hw (by decide)
  have hE : w ≠ 'E' := ne_of_isBlank hw (by decide)
  have hplus : w ≠ '+' := ne_of_isBlank hw (by decide)
  have hminus : w ≠ '-' := ne_of_isBlank hw (by decide)
  rw [spanNumber]
  simp [hnumber, he, hE, hplus, hminus]

/-- The induction is over the characters of the number; whether a sign would still belong
to it changes from one to the next. -/
theorem spanNumber_append_blank (hw : Text.isBlank w) (afterMark : Bool) (cs rest : List Char) :
    spanNumber afterMark (cs ++ w :: rest) =
      ((spanNumber afterMark cs).1, (spanNumber afterMark cs).2 ++ w :: rest) := by
  induction cs generalizing afterMark with
  | nil => exact spanNumber_blank hw afterMark rest
  | cons c cs ih =>
    rw [List.cons_append, spanNumber, spanNumber]
    split
    next => simp only [ih]
    next => rfl

theorem spanNumber_eq_append (afterMark : Bool) (cs : List Char) :
    (spanNumber afterMark cs).1 ++ (spanNumber afterMark cs).2 = cs := by
  induction cs generalizing afterMark with
  | nil => rfl
  | cons c rest ih =>
    rw [spanNumber]
    split
    next => exact congrArg (c :: ·) (ih _)
    next => rfl

/-! Where a fault stands -/

/-- To put a token in front changes no fault. -/
theorem mapError_cons {move : ExprFault α → ExprFault α} (token : Token α)
    (behind : Except (ExprFault α) (List (Token α))) :
    (do let tokens ← behind.mapError move; return token :: tokens) =
      (do let tokens ← behind; return token :: tokens : Except _ _).mapError move := by
  cases behind with
  | error fault => rfl
  | ok tokens => rfl

/-- The tokens do not depend on where the text stands, and a fault moves with it. -/
theorem scanFrom_behind (bytes offset : Nat) (cs : List Char) :
    scanFrom literal? (bytes + offset) cs =
      (scanFrom literal? offset cs).mapError (.behind bytes) := by
  fun_induction scanFrom literal? offset cs with
  | case1 =>
    rw [scanFrom]
    rfl
  | case2 offset c rest hblank ih => rw [scanFrom_blank hblank, Nat.add_assoc, ih]
  | case3 offset c rest hblank token hchar ih =>
    rw [scanFrom_ofChar hchar, Nat.add_assoc, ih, mapError_cons]
  | case4 offset c rest hblank hchar hnumber taken value hvalue next ih =>
    rw [scanFrom_number hnumber hvalue, Nat.add_assoc, ih, mapError_cons]
  | case5 offset c rest hblank hchar hnumber taken hvalue =>
    rw [scanFrom_invalidNumber hnumber hvalue]
    rfl
  | case6 offset c rest hblank hchar hnumber hname taken next ih =>
    rw [scanFrom_name hname, Nat.add_assoc, ih, mapError_cons]
  | case7 offset c rest hblank hchar hnumber hname =>
    rw [scanFrom_unexpected hblank hchar hnumber hname]
    rfl

/-! Two texts with a blank between them -/

/-- Tokens in front of those of the text behind them. -/
theorem cons_bind_map (token : Token α) (left right : Except (ExprFault α) (List (Token α))) :
    (do let tokens ← left >>= fun tokens => right.map (tokens ++ ·); return token :: tokens) =
      (do let tokens ← left; return token :: tokens : Except _ _) >>=
        fun tokens => right.map (tokens ++ ·) := by
  cases left with
  | error fault => rfl
  | ok tokens =>
    cases right with
    | error fault => rfl
    | ok more => rfl

/-- The scan of the left text stops in front of the blank, and behind it the scan of the
right text begins. -/
theorem scanFrom_append_blank (hw : Text.isBlank w) (offset : Nat) (cs rest : List Char) :
    scanFrom literal? offset (cs ++ w :: rest) =
      scanFrom literal? offset cs >>= fun tokens =>
        (scanFrom literal? (offset + Text.byteLength (cs ++ [w])) rest).map (tokens ++ ·) := by
  fun_induction scanFrom literal? offset cs with
  | case1 offset =>
    rw [List.nil_append, scanFrom_blank hw]
    change scanFrom literal? (offset + w.utf8Size) rest =
      (scanFrom literal? (offset + w.utf8Size) rest).map id
    cases scanFrom literal? (offset + w.utf8Size) rest with
    | error fault => rfl
    | ok tokens => rfl
  | case2 offset c cs hblank ih =>
    rw [List.cons_append, scanFrom_blank hblank, ih, Nat.add_assoc]
    rfl
  | case3 offset c cs hblank token hchar ih =>
    rw [List.cons_append, scanFrom_ofChar hchar, ih, cons_bind_map, Nat.add_assoc]
    rfl
  | case4 offset c cs hblank hchar hnumber taken value hvalue next ih =>
    have hspan := spanNumber_append_blank hw false cs rest
    have htaken : taken ++ (spanNumber false cs).2 = c :: cs :=
      congrArg (c :: ·) (spanNumber_eq_append false cs)
    rw [List.cons_append, scanFrom_number hnumber (by rw [hspan]; exact hvalue), hspan, ih,
      cons_bind_map, ← Text.add_byteLength_append htaken]
  | case5 offset c cs hblank hchar hnumber taken hvalue =>
    have hspan := spanNumber_append_blank hw false cs rest
    rw [List.cons_append, scanFrom_invalidNumber hnumber (by rw [hspan]; exact hvalue), hspan]
    rfl
  | case6 offset c cs hblank hchar hnumber hname taken next ih =>
    have hstop := not_continuesName_of_isBlank hw
    have htaken : taken ++ cs.dropWhile continuesName = c :: cs :=
      congrArg (c :: ·) List.takeWhile_append_dropWhile
    rw [List.cons_append, scanFrom_name hname, Text.takeWhile_append_of_stop hstop,
      Text.dropWhile_append_of_stop hstop, ih, cons_bind_map, ← Text.add_byteLength_append htaken]
  | case7 offset c cs hblank hchar hnumber hname =>
    rw [List.cons_append, scanFrom_unexpected hblank hchar hnumber hname]
    rfl

/-! Faults that are true of the text -/

/-- What the fault tells of a text that begins at the offset: the character stands at its
place, or the number is a part of the text. Other faults come after the scan. -/
def Tells (offset : Nat) (cs : List Char) : ExprFault α → Prop
  | .unexpectedCharacter c place =>
    ∃ before after, cs = before ++ c :: after ∧ place = offset + Text.byteLength before
  | .invalidNumber numeral => numeral.toList <:+: cs
  | _ => False

theorem Tells.append {taken after cs : List Char} (h : taken ++ after = cs) {offset : Nat}
    {fault : ExprFault α} (hfault : Tells (offset + Text.byteLength taken) after fault) :
    Tells offset cs fault := by
  cases fault with
  | unexpectedCharacter c place =>
    obtain ⟨before, behind, rfl, rfl⟩ := hfault
    refine ⟨taken ++ before, behind, ?_, ?_⟩
    · rw [← h, List.append_assoc]
    · rw [Text.byteLength_append, Nat.add_assoc]
  | invalidNumber numeral =>
    rw [← h]
    exact hfault.trans (List.suffix_append taken after).isInfix
  | empty => exact hfault.elim
  | unknownFunction name => exact hfault.elim
  | unexpectedToken found expected => exact hfault.elim

theorem tells_of_cons {taken after cs : List Char} (htaken : taken ++ after = cs) {offset : Nat}
    {fault : ExprFault α} {token : Token α} {behind : Except (ExprFault α) (List (Token α))}
    (h : (do let tokens ← behind; return token :: tokens) = .error fault)
    (ih : behind = .error fault → Tells (offset + Text.byteLength taken) after fault) :
    Tells offset cs fault := by
  rcases bind_eq_error.mp h with hbehind | ⟨_, _, hnone⟩
  · exact (ih hbehind).append htaken
  · cases hnone

theorem tells_of_scanFrom {offset : Nat} {cs : List Char} {fault : ExprFault α}
    (h : scanFrom literal? offset cs = .error fault) : Tells offset cs fault := by
  fun_induction scanFrom literal? offset cs with
  | case1 => cases h
  | case2 offset c rest hblank ih => exact (ih h).append List.singleton_append
  | case3 offset c rest hblank token hchar ih =>
    exact tells_of_cons List.singleton_append h ih
  | case4 offset c rest hblank hchar hnumber taken value hvalue next ih =>
    exact tells_of_cons (congrArg (c :: ·) (spanNumber_eq_append false rest)) h ih
  | case5 offset c rest hblank hchar hnumber taken hvalue =>
    cases h
    change (String.ofList taken).toList <:+: c :: rest
    rw [String.toList_ofList]
    exact ⟨[], (spanNumber false rest).2, congrArg (c :: ·) (spanNumber_eq_append false rest)⟩
  | case6 offset c rest hblank hchar hnumber hname taken next ih =>
    exact tells_of_cons (congrArg (c :: ·) List.takeWhile_append_dropWhile) h ih
  | case7 offset c rest hblank hchar hnumber hname =>
    cases h
    exact ⟨[], rest, rfl, rfl⟩

/-- A text that begins with another one and a blank. -/
theorem scan_append_singleton (literal? : List Char → Option α) (hw : Text.isBlank w)
    (left right : String) :
    scan literal? (left ++ String.singleton w ++ right) =
      scan literal? left >>= fun tokens =>
        ((scan literal? right).mapError (.behind (left.utf8ByteSize + w.utf8Size))).map
          (tokens ++ ·) := by
  have htext : (left ++ String.singleton w ++ right).toList = left.toList ++ w :: right.toList := by
    simp
  have hsize : Text.byteLength (left.toList ++ [w]) = left.utf8ByteSize + w.utf8Size := by
    rw [Text.byteLength_append, Text.byteLength_toList]
    rfl
  unfold scan
  rw [htext, scanFrom_append_blank hw, hsize, ← scanFrom_behind]
  simp only [Nat.zero_add, Nat.add_zero]

/-- Scanning goes through a blank. Where the left text has tokens, those of the whole are
these and the tokens of the right one, and a character that the right one must not hold
is found as many bytes further on as the left text and the blank take. Where the left
text has none, the whole fails as it does. What is reported is true of the text. -/
theorem scan_append_blank (literal? : List Char → Option α) (hw : Text.isBlank w)
    (left right : String) :
    (∀ tokens, scan literal? left = .ok tokens →
      (∀ all, scan literal? (left ++ String.singleton w ++ right) = .ok all ↔
        ∃ more, scan literal? right = .ok more ∧ all = tokens ++ more) ∧
      (∀ c offset, scan literal? right = .error (.unexpectedCharacter c offset) →
        scan literal? (left ++ String.singleton w ++ right) =
          .error (.unexpectedCharacter c (left.utf8ByteSize + w.utf8Size + offset))) ∧
      (∀ numeral, scan literal? right = .error (.invalidNumber numeral) →
        scan literal? (left ++ String.singleton w ++ right) = .error (.invalidNumber numeral))) ∧
    (∀ fault, scan literal? left = .error fault →
      scan literal? (left ++ String.singleton w ++ right) = .error fault) ∧
    (∀ text fault, scan literal? text = .error fault → Tells 0 text.toList fault) := by
  have hwhole := scan_append_singleton literal? hw left right
  refine ⟨?_, ?_, ?_⟩
  · intro tokens hleft
    rw [hleft] at hwhole
    refine ⟨?_, ?_, ?_⟩
    · intro all
      rw [hwhole]
      change Except.map _ _ = .ok all ↔ _
      rw [map_eq_ok]
      simp only [mapError_eq_ok]
      exact exists_congr fun more => and_congr_right fun _ => eq_comm
    · intro c offset hright
      rw [hwhole, hright]
      rfl
    · intro numeral hright
      rw [hwhole, hright]
      rfl
  · intro fault hleft
    rw [hwhole, hleft]
    rfl
  · intro text fault hfault
    exact tells_of_scanFrom hfault

/-- A blank of two bytes in front of a character that is none of an expression. -/
theorem scan_append_blank_wide :
    Text.isBlank '\u00a0' ∧
      scan Numeric.readDecimal? "x" = .ok [.identifier "x"] ∧
      scan Numeric.readDecimal? " $" = .error (.unexpectedCharacter '$' 1) ∧
      scan Numeric.readDecimal? ("x" ++ String.singleton '\u00a0' ++ " $") =
        .error (.unexpectedCharacter '$' 4) := by
  have hblank : Text.isBlank '\u00a0' := by decide
  have hname : Scans Numeric.readDecimal? ("x".toList ++ []) [.identifier "x"] :=
    scans_nil.name separated_nil (by decide)
  have hleft : scan Numeric.readDecimal? "x" = .ok [.identifier "x"] := hname 0
  have hright : scan Numeric.readDecimal? " $" = .error (.unexpectedCharacter '$' 1) :=
    (scanFrom_space 0 ['$']).trans
      (scanFrom_unexpected (by decide) rfl (by decide) (by decide) 1 [])
  obtain ⟨hok, _⟩ := scan_append_blank Numeric.readDecimal? hblank "x" " $"
  obtain ⟨_, hunexpected, _⟩ := hok _ hleft
  exact ⟨hblank, hleft, hright, hunexpected '$' 1 hright⟩

end Token

end SignalMap
