import SignalMap.Proofs.Selection.Slices
import SignalMap.Proofs.Text.Splitting

/-!
The texts of a selector. Its bounds and its step stand between colons, a bound that is
left out is blank, and a step of one may be left out as well. Blanks around each part, a
pair of brackets around them all and blanks around the whole say nothing, so a selector
has many texts, and it is read back from each of them. Whatever else is read takes an
index for every placeholder of its text.
-/

namespace SignalMap

def Bound.chars : Bound → List Char
  | .literal n => (toString n).toList
  | .placeholder => ['#']

namespace Selector

def boundChars : Option Bound → List Char
  | none => []
  | some bound => bound.chars

inductive HasParts : List (List Char) → Selector → Prop
  | index (bound : Bound) : HasParts [bound.chars] (.index bound)
  | pair (start stop : Option Bound) :
      HasParts [boundChars start, boundChars stop] (.range start stop 1)
  | triple (start stop : Option Bound) (step : Nat) :
      HasParts [boundChars start, boundChars stop, (toString step).toList] (.range start stop step)

def Writes (text : String) (s : Selector) : Prop :=
  ∃ parts padded whole, HasParts parts s ∧ List.Forall₂ Text.Padded parts padded ∧
    (whole = List.intercalate [':'] padded ∨
      whole = '[' :: List.intercalate [':'] padded ++ [']']) ∧
    Text.Padded whole text.toList

structure Fits (s : Selector) : Prop where
  inWords : s.InWords
  advances : s.Advances
  step : ∀ start stop step, s = .range start stop step → step ≤ Text.maxUnsigned

/-! Parts that are read -/

variable {cs : List Char} {parts pieces : List (List Char)} {s : Selector}

theorem parseBound_trimChars (cs : List Char) : parseBound (Text.trimChars cs) = parseBound cs := by
  unfold parseBound
  rw [Text.trimChars_trimChars]

theorem parseStep_trimChars (cs : List Char) : parseStep (Text.trimChars cs) = parseStep cs := by
  unfold parseStep
  rw [Text.trimChars_trimChars]

/-- Blanks around the parts do not matter. -/
theorem reads_map_trimChars : Reads (parts.map Text.trimChars) s ↔ Reads parts s := by
  constructor
  · intro h
    generalize htrimmed : parts.map Text.trimChars = trimmed at h
    cases h with
    | index hbound =>
      obtain ⟨_, _, rfl, rfl, hnil⟩ := List.map_eq_cons_iff.mp htrimmed
      obtain rfl := List.map_eq_nil_iff.mp hnil
      exact .index (parseBound_trimChars _ ▸ hbound)
    | pair hstart hstop =>
      obtain ⟨_, _, rfl, rfl, hstops⟩ := List.map_eq_cons_iff.mp htrimmed
      obtain ⟨_, _, rfl, rfl, hnil⟩ := List.map_eq_cons_iff.mp hstops
      obtain rfl := List.map_eq_nil_iff.mp hnil
      exact .pair (parseBound_trimChars _ ▸ hstart) (parseBound_trimChars _ ▸ hstop)
    | triple hstart hstop hstep =>
      obtain ⟨_, _, rfl, rfl, hstops⟩ := List.map_eq_cons_iff.mp htrimmed
      obtain ⟨_, _, rfl, rfl, hsteps⟩ := List.map_eq_cons_iff.mp hstops
      obtain ⟨_, _, rfl, rfl, hnil⟩ := List.map_eq_cons_iff.mp hsteps
      obtain rfl := List.map_eq_nil_iff.mp hnil
      exact .triple (parseBound_trimChars _ ▸ hstart) (parseBound_trimChars _ ▸ hstop)
        (parseStep_trimChars _ ▸ hstep)
  · intro h
    cases h with
    | index hbound => exact .index ((parseBound_trimChars _).trans hbound)
    | pair hstart hstop =>
      exact .pair ((parseBound_trimChars _).trans hstart) ((parseBound_trimChars _).trans hstop)
    | triple hstart hstop hstep =>
      exact .triple ((parseBound_trimChars _).trans hstart) ((parseBound_trimChars _).trans hstop)
        ((parseStep_trimChars _).trans hstep)

theorem parseBound_of_signed? {n : Int} (h : Text.signed? (Text.trimChars cs) = some n) :
    parseBound cs = .ok (some (.literal n)) := by
  unfold parseBound
  split
  next hempty =>
    rw [hempty] at h
    cases h
  next hmark =>
    rw [hmark] at h
    cases h
  next => rw [h]

theorem parseStep_of_unsigned? {n : Nat} (h : Text.unsigned? (Text.trimChars cs) = some n)
    (hn : 1 ≤ n) : parseStep cs = .ok n := by
  unfold parseStep
  split
  next hempty =>
    rw [hempty] at h
    cases h
  next =>
    rw [h]
    split
    next hzero =>
      cases hzero
      cases hn
    next hsome =>
      cases hsome
      rfl
    next hnone => cases hnone

/-! Parts that are written -/

def IsPlain (c : Char) : Prop :=
  c.isDigit = true ∨ c = '+' ∨ c = '-' ∨ c = '#'

instance : DecidablePred IsPlain := fun c =>
  inferInstanceAs (Decidable (c.isDigit = true ∨ c = '+' ∨ c = '-' ∨ c = '#'))

theorem IsPlain.not_isBlank {c : Char} (h : IsPlain c) : ¬ Text.isBlank c := by
  rcases h with hdigit | rfl | rfl | rfl
  · exact Text.not_isBlank_of_isDigit hdigit
  · decide
  · decide
  · decide

theorem isPlain_chars {bound : Bound} (hword : ∀ n, bound = .literal n → Text.IsSigned n) {c : Char}
    (hc : c ∈ bound.chars) : IsPlain c := by
  cases bound with
  | placeholder => exact Or.inr (Or.inr (Or.inr (List.mem_singleton.mp hc)))
  | literal n =>
    rcases Text.mem_of_signed? (Text.signed?_toString (hword n rfl)) hc with hdigit | hplus | hminus
    · exact Or.inl hdigit
    · exact Or.inr (Or.inl hplus)
    · exact Or.inr (Or.inr (Or.inl hminus))

theorem parseBound_chars {bound : Bound} (hword : ∀ n, bound = .literal n → Text.IsSigned n) :
    parseBound bound.chars = .ok (some bound) := by
  have htrim : Text.trimChars bound.chars = bound.chars :=
    Text.trimChars_of_not_blank fun _ hc => (isPlain_chars hword hc).not_isBlank
  cases bound with
  | placeholder => rfl
  | literal n =>
    refine parseBound_of_signed? ?_
    rw [htrim]
    exact Text.signed?_toString (hword n rfl)

theorem isPlain_boundChars {bound? : Option Bound}
    (hword : ∀ n, .literal n ∈ bound? → Text.IsSigned n) {c : Char} (hc : c ∈ boundChars bound?) :
    IsPlain c := by
  cases bound? with
  | none => cases hc
  | some bound => exact isPlain_chars (fun n hn => hword n (hn ▸ rfl)) hc

theorem parseBound_boundChars {bound? : Option Bound}
    (hword : ∀ n, .literal n ∈ bound? → Text.IsSigned n) :
    parseBound (boundChars bound?) = .ok bound? := by
  cases bound? with
  | none => rfl
  | some bound => exact parseBound_chars fun n hn => hword n (hn ▸ rfl)

theorem isPlain_step {step : Nat} (hstep : step ≤ Text.maxUnsigned) {c : Char}
    (hc : c ∈ (toString step).toList) : IsPlain c := by
  rcases Text.mem_of_unsigned? (Text.unsigned?_toString hstep) hc with hdigit | hplus
  · exact Or.inl hdigit
  · exact Or.inr (Or.inl hplus)

theorem parseStep_toString {step : Nat} (hstep : step ≤ Text.maxUnsigned) (hone : 1 ≤ step) :
    parseStep (toString step).toList = .ok step := by
  refine parseStep_of_unsigned? ?_ hone
  rw [Text.trimChars_of_not_blank fun _ hc => (isPlain_step hstep hc).not_isBlank]
  exact Text.unsigned?_toString hstep

theorem HasParts.reads (h : HasParts parts s) (hfits : s.Fits) : Reads parts s := by
  obtain ⟨hwords, hadvances, hstep⟩ := hfits
  cases h with
  | index bound => exact .index (parseBound_chars hwords.index)
  | pair start stop =>
    exact .pair (parseBound_boundChars hwords.start) (parseBound_boundChars hwords.stop)
  | triple start stop step =>
    exact .triple (parseBound_boundChars hwords.start) (parseBound_boundChars hwords.stop)
      (parseStep_toString (hstep start stop step rfl) hadvances)

theorem HasParts.isPlain (h : HasParts parts s) (hfits : s.Fits) :
    ∀ part ∈ parts, ∀ c ∈ part, IsPlain c := by
  obtain ⟨hwords, _, hstep⟩ := hfits
  cases h with
  | index bound =>
    intro part hpart c hc
    obtain rfl := List.mem_singleton.mp hpart
    exact isPlain_chars hwords.index hc
  | pair start stop =>
    refine List.forall_mem_cons.mpr ⟨fun _ => isPlain_boundChars hwords.start, ?_⟩
    exact List.forall_mem_singleton.mpr fun _ => isPlain_boundChars hwords.stop
  | triple start stop step =>
    refine List.forall_mem_cons.mpr ⟨fun _ => isPlain_boundChars hwords.start, ?_⟩
    refine List.forall_mem_cons.mpr ⟨fun _ => isPlain_boundChars hwords.stop, ?_⟩
    exact List.forall_mem_singleton.mpr fun _ => isPlain_step (hstep start stop step rfl)

/-! The body of a text -/

/-- Without brackets only the blanks around the text are taken away. -/
theorem body_eq_trimChars {text : String} (hopen : '[' ∉ cs) (hclose : ']' ∉ cs)
    (h : Text.Padded cs text.toList) : body text = Text.trimChars cs := by
  unfold body
  rw [h.trimChars_eq, Text.dropWhile_of_not_mem (mt Text.mem_of_mem_trimChars hopen),
    Text.dropRightWhile_of_not_mem (mt Text.mem_of_mem_trimChars hclose)]

/-- A pair of brackets is taken away with the blanks around it. -/
theorem body_of_brackets {text : String} (hopen : '[' ∉ cs) (hclose : ']' ∉ cs)
    (h : Text.Padded ('[' :: cs ++ [']']) text.toList) : body text = cs := by
  have htrim : Text.trimChars ('[' :: cs ++ [']']) = '[' :: (cs ++ [']']) := by
    unfold Text.trimChars
    rw [List.cons_append, List.dropWhile_cons_of_neg (by decide), ← List.cons_append]
    exact Text.dropRightWhile_of_last (by decide)
  have hinside : '[' ∉ cs ++ [']'] := by
    rw [List.mem_append, List.mem_singleton]
    exact not_or.mpr ⟨hopen, by decide⟩
  unfold body
  rw [h.trimChars_eq, htrim, List.dropWhile_cons_of_pos (by decide),
    Text.dropWhile_of_not_mem hinside, Text.dropRightWhile_append cs (by decide),
    Text.dropRightWhile_of_not_mem hclose]

theorem padded_body {text : String} (hopen : '[' ∉ cs) (hclose : ']' ∉ cs) {whole : List Char}
    (hwhole : whole = cs ∨ whole = '[' :: cs ++ [']']) (h : Text.Padded whole text.toList) :
    Text.Padded (body text) cs := by
  rcases hwhole with rfl | rfl
  · rw [body_eq_trimChars hopen hclose h]
    exact .of_trimChars whole
  · rw [body_of_brackets hopen hclose h]
    exact .refl cs

/-- Blanks around plain characters bring no other ones. -/
theorem not_mem_padded {padded : List (List Char)} {c : Char} (hc : ¬ IsPlain c)
    (hblank : Text.isBlank c = false) (hplain : ∀ part ∈ parts, ∀ c ∈ part, IsPlain c)
    (hpadded : List.Forall₂ Text.Padded parts padded) : ∀ piece ∈ padded, c ∉ piece := by
  intro piece hpiece hmem
  obtain ⟨part, hpart, hpad⟩ := exists_of_forall₂ hpadded hpiece
  exact hc (hplain part hpart c (hpad.mem hblank hmem))

/-- A selector is read from every text that it has. -/
theorem parse_of_writes {text : String} (hfits : s.Fits) (h : Writes text s) :
    parse text = .ok s := by
  obtain ⟨parts, padded, whole, hparts, hpadded, hwhole, htext⟩ := h
  have hplain := hparts.isPlain hfits
  have hne : padded ≠ [] := by
    rintro rfl
    cases hpadded
    cases hparts
  have hsplit : Text.splitOn ':' (List.intercalate [':'] padded) = padded :=
    Text.splitOn_intercalate hne (not_mem_padded (by decide) (by decide) hplain hpadded)
  have hopen : '[' ∉ List.intercalate [':'] padded :=
    Text.not_mem_of_pieces hsplit (by decide)
      (not_mem_padded (by decide) (by decide) hplain hpadded)
  have hclose : ']' ∉ List.intercalate [':'] padded :=
    Text.not_mem_of_pieces hsplit (by decide)
      (not_mem_padded (by decide) (by decide) hplain hpadded)
  -- the body may lack blanks at its ends, so its pieces are the padded parts up to blanks
  have hpieces : List.Forall₂ Text.Padded (Text.splitOn ':' (body text)) padded :=
    hsplit ▸ (padded_body hopen hclose hwhole htext).splitOn (by decide)
  have htrimmed : (Text.splitOn ':' (body text)).map Text.trimChars = parts.map Text.trimChars := by
    rw [← Text.map_trimChars_of_padded hpadded, Text.map_trimChars_of_padded hpieces]
  rw [parse_eq_ok_iff, ← reads_map_trimChars, htrimmed, reads_map_trimChars]
  exact hparts.reads hfits

/-! Placeholders -/

theorem count_of_parseBound {bound? : Option Bound} (h : parseBound cs = .ok bound?) :
    cs.count '#' = bound?.toList.countP (· == .placeholder) := by
  rw [← Text.count_trimChars (by decide) cs]
  unfold parseBound at h
  split at h
  next hempty =>
    cases h
    rw [hempty]
    rfl
  next hmark =>
    cases h
    rw [hmark]
    rfl
  next =>
    split at h
    next hsigned =>
      cases h
      refine List.count_eq_zero.mpr fun hmem => ?_
      exact absurd (Text.mem_of_signed? hsigned hmem) (by decide)
    next => cases h

theorem count_of_parseStep {step : Nat} (h : parseStep cs = .ok step) : cs.count '#' = 0 := by
  rw [← Text.count_trimChars (by decide) cs]
  unfold parseStep at h
  split at h
  next hempty => rw [hempty, List.count_nil]
  next =>
    split at h
    next => cases h
    next hunsigned =>
      refine List.count_eq_zero.mpr fun hmem => ?_
      exact absurd (Text.mem_of_unsigned? hunsigned hmem) (by decide)
    next => cases h

/-- A selector takes as many indices as its parts have placeholders. -/
theorem Reads.placeholderCount (h : Reads parts s) :
    s.placeholderCount = parts.flatten.count '#' := by
  unfold Selector.placeholderCount
  cases h with
  | index hbound => simp [bounds, count_of_parseBound hbound]
  | pair hstart hstop =>
    simp [bounds, List.countP_append, count_of_parseBound hstart, count_of_parseBound hstop]
  | triple hstart hstop hstep =>
    simp [bounds, List.countP_append, count_of_parseBound hstart, count_of_parseBound hstop,
      count_of_parseStep hstep]

theorem count_body (text : String) : (body text).count '#' = text.toList.count '#' := by
  unfold body
  rw [Text.count_dropRightWhile (by decide), Text.count_dropWhile (by decide),
    Text.count_trimChars (by decide)]

/-- A selector whose numbers are words is read back from each of its texts, and whatever
is read has a step of at least one and takes as many indices as the text has
placeholders. -/
theorem parse_writes (text : String) (s : Selector) :
    (s.Fits → Writes text s → parse text = .ok s) ∧
      (parse text = .ok s → s.Advances ∧ s.placeholderCount = text.toList.count '#') := by
  refine ⟨parse_of_writes, ?_⟩
  intro h
  have hreads := parse_eq_ok_iff.mp h
  refine ⟨hreads.advances, ?_⟩
  calc
    s.placeholderCount = (Text.splitOn ':' (body text)).flatten.count '#' :=
      hreads.placeholderCount
    _ = (body text).count '#' := Text.count_flatten_splitOn (by decide) _
    _ = text.toList.count '#' := count_body text

def widest : Selector :=
  .range (some (.literal (-9223372036854775808))) (some .placeholder) 18446744073709551615

theorem fits_widest : widest.Fits where
  inWords := by
    intro n hn
    rcases List.mem_cons.mp hn with hn | hn
    · cases hn
      decide
    · cases List.mem_singleton.mp hn
  advances := by
    change 1 ≤ 18446744073709551615
    decide
  step := by
    intro start stop step h
    cases h
    decide

def widestText : String := "\t[ -9223372036854775808 :# : 18446744073709551615] "

theorem writes_widest : Writes widestText widest := by
  have hpadded : List.Forall₂ Text.Padded
      [boundChars (some (.literal (-9223372036854775808))), boundChars (some .placeholder),
        (toString 18446744073709551615).toList] _ :=
    .cons ⟨[' '], [' '], rfl, rfl, rfl⟩
      (.cons ⟨[], [' '], rfl, rfl, rfl⟩ (.cons ⟨[' '], [], rfl, rfl, rfl⟩ .nil))
  exact ⟨_, _, _, .triple _ _ _, hpadded, Or.inr rfl, ['\t'], [' '], rfl, rfl, rfl⟩

theorem parse_writes_widest : widest.Fits ∧ Writes widestText widest ∧
    parse widestText = .ok widest ∧ widest.placeholderCount = widestText.toList.count '#' := by
  have hparse : parse widestText = .ok widest :=
    (parse_writes widestText widest).1 fits_widest writes_widest
  exact ⟨fits_widest, writes_widest, hparse, ((parse_writes widestText widest).2 hparse).2⟩

end Selector

end SignalMap
