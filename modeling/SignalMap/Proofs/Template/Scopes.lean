import SignalMap.Proofs.Template.Rendering

/-!
What rendering reads of a scope. A path begins with a name, and all that it can lead to
lies in the value of that name. So a document is rendered alike in two scopes where its
templates have the same values, whatever else the scopes hold.
-/

namespace SignalMap

namespace Globals

def firstName? (path : String) : Option String :=
  (segments path).head?.map fun segment => String.ofList (segment.takeWhile (· ≠ '['))

/-- The first segment leads to the value of its name, and from there on. -/
theorem exists_segmentSteps_first {segment : List Char} {steps : List Step}
    (h : segmentSteps true segment = some steps) :
    ∃ others, steps = .field (String.ofList (segment.takeWhile (· ≠ '['))) :: others := by
  obtain ⟨parts, hparts, rfl⟩ := Option.map_eq_some_iff.mp h
  obtain ⟨indices, _, rfl⟩ := Option.map_eq_some_iff.mp hparts
  exact ⟨indices.map .item, rfl⟩

/-- Two scopes that agree on the first name of a path agree on the path. -/
theorem find?_congr {scope other : Fields} {path : String}
    (h : ∀ name, firstName? path = some name → Fields.get? scope name = Fields.get? other name) :
    find? scope path = find? other path := by
  unfold find?
  unfold firstName? at h
  cases hsegments : segments path with
  | nil => rfl
  | cons segment rest =>
    rw [hsegments] at h
    have hname := h _ rfl
    unfold findFrom
    cases hsteps : segmentSteps true segment with
    | none => rfl
    | some steps =>
      obtain ⟨others, rfl⟩ := exists_segmentSteps_first hsteps
      have hdescend : descend? (.object scope)
            (.field (String.ofList (segment.takeWhile (· ≠ '['))) :: others) =
          descend? (.object other)
            (.field (String.ofList (segment.takeWhile (· ≠ '['))) :: others) := by
        unfold descend?
        exact congrArg (Option.bind · _) hname
      change (descend? (.object scope) _ >>= _) = (descend? (.object other) _ >>= _)
      rw [hdescend]

end Globals

namespace Template

variable {scope other : Fields}

theorem lookup_congr {path : List Char}
    (h : ∀ name, Globals.firstName? (String.ofList path) = some name →
      Fields.get? scope name = Fields.get? other name) :
    lookup scope path = lookup other path := by
  unfold lookup
  rw [Globals.find?_congr h]

/-! The templates of a document -/

def pathsIn (text : String) : List (List Char) :=
  match whole? text.toList with
  | some path => [path]
  | none => (scan text.toList).1.map Occurrence.name

mutual

def paths : Json → List (List Char)
  | .string text => pathsIn text
  | .array items => itemPaths items
  | .object fields => fieldPaths fields
  | _ => []

def itemPaths : List Json → List (List Char)
  | [] => []
  | item :: rest => paths item ++ itemPaths rest

def fieldPaths : List (String × Json) → List (List Char)
  | [] => []
  | (_, value) :: rest => paths value ++ fieldPaths rest

end

/-- The induction is over the templates of the text, as they are found. -/
theorem splice_congr {input : String} {rest : List Char}
    (h : ∀ o ∈ (scan rest).1, lookup scope o.name = lookup other o.name) :
    splice scope input rest = splice other input rest := by
  fun_induction scan rest with
  | case1 rest hfound => rw [splice_of_not_found hfound, splice_of_not_found hfound]
  | case2 rest before opened hfound hclosed =>
    rw [splice_of_not_closed hfound hclosed, splice_of_not_closed hfound hclosed]
  | case3 rest before opened hfound inside after hclosed ih =>
    obtain ⟨hfirst, hothers⟩ := List.forall_mem_cons.mp h
    rw [splice_found hfound hclosed, splice_found hfound hclosed, ih hothers]
    change lookup scope (Text.trimChars inside) = lookup other (Text.trimChars inside) at hfirst
    rw [hfirst]

theorem renderString_congr {text : String}
    (h : ∀ path ∈ pathsIn text, lookup scope path = lookup other path) :
    renderString scope text = renderString other text := by
  unfold renderString
  unfold pathsIn at h
  cases hwhole : whole? text.toList with
  | some path =>
    rw [hwhole] at h
    exact h path (List.mem_singleton_self path)
  | none =>
    rw [hwhole] at h
    have hsplice : splice scope text text.toList = splice other text text.toList := by
      apply splice_congr
      intro o ho
      exact h o.name (List.mem_map_of_mem ho)
    dsimp only
    rw [hsplice]

/-! A document is rendered alike where its templates have the same values. -/

mutual

theorem render_congr {document : Json}
    (h : ∀ path ∈ paths document, lookup scope path = lookup other path) :
    render scope document = render other document := by
  cases document with
  | string text =>
    rw [render, render]
    exact renderString_congr h
  | array items => rw [render, render, renderItems_congr h]
  | object fields => rw [render, render, renderFields_congr h]
  | null => rfl
  | bool flag => rfl
  | number n => rfl

theorem renderItems_congr {items : List Json}
    (h : ∀ path ∈ itemPaths items, lookup scope path = lookup other path) :
    renderItems scope items = renderItems other items := by
  cases items with
  | nil => rw [renderItems, renderItems]
  | cons item rest =>
    obtain ⟨hitem, hrest⟩ := List.forall_mem_append.mp h
    rw [renderItems, renderItems, render_congr hitem, renderItems_congr hrest]

theorem renderFields_congr {fields : List (String × Json)}
    (h : ∀ path ∈ fieldPaths fields, lookup scope path = lookup other path) :
    renderFields scope fields = renderFields other fields := by
  cases fields with
  | nil => rw [renderFields, renderFields]
  | cons field rest =>
    obtain ⟨name, value⟩ := field
    obtain ⟨hvalue, hrest⟩ := List.forall_mem_append.mp h
    rw [renderFields, renderFields, render_congr hvalue, renderFields_congr hrest]

end

end Template

end SignalMap
