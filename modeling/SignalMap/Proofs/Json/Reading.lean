import SignalMap.Json.Reader
import SignalMap.Proofs.Globals.Order

/-!
Documents that are read from a text. The fields of an object are put in one by one at
their places, so whatever the order of the text, the document is ordered.
-/

namespace SignalMap.JsonReader

open Globals

section Groups

variable {α : Type} {item : List Char → Option (α × List Char)} {close : Char}
  {xs : List α} {cs after : List Char}

theorem exists_of_mem_readItems {fuel : Nat} (h : readItems item close fuel cs = some (xs, after)) :
    ∀ x ∈ xs, ∃ before rest, item before = some (x, rest) := by
  induction fuel generalizing xs cs with
  | zero => cases h
  | succ fuel ih =>
    rw [readItems, Option.bind_eq_bind, Option.bind_eq_some_iff] at h
    obtain ⟨⟨first, rest⟩, hfirst, h⟩ := h
    dsimp only at h
    split at h
    next => cases h
    next c behind _ =>
      split at h
      next =>
        cases h
        exact List.forall_mem_singleton.mpr ⟨cs, rest, hfirst⟩
      next =>
        split at h
        next =>
          rw [Option.bind_eq_bind, Option.bind_eq_some_iff] at h
          obtain ⟨⟨others, last⟩, hothers, h⟩ := h
          cases h
          exact List.forall_mem_cons.mpr ⟨⟨cs, rest, hfirst⟩, ih hothers⟩
        next => cases h

theorem exists_of_mem_readGroup (h : readGroup item close cs = some (xs, after)) :
    ∀ x ∈ xs, ∃ before rest, item before = some (x, rest) := by
  unfold readGroup at h
  split at h
  next => cases h
  next =>
    split at h
    next =>
      cases h
      exact nofun
    next => exact exists_of_mem_readItems h

end Groups

theorem exists_of_readField {value : List Char → Option (Json × List Char)}
    {field : String × Json} {cs after : List Char}
    (h : readField value cs = some (field, after)) :
    ∃ before rest, value before = some (field.2, rest) := by
  unfold readField at h
  split at h
  next =>
    rw [Option.bind_eq_bind, Option.bind_eq_some_iff] at h
    obtain ⟨⟨name, behind⟩, _, h⟩ := h
    dsimp only at h
    split at h
    next rest _ =>
      rw [Option.bind_eq_bind, Option.bind_eq_some_iff] at h
      obtain ⟨⟨inner, last⟩, hinner, h⟩ := h
      cases h
      exact ⟨rest, last, hinner⟩
    next => cases h
  next => cases h

theorem isOrdered_of_readScalar {document : Json} {cs after : List Char}
    (h : readScalar cs = some (document, after)) : IsOrdered document := by
  apply isOrdered_of_leads
  · intro fields hfields
    subst hfields
    unfold readScalar at h
    split at h <;> simp at h
  · intro step inner hstep
    unfold readScalar at h
    split at h <;> cases hstep <;> simp at h

theorem isOrdered_of_readValue {depth : Nat} {document : Json} {cs after : List Char}
    (h : readValue depth cs = some (document, after)) : IsOrdered document := by
  induction depth generalizing document cs after with
  | zero => exact isOrdered_of_readScalar h
  | succ depth ih =>
    rw [readValue] at h
    split at h
    next =>
      obtain ⟨⟨items, last⟩, hitems, h⟩ := Option.map_eq_some_iff.mp h
      cases h
      apply isOrdered_array
      intro item hitem
      obtain ⟨before, rest, hread⟩ := exists_of_mem_readGroup hitems item hitem
      exact ih hread
    next =>
      obtain ⟨⟨entries, last⟩, hentries, h⟩ := Option.map_eq_some_iff.mp h
      cases h
      apply isOrdered_object (Fields.isSorted_ofEntries entries)
      intro field hfield
      have hentry := Fields.mem_of_mem_ofEntries hfield
      obtain ⟨before, rest, hread⟩ := exists_of_mem_readGroup hentries field hentry
      obtain ⟨inside, behind, hvalue⟩ := exists_of_readField hread
      exact ih hvalue
    next => exact isOrdered_of_readScalar h

end SignalMap.JsonReader

namespace SignalMap

/-- A document that is read is ordered, whatever the order of its text. -/
theorem Json.isOrdered_of_parse? {text : String} {document : Json}
    (h : Json.parse? text = some document) : Globals.IsOrdered document := by
  unfold Json.parse? at h
  split at h
  next value rest hread =>
    split at h
    next =>
      cases h
      exact JsonReader.isOrdered_of_readValue hread
    next => cases h
  next => cases h

end SignalMap
