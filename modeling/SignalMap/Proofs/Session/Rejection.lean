import SignalMap.Proofs.Session.Provenance

/-!
Requests that are rejected as invalid. A path or indices that cannot be used are
found before anything is done. The name of the facility is checked only when the
mappings are asked for, and by then the session has turned to the version that
the request names: a request with a bad name that names another version than the
current one is rejected, and everything that was loaded is forgotten.
-/

namespace SignalMap

namespace Catalog

variable {host : Host} {c : Catalog} {name schema : String}

/-- Asking for mappings rejects a request for the name of the facility only, and
does nothing then. -/
theorem mappings_of_rejected {fault : RequestFault}
    (h : (c.mappings host name schema).2 = .error (.invalidRequest fault)) :
    checkName name = .error fault ∧ (c.mappings host name schema).1 = c := by
  rw [mappings_eq] at h ⊢
  cases hname : checkName name with
  | error e =>
    simp only [hname] at h
    cases h
    exact ⟨rfl, rfl⟩
  | ok _ =>
    cases hinit : c.init host with
    | error e => simp [hname, hinit] at h
    | ok ready =>
      simp only [hname, hinit] at h
      rcases bind_eq_error.mp h with hsupply | ⟨f, _, hselect⟩
      · obtain ⟨_, _, hkind⟩ := mapError_eq_error.mp hsupply
        cases hkind
      · obtain ⟨_, _, hkind⟩ := mapError_eq_error.mp hselect
        cases hkind

theorem mappings_of_bad_name {fault : RequestFault} (h : checkName name = .error fault) :
    c.mappings host name schema = (c, .error (.invalidRequest fault)) := by
  rw [mappings_eq, h]

theorem switchVersion_eq_self_iff {version : Option String} :
    c.switchVersion version = c ↔ version.getD c.config.version = c.config.version := by
  constructor
  · intro h
    have hconfig := config_switchVersion version c
    rw [h] at hconfig
    exact (congrArg Config.version hconfig).symm
  · intro h
    cases version with
    | none => rfl
    | some version => exact if_pos h

end Catalog

namespace Session

variable {host : Host} {request : Request} {s : Session} {fault : RequestFault}

/-- A reply that is made from mappings rejects nothing. -/
theorem reply_not_rejected (r : Resolver) (version : String) (request : Request)
    (p : NormalizedPath) (mappings : SchemaMappings) :
    (reply r version request p mappings).result ≠ .error (.invalidRequest fault) := by
  unfold reply
  intro h
  split at h
  next => cases h
  next =>
    obtain ⟨_, _, hkind⟩ := mapError_eq_error.mp h
    cases hkind

/-- A request is rejected for its path and its indices, or else for the name of
its facility. -/
theorem rejected_iff :
    (s.resolve host request).2.result = .error (.invalidRequest fault) ↔
      request.normalize = .error fault ∨
        (∃ p, request.normalize = .ok p) ∧ Catalog.checkName request.facility = .error fault := by
  cases hpath : request.normalize with
  | error e =>
    rw [resolve_of_refused hpath]
    simp [refused]
  | ok p =>
    rw [resolve_of_normalized hpath]
    constructor
    · intro h
      refine Or.inr ⟨⟨p, rfl⟩, ?_⟩
      cases hmappings : ((s.catalog.switchVersion request.version).mappings
          host request.facility p.schema).2 with
      | error e =>
        simp only [hmappings] at h
        cases h
        exact (Catalog.mappings_of_rejected hmappings).1
      | ok mappings =>
        simp only [hmappings] at h
        exact (reply_not_rejected _ _ _ _ _ h).elim
    · rintro (h | ⟨_, hname⟩)
      · cases h
      · rw [Catalog.mappings_of_bad_name hname]
        rfl

/-- What a rejected request leaves: the session as it was, if the path or the
indices are at fault, and else the session turned to the version that the
request names. -/
theorem resolve_of_rejected
    (h : (s.resolve host request).2.result = .error (.invalidRequest fault)) :
    request.normalize = .error fault ∧ (s.resolve host request).1 = s ∨
      (∃ p, request.normalize = .ok p) ∧
        (s.resolve host request).1 =
          { s with catalog := s.catalog.switchVersion request.version } := by
  rcases rejected_iff.mp h with hpath | ⟨⟨p, hpath⟩, hname⟩
  · exact Or.inl ⟨hpath, by rw [resolve_of_refused hpath]⟩
  · right
    rw [resolve_of_normalized hpath, Catalog.mappings_of_bad_name hname]
    exact ⟨⟨p, hpath⟩, rfl⟩

/-- A rejected request leaves the session as it was if and only if its path or its
indices are at fault, or it names no other version than the current one. In any
other case the session has turned to the version and forgotten what was loaded;
the root and the count of loads stay. -/
theorem rejected_unchanged_iff
    (h : (s.resolve host request).2.result = .error (.invalidRequest fault)) :
    ((s.resolve host request).1 = s ↔
        request.normalize = .error fault ∨
          request.version.getD s.catalog.config.version = s.catalog.config.version) ∧
      ((s.resolve host request).1 ≠ s →
        ∃ version, request.version = some version ∧
          (s.resolve host request).1 =
            { s with catalog := (s.catalog.setVersion version).reset }) := by
  rcases resolve_of_rejected h with ⟨hpath, hsame⟩ | ⟨⟨p, hpath⟩, hturned⟩
  · rw [hsame]
    exact ⟨⟨fun _ => Or.inl hpath, fun _ => rfl⟩, fun hne => absurd rfl hne⟩
  · rw [hturned, hpath]
    constructor
    · constructor
      · intro hsame
        exact Or.inr (Catalog.switchVersion_eq_self_iff.mp (congrArg Session.catalog hsame))
      · rintro (hfault | hcurrent)
        · cases hfault
        · rw [Catalog.switchVersion_eq_self_iff.mpr hcurrent]
    · intro hne
      rcases Catalog.switchVersion_cases request.version s.catalog with
        hsame | ⟨version, hversion, _, hswitched⟩
      · exact absurd (by rw [hsame]) hne
      · exact ⟨version, hversion, by rw [hswitched]⟩

def badName : Request :=
  ⟨"../F", "m/k", [], some "2", none, none, none⟩

theorem rejected_badName_changes :
    (((start firstVersion .standard).run askedOnce).resolve twoVersions badName).2.result =
        .error (.invalidRequest (.invalidFacility "../F")) ∧
      ((((start firstVersion .standard).run askedOnce).resolve twoVersions badName).1 =
          (start firstVersion .standard).run askedOnce ↔
        badName.normalize = .error (.invalidFacility "../F") ∨
          badName.version.getD
              ((start firstVersion .standard).run askedOnce).catalog.config.version =
            ((start firstVersion .standard).run askedOnce).catalog.config.version) := by
  have hrejected : (((start firstVersion .standard).run askedOnce).resolve twoVersions
      badName).2.result = .error (.invalidRequest (.invalidFacility "../F")) := by rfl
  exact ⟨hrejected, (rejected_unchanged_iff hrejected).1⟩

/-- The request is rejected, and the facility that was loaded is forgotten. -/
theorem not_forall_rejected_unchanged :
    ¬ ∀ (config : Config) (resolver : Resolver) (history : List (Host × Action)) (host : Host)
        (request : Request) (fault : RequestFault),
      (((start config resolver).run history).resolve host request).2.result =
          .error (.invalidRequest fault) →
        (((start config resolver).run history).resolve host request).1 =
          (start config resolver).run history := by
  intro hall
  have hrejected : (((start firstVersion .standard).run askedOnce).resolve twoVersions
      badName).2.result = .error (.invalidRequest (.invalidFacility "../F")) := by rfl
  have hsame := hall _ _ _ _ _ _ hrejected
  have hbefore : ((start firstVersion .standard).run askedOnce).catalog.facilities.map Prod.fst =
      ["F"] := by rfl
  have hafter : (((start firstVersion .standard).run askedOnce).resolve twoVersions
      badName).1.catalog.facilities.map Prod.fst = [] := by rfl
  rw [hsame, hbefore] at hafter
  cases hafter

end Session

end SignalMap
