import Mathlib.Data.List.Nodup
import SignalMap.Proofs.Catalog.Mappings

/-!
The loads behind a catalog. A run of a catalog is a list of actions, each with
the host that it finds; between two actions the files may change. The loads
since the last reset account for every facility that is kept: a facility is kept
if and only if one of these loads gave it.
-/

namespace SignalMap

/-- Under distinct keys, looking up finds what stands in the list. -/
theorem lookup_eq_some_iff_mem {α : Type} {l : List (String × α)} {key : String} {a : α}
    (h : (l.map Prod.fst).Nodup) : l.lookup key = some a ↔ (key, a) ∈ l := by
  constructor
  · intro hlookup
    obtain ⟨before, after, rfl, _⟩ := List.lookup_eq_some_iff.mp hlookup
    simp
  · intro hmem
    obtain ⟨before, after, rfl⟩ := List.append_of_mem hmem
    refine List.lookup_eq_some_iff.mpr ⟨before, after, rfl, ?_⟩
    intro p hp
    have hkey : p.1 ∈ before.map Prod.fst := List.mem_map_of_mem hp
    rw [List.map_append] at h
    have hapart := (List.nodup_append.mp h).2.2 p.1 hkey key (by simp)
    simpa using hapart.symm

namespace Catalog

inductive Action where
  | init
  | reset
  | setRoot (root : FilePath)
  | setVersion (version : String)
  | mappings (facility schema : String)

def act (host : Host) (c : Catalog) : Action → Catalog
  | .init =>
    match c.init host with
    | .ok ready => ready
    | .error _ => c
  | .reset => c.reset
  | .setRoot root => c.setRoot root
  | .setVersion version => c.setVersion version
  | .mappings facility schema => (c.mappings host facility schema).1

def run (c : Catalog) : List (Host × Action) → Catalog
  | [] => c
  | (host, action) :: rest => run (c.act host action) rest

theorem run_append (c : Catalog) (first rest : List (Host × Action)) :
    c.run (first ++ rest) = (c.run first).run rest := by
  induction first generalizing c with
  | nil => rfl
  | cons step first ih => exact ih (c.act step.1 step.2)

/-- What holds at first holds in the end, when every step of the run keeps it. -/
theorem run_induction {P : Catalog → Prop} {c : Catalog} {history : List (Host × Action)}
    (h : P c) (hact : ∀ step ∈ history, ∀ c, P c → P (c.act step.1 step.2)) :
    P (c.run history) := by
  induction history generalizing c with
  | nil => exact h
  | cons step rest ih =>
    obtain ⟨hstep, hrest⟩ := List.forall_mem_cons.mp hact
    exact ih (hstep c h) hrest

def Action.root? : Action → Option FilePath
  | .setRoot root => some root
  | _ => none

def roots (config : Config) (history : List (Host × Action)) : List FilePath :=
  config.root.toList ++ history.filterMap fun step => step.2.root?

def holdLoads (host : Host) (c : Catalog) (held : List Load) : Action → List Load
  | .reset => []
  | .mappings facility _ => held ++ c.mappingLoads host facility
  | _ => held

def heldLoadsFrom (c : Catalog) (held : List Load) : List (Host × Action) → List Load
  | [] => held
  | (host, action) :: rest =>
    heldLoadsFrom (c.act host action) (c.holdLoads host held action) rest

structure Accounts (roots : List FilePath) (held : List Load) (c : Catalog) : Prop where
  facilities : c.facilities = held.flatMap Load.stored
  distinct : (c.facilities.map Prod.fst).Nodup
  configured : ∀ root, c.config.root = some root → root ∈ roots
  rooted : ∀ l ∈ held, l.root ∈ roots

namespace Accounts

variable {host : Host} {c : Catalog} {roots : List FilePath} {held : List Load}

theorem ofConfig {config : Config} (h : ∀ root, config.root = some root → root ∈ roots) :
    Accounts roots [] (.ofConfig config) where
  facilities := rfl
  distinct := List.nodup_nil
  configured := h
  rooted := by simp

theorem facility?_eq_some_iff {name : String} {f : Facility} (h : Accounts roots held c) :
    c.facility? name = some f ↔ ∃ l ∈ held, l.name = name ∧ l.result = .ok f := by
  have hmem : (name, f) ∈ c.facilities ↔ ∃ l ∈ held, l.name = name ∧ l.result = .ok f := by
    simp [h.facilities, List.mem_flatMap, Load.mem_stored, eq_comm (a := name)]
  exact (lookup_eq_some_iff_mem h.distinct).trans hmem

theorem init {ready : Catalog} (h : Accounts roots held c) (hinit : c.init host = .ok ready) :
    Accounts roots held ready := by
  rw [eq_of_init hinit]
  exact ⟨h.facilities, h.distinct, h.configured, h.rooted⟩

theorem reset (h : Accounts roots held c) : Accounts roots [] c.reset where
  facilities := rfl
  distinct := List.nodup_nil
  configured := h.configured
  rooted := by simp

theorem setRoot {root : FilePath} (h : Accounts roots held c) (hroot : root ∈ roots) :
    Accounts roots held (c.setRoot root) where
  facilities := h.facilities
  distinct := h.distinct
  configured := by
    intro configured hconfigured
    cases hconfigured
    exact hroot
  rooted := h.rooted

theorem setVersion (version : String) (h : Accounts roots held c) :
    Accounts roots held (c.setVersion version) :=
  ⟨h.facilities, h.distinct, h.configured, h.rooted⟩

/-- A load is only made under a name that keeps nothing. -/
theorem keep_loads (host : Host) (name : String) (h : Accounts roots held c) :
    Accounts roots (held ++ c.loads host name) (c.keep (c.loads host name)) where
  facilities := by
    simp [keep, h.facilities]
  distinct := by
    unfold keep loads
    cases hkept : c.facility? name with
    | some f => simpa using h.distinct
    | none =>
      cases hroot : c.config.root with
      | none => simpa using h.distinct
      | some root =>
        have hnew : ∀ key f, (key, f) ∈ c.facilities → key ≠ name := by
          rintro key f hmem rfl
          have hfound := (lookup_eq_some_iff_mem h.distinct).mpr hmem
          unfold facility? at hkept
          rw [hkept] at hfound
          cases hfound
        cases hresult : Load.result ⟨host, root, name, c.config.version⟩ with
        | error e => simpa [Load.stored, hresult] using h.distinct
        | ok f => simpa [Load.stored, hresult, List.nodup_append, h.distinct] using hnew
  configured := h.configured
  rooted := by
    intro l hl
    rcases List.mem_append.mp hl with hold | hnew
    · exact h.rooted l hold
    · obtain ⟨hroot, _⟩ := mem_loads.mp hnew
      exact h.configured l.root hroot

theorem mappings (host : Host) (name schema : String) (h : Accounts roots held c) :
    Accounts roots (held ++ c.mappingLoads host name) (c.mappings host name schema).1 := by
  rcases fst_mappings host name schema c with ⟨hsame, hnone⟩ | ⟨ready, hinit, hloads, hkept⟩
  · rw [hsame, hnone, List.append_nil]
    exact h
  · rw [hkept, hloads]
    exact (h.init hinit).keep_loads host name

/-- An action keeps the account, if a root that it sets is one of those given. -/
theorem act {action : Action} (h : Accounts roots held c)
    (hroot : ∀ root, action = .setRoot root → root ∈ roots) :
    Accounts roots (c.holdLoads host held action) (c.act host action) := by
  cases action with
  | init =>
    unfold Catalog.act
    cases hinit : c.init host with
    | error e => exact h
    | ok ready => exact h.init hinit
  | reset => exact h.reset
  | setRoot root => exact h.setRoot (hroot root rfl)
  | setVersion version => exact h.setVersion version
  | mappings facility schema => exact h.mappings host facility schema

theorem runFrom {history : List (Host × Action)} (h : Accounts roots held c)
    (hroots : ∀ host root, (host, .setRoot root) ∈ history → root ∈ roots) :
    Accounts roots (c.heldLoadsFrom held history) (c.run history) := by
  induction history generalizing c held with
  | nil => exact h
  | cons step rest ih =>
    obtain ⟨host, action⟩ := step
    have hact : Accounts roots (c.holdLoads host held action) (c.act host action) := by
      refine h.act ?_
      rintro root rfl
      exact hroots host root List.mem_cons_self
    refine ih hact ?_
    intro later root hlater
    exact hroots later root (List.mem_cons_of_mem _ hlater)

end Accounts

def heldLoads (config : Config) (history : List (Host × Action)) : List Load :=
  (ofConfig config).heldLoadsFrom [] history

/-- After any run the loads since the last reset account for what is kept. -/
theorem accounts_run (config : Config) (history : List (Host × Action)) :
    Accounts (roots config history) (heldLoads config history)
      ((ofConfig config).run history) := by
  refine Accounts.runFrom (Accounts.ofConfig ?_) ?_
  · intro root hroot
    simp [roots, hroot]
  · intro host root hset
    exact List.mem_append_right _ (List.mem_filterMap.mpr ⟨_, hset, rfl⟩)

end Catalog

end SignalMap
