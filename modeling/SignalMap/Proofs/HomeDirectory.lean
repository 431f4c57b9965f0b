import SignalMap.Config.Load
import SignalMap.Manifest
import SignalMap.Proofs.Places

/-!
Paths that begin with a tilde. Such a path is a text joined to the home directory, and so
it starts with the home directory unless the text behind the tilde is an absolute path,
which takes the place of the directory. The same holds of all that is read as such a
path: the files of a manifest and the root that is configured.
-/

namespace SignalMap.FilePath

/-! Parts of paths -/

/-- A part of a path: the root, the place that a relative path with a leading point
begins at, or a name. -/
inductive Part where
  | root
  | here
  | name (text : String)
  deriving DecidableEq

def leadOf (cs : List Char) : List Part :=
  if isAbsoluteText cs then [.root]
  else if (Text.splitOn '/' cs).head? = some ['.'] then [.here]
  else []

def namesOf (cs : List Char) : List Part :=
  ((Text.splitOn '/' cs).filter fun part => !isStill part).map fun part =>
    .name (String.ofList part)

def partsOf (cs : List Char) : List Part :=
  leadOf cs ++ namesOf cs

def parts (p : FilePath) : List Part :=
  partsOf p.text.toList

def StartsWith (p directory : FilePath) : Prop :=
  directory.parts <+: p.parts

instance (p directory : FilePath) : Decidable (p.StartsWith directory) :=
  inferInstanceAs (Decidable (directory.parts <+: p.parts))

theorem namesOf_append (left right : List Char) :
    namesOf (left ++ '/' :: right) = namesOf left ++ namesOf right := by
  unfold namesOf
  rw [Text.splitOn_append, List.filter_append, List.map_append]

theorem leadOf_append {left : List Char} (h : left ≠ []) (right : List Char) :
    leadOf (left ++ '/' :: right) = leadOf left := by
  have habsolute : isAbsoluteText (left ++ '/' :: right) = isAbsoluteText left := by
    unfold isAbsoluteText
    rw [List.head?_append_of_ne_nil left h]
  unfold leadOf
  rw [habsolute, Text.splitOn_append, List.head?_append_of_ne_nil _ (Text.splitOn_ne_nil '/' left)]

/-- A slash at the end of a path is no part of it. -/
theorem partsOf_slash {left : List Char} (h : left ≠ []) :
    partsOf (left ++ ['/']) = partsOf left := by
  unfold partsOf
  rw [leadOf_append h, namesOf_append]
  exact congrArg (leadOf left ++ ·) (List.append_nil (namesOf left))

/-- What stands behind a slash adds its names. -/
theorem partsOf_append (left right : List Char) :
    partsOf (left ++ '/' :: right) = partsOf (left ++ ['/']) ++ namesOf right := by
  have hlead : leadOf (left ++ '/' :: right) = leadOf (left ++ ['/']) := by
    cases left with
    | nil => rfl
    | cons c cs =>
      rw [leadOf_append (List.cons_ne_nil c cs), leadOf_append (List.cons_ne_nil c cs)]
  have hnames : namesOf (left ++ ['/']) = namesOf left := by
    rw [namesOf_append]
    exact List.append_nil (namesOf left)
  unfold partsOf
  rw [hlead, namesOf_append, hnames, List.append_assoc]

/-! Joining -/

def opened (left : List Char) : List Char :=
  if left = [] ∨ left.getLast? = some '/' then left else left ++ ['/']

section Join

variable {left right : List Char}

theorem opened_nil : opened [] = [] := rfl

theorem opened_slash (before : List Char) : opened (before ++ ['/']) = before ++ ['/'] := by
  unfold opened
  rw [if_pos (Or.inr List.getLast?_concat)]

theorem opened_cases (left : List Char) :
    left = [] ∨
      ∃ before, opened left = before ++ ['/'] ∧ partsOf (before ++ ['/']) = partsOf left := by
  by_cases hempty : left = []
  · exact Or.inl hempty
  · right
    by_cases hlast : left.getLast? = some '/'
    · obtain ⟨before, rfl⟩ := List.getLast?_eq_some_iff.mp hlast
      exact ⟨before, opened_slash before, rfl⟩
    · refine ⟨left, ?_, partsOf_slash hempty⟩
      unfold opened
      rw [if_neg (by simp [hempty, hlast])]

theorem opened_append (hright : right ≠ []) (left : List Char) :
    opened (left ++ right) = left ++ opened right := by
  have hlast : (left ++ right).getLast? = right.getLast? :=
    List.getLast?_append_of_ne_nil left hright
  have hempty : ¬ left ++ right = [] := by simp [hright]
  unfold opened
  rw [hlast]
  by_cases h : right.getLast? = some '/'
  · rw [if_pos (Or.inr h), if_pos (Or.inr h)]
  · rw [if_neg (by simp [hempty, h]), if_neg (by simp [hright, h]), List.append_assoc]

theorem opened_opened (left : List Char) : opened (opened left) = opened left := by
  obtain rfl | ⟨before, hopened, _⟩ := opened_cases left
  · rfl
  · rw [hopened, opened_slash]

theorem joinChars_of_relative (h : isAbsoluteText right = false) (left : List Char) :
    joinChars left right = opened left ++ right := by
  unfold joinChars opened
  rw [if_neg (by simp [h])]
  by_cases hends : left = [] ∨ left.getLast? = some '/'
  · rw [if_pos (by simpa using hends), if_pos hends]
  · rw [if_neg (by simpa using hends), if_neg hends, List.append_assoc]
    rfl

theorem isAbsoluteText_opened_append (hright : isAbsoluteText right = false) (left : List Char) :
    isAbsoluteText (opened left ++ right) = isAbsoluteText left := by
  cases left with
  | nil => exact hright
  | cons c cs =>
    unfold opened
    split
    next => rfl
    next => rfl

/-- To join two paths one behind the other is to join the path that they make. -/
theorem joinChars_assoc (base left right : List Char) :
    joinChars base (joinChars left right) = joinChars (joinChars base left) right := by
  cases hright : isAbsoluteText right with
  | true => simp only [joinChars_of_absolute hright]
  | false =>
    rw [joinChars_of_relative hright left, joinChars_of_relative hright]
    cases hleft : isAbsoluteText left with
    | true =>
      rw [joinChars_of_absolute hleft, joinChars_of_absolute]
      rw [isAbsoluteText_opened_append hright, hleft]
    | false =>
      rw [joinChars_of_relative hleft, joinChars_of_relative, ← List.append_assoc]
      · by_cases hempty : left = []
        · rw [hempty, opened_nil, List.append_nil, opened_opened]
        · rw [opened_append hempty]
      · rw [isAbsoluteText_opened_append hright, hleft]

theorem partsOf_joinChars (h : isAbsoluteText right = false) (left : List Char) :
    partsOf left <+: partsOf (joinChars left right) := by
  rw [joinChars_of_relative h]
  obtain rfl | ⟨before, hopened, hparts⟩ := opened_cases left
  · exact List.nil_prefix
  · rw [hopened, List.append_assoc, List.singleton_append, partsOf_append before right, hparts]
    exact List.prefix_append _ _

end Join

/-! Paths behind a tilde -/

def AfterTilde (text : String) (rest : List Char) : Prop :=
  (Text.trimChars text.toList = ['~'] ∧ rest = []) ∨
    Text.trimChars text.toList = '~' :: '/' :: rest ∨
    Text.trimChars text.toList = '~' :: '\\' :: rest

/-- The rest does not lead away from the directory: it is a relative path, or an absolute
one that names the directory itself. -/
def Stays (rest : List Char) (directory : FilePath) : Prop :=
  isAbsoluteText rest = false ∨ StartsWith ⟨String.ofList rest⟩ directory

section Tilde

variable {home : FilePath} {text : String} {rest : List Char}

theorem expandTilde_cases (h : AfterTilde text rest) (home : FilePath) :
    (rest = [] ∧ expandTilde home text = home) ∨
      expandTilde home text = home.join (String.ofList rest) := by
  unfold expandTilde join
  rw [String.toList_ofList]
  obtain ⟨htext, hrest⟩ | htext | htext := h
  · rw [htext]
    exact Or.inl ⟨hrest, rfl⟩
  · rw [htext]
    exact Or.inr rfl
  · rw [htext]
    exact Or.inr rfl

theorem startsWith_join_iff (p : FilePath) (rest : List Char) :
    (p.join (String.ofList rest)).StartsWith p ↔ Stays rest p := by
  have htext : (p.join (String.ofList rest)).text.toList = joinChars p.text.toList rest := by
    unfold join
    rw [String.toList_ofList, String.toList_ofList]
  unfold Stays StartsWith parts
  rw [htext, String.toList_ofList]
  cases hrest : isAbsoluteText rest with
  | false =>
    have hprefix := partsOf_joinChars hrest p.text.toList
    exact iff_of_true hprefix (Or.inl rfl)
  | true =>
    rw [joinChars_of_absolute hrest]
    simp

theorem stays_nil (p : FilePath) : Stays [] p := Or.inl rfl

theorem startsWith_self (p : FilePath) : p.StartsWith p := List.prefix_rfl

theorem startsWith_expandTilde_iff (h : AfterTilde text rest) (home : FilePath) :
    (expandTilde home text).StartsWith home ↔ Stays rest home := by
  obtain ⟨rfl, hhome⟩ | hjoin := expandTilde_cases h home
  · rw [hhome]
    exact iff_of_true (startsWith_self home) (stays_nil home)
  · rw [hjoin]
    exact startsWith_join_iff home rest

theorem join_join (base left : FilePath) (right : String) :
    base.join (left.join right).text = (base.join left.text).join right := by
  unfold join
  simp only [String.toList_ofList, joinChars_assoc]

/-- A path behind a tilde that is read against a directory is read against the home
directory, which is itself read against the directory. -/
theorem startsWith_resolve_iff (h : AfterTilde text rest) (home base : FilePath) :
    (resolve home base text).StartsWith (base.join home.text) ↔
      Stays rest (base.join home.text) := by
  unfold resolve
  obtain ⟨rfl, hhome⟩ | hjoin := expandTilde_cases h home
  · rw [hhome]
    exact iff_of_true (startsWith_self _) (stays_nil _)
  · rw [hjoin, join_join]
    exact startsWith_join_iff _ rest

theorem join_text_of_absolute (h : home.isAbsolute = true) (base : FilePath) :
    base.join home.text = home :=
  join_of_absolute h base

/-! What is read behind a tilde -/

theorem resolve_mem_files {m : Manifest} {schema : String} {files : SchemaFiles}
    (hfiles : (schema, files) ∈ m.schemas)
    (htext : text ∈ files.globals.toList ++ files.mappings.paths) :
    resolve home m.baseDirectory text ∈ m.files home :=
  List.mem_flatMap.mpr ⟨(schema, files), hfiles, List.mem_map_of_mem htext⟩

theorem root_override {env : Environment} {c : Config}
    (h : env.nonblank? "JSON_MAPPING_DIR" = some text) :
    (c.override env).root = some (expandTilde env.home text) := by
  unfold Config.override
  rw [h]

theorem parse_of_readDraft {source : String} {draft : Config.Draft}
    (h : Config.readDraft source.toList = .ok draft) (home : FilePath) :
    Config.parse home source =
      .ok ⟨(draft.root.getD none).map (expandTilde home),
        draft.version.getD Config.standard.version⟩ := by
  unfold Config.parse
  dsimp only
  rw [h]

theorem root_ofFile {host : Host} {path : FilePath} {source : String} {draft : Config.Draft}
    (hpresent : host.isPresent path = true) (hread : host.read path = .ok source)
    (hdraft : Config.readDraft source.toList = .ok draft) (hroot : draft.root = some (some text)) :
    ∃ c, Config.ofFile host path = .ok c ∧ c.root = some (expandTilde host.home text) := by
  refine ⟨⟨some (expandTilde host.home text), draft.version.getD Config.standard.version⟩, ?_, rfl⟩
  unfold Config.ofFile
  rw [hpresent, hread]
  change (Config.parse host.home source).mapError _ = _
  rw [parse_of_readDraft hdraft, hroot]
  rfl

/-- A path behind a tilde starts with the home directory if and only if the rest of it
does not lead away from there, as an absolute path does. Read against a directory it
starts with the home directory as this is read against the directory, under the same
condition; an absolute home directory stays what it is. The files that a manifest names
and the root of a configuration are such paths. -/
theorem startsWith_home_iff (h : AfterTilde text rest) (home : FilePath) :
    ((expandTilde home text).StartsWith home ↔ Stays rest home) ∧
    (∀ base, (resolve home base text).StartsWith (base.join home.text) ↔
      Stays rest (base.join home.text)) ∧
    (home.isAbsolute = true → ∀ base : FilePath, base.join home.text = home) ∧
    (∀ (m : Manifest) (schema : String) (files : SchemaFiles), (schema, files) ∈ m.schemas →
      text ∈ files.globals.toList ++ files.mappings.paths →
      resolve home m.baseDirectory text ∈ m.files home) ∧
    (∀ (env : Environment) (c : Config), env.home = home →
      env.nonblank? "JSON_MAPPING_DIR" = some text →
      ∃ root, (c.override env).root = some root ∧ (root.StartsWith home ↔ Stays rest home)) ∧
    (∀ (host : Host) (path : FilePath) (source : String) (draft : Config.Draft),
      host.home = home → host.isPresent path = true → host.read path = .ok source →
      Config.readDraft source.toList = .ok draft → draft.root = some (some text) →
      ∃ c root, Config.ofFile host path = .ok c ∧ c.root = some root ∧
        (root.StartsWith home ↔ Stays rest home)) := by
  have hexpanded := startsWith_expandTilde_iff h home
  refine ⟨hexpanded, startsWith_resolve_iff h home, join_text_of_absolute, ?_, ?_, ?_⟩
  · intro m schema files hfiles htext
    exact resolve_mem_files hfiles htext
  · rintro env c rfl hset
    exact ⟨_, root_override hset, hexpanded⟩
  · rintro host path source draft rfl hpresent hread hdraft hroot
    obtain ⟨c, hfile, hc⟩ := root_ofFile hpresent hread hdraft hroot
    exact ⟨c, _, hfile, hc, hexpanded⟩

end Tilde

/-- A tilde before a backslash, and a rest that goes back behind its first name. -/
theorem startsWith_home_backslash :
    AfterTilde " ~\\maps/../jet " "maps/../jet".toList ∧
      (expandTilde ⟨"/home/user"⟩ " ~\\maps/../jet ").StartsWith ⟨"/home/user"⟩ := by
  have htilde : AfterTilde " ~\\maps/../jet " "maps/../jet".toList := by
    right
    right
    decide
  have hiff := (startsWith_home_iff htilde ⟨"/home/user"⟩).1
  exact ⟨htilde, hiff.mpr (Or.inl (by decide))⟩

/-- Behind the tilde an absolute path leads away from the home directory. -/
theorem not_forall_startsWith_home :
    ¬ ∀ (home : FilePath) (text : String) (rest : List Char), home.isAbsolute = true →
      AfterTilde text rest → (expandTilde home text).StartsWith home := by
  intro hall
  have htilde : AfterTilde "~//etc/passwd" "/etc/passwd".toList := by
    right
    left
    decide
  have hstarts := hall ⟨"/home/user"⟩ "~//etc/passwd" _ (by decide) htilde
  exact absurd hstarts (by decide)

end SignalMap.FilePath
