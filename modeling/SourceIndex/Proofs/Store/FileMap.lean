import SourceIndex.Proofs.Store.Rows

/-! What a store is meant to be: a map from the paths of projects to files. Each file comes with the
analysis that it was last written with. -/

namespace SourceIndex

/-- The files at the paths of projects. -/
abbrev FileMap := (project path : String) → Option IndexedFile

namespace FileMap

def empty : FileMap := fun _ _ => none

/-- The map with a file, or none, at a path of a project. -/
def set (map : FileMap) (project path : String) (file : Option IndexedFile) : FileMap :=
  fun otherProject otherPath =>
    if otherProject = project ∧ otherPath = path then file else map otherProject otherPath

variable {map : FileMap} {project path : String}

@[simp] theorem set_same (file : Option IndexedFile) :
    map.set project path file project path = file := by
  simp [set]

theorem set_other {otherProject otherPath : String}
    (different : ¬ (otherProject = project ∧ otherPath = path)) (file : Option IndexedFile) :
    map.set project path file otherProject otherPath = map otherProject otherPath :=
  if_neg different

/-- What a changed map has at a path is the new file, or what has been there and is not replaced. -/
theorem eq_or_of_set {file : Option IndexedFile} {otherProject otherPath : String}
    {found : IndexedFile} (there : map.set project path file otherProject otherPath = some found) :
    (otherProject = project ∧ otherPath = path ∧ file = some found) ∨
      (¬ (otherProject = project ∧ otherPath = path) ∧
        map otherProject otherPath = some found) := by
  unfold set at there
  split at there
  · next same => exact .inl ⟨same.1, same.2, there⟩
  · next different => exact .inr ⟨different, there⟩

/-- Writes a file over whatever is at its path. -/
def persist (map : FileMap) (project : String) (file : IndexedFile) : FileMap :=
  map.set project file.path (some file)

/-- Changes the time of a file that is there. -/
def touch (map : FileMap) (project path : String) (time : FileTime) : FileMap :=
  map.set project path ((map project path).map fun file => { file with time })

def remove (map : FileMap) (project path : String) : FileMap := map.set project path none

theorem set_none_of_missing (missing : map project path = none) :
    map.set project path none = map := by
  funext otherProject otherPath
  unfold set
  split
  · next same => rw [same.1, same.2, missing]
  · rfl

theorem touch_of_missing (missing : map project path = none) (time : FileTime) :
    map.touch project path time = map := by
  rw [touch, missing]
  exact set_none_of_missing missing

theorem remove_of_missing (missing : map project path = none) : map.remove project path = map :=
  set_none_of_missing missing

/-- Whether a file can be written without confusion: a file that is there already has the same
identifier, and no other file has any identifier in common with it. -/
structure Admits (map : FileMap) (project : String) (file : IndexedFile) : Prop where
  keepsId : ∀ other, map project file.path = some other → other.id = file.id
  apart : ∀ otherProject otherPath other, map otherProject otherPath = some other →
    ¬ (otherProject = project ∧ otherPath = file.path) →
    ∀ kind, ∀ id ∈ file.rowIds kind, id ∉ other.rowIds kind

theorem Admits.id_ne {file : IndexedFile} (admits : map.Admits project file)
    {otherProject otherPath : String} {other : IndexedFile}
    (there : map otherProject otherPath = some other)
    (different : ¬ (otherProject = project ∧ otherPath = file.path)) : other.id ≠ file.id := by
  intro same
  have apart := admits.apart _ _ _ there different .file file.id List.mem_cons_self
  exact apart (same ▸ List.mem_cons_self)

theorem Admits.rows_ne {file : IndexedFile} (admits : map.Admits project file) {α : Type}
    (format : RowFormat α) (rowsOf : IndexedFile → List α) (kind : RowKind)
    (idsOf : ∀ file : IndexedFile, file.rowIds kind = (rowsOf file).map format.idOf)
    (otherProject otherPath : String) (other : IndexedFile)
    (there : map otherProject otherPath = some other)
    (different : ¬ (otherProject = project ∧ otherPath = file.path)) :
    ∀ row ∈ rowsOf file, ∀ otherRow ∈ rowsOf other, format.idOf otherRow ≠ format.idOf row := by
  intro row member otherRow otherMember same
  have apart := admits.apart _ _ other there different kind (format.idOf row)
  rw [idsOf, idsOf] at apart
  apply apart (List.mem_map_of_mem member)
  rw [← same]
  exact List.mem_map_of_mem otherMember

end FileMap

/-! ## Where files come from -/

/-- The files that may be written in each project. -/
abbrev FileSource := (project : String) → (file : IndexedFile) → Prop

/-- Whether identifiers tell the files of a source apart: those of one path have the same
identifier, and no two others have any identifier in common. -/
structure FileSource.IsApart (source : FileSource) : Prop where
  same : ∀ project file other, source project file → source project other →
    file.path = other.path → file.id = other.id
  apart : ∀ project file otherProject other, source project file → source otherProject other →
    ¬ (project = otherProject ∧ file.path = other.path) →
    ∀ kind, ∀ id ∈ file.rowIds kind, id ∉ other.rowIds kind

namespace FileMap

/-- Whether all files of a map come from a source. Their times may have changed since. -/
def ComesFrom (map : FileMap) (source : FileSource) : Prop :=
  ∀ project path file, map project path = some file → file.path = path ∧
    ∃ given time, source project given ∧ file = { given with time }

variable {source : FileSource} {map : FileMap}

theorem comesFrom_empty (source : FileSource) : empty.ComesFrom source := by
  intro project path file there
  cases there

namespace ComesFrom

/-- A file of a source in which identifiers tell files apart can be written. -/
theorem admits (comes : map.ComesFrom source) (isApart : source.IsApart) {project : String}
    {file : IndexedFile} (given : source project file) : map.Admits project file := by
  constructor
  · intro other there
    rcases comes project file.path other there with ⟨place, former, time, formerGiven, rfl⟩
    exact isApart.same project former file formerGiven given place
  · intro otherProject otherPath other there different kind id member
    rcases comes otherProject otherPath other there with ⟨place, former, time, formerGiven, rfl⟩
    rw [IndexedFile.rowIds_withTime]
    apply isApart.apart project file otherProject former given formerGiven ?_ kind id member
    rintro ⟨sameProject, samePath⟩
    exact different ⟨sameProject.symm, place.symm.trans samePath.symm⟩

theorem persist (comes : map.ComesFrom source) {project : String} {file : IndexedFile}
    (given : source project file) : (map.persist project file).ComesFrom source := by
  intro otherProject otherPath found there
  rcases eq_or_of_set there with ⟨rfl, rfl, same⟩ | ⟨-, there⟩
  · cases same
    exact ⟨rfl, file, file.time, given, rfl⟩
  · exact comes otherProject otherPath found there

theorem touch (comes : map.ComesFrom source) (project path : String) (time : FileTime) :
    (map.touch project path time).ComesFrom source := by
  intro otherProject otherPath found there
  rcases eq_or_of_set there with ⟨rfl, rfl, same⟩ | ⟨-, there⟩
  · rcases Option.map_eq_some_iff.mp same with ⟨former, formerThere, rfl⟩
    rcases comes otherProject otherPath former formerThere with ⟨place, file, _, given, rfl⟩
    exact ⟨place, file, time, given, rfl⟩
  · exact comes otherProject otherPath found there

theorem remove (comes : map.ComesFrom source) (project path : String) :
    (map.remove project path).ComesFrom source := by
  intro otherProject otherPath found there
  rcases eq_or_of_set there with ⟨-, -, none⟩ | ⟨-, there⟩
  · cases none
  · exact comes otherProject otherPath found there

end ComesFrom

end FileMap

/-! ## Rows -/

/-- Rows of a kind that are those of the files of a map: what has been extracted from each file, and
nothing else. -/
structure RowFormat.Mirrors {α : Type} (format : RowFormat α) (rowsOf : IndexedFile → List α)
    (map : FileMap) (rows : List α) : Prop where
  owned : ∀ project path file, map project path = some file →
    rows.filter (format.fileIdOf · == file.id) = format.merge (rowsOf file)
  known : ∀ row ∈ rows, ∃ project path file, map project path = some file ∧
    format.fileIdOf row = file.id

theorem RowFormat.mirrors_empty {α : Type} {format : RowFormat α}
    {rowsOf : IndexedFile → List α} : format.Mirrors rowsOf FileMap.empty [] where
  owned _ _ _ there := by cases there
  known _ member := absurd member List.not_mem_nil

namespace RowFormat.Mirrors

variable {α : Type} {format : RowFormat α} {rowsOf : IndexedFile → List α} {map : FileMap}
  {rows : List α}

theorem filter_of_foreign {fileId : String} {rows : List α}
    (foreign : ∀ row ∈ rows, format.fileIdOf row ≠ fileId) :
    rows.filter (format.fileIdOf · == fileId) = [] := by
  rw [List.filter_eq_nil_iff]
  intro row member
  simpa using foreign row member

theorem filter_of_owned {fileId : String} {rows : List α}
    (owned : ∀ row ∈ rows, format.fileIdOf row = fileId) :
    rows.filter (format.fileIdOf · == fileId) = rows := by
  rw [List.filter_eq_self]
  intro row member
  simpa using owned row member

/-- Taking away the rows of one file leaves those of every other file. -/
theorem filter_kept {fileId other : String} (different : other ≠ fileId) (rows : List α) :
    (rows.filter (format.fileIdOf · != fileId)).filter (format.fileIdOf · == other) =
      rows.filter (format.fileIdOf · == other) := by
  rw [List.filter_filter]
  apply List.filter_congr
  intro row _
  by_cases same : format.fileIdOf row = other
  · simp [same, different]
  · simp [same]

/-- A row that is left belongs to a file at another path. -/
theorem known_kept (mirrors : format.Mirrors rowsOf map rows) {fileId : String} {row : α}
    (member : row ∈ rows.filter (format.fileIdOf · != fileId)) :
    ∃ project path file, map project path = some file ∧ format.fileIdOf row = file.id ∧
      file.id ≠ fileId ∧ row ∈ format.merge (rowsOf file) := by
  rw [List.mem_filter] at member
  rcases mirrors.known row member.1 with ⟨project, path, file, there, owned⟩
  refine ⟨project, path, file, there, owned, ?_, ?_⟩
  · rw [← owned]
    simpa using member.2
  · rw [← mirrors.owned project path file there, List.mem_filter]
    exact ⟨member.1, by simpa using owned⟩

/-- Where nothing has been extracted from a file, or there is no such file, there are no rows. -/
theorem filter_of_bare (mirrors : format.Mirrors rowsOf map rows) {fileId : String}
    (bare : ∀ project path file, map project path = some file → file.id = fileId →
      rowsOf file = []) : rows.filter (format.fileIdOf · == fileId) = [] := by
  apply List.filter_eq_nil_iff.mpr
  intro row member owned
  rcases mirrors.known row member with ⟨project, path, file, there, same⟩
  have fileId_eq : file.id = fileId := same.symm.trans (eq_of_beq owned)
  have rowsOfFile := mirrors.owned project path file there
  rw [bare project path file there fileId_eq, fileId_eq] at rowsOfFile
  have inside : row ∈ rows.filter (format.fileIdOf · == fileId) :=
    List.mem_filter.mpr ⟨member, owned⟩
  rw [rowsOfFile] at inside
  exact absurd inside List.not_mem_nil

/-- Writing a file replaces its rows. -/
theorem persist (mirrors : format.Mirrors rowsOf map rows) {project : String} {file : IndexedFile}
    (admits : map.Admits project file)
    (owned : ∀ row ∈ rowsOf file, format.fileIdOf row = file.id)
    (apart : ∀ otherProject otherPath other, map otherProject otherPath = some other →
      ¬ (otherProject = project ∧ otherPath = file.path) →
      ∀ row ∈ rowsOf file, ∀ otherRow ∈ rowsOf other, format.idOf otherRow ≠ format.idOf row) :
    format.Mirrors rowsOf (map.persist project file)
      (format.put (rows.filter (format.fileIdOf · != file.id)) (rowsOf file)) := by
  have elsewhere : ∀ {otherProject otherPath other}, map otherProject otherPath = some other →
      other.id ≠ file.id → ¬ (otherProject = project ∧ otherPath = file.path) := by
    rintro otherProject otherPath other there different ⟨rfl, rfl⟩
    exact different (admits.keepsId other there)
  have foreign : ∀ other ∈ rows.filter (format.fileIdOf · != file.id), ∀ row ∈ rowsOf file,
      format.idOf other ≠ format.idOf row := by
    intro other member row rowMember
    rcases mirrors.known_kept member with ⟨_, _, otherFile, there, -, different, merged⟩
    rcases format.id_of_mem_merge merged with ⟨given, givenMember, same⟩
    rw [← same]
    exact apart _ _ _ there (elsewhere there different) row rowMember given givenMember
  rw [format.put_eq_append_merge foreign]
  constructor
  · intro otherProject otherPath other there
    rw [List.filter_append]
    rcases FileMap.eq_or_of_set there with ⟨-, -, same⟩ | ⟨different, there⟩
    · rw [← Option.some.inj same,
        filter_of_foreign fun row member => by simpa using (List.mem_filter.mp member).2,
        filter_of_owned fun row member => format.fileId_of_mem_merge owned member]
      rfl
    · have otherId := admits.id_ne there different
      rw [filter_kept otherId, mirrors.owned _ _ _ there, filter_of_foreign, List.append_nil]
      intro row member
      rw [format.fileId_of_mem_merge owned member]
      exact otherId.symm
  · intro row member
    rcases List.mem_append.mp member with member | member
    · rcases mirrors.known_kept member with
        ⟨otherProject, otherPath, other, there, same, different, -⟩
      refine ⟨otherProject, otherPath, other, ?_, same⟩
      rw [FileMap.persist, FileMap.set_other (elsewhere there different), there]
    · exact ⟨project, file.path, file, FileMap.set_same _, format.fileId_of_mem_merge owned member⟩

/-- Removing a file takes its rows away. -/
theorem remove (mirrors : format.Mirrors rowsOf map rows) {project path : String}
    {file : IndexedFile} (there : map project path = some file)
    (ids : ∀ otherProject otherPath other, map otherProject otherPath = some other →
      ¬ (otherProject = project ∧ otherPath = path) → other.id ≠ file.id) :
    format.Mirrors rowsOf (map.remove project path)
      (rows.filter (format.fileIdOf · != file.id)) := by
  constructor
  · intro otherProject otherPath other found
    rcases FileMap.eq_or_of_set found with ⟨-, -, nothing⟩ | ⟨different, found⟩
    · cases nothing
    · rw [filter_kept (ids _ _ _ found different), mirrors.owned _ _ _ found]
  · intro row member
    rcases mirrors.known_kept member with
      ⟨otherProject, otherPath, other, found, same, different, -⟩
    refine ⟨otherProject, otherPath, other, ?_, same⟩
    rw [FileMap.remove, FileMap.set_other, found]
    rintro ⟨rfl, rfl⟩
    exact different (congrArg IndexedFile.id (Option.some.inj (found.symm.trans there)))

/-- A new time leaves the rows as they are. -/
theorem touch (mirrors : format.Mirrors rowsOf map rows) (project path : String) (time : FileTime)
    (same : ∀ file : IndexedFile, rowsOf { file with time } = rowsOf file) :
    format.Mirrors rowsOf (map.touch project path time) rows := by
  constructor
  · intro otherProject otherPath other found
    rcases FileMap.eq_or_of_set found with ⟨-, -, changed⟩ | ⟨-, found⟩
    · rcases Option.map_eq_some_iff.mp changed with ⟨file, there, rfl⟩
      rw [same]
      exact mirrors.owned _ _ file there
    · exact mirrors.owned _ _ _ found
  · intro row member
    rcases mirrors.known row member with ⟨otherProject, otherPath, other, found, owned⟩
    by_cases place : otherProject = project ∧ otherPath = path
    · rcases place with ⟨rfl, rfl⟩
      refine ⟨otherProject, otherPath, { other with time }, ?_, owned⟩
      rw [FileMap.touch, FileMap.set_same, found]
      rfl
    · exact ⟨otherProject, otherPath, other, (FileMap.set_other place _).trans found, owned⟩

end RowFormat.Mirrors

end SourceIndex
