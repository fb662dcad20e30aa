import TreeFold.Ignore.Chain
import TreeFold.Proofs.FileSystem.Overwrite

/-!
# Trees without ignore files

Where no directory has an ignore file, and no repository an exclude file, no level of a chain has
rules, and the chain says nothing about any entry.
-/

namespace TreeFold

open Ignore

/-- No directory has an ignore file, and no repository has an exclude file. -/
structure FileSystem.HoldsNoIgnoreFiles (fs : FileSystem) : Prop where
  ignore : ∀ directory : Path, fs.isFile (directory.child ".ignore".toList) = false
  git : ∀ directory : Path, fs.isFile (directory.child ".gitignore".toList) = false
  exclude : ∀ directory repository : Path, repositoryDirectory? fs directory = some repository →
    fs.isFile (repository.child "info/exclude".toList) = false

namespace Ignore

/-- The level has no rules. -/
structure Level.Silent (level : Level) : Prop where
  ignoreRules : level.ignoreRules.rules = []
  gitRules : level.gitRules.rules = []
  excludeRules : level.excludeRules.rules = []

/-- No level of the chain has rules. -/
def Chain.Silent (chain : Chain) : Prop :=
  ∀ level ∈ chain.walked ++ chain.above, level.Silent

variable {fs : FileSystem} {chain : Chain}

theorem rules_readRules (base : Path) {file : Path} (h : fs.isFile file = false) :
    (readRules fs base file).rules = [] := by
  rw [readRules]
  cases hread : fs.readBytes file with
  | error e => rfl
  | ok bytes =>
      obtain ⟨location, hstat⟩ := FileSystem.readBytes_ok_iff.mp hread
      rw [FileSystem.isFile, hstat] at h
      cases h

theorem silent_read (h : fs.HoldsNoIgnoreFiles) (directory : Path) :
    (Level.read fs directory).Silent where
  ignoreRules := rules_readRules _ (h.ignore directory)
  gitRules := rules_readRules _ (h.git directory)
  excludeRules := by
    rw [Level.read]
    dsimp only
    split
    · rename_i repository hrepository
      exact rules_readRules _ (h.exclude directory repository hrepository)
    · rfl

theorem Chain.silent_atStart (h : fs.HoldsNoIgnoreFiles) (root : Path) (start : Location) :
    (Chain.atStart fs root start).Silent := by
  intro level hlevel
  rw [Chain.atStart, List.mem_append, List.mem_singleton, List.mem_map] at hlevel
  rcases hlevel with rfl | ⟨location, -, rfl⟩
  · exact silent_read h root
  · exact silent_read h _

theorem Chain.Silent.enter (hchain : chain.Silent) (h : fs.HoldsNoIgnoreFiles)
    (directory : Path) : (chain.enter fs directory).Silent := by
  intro level hlevel
  rw [Chain.enter, List.cons_append, List.mem_cons] at hlevel
  rcases hlevel with rfl | hlevel
  · exact silent_read h directory
  · exact hchain level hlevel

theorem nearest_eq_silent {rules : Level → RuleSet} {levels : List (Level × Text)}
    (h : ∀ level ∈ levels, (rules level.1).rules = []) (isDirectory : Bool) :
    nearest rules isDirectory levels = .silent := by
  induction levels with
  | nil => rfl
  | cons level levels ih =>
      obtain ⟨hlevel, hrest⟩ := List.forall_mem_cons.mp h
      have hverdict : (rules level.1).verdict level.2 isDirectory = .silent := by
        rw [RuleSet.verdict, hlevel]
        rfl
      rw [nearest, List.map_cons, List.foldr_cons]
      dsimp only
      rw [hverdict]
      exact ih hrest

theorem mem_of_mem_insideRepository {levels : List (Level × Text)} {level : Level × Text}
    (h : level ∈ insideRepository levels) : level ∈ levels := by
  induction levels with
  | nil => exact h
  | cons first levels ih =>
      rw [insideRepository] at h
      split at h
      · rw [List.mem_singleton] at h
        exact h ▸ List.mem_cons_self
      · rcases List.mem_cons.mp h with rfl | h
        · exact List.mem_cons_self
        · exact List.mem_cons_of_mem _ (ih h)

/-- Without rules a chain says nothing. -/
theorem Chain.Silent.verdict_eq (h : chain.Silent) (path : Path) (isDirectory : Bool) :
    chain.verdict path isDirectory = .silent := by
  set levels := chain.walked.map (·, dropCurrent path.text) ++
    chain.above.map (·, chain.absolutePath (dropCurrent path.text)) with hlevels
  have hall : ∀ level ∈ levels, level.1.Silent := by
    intro level hlevel
    apply h
    rw [hlevels, List.mem_append, List.mem_map, List.mem_map] at hlevel
    rcases hlevel with ⟨found, hfound, rfl⟩ | ⟨found, hfound, rfl⟩
    · exact List.mem_append_left _ hfound
    · exact List.mem_append_right _ hfound
  have hinside : ∀ held : Bool, ∀ level ∈ (if held then insideRepository levels else []),
      level.1.Silent := by
    intro held level hlevel
    split at hlevel
    · exact hall level (mem_of_mem_insideRepository hlevel)
    · cases hlevel
  rw [Chain.verdict]
  dsimp only
  rw [← hlevels, nearest_eq_silent fun level hlevel => (hall level hlevel).ignoreRules,
    nearest_eq_silent fun level hlevel => (hinside _ level hlevel).gitRules,
    nearest_eq_silent fun level hlevel => (hinside _ level hlevel).excludeRules]
  rfl

end Ignore

/-- Where there are no links, the names of the entries tell that there are no ignore files. -/
theorem FileSystem.holdsNoIgnoreFiles_of_entries {fs : FileSystem} (hfs : fs.LinkFree)
    (h : ∀ entry ∈ fs.entries, ∀ names ∈
      [[".ignore".toList], [".gitignore".toList], ["info".toList, "exclude".toList]],
      ¬names <:+ entry.1) : fs.HoldsNoIgnoreFiles := by
  have hnone : ∀ (directory : Path) (file : Text), ∀ names ∈
      [[".ignore".toList], [".gitignore".toList], ["info".toList, "exclude".toList]],
      (Path.mk file).isAbsolute = false → (Path.mk file).moves = names.map .normal →
        fs.isFile (directory.child file) = false := by
    intro directory file names hnames hrelative hmoves
    by_contra hisFile
    rw [Bool.not_eq_false, isFile_iff] at hisFile
    obtain ⟨location, bytes, hstat⟩ := hisFile
    obtain ⟨hlocation, hget, -⟩ := stat_ok hfs hstat
    have hmem : (location, .file bytes) ∈ fs.entries := by
      refine mem_entries_of_get? ?_ hget
      rintro rfl
      cases hget
    apply h _ hmem names hnames
    rw [hlocation, Path.child, Path.spelled_join _ _ hrelative, hmoves,
      Path.foldl_followComponent_normal]
    exact List.suffix_append _ _
  constructor
  · intro directory
    exact hnone directory _ [".ignore".toList] (by simp) rfl rfl
  · intro directory
    exact hnone directory _ [".gitignore".toList] (by simp) rfl rfl
  · intro directory repository _
    exact hnone repository _ ["info".toList, "exclude".toList] (by simp) rfl rfl

end TreeFold
