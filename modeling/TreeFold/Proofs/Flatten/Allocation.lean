import Mathlib.Order.Bounds.Defs
import TreeFold.Proofs.Flatten.Names

/-!
# Names given out one after another

A call asks for a path for a name, in the file system of its time. An allocator remembers the paths
that it gave out, so a path is free for a call exactly when nothing has it and no earlier call was
given it. While entries are only added, what is taken stays taken: no path is given out twice, and
the numbers given out for one name go up.
-/

namespace TreeFold.NameAllocator

open Component TreeFold.Path FileSystem

/-- A call of an allocator: the file system at the time, the name asked for, and the path given. -/
structure Call where
  fs : FileSystem
  name : Name
  given? : Option Path

/-- The calls made by asking for one name after another, each in the file system of its time. -/
def serve (names : NameAllocator) : List (FileSystem × Name) → List Call
  | [] => []
  | (fs, name) :: rest =>
    ⟨fs, name, (names.allocate fs name).1⟩ :: serve (names.allocate fs name).2 rest

/-- Nothing has the path, and none of the earlier calls was given it. -/
def IsFree (before : List Call) (fs : FileSystem) (path : Path) : Prop :=
  fs.pathExists path = false ∧
    ∀ call ∈ before, ∀ given, call.given? = some given → given.components ≠ path.components

/-- The numbers that make a free path of the name that is asked for. -/
def freeNumbers (directory : Path) (before : List Call) (call : Call) : Set Nat :=
  {n | 1 ≤ n ∧ IsFree before call.fs (directory.child (FileName.numbered call.name n))}

/-- The call is given a free path or none: the path of its name when that is free, else none or the
first free numbered path, as the policy says. -/
structure Answers (directory : Path) (policy : CollisionPolicy) (before : List Call)
    (call : Call) : Prop where
  free : ∀ path, call.given? = some path → IsFree before call.fs path
  own : IsFree before call.fs (directory.child call.name) →
    call.given? = some (directory.child call.name)
  skipped : ¬IsFree before call.fs (directory.child call.name) → policy = .skipExisting →
    call.given? = none
  numbered : ¬IsFree before call.fs (directory.child call.name) → policy = .renameWithSuffix →
    ∃ n, IsLeast (freeNumbers directory before call) n ∧
      call.given? = some (directory.child (FileName.numbered call.name n))

/-- The allocator remembers what the earlier calls were given. -/
structure Remembers (names : NameAllocator) (directory : Path) (policy : CollisionPolicy)
    (before : List Call) : Prop where
  directory : names.directory = directory
  policy : names.policy = policy
  claimed : ∀ parts, parts ∈ names.claimed ↔
    ∃ call ∈ before, ∃ given, call.given? = some given ∧ given.components = parts

variable {names : NameAllocator} {directory path : Path} {policy : CollisionPolicy}
  {before front back : List Call} {call earlier later : Call} {fs : FileSystem}

theorem remembers_new (directory : Path) (policy : CollisionPolicy) :
    Remembers (.new directory policy) directory policy [] :=
  ⟨rfl, rfl, by simp [new]⟩

theorem Remembers.not_isTaken_iff (h : Remembers names directory policy before) :
    names.isTaken fs path = false ↔ IsFree before fs path := by
  rw [not_isTaken, h.claimed, and_comm, IsFree]
  simp only [not_exists, not_and, ne_eq]

theorem Remembers.isTaken_iff (h : Remembers names directory policy before) :
    names.isTaken fs path = true ↔ ¬IsFree before fs path := by
  rw [← h.not_isTaken_iff, Bool.not_eq_false]

theorem allocate_fst (names : NameAllocator) (fs : FileSystem) (name : Name) :
    (names.allocate fs name).1 = names.choose? fs name := by
  rw [allocate]
  cases names.choose? fs name <;> rfl

/-- An allocator that remembers the earlier calls answers the next one. -/
theorem Remembers.answers (h : Remembers names directory policy before) (fs : FileSystem)
    (name : Name) : Answers directory policy before ⟨fs, name, (names.allocate fs name).1⟩ := by
  rw [allocate_fst]
  obtain ⟨hfree, hgiven⟩ | ⟨htaken, hpolicy⟩ := choose?_cases names fs name
  · rw [h.not_isTaken_iff, h.directory] at hfree
    rw [hgiven, h.directory]
    constructor
    · rintro _ ⟨⟩
      exact hfree
    · exact fun _ => rfl
    · exact fun hown => absurd hfree hown
    · exact fun hown => absurd hfree hown
  · rw [h.isTaken_iff, h.directory] at htaken
    rw [h.policy] at hpolicy
    obtain ⟨hskip, hgiven⟩ | ⟨hrename, n, hn, hgiven, hfree, hbelow⟩ := hpolicy
    · rw [hgiven]
      constructor
      · rintro _ ⟨⟩
      · exact fun hown => absurd hown htaken
      · exact fun _ _ => rfl
      · exact fun _ hrename => by rw [hskip] at hrename; cases hrename
    · rw [h.not_isTaken_iff, candidate, h.directory] at hfree
      rw [hgiven, candidate, h.directory]
      constructor
      · rintro _ ⟨⟩
        exact hfree
      · exact fun hown => absurd hown htaken
      · exact fun _ hskip => by rw [hrename] at hskip; cases hskip
      · refine fun _ _ => ⟨n, ⟨⟨hn, hfree⟩, fun k hk => ?_⟩, rfl⟩
        by_contra hlt
        have htaken := hbelow k hk.1 (Nat.not_le.mp hlt)
        rw [h.isTaken_iff, candidate, h.directory] at htaken
        exact htaken hk.2

/-- After a call the allocator remembers it too. -/
theorem Remembers.next (h : Remembers names directory policy before) (fs : FileSystem)
    (name : Name) :
    Remembers (names.allocate fs name).2 directory policy
      (before ++ [⟨fs, name, (names.allocate fs name).1⟩]) := by
  rw [allocate]
  cases names.choose? fs name with
  | none =>
      refine ⟨h.directory, h.policy, fun parts => ?_⟩
      simp [h.claimed]
  | some path =>
      refine ⟨h.directory, h.policy, fun parts => ?_⟩
      simp only [List.mem_cons, h.claimed, List.mem_append, List.not_mem_nil, or_false]
      constructor
      · rintro (rfl | ⟨call, hcall, given⟩)
        · exact ⟨_, Or.inr rfl, path, rfl, rfl⟩
        · exact ⟨call, Or.inl hcall, given⟩
      · rintro ⟨call, hcall | rfl, given, hgiven, hparts⟩
        · exact Or.inr ⟨call, hcall, given, hgiven, hparts⟩
        · obtain rfl := Option.some.inj hgiven
          exact Or.inl hparts.symm

/-- Every call of a run is answered, after the calls before it. -/
theorem Remembers.serve_answers (h : Remembers names directory policy before)
    (requests : List (FileSystem × Name)) (i : Nat) (hi : i < (serve names requests).length) :
    Answers directory policy (before ++ (serve names requests).take i)
      (serve names requests)[i] := by
  induction requests generalizing names before i with
  | nil => exact absurd hi (Nat.not_lt_zero i)
  | cons request rest ih =>
      obtain ⟨fs, name⟩ := request
      cases i with
      | zero => simpa [serve] using h.answers fs name
      | succ i =>
          have hrest := ih (h.next fs name) i (Nat.lt_of_succ_lt_succ hi)
          simpa [serve] using hrest

/-- The calls of a run are those that were asked for. -/
theorem map_serve (names : NameAllocator) (requests : List (FileSystem × Name)) :
    (serve names requests).map (fun call => (call.fs, call.name)) = requests := by
  induction requests generalizing names with
  | nil => rfl
  | cons request rest ih => rw [serve, List.map_cons, ih]

/-- A path that is free later was free before, while entries are only added. -/
theorem IsFree.of_persists {other : FileSystem} (h : IsFree back other path)
    (hfs : fs.Persists other) (hfront : front ⊆ back) : IsFree front fs path := by
  refine ⟨?_, fun call hcall => h.2 call (hfront hcall)⟩
  by_contra hexists
  rw [Bool.not_eq_false] at hexists
  have hstill := pathExists_persists hfs hexists
  rw [h.1] at hstill
  cases hstill

/-- A number that is given out is the first that is free. -/
theorem Answers.isLeast (h : Answers directory policy before call) {n : Nat}
    (hgiven : call.given? = some (directory.child (FileName.numbered call.name n))) :
    IsLeast (freeNumbers directory before call) n := by
  have hown : ¬IsFree before call.fs (directory.child call.name) := by
    intro hfree
    have hsame := hgiven.symm.trans (h.own hfree)
    exact FileName.child_numbered_ne directory call.name n (Option.some.inj hsame)
  cases policy with
  | skipExisting =>
      rw [h.skipped hown rfl] at hgiven
      cases hgiven
  | renameWithSuffix =>
      obtain ⟨least, hleast, hnumbered⟩ := h.numbered hown rfl
      have hsame := Option.some.inj (hnumbered.symm.trans hgiven)
      obtain rfl := FileName.components_child_injective directory call.name
        (congrArg Path.components hsame)
      exact hleast

/-- The numbers given out for one name go up: what was free for the later call was free for the
earlier one, which was given the first of its numbers. -/
theorem Answers.number_lt (hearlier : Answers directory policy front earlier)
    (hlater : Answers directory policy back later) (hmem : earlier ∈ back) (hfront : front ⊆ back)
    (hfs : earlier.fs.Persists later.fs) (hname : earlier.name = later.name) {m n : Nat}
    (hm : earlier.given? = some (directory.child (FileName.numbered earlier.name m)))
    (hn : later.given? = some (directory.child (FileName.numbered later.name n))) : m < n := by
  obtain ⟨hpos, hfree⟩ := (hlater.isLeast hn).1
  have hle : m ≤ n := by
    apply (hearlier.isLeast hm).2
    rw [freeNumbers, hname]
    exact ⟨hpos, hfree.of_persists hfs hfront⟩
  refine Nat.lt_of_le_of_ne hle ?_
  rintro rfl
  rw [hname] at hm
  exact hfree.2 earlier hmem _ hm rfl

/-- While entries are only added, every call is answered, the paths given out all differ, and the
numbers given out for one name go up. -/
theorem serve_fresh (directory : Path) (policy : CollisionPolicy)
    (requests : List (FileSystem × Name)) (hkeeps : (requests.map Prod.fst).IsChain Persists) :
    (serve (.new directory policy) requests).map (fun call => (call.fs, call.name)) = requests ∧
    (∀ i (hi : i < (serve (.new directory policy) requests).length),
      Answers directory policy ((serve (.new directory policy) requests).take i)
        (serve (.new directory policy) requests)[i]) ∧
    ((serve (.new directory policy) requests).filterMap (·.given?)).Pairwise
      (fun given other => given.components ≠ other.components) ∧
    (serve (.new directory policy) requests).Pairwise (fun earlier later =>
      earlier.name = later.name → ∀ m n,
        earlier.given? = some (directory.child (FileName.numbered earlier.name m)) →
        later.given? = some (directory.child (FileName.numbered later.name n)) → m < n) := by
  have hcalls := map_serve (.new directory policy) requests
  have hanswers := (remembers_new directory policy).serve_answers requests
  simp only [List.nil_append] at hanswers
  generalize serve (.new directory policy) requests = calls at hcalls hanswers ⊢
  have hpersists : calls.Pairwise (fun earlier later => earlier.fs.Persists later.fs) := by
    have hpairwise := hkeeps.pairwise
    rwa [← hcalls, List.map_map, List.pairwise_map] at hpairwise
  have hmem : ∀ i j (hj : j < calls.length) (hij : i < j), calls[i] ∈ calls.take j :=
    fun i j hj hij => List.mem_take_iff_getElem.mpr ⟨i, by omega, rfl⟩
  refine ⟨hcalls, hanswers, ?_, ?_⟩
  · rw [List.pairwise_filterMap, List.pairwise_iff_getElem]
    intro i j hi hj hij given hgiven other hother
    exact ((hanswers j hj).free other hother).2 _ (hmem i j hj hij) given hgiven
  · rw [List.pairwise_iff_getElem]
    intro i j hi hj hij hname m n hm hn
    have hfront : calls.take i ⊆ calls.take j :=
      (List.take_prefix_take_left (Nat.le_of_lt hij)).subset
    have hfs := List.pairwise_iff_getElem.mp hpersists i j hi hj hij
    exact (hanswers i hi).number_lt (hanswers j hj) (hmem i j hj hij) hfront hfs hname hm hn

/-- An output directory in which `a.ts` is a link to a file outside of it. -/
def linkedFileSystem : FileSystem where
  entries := [([['o']], .directory), ([['x']], .file []),
    ([['o'], "a.ts".toList], .link (ofString "../x"))]
  workingDir := []

/-- The name `a.ts` is asked for again after its second number was taken from outside. -/
def growingRequests : List (FileSystem × Name) :=
  [(linkedFileSystem, "a.ts".toList), (linkedFileSystem, "a_1.ts".toList),
    (linkedFileSystem.put [['o'], "a_2.ts".toList] (.file []), "a.ts".toList)]

/-- The linked name and a name that was given out as a numbered one are numbered in turn. -/
theorem growing_serve_fresh :
    (growingRequests.map Prod.fst).IsChain Persists ∧
    (serve (.new (ofString "o") .renameWithSuffix) growingRequests).map (·.given?) =
      [some (ofString "o/a_1.ts"), some (ofString "o/a_1_1.ts"), some (ofString "o/a_3.ts")] ∧
    ((serve (.new (ofString "o") .renameWithSuffix) growingRequests).filterMap (·.given?)).Pairwise
      (fun given other => given.components ≠ other.components) := by
  have hnew : linkedFileSystem.get? [['o'], "a_2.ts".toList] = none := by decide +kernel
  have hkeeps : (growingRequests.map Prod.fst).IsChain Persists :=
    .cons_cons (.refl _) (.cons_cons (Extends.put hnew _).persists (.singleton _))
  obtain ⟨-, -, hdistinct, -⟩ :=
    serve_fresh (ofString "o") .renameWithSuffix growingRequests hkeeps
  exact ⟨hkeeps, by decide +kernel, hdistinct⟩

end TreeFold.NameAllocator
