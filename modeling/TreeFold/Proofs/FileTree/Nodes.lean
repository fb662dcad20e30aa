import Mathlib.Data.Char
import Mathlib.Data.List.Induction
import Mathlib.Data.List.Lex
import TreeFold.FileTree
import TreeFold.Proofs.Text.Malformed

/-!
# The nodes of file trees

A tree whose entries ascend by name is known by the node that each path leads to. Inserting a file
puts it at its path, makes the directories that are missing above it, and changes nothing else. So
files none of which lies above another make one tree in whatever order they are inserted.
-/

namespace TreeFold.FileTree

variable {tree other : FileTree} {name : Name} {names path : List Name} {lines : Nat}
  {lines? : Option Nat}

/-- The names of the entries on top. -/
def topNames : FileTree → List Name
  | empty => []
  | entry name _ _ rest => name :: rest.topNames

/-- The entries at each place ascend by name. -/
def Ascending : FileTree → Prop
  | empty => True
  | entry name _ below rest =>
    (∀ later ∈ rest.topNames, name < later) ∧ below.Ascending ∧ rest.Ascending

theorem ascending_empty : empty.Ascending := trivial

theorem not_mem_topNames_empty (name : Name) : name ∉ empty.topNames :=
  List.not_mem_nil

/-- The node that a path leads to: its line count for a file, none for a directory. -/
def get? : FileTree → List Name → Option (Option Nat)
  | empty, _ => none
  | entry .., [] => none
  | entry other lines? below rest, name :: names =>
    if name = other then (if names = [] then some lines? else below.get? names)
    else rest.get? (name :: names)

@[simp]
theorem get?_nil (tree : FileTree) : tree.get? [] = none := by
  cases tree <;> rfl

@[simp]
theorem get?_empty (path : List Name) : empty.get? path = none := rfl

theorem get?_cons (first : Name) (lines? : Option Nat) (below rest : FileTree) (name : Name)
    (names : List Name) :
    (entry first lines? below rest).get? (name :: names) =
      if name = first then (if names = [] then some lines? else below.get? names)
      else rest.get? (name :: names) := rfl

/-- A path that begins with no entry leads nowhere. -/
theorem get?_of_not_mem (h : name ∉ tree.topNames) (names : List Name) :
    tree.get? (name :: names) = none := by
  induction tree with
  | empty => rfl
  | entry first lines? below rest _ ih =>
      rw [topNames, List.mem_cons, not_or] at h
      rw [get?_cons, if_neg h.1]
      exact ih h.2

theorem not_mem_topNames (h : ∀ later ∈ tree.topNames, name < later) : name ∉ tree.topNames :=
  fun hmem => lt_irrefl name (h name hmem)

section Extensionality

/-- The first entry is the one of the least name that leads to a node. -/
theorem Ascending.first_le {first : Name} {below rest : FileTree}
    (h : (entry first lines? below rest).Ascending)
    (hname : ((entry first lines? below rest).get? [name]).isSome) : first ≤ name := by
  by_contra hlt
  have hne : name ≠ first := fun heq => hlt heq.ge
  rw [get?_cons, if_neg hne, get?_of_not_mem] at hname
  · cases hname
  · exact fun hmem => hlt (h.1 name hmem).le

/-- Trees that ascend are the same when every path leads to the same node in both. -/
theorem Ascending.ext (htree : tree.Ascending) (hother : other.Ascending)
    (h : ∀ path, tree.get? path = other.get? path) : tree = other := by
  induction tree generalizing other with
  | empty =>
      cases other with
      | empty => rfl
      | entry name lines? below rest => simpa [get?_cons] using h [name]
  | entry first lines? below rest ihbelow ihrest =>
      cases other with
      | empty => simpa [get?_cons] using h [first]
      | entry second count? under after =>
          have hfirst := h [first]
          have hsecond := h [second]
          have hsame : first = second := by
            apply le_antisymm
            · apply htree.first_le
              rw [hsecond]
              simp [get?_cons]
            · apply hother.first_le
              rw [← hfirst]
              simp [get?_cons]
          subst hsame
          obtain ⟨hlater, hbelow, hrest⟩ := htree
          obtain ⟨hlater', hunder, hafter⟩ := hother
          have hlines : lines? = count? := by
            simpa [get?_cons] using hfirst
          have hbelows : below = under := by
            apply ihbelow hbelow hunder
            intro path
            by_cases hpath : path = []
            · simp [hpath]
            · simpa [get?_cons, hpath] using h (first :: path)
          have hrests : rest = after := by
            apply ihrest hrest hafter
            intro path
            cases path with
            | nil => simp
            | cons name names =>
                by_cases hname : name = first
                · rw [hname, get?_of_not_mem (not_mem_topNames hlater),
                    get?_of_not_mem (not_mem_topNames hlater')]
                · simpa [get?_cons, hname] using h (name :: names)
          rw [hlines, hbelows, hrests]

end Extensionality

section Insert

/-- A chain of directories leads to its file, and what is behind it stays. -/
theorem get?_chain {rest : FileTree} (hne : names ≠ [])
    (hfree : ∀ name ∈ names.head?, name ∉ rest.topNames) (path : List Name) :
    (chain lines names rest).get? path =
      if path = names then some (some lines)
      else if path ≠ [] ∧ path <+: names then some none else rest.get? path := by
  induction names generalizing rest path with
  | nil => exact absurd rfl hne
  | cons name names ih =>
      have hname : name ∉ rest.topNames := hfree name rfl
      cases path with
      | nil => simp
      | cons first front =>
          by_cases hfirst : first = name
          · subst hfirst
            rw [get?_of_not_mem hname]
            cases names with
            | nil => by_cases hfront : front = [] <;> simp [chain, get?_cons, hfront]
            | cons second others =>
                have hbelow := ih (by simp) (fun name _ => not_mem_topNames_empty name) front
                by_cases hfront : front = []
                · simp [chain, get?_cons, hfront]
                · simp only [chain, get?_cons, if_true, hfront, if_false, hbelow, get?_empty,
                    ne_eq, not_false_eq_true, true_and, List.cons_prefix_cons, List.cons.injEq,
                    reduceCtorEq]
          · have hchain : (chain lines (name :: names) rest).get? (first :: front) =
                rest.get? (first :: front) := by
              cases names <;> simp [chain, get?_cons, hfirst]
            rw [hchain]
            simp [hfirst]

/-- Inserting a file puts it at its path and makes the directories that are missing above it. -/
theorem get?_insert (h : tree.Ascending) (hne : names ≠ []) (path : List Name) :
    (tree.insert lines names).get? path =
      if path = names then some (some lines)
      else if path ≠ [] ∧ path <+: names then some ((tree.get? path).getD none)
      else tree.get? path := by
  fun_induction insert lines names tree generalizing path with
  | case1 names => simpa using get?_chain hne (fun name _ => not_mem_topNames_empty name) path
  | case2 => exact absurd rfl hne
  | case3 other count? below rest =>
      cases path with
      | nil => simp
      | cons first front =>
          by_cases hfirst : first = other <;> by_cases hfront : front = [] <;>
            simp [get?_cons, hfirst, hfront]
  | case4 names other count? below rest hnil ih =>
      have hnames : names ≠ [] := hnil
      cases path with
      | nil => simp
      | cons first front =>
          by_cases hfirst : first = other
          · by_cases hfront : front = []
            · simp [get?_cons, hfirst, hfront, hnames.symm]
            · simpa [get?_cons, hfirst, hfront] using ih h.2.1 hnames front
          · simp [get?_cons, hfirst]
  | case5 name names other count? below rest hother hlt =>
      have hfree : name ∉ (entry other count? below rest).topNames := by
        apply not_mem_topNames
        intro later hlater
        rcases List.mem_cons.mp hlater with rfl | hlater
        · exact hlt
        · exact hlt.trans (h.1 later hlater)
      rw [get?_chain hne (by simpa using hfree)]
      split
      · rfl
      · split
        · rename_i hpath
          obtain ⟨hpath, hprefix⟩ := hpath
          obtain ⟨first, front, rfl⟩ := List.exists_cons_of_ne_nil hpath
          obtain ⟨rfl, -⟩ := List.cons_prefix_cons.mp hprefix
          rw [get?_of_not_mem hfree]
          rfl
        · rfl
  | case6 name names other count? below rest hother hlt ih =>
      cases path with
      | nil => simp
      | cons first front =>
          by_cases hfirst : first = other
          · subst hfirst
            simp [get?_cons, Ne.symm hother]
          · simpa [get?_cons, hfirst] using ih h.2.2 hne (first :: front)

section Place

variable {first : Name} {below rest : FileTree} (lines : Nat) (hname : name ≠ first)
include hname

theorem insert_of_lt (hlt : name < first) :
    (entry first lines? below rest).insert lines (name :: names) =
      chain lines (name :: names) (entry first lines? below rest) := by
  cases names <;> simp [insert, hname, hlt]

theorem insert_of_not_lt (hlt : ¬name < first) :
    (entry first lines? below rest).insert lines (name :: names) =
      entry first lines? below (rest.insert lines (name :: names)) := by
  cases names <;> simp [insert, hname, hlt]

end Place

theorem mem_topNames_chain {rest : FileTree} (name : Name) (names : List Name) (later : Name) :
    later ∈ (chain lines (name :: names) rest).topNames ↔ later = name ∨ later ∈ rest.topNames := by
  cases names <;> simp [chain, topNames]

theorem mem_topNames_insert (name : Name) (names : List Name) (later : Name) :
    later ∈ (tree.insert lines (name :: names)).topNames ↔
      later = name ∨ later ∈ tree.topNames := by
  induction tree with
  | empty => exact mem_topNames_chain name names later
  | entry first lines? below rest _ ih =>
      by_cases hname : name = first
      · cases names <;> simp [insert, topNames, hname]
      · by_cases hlt : name < first
        · rw [insert_of_lt lines hname hlt]
          exact mem_topNames_chain name names later
        · rw [insert_of_not_lt lines hname hlt, topNames, List.mem_cons, ih, topNames,
            List.mem_cons]
          exact or_left_comm

theorem ascending_chain {rest : FileTree} (hrest : rest.Ascending) (name : Name)
    (names : List Name) (hlater : ∀ later ∈ rest.topNames, name < later) :
    (chain lines (name :: names) rest).Ascending := by
  induction names generalizing rest name with
  | nil => exact ⟨hlater, trivial, hrest⟩
  | cons second names ih => exact ⟨hlater, ih ascending_empty second (by simp [topNames]), hrest⟩

/-- Inserting keeps the order of the names. -/
theorem Ascending.insert (h : tree.Ascending) (lines : Nat) (names : List Name) :
    (tree.insert lines names).Ascending := by
  fun_induction FileTree.insert lines names tree with
  | case1 names =>
      cases names with
      | nil => exact ascending_empty
      | cons name names => exact ascending_chain ascending_empty name names (by simp [topNames])
  | case2 => exact h
  | case3 other count? below rest => exact h
  | case4 names other count? below rest hnames ih => exact ⟨h.1, ih h.2.1, h.2.2⟩
  | case5 name names other count? below rest hother hlt =>
      apply ascending_chain h
      intro later hlater
      rcases List.mem_cons.mp hlater with rfl | hlater
      · exact hlt
      · exact hlt.trans (h.1 later hlater)
  | case6 name names other count? below rest hother hlt ih =>
      refine ⟨fun later hlater => ?_, h.2.1, ih h.2.2⟩
      rcases (mem_topNames_insert name names later).mp hlater with rfl | hlater
      · exact lt_of_le_of_ne (not_lt.mp hlt) (Ne.symm hother)
      · exact h.1 later hlater

end Insert

section Nodes

/-- A node with a name more above it. -/
def under (name : Name) (node : List Name × Option Nat) : List Name × Option Nat :=
  (name :: node.1, node.2)

/-- The nodes with the paths that lead to them, each in front of those below it. -/
def nodes : FileTree → List (List Name × Option Nat)
  | empty => []
  | entry name lines? below rest => ([name], lines?) :: below.nodes.map (under name) ++ rest.nodes

theorem mem_nodes_entry (first : Name) (count? : Option Nat) (below rest : FileTree) :
    (path, lines?) ∈ (entry first count? below rest).nodes ↔
      (path = [first] ∧ lines? = count?) ∨
        (∃ names, path = first :: names ∧ (names, lines?) ∈ below.nodes) ∨
          (path, lines?) ∈ rest.nodes := by
  simp only [nodes, List.cons_append, List.mem_cons, List.mem_append, List.mem_map, under,
    Prod.mk.injEq, Prod.exists]
  constructor
  · rintro (h | ⟨names, found, hmem, rfl, rfl⟩ | h)
    · exact Or.inl h
    · exact Or.inr (Or.inl ⟨names, rfl, hmem⟩)
    · exact Or.inr (Or.inr h)
  · rintro (h | ⟨names, rfl, hmem⟩ | h)
    · exact Or.inl h
    · exact Or.inr (Or.inl ⟨names, lines?, hmem, rfl, rfl⟩)
    · exact Or.inr (Or.inr h)

/-- A path to a node begins with the name of an entry. -/
theorem exists_of_mem_nodes {node : List Name × Option Nat} (h : node ∈ tree.nodes) :
    ∃ name ∈ tree.topNames, ∃ names, node.1 = name :: names := by
  induction tree with
  | empty => cases h
  | entry first count? below rest _ ih =>
      obtain ⟨path, lines?⟩ := node
      rcases (mem_nodes_entry first count? below rest).mp h with ⟨rfl, -⟩ | ⟨names, rfl, -⟩ | h
      · exact ⟨first, List.mem_cons_self, [], rfl⟩
      · exact ⟨first, List.mem_cons_self, names, rfl⟩
      · obtain ⟨name, hname, names, hpath⟩ := ih h
        exact ⟨name, List.mem_cons_of_mem _ hname, names, hpath⟩

/-- The nodes are those that paths lead to. -/
theorem Ascending.mem_nodes_iff (h : tree.Ascending) :
    (path, lines?) ∈ tree.nodes ↔ tree.get? path = some lines? := by
  induction tree generalizing path with
  | empty => simp [nodes]
  | entry first count? below rest ihbelow ihrest =>
      obtain ⟨hlater, hbelow, hrest⟩ := h
      rw [mem_nodes_entry, ihrest hrest]
      cases path with
      | nil => simp
      | cons name names =>
          rw [get?_cons]
          by_cases hname : name = first
          · subst hname
            rw [get?_of_not_mem (not_mem_topNames hlater)]
            by_cases hnames : names = []
            · simp [hnames, ihbelow hbelow, eq_comm]
            · simp [hnames, ihbelow hbelow]
          · simp [hname]

/-- The nodes stand in the order of their paths, parents before what is below them and siblings by
their names. -/
theorem Ascending.pairwise_nodes (h : tree.Ascending) :
    tree.nodes.Pairwise fun a b => a.1 < b.1 := by
  induction tree with
  | empty => exact .nil
  | entry first count? below rest ihbelow ihrest =>
      obtain ⟨hlater, hbelow, hrest⟩ := h
      have hfront : ∀ names : List Name, ∀ node ∈ rest.nodes, first :: names < node.1 := by
        intro names node hnode
        obtain ⟨name, hname, others, hpath⟩ := exists_of_mem_nodes hnode
        rw [hpath, List.cons_lt_cons_iff]
        exact Or.inl (hlater name hname)
      have hunder : ∀ node ∈ below.nodes, [first] < (under first node).1 := by
        intro node hnode
        obtain ⟨name, -, names, hpath⟩ := exists_of_mem_nodes hnode
        rw [under, hpath, List.cons_lt_cons_iff]
        exact Or.inr ⟨rfl, List.nil_lt_cons name names⟩
      rw [nodes, List.cons_append, List.pairwise_cons, List.pairwise_append, List.pairwise_map]
      refine ⟨fun node hnode => ?_, ?_, ihrest hrest, ?_⟩
      · rcases List.mem_append.mp hnode with hnode | hnode
        · obtain ⟨inner, hinner, rfl⟩ := List.mem_map.mp hnode
          exact hunder inner hinner
        · exact hfront [] node hnode
      · refine (ihbelow hbelow).imp fun hlt => ?_
        rw [under, under, List.cons_lt_cons_iff]
        exact Or.inr ⟨rfl, hlt⟩
      · intro a ha b hb
        obtain ⟨inner, -, rfl⟩ := List.mem_map.mp ha
        exact hfront inner.1 b hb

end Nodes

section Files

variable {files : List (List Name × Nat)}

/-- A file whose path begins the path of another one is that one. -/
def PrefixFree {α : Type} (files : List (List α × Nat)) : Prop :=
  ∀ a ∈ files, ∀ b ∈ files, a.1 <+: b.1 → a = b

instance {α : Type} [DecidableEq α] (files : List (List α × Nat)) :
    Decidable (PrefixFree files) :=
  inferInstanceAs (Decidable (∀ a ∈ files, ∀ b ∈ files, a.1 <+: b.1 → a = b))

/-- The count of the last of the files with a path. -/
def lastCount? (files : List (List Name × Nat)) (path : List Name) : Option Nat :=
  ((files.filter (·.1 = path)).getLast?).map Prod.snd

theorem lastCount?_concat (files : List (List Name × Nat)) (names : List Name) (lines : Nat) :
    lastCount? (files ++ [(names, lines)]) path =
      if path = names then some lines else lastCount? files path := by
  by_cases hpath : names = path
  · simp [lastCount?, List.filter_append, hpath]
  · simp [lastCount?, List.filter_append, hpath, Ne.symm hpath]

theorem mem_of_lastCount? (h : lastCount? files path = some lines) : (path, lines) ∈ files := by
  obtain ⟨⟨names, count⟩, hlast, rfl⟩ := Option.map_eq_some_iff.mp h
  obtain ⟨hmem, hpath⟩ := List.mem_filter.mp (List.mem_of_getLast? hlast)
  rwa [← of_decide_eq_true hpath]

/-- A path that one file has, or several with the same count, has this count. -/
theorem lastCount?_of_mem (hsame : ∀ other, (path, other) ∈ files → other = lines)
    (hmem : (path, lines) ∈ files) : lastCount? files path = some lines := by
  have hne : files.filter (·.1 = path) ≠ [] :=
    List.ne_nil_of_mem (List.mem_filter.mpr ⟨hmem, by simp⟩)
  cases hcount : lastCount? files path with
  | none => exact absurd (List.getLast?_eq_none_iff.mp (Option.map_eq_none_iff.mp hcount)) hne
  | some count => rw [hsame count (mem_of_lastCount? hcount)]

theorem ofFiles_concat (files : List (List Name × Nat)) (names : List Name) (lines : Nat) :
    ofFiles (files ++ [(names, lines)]) = (ofFiles files).insert lines names := by
  simp [ofFiles, List.foldl_append]

theorem ascending_ofFiles (files : List (List Name × Nat)) : (ofFiles files).Ascending := by
  induction files using List.reverseRecOn with
  | nil => exact ascending_empty
  | append_singleton files file ih =>
      obtain ⟨names, lines⟩ := file
      rw [ofFiles_concat]
      exact ih.insert lines names

/-- A path leads to a node when it goes on to the path of a file, and the node has the count of the
last file with its path. -/
theorem get?_ofFiles (hne : ∀ file ∈ files, file.1 ≠ []) (path : List Name) :
    (ofFiles files).get? path =
      if path ≠ [] ∧ ∃ file ∈ files, path <+: file.1 then some (lastCount? files path)
      else none := by
  induction files using List.reverseRecOn with
  | nil => simp [ofFiles]
  | append_singleton files file ih =>
      obtain ⟨names, lines⟩ := file
      have hnames : names ≠ [] := hne (names, lines) (by simp)
      have hbefore := ih fun file hfile => hne file (List.mem_append_left _ hfile)
      rw [ofFiles_concat, get?_insert (ascending_ofFiles files) hnames, lastCount?_concat, hbefore]
      by_cases hpath : path = names
      · simp [hpath, hnames]
      · by_cases habove : path ≠ [] ∧ path <+: names
        · by_cases hfound : ∃ file ∈ files, path <+: file.1
          · simp [hpath, habove, hfound]
          · have hcount : lastCount? files path = none := by
              apply Option.eq_none_iff_forall_ne_some.mpr
              intro count hcount
              exact hfound ⟨_, mem_of_lastCount? hcount, List.prefix_rfl⟩
            simp [hpath, habove, hfound, hcount]
        · rw [if_neg hpath, if_neg habove, if_neg hpath]
          congr 1
          rw [eq_iff_iff]
          refine and_congr_right fun hnil => ?_
          have hnot : ¬path <+: names := fun hprefix => habove ⟨hnil, hprefix⟩
          simp only [List.mem_append, List.mem_singleton, or_and_right, exists_or,
            exists_eq_left, hnot, or_false]

/-- The nodes are what the paths of the files begin with, each with the count of the last file that
has its path. -/
theorem mem_nodes_ofFiles_iff (hne : ∀ file ∈ files, file.1 ≠ []) :
    (path, lines?) ∈ (ofFiles files).nodes ↔
      (path ≠ [] ∧ ∃ file ∈ files, path <+: file.1) ∧ lines? = lastCount? files path := by
  rw [(ascending_ofFiles files).mem_nodes_iff, get?_ofFiles hne]
  split_ifs with h
  · simp [h, eq_comm]
  · exact iff_of_false (by simp) fun hboth => h hboth.1

/-- The tree has the files, each with its line count, and the directories above them, and a
directory is what has nodes below it. -/
structure IsTreeOf (files : List (List Name × Nat)) (tree : FileTree) : Prop where
  node_iff : ∀ path, (∃ lines?, (path, lines?) ∈ tree.nodes) ↔
    path ≠ [] ∧ ∃ file ∈ files, path <+: file.1
  file_iff : ∀ path lines, (path, some lines) ∈ tree.nodes ↔ (path, lines) ∈ files
  once : ∀ path count? lines?, (path, count?) ∈ tree.nodes → (path, lines?) ∈ tree.nodes →
    count? = lines?
  childless_iff : ∀ path lines?, (path, lines?) ∈ tree.nodes →
    ((∀ name count?, (path ++ [name], count?) ∉ tree.nodes) ↔ lines?.isSome)

/-- In the tree of the files, nothing lies below one of them. -/
theorem IsTreeOf.prefixFree {tree : FileTree} (h : IsTreeOf files tree) : PrefixFree files := by
  rintro ⟨path, lines⟩ hfile ⟨other, count⟩ hother ⟨behind, rfl⟩
  have hnode := (h.file_iff path lines).mpr hfile
  cases behind with
  | nil =>
      rw [List.append_nil] at hother ⊢
      have hcount := h.once path _ _ hnode ((h.file_iff path count).mpr hother)
      rw [Option.some.inj hcount]
  | cons name names =>
      obtain ⟨count?, hcount⟩ := (h.node_iff (path ++ [name])).mpr
        ⟨by simp, _, hother, ⟨names, by simp⟩⟩
      exact absurd hcount (((h.childless_iff path _ hnode).mpr rfl) name count?)

section PrefixFree

variable (hne : ∀ file ∈ files, file.1 ≠ []) (hfree : PrefixFree files)
include hfree

/-- Of files none of which lies on the path of another, at most one has a path. -/
theorem lastCount?_eq_some_iff : lastCount? files path = some lines ↔ (path, lines) ∈ files := by
  refine ⟨mem_of_lastCount?, fun hmem => lastCount?_of_mem (fun other hother => ?_) hmem⟩
  exact congrArg Prod.snd (hfree _ hother _ hmem List.prefix_rfl)

include hne

/-- The order of the insertions makes no difference, and neither does their number. -/
theorem ofFiles_congr {others : List (List Name × Nat)} (h : ∀ file, file ∈ others ↔ file ∈ files) :
    ofFiles others = ofFiles files := by
  apply (ascending_ofFiles others).ext (ascending_ofFiles files)
  intro path
  have hfree' : PrefixFree others :=
    fun a ha b hb => hfree a ((h a).mp ha) b ((h b).mp hb)
  have hcount : lastCount? others path = lastCount? files path := by
    ext lines
    exact (lastCount?_eq_some_iff hfree').trans
      ((h _).trans (lastCount?_eq_some_iff hfree).symm)
  rw [get?_ofFiles hne, get?_ofFiles fun file hfile => hne file ((h file).mp hfile), hcount]
  simp only [h]

theorem isTreeOf_ofFiles : IsTreeOf files (ofFiles files) := by
  have hmem : ∀ path lines?, (path, lines?) ∈ (ofFiles files).nodes ↔
      (path ≠ [] ∧ ∃ file ∈ files, path <+: file.1) ∧ lines? = lastCount? files path :=
    fun path lines? => mem_nodes_ofFiles_iff hne
  have hnode : ∀ path, (∃ lines?, (path, lines?) ∈ (ofFiles files).nodes) ↔
      path ≠ [] ∧ ∃ file ∈ files, path <+: file.1 := by
    intro path
    simp only [hmem, exists_and_left, exists_eq, and_true]
  refine ⟨hnode, fun path lines => ?_, fun path count? lines? hcount hlines => ?_,
    fun path lines? hpath => ?_⟩
  · rw [hmem, eq_comm, lastCount?_eq_some_iff hfree]
    exact and_iff_right_of_imp fun hfile => ⟨hne _ hfile, _, hfile, List.prefix_rfl⟩
  · rw [((hmem _ _).mp hcount).2, ((hmem _ _).mp hlines).2]
  · obtain ⟨⟨hnil, file, hfile, hprefix⟩, rfl⟩ := (hmem _ _).mp hpath
    cases hcount : lastCount? files path with
    | none =>
        -- The next name on the path to a file below makes a node.
        obtain ⟨behind, hbehind⟩ := hprefix
        refine iff_of_false (fun hnone => ?_) (by simp)
        cases behind with
        | nil =>
            rw [List.append_nil] at hbehind
            have hself : (path, file.2) ∈ files := hbehind ▸ hfile
            rw [(lastCount?_eq_some_iff hfree).mpr hself] at hcount
            cases hcount
        | cons name names =>
            obtain ⟨count?, hcount⟩ := (hnode (path ++ [name])).mpr
              ⟨by simp, file, hfile, ⟨names, by rw [← hbehind]; simp⟩⟩
            exact hnone name count? hcount
    | some lines =>
        have hself := mem_of_lastCount? hcount
        refine iff_of_true (fun name count? hcount => ?_) rfl
        obtain ⟨-, other, hother, hprefix⟩ := (hnode (path ++ [name])).mp ⟨count?, hcount⟩
        have habove : path <+: other.1 := (List.prefix_append path [name]).trans hprefix
        rw [← hfree _ hself other hother habove] at hprefix
        exact absurd hprefix.length_le (by simp)

end PrefixFree

end Files

section Read

variable {files : List (List (List UInt8) × Nat)}

/-- A file with its names as they read. -/
def asRead (file : List (List UInt8) × Nat) : List Name × Nat :=
  (file.1.map Text.decodeLossy, file.2)

/-- A file with its names as they are written. -/
def asWritten (file : List Name × Nat) : List (List UInt8) × Nat :=
  (file.1.map Text.encodeUtf8, file.2)

@[simp]
theorem asRead_asWritten (file : List Name × Nat) : asRead (asWritten file) = file := by
  simp [asRead, asWritten, Function.comp_def]

theorem ofRawFiles_eq (files : List (List (List UInt8) × Nat)) :
    ofRawFiles files = ofFiles (files.map asRead) := by
  rw [ofRawFiles, ofFiles, List.foldl_map]
  rfl

/-- Names that are written as texts read as these texts. -/
theorem ofRawFiles_asWritten (files : List (List Name × Nat)) :
    ofRawFiles (files.map asWritten) = ofFiles files := by
  rw [ofRawFiles_eq, List.map_map]
  congr 1
  exact (List.map_congr_left fun file _ => asRead_asWritten file).trans (List.map_id files)

theorem asRead_ne_nil (hne : ∀ file ∈ files, file.1 ≠ []) :
    ∀ file ∈ files.map asRead, file.1 ≠ [] := by
  intro file hfile
  obtain ⟨raw, hraw, rfl⟩ := List.mem_map.mp hfile
  simpa [asRead] using hne raw hraw

/-- Paths of names that are UTF-8 begin with each other just when they read so. -/
theorem isPrefix_asRead_iff {a b : List (List UInt8)} (ha : ∀ name ∈ a, Text.IsUtf8 name)
    (hb : ∀ name ∈ b, Text.IsUtf8 name) :
    a.map Text.decodeLossy <+: b.map Text.decodeLossy ↔ a <+: b := by
  induction a generalizing b with
  | nil => simp
  | cons first a ih =>
      cases b with
      | nil => simp
      | cons second b =>
          obtain ⟨hfirst, ha⟩ := List.forall_mem_cons.mp ha
          obtain ⟨hsecond, hb⟩ := List.forall_mem_cons.mp hb
          rw [List.map_cons, List.map_cons, List.cons_prefix_cons, List.cons_prefix_cons,
            hfirst.decodeLossy_inj hsecond, ih ha hb]

theorem asRead_inj {a b : List (List UInt8) × Nat} (ha : ∀ name ∈ a.1, Text.IsUtf8 name)
    (hb : ∀ name ∈ b.1, Text.IsUtf8 name) : asRead a = asRead b ↔ a = b := by
  refine ⟨fun h => ?_, congrArg asRead⟩
  obtain ⟨hpath, hcount⟩ := Prod.mk.inj h
  have hlength : a.1.length = b.1.length := by simpa using congrArg List.length hpath
  have hbegins := (isPrefix_asRead_iff ha hb).mp (hpath ▸ List.prefix_rfl)
  exact Prod.ext (hbegins.eq_of_length hlength) hcount

/-- Where all names are UTF-8, reading them makes no difference. -/
theorem prefixFree_asRead_iff (h : ∀ file ∈ files, ∀ name ∈ file.1, Text.IsUtf8 name) :
    PrefixFree (files.map asRead) ↔ PrefixFree files := by
  rw [PrefixFree, List.forall_mem_map]
  refine forall₂_congr fun a ha => ?_
  rw [List.forall_mem_map]
  refine forall₂_congr fun b hb => ?_
  rw [asRead_inj (h a ha) (h b hb)]
  exact imp_congr_left (isPrefix_asRead_iff (h a ha) (h b hb))

end Read

end TreeFold.FileTree
