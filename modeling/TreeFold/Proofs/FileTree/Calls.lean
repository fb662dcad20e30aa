import TreeFold.Proofs.FileTree.Nodes

/-!
# Drawing file trees

A tree is drawn by calls: an entry with others below it is begun and finished around their calls,
and all other entries are drawn at once. The calls go down to a depth, and a directory at that depth
is begun and finished with nothing between.

What the calls draw is the tree down to that depth. They are balanced, and they show the nodes that
are not too deep, each once, in the order of their paths.
-/

namespace TreeFold.FileTree

/-- A call that draws a part of a tree. -/
inductive Call where
  | leaf (name : Name) (lines? : Option Nat)
  | begin (name : Name) (lines? : Option Nat)
  | finish
deriving DecidableEq, Repr

/-- The calls that draw the entries of a level, and those below them. -/
def calls (depth? : Option Nat) : (level : Nat) → FileTree → List Call
  | _, empty => []
  | level, entry name lines? below rest =>
    if depth?.any (· < level) then []
    else
      (if below = empty then [.leaf name lines?]
      else .begin name lines? :: below.calls depth? (level + 1) ++ [.finish]) ++
        rest.calls depth? level

/-- Every entry that is begun is finished, and no other one. -/
inductive Balanced : List Call → Prop
  | nil : Balanced []
  | leaf (name : Name) (lines? : Option Nat) {calls : List Call} :
      Balanced calls → Balanced (.leaf name lines? :: calls)
  | pair (name : Name) (lines? : Option Nat) {inner calls : List Call} :
      Balanced inner → Balanced calls →
        Balanced (.begin name lines? :: inner ++ .finish :: calls)

/-- The nodes that calls show below the names of the entries that are begun. -/
def shown (above : List Name) : List Call → List (List Name × Option Nat)
  | [] => []
  | .leaf name lines? :: calls => (above ++ [name], lines?) :: shown above calls
  | .begin name lines? :: calls => (above ++ [name], lines?) :: shown (above ++ [name]) calls
  | .finish :: calls => shown above.dropLast calls

/-- The entries of a tree with those of another one behind them. -/
def append : FileTree → FileTree → FileTree
  | empty, tree => tree
  | entry name lines? below rest, tree => entry name lines? below (rest.append tree)

/-- A drawing on its way: the entries drawn since the last one that is still open was begun, and the
open ones, the innermost first, each with the entries drawn before it. -/
structure Drawing where
  drawn : FileTree
  pending : List (FileTree × Name × Option Nat)

/-- The drawing after a call. Nothing is finished when nothing is open. -/
def Drawing.perform : Drawing → Call → Drawing
  | ⟨drawn, pending⟩, .leaf name lines? => ⟨drawn.append (entry name lines? empty empty), pending⟩
  | ⟨drawn, pending⟩, .begin name lines? => ⟨empty, (drawn, name, lines?) :: pending⟩
  | ⟨drawn, (before, name, lines?) :: pending⟩, .finish =>
    ⟨before.append (entry name lines? drawn empty), pending⟩
  | ⟨drawn, []⟩, .finish => ⟨drawn, []⟩

/-- The tree that calls draw. -/
def draw (calls : List Call) : FileTree :=
  (calls.foldl Drawing.perform ⟨empty, []⟩).drawn

variable {tree : FileTree} {depth? : Option Nat} {level : Nat}

@[simp]
theorem append_empty (tree : FileTree) : tree.append empty = tree := by
  induction tree with
  | empty => rfl
  | entry name lines? below rest _ ih => rw [append, ih]

theorem append_assoc (a b c : FileTree) : (a.append b).append c = a.append (b.append c) := by
  induction a with
  | empty => rfl
  | entry name lines? below rest _ ih => rw [append, append, append, ih]

@[simp]
theorem calls_empty (depth? : Option Nat) (level : Nat) : empty.calls depth? level = [] := rfl

theorem calls_of_deep (h : depth?.any (· < level) = true) (tree : FileTree) :
    tree.calls depth? level = [] := by
  cases tree with
  | empty => rfl
  | entry name lines? below rest => rw [calls, if_pos h]

/-- The levels that are drawn from a level on. -/
def levelsFrom (depth? : Option Nat) (level : Nat) : Option Nat :=
  depth?.map (· + 1 - level)

theorem limited_of_deep (h : depth?.any (· < level) = true) (tree : FileTree) :
    tree.limited (levelsFrom depth? level) = empty := by
  cases depth? with
  | none => cases h
  | some depth =>
      have hlt : depth < level := of_decide_eq_true h
      have hnone : depth + 1 - level = 0 := by omega
      simp [limited, levelsFrom, hnone, atMost]

@[simp]
theorem limited_empty (depth? : Option Nat) : empty.limited depth? = empty := by
  rcases depth? with _ | _ | depth <;> rfl

theorem limited_entry (h : ¬depth?.any (· < level) = true) (name : Name) (lines? : Option Nat)
    (below rest : FileTree) :
    (entry name lines? below rest).limited (levelsFrom depth? level) =
      entry name lines? (below.limited (levelsFrom depth? (level + 1)))
        (rest.limited (levelsFrom depth? level)) := by
  cases depth? with
  | none => rfl
  | some depth =>
      have hle : level ≤ depth := by simpa using h
      have hlevels : depth + 1 - level = depth - level + 1 := by omega
      simp [limited, levelsFrom, hlevels, atMost]

/-- The calls for a tree draw its first levels behind what is drawn, and leave open what is open. -/
theorem foldl_calls (depth? : Option Nat) (level : Nat) (tree : FileTree) (drawing : Drawing) :
    (tree.calls depth? level).foldl Drawing.perform drawing =
      ⟨drawing.drawn.append (tree.limited (levelsFrom depth? level)), drawing.pending⟩ := by
  induction tree generalizing level drawing with
  | empty => simp
  | entry name lines? below rest ihbelow ihrest =>
      by_cases hdeep : depth?.any (· < level) = true
      · simp [calls_of_deep hdeep, limited_of_deep hdeep]
      · rw [calls, if_neg hdeep, limited_entry hdeep, List.foldl_append, ihrest]
        by_cases hbelow : below = empty
        · simp [hbelow, Drawing.perform, append_assoc, append]
        · simp [hbelow, List.foldl_append, ihbelow, Drawing.perform, append_assoc, append]

/-- The calls for a tree draw it down to the depth. -/
theorem draw_calls (depth? : Option Nat) (tree : FileTree) :
    draw (tree.calls depth? 1) = tree.limited depth? := by
  have hlevels : levelsFrom depth? 1 = depth? := by
    cases depth? <;> simp [levelsFrom]
  rw [draw, foldl_calls, hlevels]
  rfl

/-- The calls for a tree are balanced. -/
theorem balanced_calls (depth? : Option Nat) (level : Nat) (tree : FileTree) :
    Balanced (tree.calls depth? level) := by
  induction tree generalizing level with
  | empty => exact .nil
  | entry name lines? below rest ihbelow ihrest =>
      rw [calls]
      split
      · exact .nil
      · split
        · exact .leaf name lines? (ihrest level)
        · simpa using .pair name lines? (ihbelow (level + 1)) (ihrest level)

section Shown

/-- The node is not below the depth when its path starts from a level. -/
def reaches (depth? : Option Nat) (level : Nat) (node : List Name × Option Nat) : Bool :=
  depth?.all (level + node.1.length ≤ · + 1)

/-- A node with names more above it. -/
def nodeBelow (above : List Name) (node : List Name × Option Nat) : List Name × Option Nat :=
  (above ++ node.1, node.2)

theorem nodeBelow_under (above : List Name) (name : Name) (node : List Name × Option Nat) :
    nodeBelow above (under name node) = nodeBelow (above ++ [name]) node := by
  simp [nodeBelow, under]

theorem reaches_under (depth? : Option Nat) (level : Nat) (name : Name)
    (node : List Name × Option Nat) :
    reaches depth? level (under name node) = reaches depth? (level + 1) node := by
  have hlength : level + (under name node).1.length = level + 1 + node.1.length := by
    simp only [under, List.length_cons]
    omega
  rw [reaches, hlength, reaches]

/-- No node reaches a level that is too deep. -/
theorem filter_nodes_of_deep (h : depth?.any (· < level) = true) (tree : FileTree) :
    tree.nodes.filter (reaches depth? level) = [] := by
  rw [List.filter_eq_nil_iff]
  intro node hnode
  obtain ⟨name, -, names, hpath⟩ := exists_of_mem_nodes hnode
  cases depth? with
  | none => cases h
  | some depth =>
      have hlt : depth < level := of_decide_eq_true h
      simp only [reaches, hpath, List.length_cons, Option.all_some, decide_eq_true_eq]
      omega

theorem reaches_top (h : ¬depth?.any (· < level) = true) (name : Name) (lines? : Option Nat) :
    reaches depth? level ([name], lines?) = true := by
  cases depth? with
  | none => rfl
  | some depth => simpa [reaches] using h

/-- The calls for a tree show the nodes that are not too deep, below the open entries. -/
theorem shown_calls_append (depth? : Option Nat) (level : Nat) (tree : FileTree)
    (above : List Name) (more : List Call) :
    shown above (tree.calls depth? level ++ more) =
      (tree.nodes.filter (reaches depth? level)).map (nodeBelow above) ++ shown above more := by
  induction tree generalizing level above more with
  | empty => rfl
  | entry name lines? inner rest ihinner ihrest =>
      by_cases hdeep : depth?.any (· < level) = true
      · rw [calls_of_deep hdeep, filter_nodes_of_deep hdeep]
        rfl
      · have hfilter : (entry name lines? inner rest).nodes.filter (reaches depth? level) =
            ([name], lines?) ::
              (inner.nodes.filter (reaches depth? (level + 1))).map (under name) ++
                rest.nodes.filter (reaches depth? level) := by
          rw [nodes, List.cons_append, List.filter_cons_of_pos (reaches_top hdeep name lines?),
            List.filter_append, List.filter_map]
          simp only [Function.comp_def, reaches_under, List.cons_append]
        have hmap : (inner.nodes.filter (reaches depth? (level + 1))).map
            (nodeBelow above ∘ under name) =
              (inner.nodes.filter (reaches depth? (level + 1))).map
                (nodeBelow (above ++ [name])) :=
          List.map_congr_left fun node _ => nodeBelow_under above name node
        rw [calls, if_neg hdeep, hfilter, List.map_append, List.map_cons, List.map_map, hmap]
        by_cases hinner : inner = empty
        · simp [hinner, shown, ihrest, nodes, nodeBelow]
        · simp [hinner, shown, ihinner, ihrest, nodeBelow]

/-- The calls for a tree show its nodes down to the depth. -/
theorem shown_calls (depth? : Option Nat) (tree : FileTree) :
    shown [] (tree.calls depth? 1) =
      tree.nodes.filter fun node => depth?.all (node.1.length ≤ ·) := by
  have hshown := shown_calls_append depth? 1 tree [] []
  have hbelow : nodeBelow [] = id := by
    funext node
    simp [nodeBelow]
  have hreaches : reaches depth? 1 = fun node => depth?.all (node.1.length ≤ ·) := by
    funext node
    simp [reaches, Nat.add_comm 1]
  simpa [hbelow, hreaches, shown] using hshown

end Shown

/-- Two files in a directory, and beside it one whose name is not UTF-8. -/
def twoAndOne : List (List (List UInt8) × Nat) :=
  [([[97], [98]], 1), ([[97], [99]], 2), ([[255]], 3)]

end TreeFold.FileTree
