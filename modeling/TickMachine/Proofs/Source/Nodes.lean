import TickMachine.Source.Diagnostic
import TickMachine.Source.Tree

/-! # Programs as trees of nodes

Seen from outside a program is one tree: a root owns the statements of the source, and a block owns
those inside of it and, among them, its end. Such nodes can be put together in many ways that make
no sense. `Node.WellFormed` says which make sense, and a program whose blocks are not nested too
deep has a tree that does.
-/

namespace TickMachine

open Text (quoted)
open Text.Outline

/-- A declarator with others inside. -/
inductive Declared
  | intro (declarator : Declarator) (children : List Declared)

namespace Declared

def children : Declared → List Declared
  | intro _ children => children

def names : Declared → List String
  | intro d children => d.name.text :: children.flatMap names

def outline : Declared → List String
  | intro d children => d.outline (children.map outline)

end Declared

/-- A node of a syntax tree. Any node may stand inside of a root or a block. -/
inductive Node
  | root (children : List Node)
  | block (position : Position) (name : Name) (children : List Node)
  | declaration (declared : Declared)
  | procedure (procedure : Procedure)
  | ending (closing : BlockEnd)

namespace Node

def children : Node → List Node
  | root children => children
  | block _ _ children => children
  | _ => []

/-- The names a node declares itself: of its declarators, of a procedure and its arguments, or of a
block. -/
def names : Node → List String
  | root _ => []
  | block _ name _ => [name.text]
  | declaration declared => declared.names
  | procedure p => p.name.text :: p.arguments.map (·.name.text)
  | ending _ => []

/-- How many blocks the children of a node are further inside of than the node. -/
def blocks : Node → Nat
  | block .. => 1
  | _ => 0

def outline : Node → List String
  | root children => tuple "Program" [sequence (children.map outline)]
  | block position name children =>
    tuple "Module"
      [record "Module"
        [("position", position.outline),
         ("name", [quoted name.text]),
         ("children", sequence (children.map outline))]]
  | declaration declared => tuple "Decl" [declared.outline]
  | procedure p => tuple "Procedure" [p.outline]
  | ending e => tuple "End" [e.outline]

/-- The node stands somewhere in the tree, inside of that many blocks. -/
inductive Stands (tree : Node) : Nat → Node → Prop
  | top : Stands tree 0 tree
  | child {depth : Nat} {parent n : Node} (above : Stands tree depth parent)
      (hn : n ∈ parent.children) : Stands tree (depth + parent.blocks) n

/-- The nodes of the tree stand where such nodes should, and the names in it are short. -/
structure WellFormed (tree : Node) : Prop where
  root : ∃ children, tree = .root children
  root_only : ∀ {depth parent n}, Stands tree depth parent → n ∈ parent.children →
    ∀ children, n ≠ .root children
  ending_last : ∀ {depth parent front closing back}, Stands tree depth parent →
    parent.children = front ++ .ending closing :: back →
      back = [] ∧ ∃ position name, parent = .block position name parent.children
  shallow : ∀ {depth position name children}, Stands tree depth (.block position name children) →
    depth < nestingLimit
  flat : ∀ {depth first chained}, Stands tree depth (.declaration (.intro first chained)) →
    ∀ c ∈ chained, c.children = []
  short : ∀ {depth n}, Stands tree depth n → ∀ name ∈ n.names, name.utf8ByteSize ≤ maxNameSize

/-- Every block of the tree has an end behind all of its statements. -/
def Closed (tree : Node) : Prop :=
  ∀ depth position name children, Stands tree depth (.block position name children) →
    ∃ front closing, children = front ++ [.ending closing]

end Node

/-! ## The tree of a program -/

mutual

/-- The node of a statement. The declarators chained to the first one and the end of a block become
its last children. -/
def Statement.node : Statement → Node
  | .decl first chained => .declaration (.intro first (chained.map fun d => .intro d []))
  | .procedure p => .procedure p
  | .block position name body closing =>
    .block position name (Program.nodes body ++ closing.toList.map .ending)

def Program.nodes : Program → List Node
  | [] => []
  | s :: ss => s.node :: Program.nodes ss

end

/-- The nodes inside of a block. -/
def insideNodes (body : List Statement) (closing : Option BlockEnd) : List Node :=
  Program.nodes body ++ closing.toList.map .ending

/-- The tree of a program. -/
def Program.tree (program : Program) : Node :=
  .root program.nodes

theorem Program.nodes_eq_map (program : Program) : program.nodes = program.map Statement.node := by
  induction program with
  | nil => rfl
  | cons s ss ih => exact congrArg (s.node :: ·) ih

theorem Program.mem_nodes_iff {program : Program} {n : Node} :
    n ∈ program.nodes ↔ ∃ s ∈ program, s.node = n := by
  rw [nodes_eq_map, List.mem_map]

theorem Program.tree_eq (program : Program) : program.tree = .root (insideNodes program none) :=
  congrArg Node.root (List.append_nil _).symm

theorem Declared.outline_intro_nil (d : Declarator) :
    (Declared.intro d []).outline = d.outline [] := by
  rw [outline, List.map_nil]

theorem Statement.outline_node (s : Statement) : s.node.outline = s.outline := by
  match s with
  | decl first chained =>
      rw [node, Node.outline, Declared.outline, List.map_map, outline]
      simp only [Function.comp_def, Declared.outline_intro_nil]
  | procedure p => rw [node, Node.outline, outline]
  | block position name body closing =>
      have hbody : body.map (Node.outline ∘ node) = body.map outline :=
        List.map_congr_left fun s _ => s.outline_node
      rw [node, Node.outline, outline, List.map_append, Program.nodes_eq_map, List.map_map, hbody,
        List.map_map]
      simp only [Function.comp_def, Node.outline]

/-- The tree is what is shown of a program. -/
theorem Program.outline_tree (program : Program) : program.tree.outline = program.outline := by
  rw [tree, Node.outline, outline, nodes_eq_map, List.map_map]
  simp only [Function.comp_def, Statement.outline_node]

/-! ## What stands in the tree of a program -/

/-- The statement stands inside of that many blocks, and no block in it is nested too deep. -/
inductive Statement.Fits : Nat → Statement → Prop
  | decl {depth : Nat} (first : Declarator) (chained : List Declarator) :
      Fits depth (.decl first chained)
  | procedure {depth : Nat} (p : Procedure) : Fits depth (.procedure p)
  | block {depth : Nat} {position : Position} {name : Name} {body : List Statement}
      {closing : Option BlockEnd} (shallow : depth < nestingLimit)
      (inner : ∀ s ∈ body, Fits (depth + 1) s) : Fits depth (.block position name body closing)

/-- No block in the statement lacks its end. -/
inductive Statement.Closed : Statement → Prop
  | decl (first : Declarator) (chained : List Declarator) : Closed (.decl first chained)
  | procedure (p : Procedure) : Closed (.procedure p)
  | block {position : Position} {name : Name} {body : List Statement} (closing : BlockEnd)
      (inner : ∀ s ∈ body, Closed s) : Closed (.block position name body (some closing))

theorem Statement.node_ne_ending (s : Statement) (e : BlockEnd) : s.node ≠ .ending e := by
  cases s <;> simp [node]

theorem Statement.node_ne_root (s : Statement) (children : List Node) :
    s.node ≠ .root children := by
  cases s <;> simp [node]

/-- What is good of a block, inside of that many blocks, is good of the statements inside of it. -/
def Inherited (good : Nat → Statement → Prop) : Prop :=
  ∀ ⦃depth position name body closing⦄, good depth (.block position name body closing) →
    ∀ s ∈ body, good (depth + 1) s

theorem inherited_fits : Inherited Statement.Fits := by
  intro depth position name body closing h
  cases h with
  | block _ inner => exact inner

theorem inherited_closed : Inherited fun _ => Statement.Closed := by
  intro depth position name body closing h
  cases h with
  | block _ inner => exact inner

section Standing

variable {good : Nat → Statement → Prop} {program : Program} {depth : Nat} {parent n : Node}

/-- The node is the end of a block or a good statement inside of that many blocks. -/
def Node.Sorted (good : Nat → Statement → Prop) (depth : Nat) (n : Node) : Prop :=
  (∃ s : Statement, n = s.node ∧ good depth s) ∨ ∃ e, n = .ending e

/-- What is inherited and good of the statements of a program is good of all in its tree. -/
theorem Program.sorted_of_mem_children (hgood : Inherited good)
    (hprogram : ∀ s ∈ program, good 0 s) (above : Node.Stands program.tree depth parent)
    (hn : n ∈ parent.children) : n.Sorted good (depth + parent.blocks) := by
  induction above generalizing n with
  | top =>
      obtain ⟨s, hs, rfl⟩ := mem_nodes_iff.mp hn
      exact .inl ⟨s, rfl, hprogram s hs⟩
  | child _ hparent ih =>
      rcases ih hparent with ⟨s, rfl, hs⟩ | ⟨e, rfl⟩
      · cases s with
        | decl first chained => rw [Statement.node] at hn; cases hn
        | procedure p => rw [Statement.node] at hn; cases hn
        | block position name body closing =>
            rw [Statement.node] at hn ⊢
            rcases List.mem_append.mp hn with hbody | hclosing
            · obtain ⟨s, hmem, rfl⟩ := mem_nodes_iff.mp hbody
              exact .inl ⟨s, rfl, hgood hs s hmem⟩
            · obtain ⟨e, -, rfl⟩ := List.mem_map.mp hclosing
              exact .inr ⟨e, rfl⟩
      · cases hn

theorem Program.sorted_of_stands (hgood : Inherited good) (hprogram : ∀ s ∈ program, good 0 s)
    (h : Node.Stands program.tree depth n) :
    n = program.tree ∨ n.Sorted good depth := by
  cases h with
  | top => exact .inl rfl
  | child above hn => exact .inr (sorted_of_mem_children hgood hprogram above hn)

end Standing

/-- No end of a block stands outside of all blocks. -/
theorem Program.nodes_ne_append_ending {program : Program} {front back : List Node} {e : BlockEnd} :
    program.nodes ≠ front ++ .ending e :: back := by
  intro heq
  have hmem : Node.ending e ∈ program.nodes := by simp [heq]
  obtain ⟨s, -, hs⟩ := mem_nodes_iff.mp hmem
  exact s.node_ne_ending e hs

/-- The children of a statement end with the end of a block, if there is one. -/
theorem Statement.ending_last {s : Statement} {front back : List Node} {e : BlockEnd}
    (h : s.node.children = front ++ .ending e :: back) :
    back = [] ∧ ∃ position name, s.node = .block position name s.node.children := by
  cases s with
  | decl first chained => simp [node, Node.children] at h
  | procedure p => simp [node, Node.children] at h
  | block position name body closing =>
      refine ⟨?_, position, name, rfl⟩
      cases closing with
      | none =>
          have hbody : Program.nodes body = front ++ .ending e :: back := by
            simpa [node, Node.children] using h
          exact absurd hbody Program.nodes_ne_append_ending
      | some closing =>
          rcases List.eq_nil_or_concat back with rfl | ⟨rest, last, rfl⟩
          · rfl
          · have hsplit : Program.nodes body ++ [.ending closing] =
                (front ++ .ending e :: rest) ++ [last] := by
              simpa [node, Node.children] using h
            exact absurd (List.append_inj_left' hsplit rfl) Program.nodes_ne_append_ending

theorem Statement.chained_flat {s : Statement} {first : Declarator} {chained : List Declared}
    (h : s.node = .declaration (.intro first chained)) : ∀ c ∈ chained, c.children = [] := by
  cases s with
  | decl first others =>
      rw [node] at h
      cases h
      intro c hc
      obtain ⟨d, -, rfl⟩ := List.mem_map.mp hc
      rfl
  | procedure p => simp [node] at h
  | block position name body closing => simp [node] at h

/-- The length of a name is part of its type. -/
theorem Statement.names_short (s : Statement) :
    ∀ name ∈ s.node.names, name.utf8ByteSize ≤ maxNameSize := by
  cases s with
  | decl first chained =>
      rw [node, Node.names, Declared.names, List.flatMap_map]
      intro name hname
      rcases List.mem_cons.mp hname with rfl | hchained
      · exact first.name.fits
      · obtain ⟨d, -, hd⟩ := List.mem_flatMap.mp hchained
        obtain rfl : name = d.name.text := by simpa [Declared.names] using hd
        exact d.name.fits
  | procedure p =>
      rw [node, Node.names]
      intro name hname
      rcases List.mem_cons.mp hname with rfl | harguments
      · exact p.name.fits
      · obtain ⟨a, -, rfl⟩ := List.mem_map.mp harguments
        exact a.name.fits
  | block position name body closing =>
      rw [node, Node.names]
      intro text htext
      obtain rfl := List.mem_singleton.mp htext
      exact name.fits

/-- The statements of a program whose blocks are not nested too deep stand where they should. -/
theorem Program.wellFormed_tree {program : Program} (h : ∀ s ∈ program, s.Fits 0) :
    program.tree.WellFormed := by
  refine ⟨⟨_, rfl⟩, ?_, ?_, ?_, ?_, ?_⟩
  · intro depth parent n above hn children
    rcases sorted_of_mem_children inherited_fits h above hn with ⟨s, rfl, -⟩ | ⟨e, rfl⟩
    · exact s.node_ne_root children
    · exact nofun
  · intro depth parent front e back above hsplit
    rcases sorted_of_stands inherited_fits h above with rfl | ⟨s, rfl, -⟩ | ⟨e, rfl⟩
    · exact absurd hsplit nodes_ne_append_ending
    · exact Statement.ending_last hsplit
    · simp [Node.children] at hsplit
  · intro depth position name children hstands
    rcases sorted_of_stands inherited_fits h hstands with htree | ⟨s, hs, hfits⟩ | ⟨e, he⟩
    · cases htree
    · cases hfits with
      | decl first chained => simp [Statement.node] at hs
      | procedure p => simp [Statement.node] at hs
      | block shallow _ => exact shallow
    · cases he
  · intro depth first chained hstands
    rcases sorted_of_stands inherited_fits h hstands with htree | ⟨s, hs, -⟩ | ⟨e, he⟩
    · cases htree
    · exact Statement.chained_flat hs.symm
    · cases he
  · intro depth n hstands
    rcases sorted_of_stands inherited_fits h hstands with rfl | ⟨s, rfl, -⟩ | ⟨e, rfl⟩
    · exact nofun
    · exact s.names_short
    · exact nofun

theorem Program.closed_tree {program : Program} (h : ∀ s ∈ program, s.Closed) :
    program.tree.Closed := by
  intro depth position name children hstands
  rcases sorted_of_stands inherited_closed h hstands with htree | ⟨s, hs, hclosed⟩ | ⟨e, he⟩
  · cases htree
  · cases hclosed with
    | decl first chained => simp [Statement.node] at hs
    | procedure p => simp [Statement.node] at hs
    | @block position name body closing _ =>
        obtain ⟨-, -, rfl⟩ : _ ∧ _ ∧ children = nodes body ++ [.ending closing] := by
          simpa [Statement.node] using hs
        exact ⟨_, closing, rfl⟩
  · cases he

end TickMachine
