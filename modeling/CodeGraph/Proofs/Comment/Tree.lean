import CodeGraph.Calls.Site
import CodeGraph.Language
import CodeGraph.Proofs.Place
import CodeGraph.Tree.Decorator
import CodeGraph.Tree.Pattern

/-!
# Trees without comments

A comment is a leaf of the tree that no field leads to. It may stand between any two children of any
node, so taking comments away moves the other children. Whatever is read off a node without counting
its children is read off the same node when the comments are gone.

A node is known by the way to it, so a node of the smaller tree is another node. What a function
says about it is what it said before, with the comments taken out of the nodes it leads to.

## Main Definitions

* `Tree.isBareComment`: a comment that is a leaf, stands under no field and was not made up.
* `Tree.pruned`, `Node.pruned`: a tree and a place in it without these comments.
* `Tree.withoutComments`, `Tree.commentsBare`: a tree without any comment, and whether all comments
  of a tree are bare.

## Main Statements

* `Node.children_pruned`: the children of a node that are left.
* `Node.namedChildren_pruned`, `Node.child?_pruned`, `Node.hasChild_pruned`: what is read off a
  node.
* `Descent.walk_pruned`: a walk visits the same nodes.
* `Tree.withoutComments_eq_pruned`: where all comments are bare they are all taken away.
-/

namespace CodeGraph

namespace Tree

/-- A comment that is a leaf, stands under no field and was not made up by the grammar. -/
def isBareComment : Tree → Bool
  | node label children =>
    label.kind = .comment && label.field = none && !label.missing && children.isEmpty

mutual

/-- A tree without the bare comments below its root. -/
def pruned : Tree → Tree
  | node label children => node label (prunedAll children)

/-- Several trees without bare comments among and below them. -/
def prunedAll : List Tree → List Tree
  | [] => []
  | tree :: trees => if tree.isBareComment then prunedAll trees else tree.pruned :: prunedAll trees

end

/-- Pruning a list of trees drops the comments and prunes the rest. -/
theorem prunedAll_eq (trees : List Tree) :
    prunedAll trees = (trees.filter (!isBareComment ·)).map pruned := by
  induction trees with
  | nil => rfl
  | cons tree rest inductionHypothesis =>
    rw [prunedAll, inductionHypothesis]
    by_cases bare : tree.isBareComment <;> simp [bare]

@[simp]
theorem label_pruned (tree : Tree) : tree.pruned.label = tree.label := by
  cases tree
  rw [pruned, label, label]

/-- So what is left of a node has what is left of its children. -/
theorem children_pruned (tree : Tree) :
    tree.pruned.children = (tree.children.filter (!isBareComment ·)).map pruned := by
  cases tree
  rw [pruned, children, children, prunedAll_eq]

/-- What is known of a bare comment. -/
structure IsBare (tree : Tree) : Prop where
  /-- It is a comment. -/
  kind : tree.label.kind = .comment
  /-- It stands under no field. -/
  field : tree.label.field = none
  /-- It was not made up. -/
  missing : tree.label.missing = false
  /-- It is a leaf. -/
  leaf : tree.children = []

/-- The test and the structure say the same of a tree. -/
theorem isBareComment_iff (tree : Tree) : tree.isBareComment = true ↔ tree.IsBare := by
  obtain ⟨label, children⟩ := tree
  simp only [isBareComment, Bool.and_eq_true, decide_eq_true_eq, Bool.not_eq_true',
    List.isEmpty_iff]
  exact ⟨fun ⟨⟨⟨kind, field⟩, missing⟩, leaf⟩ => ⟨kind, field, missing, leaf⟩,
    fun bare => ⟨⟨⟨bare.kind, bare.field⟩, bare.missing⟩, bare.leaf⟩⟩

/-! ### Faults -/

/-- A bare comment holds no fault. Otherwise leaving it out could hide one. -/
theorem IsBare.hasFault_eq {tree : Tree} (bare : tree.IsBare) : tree.hasFault = false := by
  obtain ⟨label, children⟩ := tree
  obtain rfl : children = [] := bare.leaf
  have kind : label.kind = .comment := bare.kind
  have present : label.missing = false := bare.missing
  simp [hasFault, anyFault, Label.isFault, kind, present]

mutual

/-- Comments are no faults. -/
@[simp]
theorem hasFault_pruned : ∀ tree : Tree, tree.pruned.hasFault = tree.hasFault
  | node label children => by rw [pruned, hasFault, hasFault, anyFault_prunedAll children]

theorem anyFault_prunedAll : ∀ trees : List Tree, anyFault (prunedAll trees) = anyFault trees
  | [] => rfl
  | tree :: rest => by
    rw [prunedAll, anyFault]
    split
    · next bare =>
      rw [((isBareComment_iff tree).mp bare).hasFault_eq, anyFault_prunedAll rest, Bool.false_or]
    · rw [anyFault, hasFault_pruned tree, anyFault_prunedAll rest]

end

/-! ### All comments -/

mutual

/-- A tree without the comments below its root. -/
def withoutComments : Tree → Tree
  | node label children => node label (withoutCommentsAll children)

/-- Several trees without comments among and below them. -/
def withoutCommentsAll : List Tree → List Tree
  | [] => []
  | tree :: trees =>
    if tree.label.kind = .comment then withoutCommentsAll trees
    else tree.withoutComments :: withoutCommentsAll trees

end

mutual

/-- Whether every comment below the root is a leaf, stands under no field and was not made up. -/
def commentsBare : Tree → Bool
  | node _ children => allCommentsBare children

/-- Whether every comment among and below several trees is bare. -/
def allCommentsBare : List Tree → Bool
  | [] => true
  | tree :: trees =>
    (tree.label.kind ≠ .comment || tree.isBareComment) && tree.commentsBare
      && allCommentsBare trees

end

mutual

/-- Where all comments are bare they are all taken away. -/
theorem withoutComments_eq_pruned :
    ∀ tree : Tree, tree.commentsBare → tree.withoutComments = tree.pruned
  | node label children, bare => by
    rw [withoutComments, pruned, withoutCommentsAll_eq_prunedAll children bare]

theorem withoutCommentsAll_eq_prunedAll :
    ∀ trees : List Tree, allCommentsBare trees → withoutCommentsAll trees = prunedAll trees
  | [], _ => rfl
  | tree :: rest, bare => by
    simp only [allCommentsBare, Bool.and_eq_true, Bool.or_eq_true, decide_eq_true_eq] at bare
    obtain ⟨⟨isBare, below⟩, others⟩ := bare
    have comment_iff : tree.label.kind = .comment ↔ tree.isBareComment = true :=
      ⟨fun comment => isBare.resolve_left (absurd comment),
        fun bare => ((isBareComment_iff tree).mp bare).kind⟩
    rw [withoutCommentsAll, prunedAll, withoutCommentsAll_eq_prunedAll rest others,
      withoutComments_eq_pruned tree below]
    exact if_congr comment_iff rfl rfl

end

end Tree

/-! ### Places -/

/-- A step up from a place that is left, in the tree that is left. -/
def Step.pruned (step : Step) : Step where
  parent := step.parent.pruned
  index := ((step.parent.children.take step.index).filter (!Tree.isBareComment ·)).length

namespace Node

/-- A place in the tree that is left. -/
def pruned (node : Node) : Node where
  source := node.source
  focus := node.focus.pruned
  trail := node.trail.map Step.pruned

/-- Whether a bare comment stands at a place. -/
def isBareComment (node : Node) : Bool := node.focus.isBareComment

variable (node : Node)

@[simp]
theorem source_pruned : node.pruned.source = node.source := rfl

@[simp]
theorem label_pruned : node.pruned.label = node.label := Tree.label_pruned node.focus

@[simp]
theorem kind_pruned : node.pruned.kind = node.kind := by
  rw [kind, label_pruned, kind]

/-- The text of a node is cut from the text of the file, which keeps its comments. -/
@[simp]
theorem text_pruned : node.pruned.text = node.text := by
  rw [text, label_pruned, source_pruned, text]

@[simp]
theorem pruned_root (source : SourceFile) (tree : Tree) :
    (root source tree).pruned = root source tree.pruned := rfl

/-- The node above a node is left, for no comment has children. -/
@[simp]
theorem parent?_pruned : node.pruned.parent? = node.parent?.map pruned := by
  obtain ⟨source, focus, trail⟩ := node
  cases trail <;> rfl

/-- So are all the nodes above it. -/
@[simp]
theorem ancestors_pruned : node.pruned.ancestors = node.ancestors.map pruned := by
  obtain ⟨source, focus, trail⟩ := node
  show alongTrail source (trail.map Step.pruned) = (alongTrail source trail).map pruned
  induction trail with
  | nil => rfl
  | cons step rest inductionHypothesis =>
    exact congrArg (_ :: ·) inductionHypothesis

/-! ### Children -/

/-- The children that are left, from some child on. -/
theorem zipIdx_enter_pruned (before rest : List Tree)
    (whole : node.focus.children = before ++ rest) :
    ((Tree.prunedAll rest).zipIdx (before.filter (!Tree.isBareComment ·)).length).map
        (fun entry => node.pruned.enter entry.1 entry.2) =
      (((rest.zipIdx before.length).map fun entry => node.enter entry.1 entry.2).filter
        (!isBareComment ·)).map pruned := by
  induction rest generalizing before with
  | nil => rfl
  | cons tree rest inductionHypothesis =>
    have later := inductionHypothesis (before ++ [tree]) (by simp [whole])
    rw [List.filter_append, List.length_append, List.length_append] at later
    rw [Tree.prunedAll, List.zipIdx_cons, List.map_cons]
    by_cases bare : tree.isBareComment
    · have gone : (node.enter tree before.length).isBareComment = true := bare
      rw [if_pos bare, List.filter_cons_of_neg (by simp [gone])]
      simpa [bare] using later
    · have left : (node.enter tree before.length).isBareComment = false :=
        Bool.eq_false_iff.mpr bare
      rw [if_neg bare, List.filter_cons_of_pos (by simp [left]), List.zipIdx_cons, List.map_cons,
        List.map_cons]
      refine congrArg₂ List.cons ?_ (by simpa [bare] using later)
      have taken : node.focus.children.take before.length = before := by rw [whole]; simp
      simp [enter, pruned, Step.pruned, taken]

/-- The children of a node that are left. -/
theorem children_pruned :
    node.pruned.children = (node.children.filter (!isBareComment ·)).map pruned := by
  have all := zipIdx_enter_pruned node [] node.focus.children rfl
  rw [children, children]
  show ((node.focus.pruned.children).zipIdx.map _) = _
  rw [Tree.children_pruned, ← Tree.prunedAll_eq]
  exact all

theorem kind_of_isBareComment {node : Node} (bare : node.isBareComment = true) :
    node.kind = .comment := ((Tree.isBareComment_iff _).mp bare).kind

/-- A choice among nodes that no comment meets is made among those that are left. -/
theorem filter_left (nodes : List Node) (choice : Node → Bool)
    (told : ∀ node : Node, choice node.pruned = choice node)
    (passes : ∀ node : Node, node.isBareComment = true → choice node = false) :
    ((nodes.filter (!isBareComment ·)).map pruned).filter choice =
      (nodes.filter choice).map pruned := by
  have chosen : choice ∘ pruned = choice := funext told
  rw [List.filter_map, chosen, List.filter_filter]
  refine congrArg (List.map pruned) (List.filter_congr fun node _ => ?_)
  by_cases bare : node.isBareComment = true <;> simp [bare, passes]

/-- The named children were given without comments all along. This is why readers do not see
comments. -/
@[simp]
theorem namedChildren_pruned : node.pruned.namedChildren = node.namedChildren.map pruned := by
  rw [namedChildren, children_pruned]
  exact filter_left _ _ (fun child => by simp)
    fun child bare => by simp [kind_of_isBareComment bare]

/-- The first named child is the first of them. -/
@[simp]
theorem firstNamed?_pruned : node.pruned.firstNamed? = node.firstNamed?.map pruned := by
  rw [firstNamed?, namedChildren_pruned, List.head?_map, firstNamed?]

/-- A comment stands in no field, so the child in a field is left. -/
@[simp]
theorem child?_pruned (field : Field) :
    node.pruned.child? field = (node.child? field).map pruned := by
  have chosen := filter_left node.children (fun child => child.label.field = some field)
    (fun child => by simp) fun child bare => by
      have noField : child.label.field = none := ((Tree.isBareComment_iff _).mp bare).field
      simp [noField]
  rw [child?, ← List.head?_filter, children_pruned, chosen, List.head?_map, List.head?_filter,
    child?]

theorem child?_left {node child : Node} {field : Field} (found : node.child? field = some child) :
    node.pruned.child? field = some child.pruned := by
  rw [child?_pruned, found, Option.map_some]

theorem firstNamed?_left {node child : Node} (found : node.firstNamed? = some child) :
    node.pruned.firstNamed? = some child.pruned := by
  rw [firstNamed?_pruned, found, Option.map_some]

/-- Children of other kinds than comments are there or not, as before. -/
@[simp]
theorem hasChild_pruned {kind : Kind} (other : kind ≠ .comment) :
    node.pruned.hasChild kind = node.hasChild kind := by
  rw [hasChild, children_pruned, List.any_map, List.any_filter, hasChild]
  refine congrArg node.children.any (funext fun child => ?_)
  by_cases bare : child.isBareComment = true
  · simp [kind_of_isBareComment bare, other.symm]
  · simp [bare]

end Node

/-! ### Walks -/

/-- A walk through what is left visits what is left of the nodes that it visited, when it goes
nowhere from a comment. -/
theorem Descent.walk_pruned (descent : Descent)
    (commutes : ∀ node, descent.below node.pruned =
      ((descent.below node).filter (!Node.isBareComment ·)).map Node.pruned)
    (stops : ∀ node, node.isBareComment = true → descent.below node = []) (waiting : List Node) :
    descent.walk ((waiting.filter (!Node.isBareComment ·)).map Node.pruned) =
      ((descent.walk waiting).filter (!Node.isBareComment ·)).map Node.pruned := by
  fun_induction descent.walk waiting with
  | case1 => simp [walk]
  | case2 node waiting smaller inductionHypothesis =>
    by_cases bare : node.isBareComment = true
    · rw [stops node bare, List.nil_append] at inductionHypothesis
      simpa [bare, stops node bare] using inductionHypothesis
    · rw [List.filter_append, List.map_append] at inductionHypothesis
      rw [List.filter_cons_of_pos (by simp [bare]), List.filter_cons_of_pos (by simp [bare]),
        List.map_cons, List.map_cons, walk, commutes, inductionHypothesis]

/-- A walk from a node that is left. -/
theorem Descent.walk_singleton_pruned (descent : Descent)
    (commutes : ∀ node, descent.below node.pruned =
      ((descent.below node).filter (!Node.isBareComment ·)).map Node.pruned)
    (stops : ∀ node, node.isBareComment = true → descent.below node = []) {node : Node}
    (left : node.isBareComment = false) :
    descent.walk [node.pruned] =
      ((descent.walk [node]).filter (!Node.isBareComment ·)).map Node.pruned := by
  simpa [left] using descent.walk_pruned commutes stops [node]

namespace Node

variable (node : Node)

/-- A bare comment has nothing below it. -/
theorem children_of_isBareComment {node : Node} (bare : node.isBareComment = true) :
    node.children = [] := by
  rw [children, ((Tree.isBareComment_iff _).mp bare).leaf]
  rfl

/-- What a field leads to is no comment. -/
theorem isBareComment_of_child? {node child : Node} {field : Field}
    (found : node.child? field = some child) : child.isBareComment = false := by
  have inField : child.label.field = some field := by simpa using List.find?_some found
  rw [Bool.eq_false_iff]
  intro bare
  have noField : child.label.field = none := ((Tree.isBareComment_iff _).mp bare).field
  cases noField.symm.trans inField

theorem namedBelow_pruned :
    node.pruned.namedBelow = (node.namedBelow.filter (!isBareComment ·)).map pruned := by
  rw [namedBelow, children_pruned, List.filter_map, List.filter_filter, namedBelow,
    List.filter_filter]
  simp [Bool.and_comm]

/-- The calls in the body of a function. -/
@[simp]
theorem callSites_pruned : node.pruned.callSites = node.callSites.map pruned := by
  rw [callSites, callSites, child?_pruned]
  cases found : node.child? .body with
  | none => rfl
  | some body =>
    have walked := namedDescent.walk_singleton_pruned namedBelow_pruned
      (fun node bare => by simp [namedDescent, namedBelow, children_of_isBareComment bare])
      (isBareComment_of_child? found)
    show (namedDescent.walk [body.pruned]).filter _ = _
    rw [walked]
    exact filter_left _ _ (fun node => by simp)
      fun node bare => by simp [kind_of_isBareComment bare]

/-! ### Faults -/

/-- No bare comment is faulty, so the walk to the faults goes the same way. -/
theorem faultyChildren_pruned :
    node.pruned.faultyChildren = (node.faultyChildren.filter (!isBareComment ·)).map pruned := by
  rw [faultyChildren, faultyChildren, show node.pruned.focus = node.focus.pruned from rfl,
    Tree.hasFault_pruned]
  split
  · rw [children_pruned, List.filter_reverse, List.map_reverse]
  · rfl

@[simp]
theorem range_pruned : node.pruned.range = node.range := by
  rw [range, label_pruned, source_pruned, range]

/-- Comments are not among the faults of a tree. -/
theorem faults_pruned : node.pruned.faults = node.faults.map pruned := by
  rw [faults, faults, show node.pruned.focus = node.focus.pruned from rfl, Tree.hasFault_pruned]
  split
  · next hasFault =>
    have left : node.isBareComment = false := by
      rw [Bool.eq_false_iff]
      intro bare
      rw [((Tree.isBareComment_iff _).mp bare).hasFault_eq] at hasFault
      cases hasFault
    have walked := faultDescent.walk_singleton_pruned faultyChildren_pruned
      (fun node bare => by simp [faultDescent, faultyChildren, children_of_isBareComment bare]) left
    rw [walked]
    refine filter_left _ _ (fun node => by simp) fun node bare => ?_
    have present : node.label.missing = false := ((Tree.isBareComment_iff _).mp bare).missing
    have kind : node.label.kind = .comment := kind_of_isBareComment bare
    simp [Label.isFault, kind, present]
  · rfl

/-- The faults of a tree are told at the same places. -/
@[simp]
theorem faultRanges_pruned : node.pruned.faultRanges = node.faultRanges := by
  have same : range ∘ pruned = range := funext range_pruned
  rw [faultRanges, faults_pruned, List.map_map, same, faultRanges]

end Node

end CodeGraph
