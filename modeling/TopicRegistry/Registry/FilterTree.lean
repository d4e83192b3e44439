import TopicRegistry.Registry.Walk
import TopicRegistry.Topic.Matching

/-!
# Trees of filters

Filters are kept in a tree with one edge for each level, wildcards included, so that filters
with a common beginning share their nodes. The type is a forest: `branch level filter below rest`
is the node of `level`, with the filter that ends there, its children `below` and its siblings
`rest`. `graft` makes the path of a filter, `prune` takes the end of a path away together with
the nodes that are left without filter and children, and `walk` visits the filters that cover a
topic, going only where the levels of the topic lead.
-/

namespace TopicRegistry

/-- A forest of filter levels with the filters that end at its nodes. -/
inductive FilterTree where
  | empty
  | branch (level : Level) (filter : Option String) (below rest : FilterTree)
  deriving DecidableEq

namespace FilterTree

def path (filter : String) : List Level → FilterTree
  | [] => empty
  | level :: levels =>
    branch level (if levels = [] then some filter else none) (path filter levels) empty

/-- Make the nodes of a path that are missing and let a filter end there. -/
def graft (filter : String) : FilterTree → List Level → FilterTree
  | tree, [] => tree
  | empty, levels => path filter levels
  | branch here ending below rest, level :: levels =>
    if here = level then
      branch here (if levels = [] then some filter else ending) (graft filter below levels) rest
    else branch here ending below (graft filter rest (level :: levels))

/-- A node with its siblings, or the siblings alone if the node has no filter and no children. -/
def keep (level : Level) : Option String → FilterTree → FilterTree → FilterTree
  | none, empty, rest => rest
  | filter, below, rest => branch level filter below rest

/-- Take the filter at the end of a path away, and the nodes that are useless without it. -/
def prune : FilterTree → List Level → FilterTree
  | tree, [] => tree
  | empty, _ => empty
  | branch here ending below rest, level :: levels =>
    if here = level then
      keep here (if levels = [] then none else ending) (prune below levels) rest
    else branch here ending below (prune rest (level :: levels))

def endingAt : FilterTree → List Level → Option String
  | _, [] => none
  | empty, _ => none
  | branch here ending below rest, level :: levels =>
    if here = level then (if levels = [] then ending else endingAt below levels)
    else endingAt rest (level :: levels)

/-- A node: the filter that ends there, if one does, and its children. -/
abbrev Node := Option String × FilterTree

def child? : FilterTree → Level → Option Node
  | empty, _ => none
  | branch here ending below rest, level =>
    if here = level then some (ending, below) else child? rest level

variable {σ : Type}

def visitNode (visit : σ → String → ForInStep σ) (node : Node) (state : σ) : ForInStep σ :=
  Walk.each visit node.1.toList state

/-- Visit the filters at and below a node that cover what is left of a topic, until the visitor
stops the walk. Three children are looked up: that of `#`, which covers the node itself and all
below, that of the level of the topic and that of `+`. The wildcards are looked up if `wild` is
set; below the first level they always are. -/
def walk (visit : σ → String → ForInStep σ) :
    (topic : List String) → (wild : Bool) → Node → σ → ForInStep σ
  | topic, wild, node, state =>
    let multi :=
      if wild then Walk.each (fun state child => visitNode visit child state)
        (node.2.child? .multi).toList state
      else .yield state
    Walk.andThen multi fun state =>
      match topic with
      | [] => visitNode visit node state
      | level :: rest =>
        let enter (state : σ) (child : Node) := walk visit rest true child state
        Walk.andThen (Walk.each enter (node.2.child? (.ofText level)).toList state) fun state =>
          if wild then Walk.each enter (node.2.child? .single).toList state else .yield state

end FilterTree

end TopicRegistry
