import TopicRegistry.Registry.Basic
import TopicRegistry.Registry.Walk

/-!
# Queries

A query selects held subscriptions by kind, by client and by topic. A topic is either a topic
name, which selects the filters that cover it, or a subscribed name, which selects exactly its
filter and share group. A visitor is shown the selected subscriptions one by one, with its own
state, and may stop the walk; what is walked over is the tree, the map of one filter, the record
of one client or the whole index, whichever the query allows. The order is not part of the answer.
-/

namespace TopicRegistry

open Std (ExtTreeMap)

/-- How the topic of a query is compared with the held filters. -/
inductive Comparison where
  | exactName
  | covering
  deriving DecidableEq

structure Query where
  mask : KindMask := .all
  client : Option String := none
  topic : Option String := none
  comparison : Comparison := .covering
  deriving DecidableEq

/-- A topic of a query that has been read: the target to be found, or the levels to be covered. -/
inductive Subject where
  | exactName (target : Target)
  | covering (topic : List String)
  deriving DecidableEq

namespace Subject

def ofText (topic : String) : Comparison → Except RegistryError Subject
  | .exactName =>
    match ParsedName.ofName topic with
    | .error e => .error e
    | .ok parsed => .ok (.exactName parsed.toTarget)
  | .covering =>
    match TopicName.segments topic with
    | .error e => .error e
    | .ok levels => .ok (.covering levels)

/-- Whether a subscription is one that the topic of the query asks for. -/
def accepts : Subject → Subscription → Bool
  | exactName target, sub => sub.toTarget = target
  | covering topic, sub => Level.cover (TopicFilter.split sub.filter) topic

end Subject

/-- What is shown a client with one of its subscriptions, and may stop the walk. -/
abbrev Visitor (σ : Type) := σ → String → Subscription → ForInStep σ

namespace Visitor

variable {σ : Type}

/-- Pass over the subscriptions that are not selected. -/
def only (visitor : Visitor σ) (selected : Subscription → Bool) : Visitor σ :=
  fun state client sub => if selected sub then visitor state client sub else .yield state

def overShares (visitor : Visitor σ) (client : String) (shares : Shares) (state : σ) :
    ForInStep σ :=
  Walk.each (fun state entry => visitor state client entry.2) shares.toList state

def overRecord (visitor : Visitor σ) (client : String) (record : ClientRecord) (state : σ) :
    ForInStep σ :=
  Walk.each (fun state entry => overShares visitor client entry.2 state) record.filters.toList state

def overSubscribers (visitor : Visitor σ) (subscribers : Subscribers) (state : σ) : ForInStep σ :=
  Walk.each (fun state entry => overShares visitor entry.1 entry.2 state) subscribers.toList state

end Visitor

namespace Index

variable {σ : Type}

def walkClient (index : Index) (visitor : Visitor σ) (client : String) (state : σ) : ForInStep σ :=
  match index.clients[client]? with
  | none => .yield state
  | some record => visitor.overRecord client record state

def walkAll (index : Index) (visitor : Visitor σ) (state : σ) : ForInStep σ :=
  Walk.each (fun state entry => visitor.overRecord entry.1 entry.2 state)
    index.clients.toList state

def walkTarget (index : Index) (visitor : Visitor σ) (target : Target) (state : σ) : ForInStep σ :=
  match index.filters[target.filter]? with
  | none => .yield state
  | some subscribers =>
    Walk.each
      (fun state entry =>
        match entry.2[target.share]? with
        | none => .yield state
        | some sub => visitor state entry.1 sub)
      subscribers.toList state

def walkFilter (index : Index) (visitor : Visitor σ) (state : σ) (filter : String) : ForInStep σ :=
  match index.filters[filter]? with
  | none => .yield state
  | some subscribers => visitor.overSubscribers subscribers state

/-- Descend the tree along the levels of a topic; a system topic hides from wildcards at the
first level. -/
def walkCovering (index : Index) (visitor : Visitor σ) (topic : List String) (state : σ) :
    ForInStep σ :=
  FilterTree.walk (index.walkFilter visitor) topic (!topic.head?.any Topic.isSystem)
    (none, index.tree) state

end Index

abbrev ByClient := ExtTreeMap String (List Subscription)

namespace Registry

variable {σ : Type}

/-- Show a visitor the selected subscriptions until it stops the walk. The topic is read before
anything is looked up or shown. The state that the visitor is left with comes back in any case. -/
def visit (registry : Registry) (query : Query) (visitor : Visitor σ) (state : σ) :
    Except RegistryError Unit × σ :=
  let selected := visitor.only fun sub => query.mask.admits sub.share sub.filter
  match query.client, query.topic.map (Subject.ofText · query.comparison) with
  | _, some (.error e) => (.error e, state)
  | none, none => (.ok (), (registry.index.walkAll selected state).value)
  | none, some (.ok (.exactName target)) =>
    (.ok (), (registry.index.walkTarget selected target state).value)
  | none, some (.ok (.covering topic)) =>
    (.ok (), (registry.index.walkCovering selected topic state).value)
  | some client, none => (.ok (), (registry.index.walkClient selected client state).value)
  | some client, some (.ok subject) =>
    (.ok (), (registry.index.walkClient (selected.only subject.accepts) client state).value)

/-- What a visitor collects that never stops the walk, unless the query is refused. -/
def collect (registry : Registry) (query : Query) (add : σ → String → Subscription → σ)
    (nothing : σ) : Except RegistryError σ :=
  let (outcome, found) :=
    registry.visit query (fun found client sub => .yield (add found client sub)) nothing
  outcome.map fun _ => found

def entries (registry : Registry) (query : Query) :
    Except RegistryError (List (String × Subscription)) :=
  registry.collect query (fun found client sub => (client, sub) :: found) []

def grouped (registry : Registry) (query : Query) : Except RegistryError ByClient :=
  registry.collect query
    (fun found client sub => found.insert client (sub :: found[client]?.getD [])) ∅

/-- The subscriptions whose filter covers a topic name. -/
def covering (registry : Registry) (topic : String) (mask : KindMask) :
    Except RegistryError ByClient :=
  registry.grouped { mask, topic, comparison := .covering }

/-- The subscriptions with exactly the filter and the share group of a subscribed name. -/
def named (registry : Registry) (name : String) (mask : KindMask) :
    Except RegistryError ByClient :=
  registry.grouped { mask, topic := name, comparison := .exactName }

def ofClient (registry : Registry) (client : String) (mask : KindMask) : List Subscription :=
  let collect : Visitor (List Subscription) := fun found _ sub => .yield (sub :: found)
  (registry.index.walkClient
    (collect.only fun sub => mask.admits sub.share sub.filter) client []).value

end Registry

end TopicRegistry
