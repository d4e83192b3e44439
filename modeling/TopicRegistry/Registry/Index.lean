import Std.Data.ExtTreeMap
import TopicRegistry.Registry.FilterTree
import TopicRegistry.Registry.Tally
import TopicRegistry.Subscription.Basic

/-!
# The index of held subscriptions

A subscription is held under a client, a filter and a share group. The index keeps it twice,
under the filter first and under the client first, so that both a message and a client find their
subscriptions without a scan; the filters that have subscribers also stand in a tree, which is
descended along the levels of a topic. Counters go along for the whole index and for each client
that holds something. Emptied inner maps, client records and tree nodes are dropped at once.
-/

namespace TopicRegistry

open Std (ExtTreeMap)

/-- The subscriptions of one client under one filter, by share group. -/
abbrev Shares := ExtTreeMap String Subscription

/-- The subscriptions under one filter, by client. -/
abbrev Subscribers := ExtTreeMap String Shares

/-- What is kept of a client: its subscriptions by filter, and its counters. -/
structure ClientRecord where
  filters : ExtTreeMap String Shares := ∅
  tally : Tally := {}
  deriving DecidableEq

/-- All held subscriptions, by filter, by client and as a tree of filters. -/
structure Index where
  tree : FilterTree := .empty
  filters : ExtTreeMap String Subscribers := ∅
  clients : ExtTreeMap String ClientRecord := ∅
  tally : Tally := {}
  deriving DecidableEq

namespace Index

def find? (index : Index) (client filter share : String) : Option Subscription :=
  (index.clients[client]?.bind (·.filters[filter]?)).bind (·[share]?)

def clientTally? (index : Index) (client : String) : Option Tally :=
  index.clients[client]?.map (·.tally)

/-- Hold a subscription, in the place of the one under the same client, filter and share group;
say whether there was one. -/
def insert (index : Index) (client : String) (sub : Subscription) : Bool × Index :=
  let subscribers := index.filters[sub.filter]?.getD ∅
  let shares := subscribers[client]?.getD ∅
  let existed := shares.contains sub.share
  let record := index.clients[client]?.getD {}
  let held := record.filters[sub.filter]?.getD ∅
  (existed,
    { tree :=
        if index.filters.contains sub.filter then index.tree
        else index.tree.graft sub.filter (TopicFilter.split sub.filter)
      filters :=
        index.filters.insert sub.filter (subscribers.insert client (shares.insert sub.share sub))
      clients :=
        index.clients.insert client
          { filters := record.filters.insert sub.filter (held.insert sub.share sub)
            tally := if existed then record.tally else record.tally.add }
      tally := if existed then index.tally else index.tally.add })

/-- Take a client from the subscribers of a filter, and the filter from the tree once nobody is
left on it. -/
def detach (index : Index) (client filter : String) : Index :=
  match index.filters[filter]? with
  | none => index
  | some subscribers =>
    let left := subscribers.erase client
    if left.isEmpty then
      { index with
        tree := index.tree.prune (TopicFilter.split filter)
        filters := index.filters.erase filter }
    else { index with filters := index.filters.insert filter left }

/-- Remove what a client holds under a filter, for whatever share group; say how many
subscriptions that were. -/
def remove (index : Index) (client filter : String) : Nat × Index :=
  match index.clients[client]? with
  | none => (0, index)
  | some record =>
    match record.filters[filter]? with
    | none => (0, index)
    | some shares =>
      let count := shares.size
      let filters := record.filters.erase filter
      let clients :=
        if filters.isEmpty then index.clients.erase client
        else index.clients.insert client
          { filters, tally := record.tally.remove (UInt64.ofNat count) }
      let detached := { index with clients }.detach client filter
      (count, { detached with tally := detached.tally.remove (UInt64.ofNat count) })

def removeClient (index : Index) (client : String) : Nat × Index :=
  match index.clients[client]? with
  | none => (0, index)
  | some record =>
    let count := record.filters.foldl (fun count _ shares => count + shares.size) 0
    let detached := record.filters.keys.foldl (·.detach client ·)
      { index with clients := index.clients.erase client }
    (count, { detached with tally := detached.tally.remove (UInt64.ofNat count) })

end Index

end TopicRegistry
