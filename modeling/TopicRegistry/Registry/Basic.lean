import TopicRegistry.Config
import TopicRegistry.Registry.Index

/-!
# Registries of subscriptions

A registry is a configuration and an index. Clients need not be known before they subscribe. The
entries of a batch are judged one after the other, each against what the registry holds by then,
and a refused entry changes nothing. Removal is by filter, share groups and all, and never fails.
-/

namespace TopicRegistry

structure Registry where
  config : Config := {}
  index : Index := {}
  deriving DecidableEq

structure Receipt where
  subscription : Subscription
  alreadyExisted : Bool
  deriving DecidableEq

namespace Registry

def ofConfig (config : Config) : Except RegistryError Registry :=
  match config.check with
  | .error e => .error e
  | .ok config => .ok { config }

def filterRefusal? (sub : Subscription) : Option RegistryError :=
  (TopicFilter.fault? sub.filter).map (·.on sub.filter)

/-- Refuse a share prefix in the filter, where no share group belongs. -/
def prefixRefusal? (sub : Subscription) : Option RegistryError :=
  match Target.ofName sub.filter with
  | .error e => some e
  | .ok target =>
    if target.isShared then some (TopicFilter.Fault.embeddedShareGroup.on sub.filter) else none

def groupRefusal? (sub : Subscription) : Option RegistryError :=
  if sub.isShared then (Target.groupFault? sub.share).map (·.on sub.share) else none

def depthRefusal? (config : Config) (sub : Subscription) : Option RegistryError :=
  if 0 < config.maxLevels ∧
      config.maxLevels.toNat < (TopicFilter.split sub.filter).length then
    some ((TopicFilter.Fault.tooManyLevels config.maxLevels).on sub.filter)
  else none

def capabilityRefusal? (config : Config) (sub : Subscription) : Option RegistryError :=
  if sub.isShared ∧ ¬config.sharedAvailable then some .sharedUnavailable
  else if ¬config.wildcardAvailable ∧ (TopicFilter.split sub.filter).any Level.isWildcard then
    some .wildcardUnavailable
  else if sub.hasIdentifier ∧ ¬config.identifierAvailable then some .identifierUnavailable
  else none

/-- Refuse a new subscription of a client that holds as many as it may. -/
def quotaRefusal? (registry : Registry) (client : String) (sub : Subscription) :
    Option RegistryError :=
  let max := registry.config.maxSubscriptions
  let held := ((registry.index.clientTally? client).getD {}).current
  if 0 < max ∧ (registry.index.find? client sub.filter sub.share).isNone ∧ max ≤ held then
    some (.quotaExceeded client max)
  else none

/-- The first reason to refuse a subscription of a client. -/
def refusal? (registry : Registry) (client : String) (sub : Subscription) :
    Option RegistryError :=
  filterRefusal? sub <|> prefixRefusal? sub <|> groupRefusal? sub <|>
    depthRefusal? registry.config sub <|> capabilityRefusal? registry.config sub <|>
    registry.quotaRefusal? client sub

/-- Judge one subscription of a client and hold it if nothing speaks against it. -/
def subscribe (registry : Registry) (client : String) (sub : Subscription) :
    Except RegistryError Receipt × Registry :=
  match registry.refusal? client sub with
  | some e => (.error e, registry)
  | none =>
    let (existed, index) := registry.index.insert client sub
    (.ok ⟨sub, existed⟩, { registry with index })

def subscribeAll (registry : Registry) (client : String) :
    List Subscription → List (Except RegistryError Receipt) × Registry
  | [] => ([], registry)
  | sub :: subs =>
    let (answer, next) := registry.subscribe client sub
    let (answers, last) := next.subscribeAll client subs
    (answer :: answers, last)

/-- Remove what a client holds under each of some filters; say how many subscriptions that were. -/
def unsubscribe (registry : Registry) (client : String) : List String → Nat × Registry
  | [] => (0, registry)
  | filter :: filters =>
    let (count, index) := registry.index.remove client filter
    let (more, last) := unsubscribe { registry with index } client filters
    (count + more, last)

def unsubscribeAll (registry : Registry) (client : String) : Nat × Registry :=
  let (count, index) := registry.index.removeClient client
  (count, { registry with index })

/-- The counters of a client, refused if it holds nothing. -/
def clientTally (registry : Registry) (client : String) : Except RegistryError Tally :=
  match registry.index.clientTally? client with
  | some tally => .ok tally
  | none => .error (.noSubscriptions client)

end Registry

/-! ## Histories

What changes a registry is one of three operations of a client. A history is a list of them, and
its run collects their answers. The registries that exist are those at the end of a run that
began with an empty registry; what is claimed of all registries is claimed of these.
-/

inductive Operation where
  | subscribe (client : String) (subs : List Subscription)
  | unsubscribe (client : String) (filters : List String)
  | unsubscribeAll (client : String)
  deriving DecidableEq

inductive Answer where
  | receipts (receipts : List (Except RegistryError Receipt))
  | removed (count : Nat)

namespace Registry

def perform (registry : Registry) : Operation → Answer × Registry
  | .subscribe client subs =>
    let (receipts, next) := registry.subscribeAll client subs
    (.receipts receipts, next)
  | .unsubscribe client filters =>
    let (count, next) := registry.unsubscribe client filters
    (.removed count, next)
  | .unsubscribeAll client =>
    let (count, next) := registry.unsubscribeAll client
    (.removed count, next)

def run (registry : Registry) : List Operation → List Answer × Registry
  | [] => ([], registry)
  | operation :: operations =>
    let (answer, next) := registry.perform operation
    let (answers, last) := next.run operations
    (answer :: answers, last)

end Registry

end TopicRegistry
