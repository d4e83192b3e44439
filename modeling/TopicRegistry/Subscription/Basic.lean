import TopicRegistry.Subscription.Kind
import TopicRegistry.Subscription.Options
import TopicRegistry.Topic.Target

/-!
# Subscriptions

A subscription is a target together with the options a client chose for it. It may be built from
any parts, valid or not: the registry judges it when it is submitted. `ofRequest` builds one from
an entry of a decoded subscribe packet, whose name may carry a share prefix.
-/

namespace TopicRegistry

/-- The identifier that means that there is none. -/
def Subscription.noIdentifier : UInt32 := 0

/-- A target and the options of its delivery. -/
structure Subscription extends Target where
  qos : QoS := .atMostOnce
  id : UInt32 := Subscription.noIdentifier
  noLocal : Bool := false
  retainAsPublished : Bool := false
  retainHandling : RetainHandling := .sendAtSubscribe
  deriving DecidableEq

/-- One entry of a decoded subscribe packet, named by a subscribed name. -/
structure TopicRequest where
  name : String
  qos : QoS := .atMostOnce
  noLocal : Bool := false
  retainAsPublished : Bool := false
  retainHandling : RetainHandling := .sendAtSubscribe
  deriving DecidableEq

namespace Subscription

def ofRequest (request : TopicRequest) (id : UInt32) : Except RegistryError Subscription :=
  match Target.ofName request.name with
  | .error e => .error e
  | .ok target => .ok
    { target with
      qos := request.qos
      id
      noLocal := request.noLocal
      retainAsPublished := request.retainAsPublished
      retainHandling := request.retainHandling }

def hasIdentifier (sub : Subscription) : Bool :=
  sub.id != noIdentifier

/-- The one kind that a subscription is filed under: shared before system. -/
def kind (sub : Subscription) : KindMask :=
  if sub.isShared then .share
  else if Topic.isSystem sub.filter then .sys
  else .plain

theorem kind_admits (sub : Subscription) : sub.kind.admits sub.share sub.filter = true := by
  by_cases hs : sub.share = ""
  · by_cases hf : Topic.isSystem sub.filter = true <;>
      simp [kind, Target.isShared, KindMask.admits, KindMask.sys, KindMask.plain, hs, hf]
  · simp [kind, Target.isShared, KindMask.admits, KindMask.share, hs]

end Subscription

end TopicRegistry
