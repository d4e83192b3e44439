import TopicRegistry.Document
import TopicRegistry.Error

/-!
# Delivery options of a subscription

Two options travel as small numbers: the quality of service of the delivery and what happens to
retained messages when the subscription is made. Only the numbers 0, 1 and 2 have a meaning, and
each meaning also has a name in configuration and log documents.
-/

namespace TopicRegistry

/-- How surely a message is delivered. -/
inductive QoS where
  | atMostOnce
  | atLeastOnce
  | exactlyOnce
  deriving DecidableEq, Inhabited

namespace QoS

def toByte : QoS → UInt8
  | atMostOnce => 0
  | atLeastOnce => 1
  | exactlyOnce => 2

def ofByte (value : UInt8) : Except RegistryError QoS :=
  if value = 0 then .ok atMostOnce
  else if value = 1 then .ok atLeastOnce
  else if value = 2 then .ok exactlyOnce
  else .error (.invalidQoS value)

def name : QoS → String
  | atMostOnce => "AtMostOnce"
  | atLeastOnce => "AtLeastOnce"
  | exactlyOnce => "ExactlyOnce"

def ofJson (documents : Documents) (text : String) : Except String QoS :=
  documents.variant name [atMostOnce, atLeastOnce, exactlyOnce] (documents.json text)

def toJson (documents : Documents) (qos : QoS) : String :=
  documents.writeVariant qos.name

theorem ofByte_toByte (qos : QoS) : ofByte qos.toByte = .ok qos := by
  cases qos <;> rfl

end QoS

/-- What a new subscription does to the retained messages of its topics. -/
inductive RetainHandling where
  | sendAtSubscribe
  | sendIfNew
  | dontSend
  deriving DecidableEq, Inhabited

namespace RetainHandling

def toByte : RetainHandling → UInt8
  | sendAtSubscribe => 0
  | sendIfNew => 1
  | dontSend => 2

def ofByte (value : UInt8) : Except RegistryError RetainHandling :=
  if value = 0 then .ok sendAtSubscribe
  else if value = 1 then .ok sendIfNew
  else if value = 2 then .ok dontSend
  else .error (.invalidRetainHandling value)

def name : RetainHandling → String
  | sendAtSubscribe => "SendAtSubscribe"
  | sendIfNew => "SendIfNew"
  | dontSend => "DontSend"

def ofJson (documents : Documents) (text : String) : Except String RetainHandling :=
  documents.variant name [sendAtSubscribe, sendIfNew, dontSend] (documents.json text)

def toJson (documents : Documents) (handling : RetainHandling) : String :=
  documents.writeVariant handling.name

theorem ofByte_toByte (handling : RetainHandling) : ofByte handling.toByte = .ok handling := by
  cases handling <;> rfl

end RetainHandling

end TopicRegistry
