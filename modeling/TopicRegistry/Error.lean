/-!
# Reasons for refusal

Everything a registry, its queries or its configuration can refuse is one of the causes below.
A cause fixes the text shown to a person and the one-byte reason code that a protocol layer sends
back to the client. Nothing here is transient: repeating the same request fails in the same way.
-/

namespace TopicRegistry

inductive RegistryError where
  | invalidFilter (detail : String)
  | invalidName (detail : String)
  | invalidQoS (value : UInt8)
  | invalidRetainHandling (value : UInt8)
  | noSubscriptions (client : String)
  | sharedUnavailable
  | wildcardUnavailable
  | identifierUnavailable
  | quotaExceeded (client : String) (max : UInt64)
  | configuration (detail : String)
  | io (detail : String)
  deriving DecidableEq

namespace RegistryError

def message : RegistryError → String
  | invalidFilter detail => "Invalid topic filter: " ++ detail
  | invalidName detail => "Invalid topic name: " ++ detail
  | invalidQoS value => "Invalid QoS: " ++ toString value.toNat
  | invalidRetainHandling value => "Invalid retain handling: " ++ toString value.toNat
  | noSubscriptions client => "No subscriptions found for client: " ++ client
  | sharedUnavailable => "Shared subscriptions not supported"
  | wildcardUnavailable => "Wildcard subscriptions not supported"
  | identifierUnavailable => "Subscription identifiers not supported"
  | quotaExceeded client max =>
    "Quota exceeded: client " ++ client ++ " already holds " ++ toString max.toNat ++
      " subscriptions"
  | configuration detail => "Configuration error: " ++ detail
  | io detail => "IO error: " ++ detail

/-- The reason code that acknowledges a refused subscription. -/
def reasonCode : RegistryError → UInt8
  | invalidFilter _ => 0x8F
  | invalidName _ => 0x90
  | invalidQoS _ | invalidRetainHandling _ => 0x81
  | quotaExceeded _ _ => 0x97
  | sharedUnavailable => 0x9E
  | identifierUnavailable => 0xA1
  | wildcardUnavailable => 0xA2
  | noSubscriptions _ | configuration _ | io _ => 0x80

/-- Whether the submitted text or value is itself malformed, whatever the state of the registry. -/
def isValidation : RegistryError → Bool
  | invalidFilter _ | invalidName _ | invalidQoS _ | invalidRetainHandling _ => true
  | _ => false

end RegistryError

/-- Where reasons for refusal are looked for in turn, there is none if the first does not apply
and no later one does. -/
theorem refuse_eq_none_iff {α : Type} {p : Prop} [Decidable p] {reason : α} {rest : Option α} :
    (if p then some reason else rest) = none ↔ ¬p ∧ rest = none := by
  by_cases h : p <;> simp [h]

end TopicRegistry
