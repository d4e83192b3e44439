import TopicRegistry.Topic.Filter
import TopicRegistry.Topic.Name

/-!
# Targets of subscriptions

A client names what it subscribes to by one text. Either that text is a filter, or it is
`$share/<group>/<filter>`: a filter whose messages are dealt out among the members of the group.
A `Target` keeps the two parts apart, the group being empty for a subscription of the first kind.
`ofName` takes a subscribed name apart, `name` puts it together again.
-/

namespace TopicRegistry

/-- What a subscription is aimed at: a filter, for a share group or (empty) for one client alone. -/
structure Target where
  share : String
  filter : String
  deriving DecidableEq

namespace Target

def groupFault? (group : String) : Option TopicFilter.Fault :=
  if group = "" then some .emptyShareGroup
  else if Topic.separator ∈ group.toList ∨ '+' ∈ group.toList ∨ '#' ∈ group.toList then
    some .reservedInShareGroup
  else none

def checkGroup (group : String) : Except RegistryError Unit :=
  match groupFault? group with
  | some fault => .error (fault.on group)
  | none => .ok ()

def isShared (target : Target) : Bool :=
  target.share ≠ ""

/-- Take apart what follows the share prefix. -/
def ofShared (rest : List Char) : Except TopicFilter.Fault Target :=
  let group := String.ofList (rest.takeWhile (· ≠ Topic.separator))
  match rest.dropWhile (· ≠ Topic.separator) with
  | [] => .error .missingFilter
  | _ :: filter =>
    if (groupFault? group).isSome then .error .badShareGroup
    else if filter.isEmpty then .error .missingFilter
    else .ok ⟨group, String.ofList filter⟩

/-- Take a subscribed name apart. Only the share prefix is checked, the filter is not. -/
def ofName (raw : String) : Except RegistryError Target :=
  if Topic.sharePrefix.toList.isPrefixOf raw.toList then
    match ofShared (raw.toList.drop Topic.sharePrefix.length) with
    | .error fault => .error (fault.on raw)
    | .ok target => .ok target
  else .ok ⟨"", raw⟩

def name (target : Target) : String :=
  if target.share = "" then target.filter
  else Topic.sharePrefix ++ target.share ++ "/" ++ target.filter

/-- A malformed share prefix makes a text no filter. -/
theorem invalidFilter_of_ofName {raw : String} {e : RegistryError}
    (refused : ofName raw = .error e) : ∃ detail, e = .invalidFilter detail := by
  rw [ofName] at refused
  split at refused
  · split at refused
    · cases refused
      exact ⟨_, rfl⟩
    · cases refused
  · cases refused

example : (ofName "$share/group/sport/+").toOption = some ⟨"group", "sport/+"⟩ := by decide
example : (ofName "$shared/x").toOption = some ⟨"", "$shared/x"⟩ := by decide
example : (ofName "$share/group").toOption = none := by decide

end Target

/-- A subscribed name taken apart, with the levels of its valid filter. -/
structure ParsedName extends Target where
  levels : List Level
  deriving DecidableEq

namespace ParsedName

/-- Read a subscribed name: a share prefix, if there is one, and a valid filter. -/
def ofName (raw : String) : Except RegistryError ParsedName :=
  match Target.ofName raw with
  | .error e => .error e
  | .ok target =>
    match TopicFilter.levels target.filter with
    | .error e => .error e
    | .ok levels => .ok { target with levels }

def hasWildcards (parsed : ParsedName) : Bool :=
  parsed.levels.any Level.isWildcard

theorem ofName_toTarget {raw : String} {parsed : ParsedName}
    (read : ofName raw = .ok parsed) : Target.ofName raw = .ok parsed.toTarget := by
  rw [ofName] at read
  split at read
  · cases read
  · next h =>
    split at read
    · cases read
    · cases read
      exact h

theorem invalidFilter_of_ofName {raw : String} {e : RegistryError}
    (refused : ofName raw = .error e) : ∃ detail, e = .invalidFilter detail := by
  rw [ofName] at refused
  split at refused
  · next h =>
    cases refused
    exact Target.invalidFilter_of_ofName h
  · split at refused
    · next h =>
      cases refused
      exact TopicFilter.invalidFilter_of_levels h
    · cases refused

end ParsedName

end TopicRegistry
