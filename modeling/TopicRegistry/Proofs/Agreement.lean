import TopicRegistry.Proofs.Admission
import TopicRegistry.Proofs.Delivery

/-!
# A filter and a topic on their own

`TopicFilter.covers` judges a filter and a topic without any registry. A registry judges them as
well, if the filter is the only one that is ever subscribed to: it has to accept the filter, then
to read the topic, and then to come to the filter. The two judge alike, with one exception. A
share prefix has no place in a filter of a registry, while `covers` reads it as any two levels; no
topic name lies under the prefix, but one is the level above it.
-/

namespace TopicRegistry

section SharePrefix

/-- A text has the share prefix if it has the first level of the prefix and another one. -/
theorem Topic.sharePrefix_isPrefix_iff {text : String} :
    sharePrefix.toList <+: text.toList ↔
      ∃ second others, segments text = "$share" :: second :: others := by
  have mark : sharePrefix.toList = "$share".toList ++ [separator] := by decide
  constructor
  · rintro ⟨rest, whole⟩
    have cut : text.toList.splitOn separator = "$share".toList :: rest.splitOn separator := by
      rw [← whole, mark, List.append_assoc]
      exact List.splitOn_append_cons_self_of_not_mem (by decide) rest
    cases below : rest.splitOn separator with
    | nil => exact absurd below (List.splitOn_ne_nil separator rest)
    | cons second others =>
      refine ⟨String.ofList second, others.map String.ofList, ?_⟩
      rw [segments, cut, below]
      rfl
  · rintro ⟨second, others, cut⟩
    have joined : [separator].intercalate (text.toList.splitOn separator) = text.toList :=
      List.intercalate_splitOn separator
    obtain ⟨first, below, chars, hfirst, hbelow⟩ := List.map_eq_cons_iff.mp cut
    obtain ⟨next, rest, rfl, -, -⟩ := List.map_eq_cons_iff.mp hbelow
    have head : first = "$share".toList := by rw [← hfirst, String.toList_ofList]
    rw [chars, List.intercalate_cons_cons, head, ← mark] at joined
    exact ⟨_, joined⟩

theorem Level.agreeAll_literal_cons {text : String} {levels : List Level} {topic : List String} :
    agreeAll (.literal text :: levels) topic = true ↔
      ∃ ts, topic = text :: ts ∧ agreeAll levels ts = true := by
  cases topic with
  | nil => simp [agreeAll]
  | cons t ts =>
    simp only [agreeAll, agrees, Bool.and_eq_true, beq_iff_eq, List.cons.injEq]
    constructor
    · rintro ⟨rfl, agreed⟩
      exact ⟨ts, ⟨rfl, rfl⟩, agreed⟩
    · rintro ⟨_, ⟨rfl, rfl⟩, agreed⟩
      exact ⟨rfl, agreed⟩

/-- Only one filter with a share prefix covers anything, namely the level above the prefix. -/
theorem TopicFilter.covers_sharePrefix_iff {filter topic : String} :
    covers filter topic = true ∧ Topic.sharePrefix.toList <+: filter.toList ↔
      topic = "$share" ∧ filter = "$share/#" := by
  constructor
  · rintro ⟨covered, under⟩
    obtain ⟨validName, validFilter⟩ := valid_of_covers covered
    obtain ⟨-, -, -, -, bare⟩ := TopicName.fault?_eq_none_iff.mp validName
    obtain ⟨second, others, cut⟩ := Topic.sharePrefix_isPrefix_iff.mp under
    have levels : split filter =
        .literal "$share" :: .ofText second :: others.map Level.ofText := by
      rw [split, cut]
      rfl
    rw [covers_eq_cover validName validFilter, levels, Level.cover, Bool.and_eq_true] at covered
    obtain ⟨ts, hts, rest⟩ := Level.agreeAll_literal_cons.mp covered.2
    cases ts with
    | cons next more =>
      -- With a second level the topic would have the share prefix itself.
      exact absurd (Topic.sharePrefix_isPrefix_iff.mpr ⟨next, more, hts⟩) bare
    | nil =>
      obtain ⟨multi, last⟩ := Level.agreeAll_cons_nil.mp rest
      have name : split topic = split "$share" := by
        rw [split, hts]
        decide
      have whole : split filter = split "$share/#" := by
        rw [levels, multi, last]
        decide
      exact ⟨Index.split_injective name, Index.split_injective whole⟩
  · rintro ⟨rfl, rfl⟩
    decide

end SharePrefix

def Subscription.plain (filter : String) (qos : QoS) : Subscription :=
  { share := "", filter, qos }

namespace Registry

/-- A fresh registry accepts a filter from a client and then finds it for a topic. -/
def Delivers (client : String) (qos : QoS) (filter topic : String) : Prop :=
  ∃ receipt next grouped,
    ({} : Registry).subscribeAll client [.plain filter qos] = ([.ok receipt], next) ∧
      next.covering topic .all = .ok grouped ∧ .plain filter qos ∈ grouped[client]?.getD []

section Delivering

variable {client : String} {qos : QoS} {filter topic : String}

/-- Without limits and switches a filter without a share group only has to be a filter. -/
theorem conforms_plain_iff :
    (Subscription.plain filter qos).Conforms {} ↔
      TopicFilter.fault? filter = none ∧ ¬Topic.sharePrefix.toList <+: filter.toList := by
  rw [Subscription.conforms_default_iff]
  exact ⟨fun ⟨valid, bare, _⟩ => ⟨valid, bare⟩, fun ⟨valid, bare⟩ => ⟨valid, bare, Or.inl rfl⟩⟩

/-- The answer for a topic name has just what is held, covers the topic and is admitted. -/
theorem covering_lists {config : Config} {registry : Registry} {ledger : Ledger}
    (follows : Follows config registry ledger) (valid : TopicName.fault? topic = none)
    (mask : KindMask) :
    ∃ grouped, registry.covering topic mask = .ok grouped ∧
      ∀ (c : String) (sub : Subscription), sub ∈ grouped[c]?.getD [] ↔
        ledger[Key.of c sub]? = some sub ∧ TopicFilter.covers sub.filter topic = true ∧
          mask.admits sub.share sub.filter = true := by
  refine ⟨_, covering_eq_ok (TopicName.segments_eq_ok_iff.mpr ⟨valid, rfl⟩) mask, ?_⟩
  intro c sub
  rw [(group_perm _ c).1.mem_iff, ← mem_covered_iff follows valid mask]
  simp [ownIn]

/-- Only topic names are answered. -/
theorem fault?_of_covering {registry : Registry} {mask : KindMask} {grouped : ByClient}
    (answered : registry.covering topic mask = .ok grouped) : TopicName.fault? topic = none := by
  cases read : TopicName.segments topic with
  | error e =>
    rw [covering_eq_error read mask] at answered
    cases answered
  | ok levels => exact (TopicName.segments_eq_ok_iff.mp read).1

/-- A fresh registry finds what it accepts for the topics that it covers. -/
theorem delivers_iff :
    Delivers client qos filter topic ↔
      (Subscription.plain filter qos).Conforms {} ∧ TopicFilter.covers filter topic = true := by
  have fresh := follows_empty {}
  have written : ((∅ : Ledger).write client (.plain filter qos))[
      Key.of client (.plain filter qos)]? = some (.plain filter qos) := by
    rw [Ledger.getElem?_write, if_pos rfl]
  constructor
  · rintro ⟨receipt, next, grouped, submitted, answered, found⟩
    obtain ⟨answers, rfl⟩ := Prod.mk.inj submitted
    have accepted := (List.cons.inj answers).1
    have valid := fault?_of_covering answered
    obtain ⟨_, listed, lists⟩ := covering_lists (follows_subscribe fresh accepted) valid .all
    obtain rfl := Except.ok.inj (answered.symm.trans listed)
    exact ⟨(subscribe_fresh_iff _ _).mp ⟨receipt, accepted⟩, ((lists client _).mp found).2.1⟩
  · rintro ⟨conforms, covered⟩
    obtain ⟨receipt, accepted⟩ := (subscribe_fresh_iff client _).mpr conforms
    have valid := (TopicFilter.valid_of_covers covered).1
    obtain ⟨grouped, listed, lists⟩ := covering_lists (follows_subscribe fresh accepted) valid .all
    have found := (lists client _).mpr ⟨written, covered, KindMask.all_admits "" filter⟩
    exact ⟨receipt, _, grouped, Prod.ext (congrArg ([·]) accepted) rfl, listed, found⟩

end Delivering

/-- A fresh registry delivers to a filter just the topics that it covers on its own, whoever
submits it and with whatever quality of service; but the level above the share prefix is not
delivered to the filter that covers it from within the prefix. -/
theorem delivers_iff_covers (client : String) (qos : QoS) (filter topic : String) :
    Delivers client qos filter topic ↔
      TopicFilter.covers filter topic = true ∧ ¬(topic = "$share" ∧ filter = "$share/#") := by
  rw [delivers_iff, conforms_plain_iff, ← TopicFilter.covers_sharePrefix_iff]
  constructor
  · rintro ⟨⟨-, bare⟩, covered⟩
    exact ⟨covered, fun h => bare h.2⟩
  · rintro ⟨covered, apart⟩
    obtain ⟨-, valid⟩ := TopicFilter.valid_of_covers covered
    exact ⟨⟨valid, fun under => apart ⟨covered, under⟩⟩, covered⟩

/-- The level above the share prefix is covered, but no client gets it delivered that way. -/
theorem covers_not_delivers_sharePrefix :
    TopicFilter.covers "$share/#" "$share" = true ∧
      ¬∃ client qos, Delivers client qos "$share/#" "$share" := by
  refine ⟨by decide, ?_⟩
  rintro ⟨client, qos, delivers⟩
  obtain ⟨-, bare⟩ := conforms_plain_iff.mp (delivers_iff.mp delivers).1
  exact bare (by decide)

end Registry

end TopicRegistry
