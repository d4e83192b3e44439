import TopicRegistry.Proofs.Isolation.Sums
import TopicRegistry.Proofs.Selection

/-!
# Clients do not disturb each other

Several clients use one registry, and their operations come in any order. `Isolated` says what each
of them notices of the others: nothing. It gets the answers that it would get alone, and at the end
it is told the same subscriptions and the same counters. What is asked about all clients has the
answers of the clients put together, whatever the order of the operations was.
-/

namespace TopicRegistry

/-- A history of some clients in which each carries out its script, in order. -/
structure Interleaving (clients : List String) (script : String → List Operation)
    (operations : List Operation) : Prop where
  distinct : clients.Nodup
  staffed : ∀ operation ∈ operations, operation.client ∈ clients
  ordered : ∀ client ∈ clients, ownOf client operations = script client

/-- In two interleavings of the same scripts each client does the same. -/
theorem Interleaving.ownOf_eq {clients : List String} {script : String → List Operation}
    {operations others : List Operation} (interleaving : Interleaving clients script operations)
    (another : Interleaving clients script others) (client : String) :
    ownOf client operations = ownOf client others := by
  by_cases member : client ∈ clients
  · rw [interleaving.ordered client member, another.ordered client member]
  · rw [ownOf_eq_nil_of_not_mem interleaving.staffed member,
      ownOf_eq_nil_of_not_mem another.staffed member]

/-- Two answers are the same for every client up to the order of its subscriptions, or fail for
the same reason. -/
def SameAnswer : Except RegistryError ByClient → Except RegistryError ByClient → Prop
  | .ok grouped, .ok others =>
    ∀ client : String, Option.Rel List.Perm grouped[client]? others[client]?
  | .error e, .error other => e = other
  | _, _ => False

/-- An answer about all clients puts together what each of them is answered alone, up to the order
of its subscriptions, or all of them fail for the same reason. -/
def Unites (clients : List String) (solo : String → Except RegistryError ByClient) :
    Except RegistryError ByClient → Prop
  | .ok grouped =>
    (∀ client ∈ clients, ∃ own, solo client = .ok own ∧
      Option.Rel List.Perm grouped[client]? own[client]? ∧
        ∀ other, other ≠ client → own[other]? = none) ∧
      ∀ client : String, client ∉ clients → grouped[client]? = none
  | .error e => ∀ client ∈ clients, solo client = .error e

namespace Registry

/-- What some clients notice that share a registry, compared with each of them being alone. -/
structure Isolated (config : Config) (clients : List String) (script : String → List Operation)
    (operations : List Operation) (whole : List Answer × Registry)
    (solo : String → List Answer × Registry) : Prop where
  /-- Each client gets the answers to its operations that it gets alone. -/
  answers : ∀ client ∈ clients, answersOf client operations whole.1 = (solo client).1
  /-- Each client is told the subscriptions that it is told alone. -/
  told : ∀ client ∈ clients, ∀ mask,
    whole.2.ofClient client mask = (solo client).2.ofClient client mask
  /-- Each client has the counters that it has alone, or none in both cases. -/
  tallied : ∀ client ∈ clients, whole.2.clientTally client = (solo client).2.clientTally client
  /-- The shared total is the sum of the totals, as far as a word can count. -/
  total : whole.2.index.tally.total =
    UInt64.ofNat (clients.map fun client => (solo client).2.index.tally.total.toNat).sum
  /-- The shared current number is the sum of the current numbers, as long as they fit. -/
  current : Fits config operations → whole.2.index.tally.current.toNat =
    (clients.map fun client => (solo client).2.index.tally.current.toNat).sum
  /-- What covers a topic is what covers it for each client. -/
  covering : ∀ topic mask,
    Unites clients (fun client => (solo client).2.covering topic mask)
      (whole.2.covering topic mask)
  /-- What has a name is what has it for each client. -/
  named : ∀ name mask,
    Unites clients (fun client => (solo client).2.named name mask) (whole.2.named name mask)
  /-- Another order of the operations makes no difference to what is answered in the end. -/
  settled : ∀ others, Interleaving clients script others → ∀ text mask,
    SameAnswer (whole.2.covering text mask)
        ((({ config } : Registry).run others).2.covering text mask) ∧
      SameAnswer (whole.2.named text mask) ((({ config } : Registry).run others).2.named text mask)

section Grouping

variable {config : Config} {registry other : Registry} {operations : List Operation}

/-- What is grouped under a client depends on what the client has, not on the order. -/
theorem rel_foldl_push {holdings others : Holdings} {client : String}
    (perm : (ownIn client holdings).Perm (ownIn client others)) :
    Option.Rel List.Perm (holdings.foldl ByClient.push ∅)[client]?
      (others.foldl ByClient.push ∅)[client]? := by
  rw [getElem?_foldl_push, getElem?_foldl_push]
  by_cases nothing : ownIn client holdings = []
  · have neither : ownIn client others = [] := (nothing ▸ perm).symm.eq_nil
    rw [if_pos nothing, if_pos neither, Std.ExtTreeMap.getElem?_empty]
    exact Option.Rel.none
  · have something : ownIn client others ≠ [] := fun h => nothing (h ▸ perm).eq_nil
    rw [if_neg nothing, if_neg something]
    refine Option.Rel.some (List.Perm.append_right _ ?_)
    exact (List.reverse_perm _).trans (perm.trans (List.reverse_perm _).symm)

/-- Registries with the same record of a client select the same of it. -/
theorem ownIn_selected_perm {client : String} (alike : Alike client registry other)
    (mask : KindMask) {subject : Option Subject} (plain : ∀ s ∈ subject, s.Plain) :
    (ownIn client (mask.admitted (registry.index.reached none subject))).Perm
      (ownIn client (mask.admitted (other.index.reached none subject))) := by
  have nodup : ∀ {index : Index}, index.Consistent →
      ((mask.admitted (index.reached none subject)).filter fun entry =>
        entry.1 = client).Nodup := by
    intro index consistent
    exact ((Index.nodup_reached consistent none plain).filter _).filter _
  refine List.Perm.map Prod.snd ?_
  rw [List.perm_ext_iff_of_nodup (nodup alike.consistent) (nodup alike.mirrored)]
  rintro ⟨c, sub⟩
  rw [List.mem_filter, List.mem_filter, decide_eq_true_iff]
  refine and_congr_left ?_
  rintro rfl
  rw [KindMask.mem_admitted, KindMask.mem_admitted, Index.mem_reached alike.consistent plain,
    Index.mem_reached alike.mirrored plain, Index.Holds, Index.Holds, Index.find?_congr alike.recorded]

/-- A client that takes no part is in no answer. -/
theorem grouped_eq_none {client : String} (absent : ownOf client operations = [])
    (mask : KindMask) {subject : Option Subject} (plain : ∀ s ∈ subject, s.Plain) :
    ((mask.admitted ((({ config } : Registry).run operations).2.index.reached none
      subject)).foldl ByClient.push ∅)[client]? = none := by
  have nothing : ownIn client (mask.admitted
      ((({ config } : Registry).run operations).2.index.reached none subject)) = [] := by
    rw [ownIn, List.map_eq_nil_iff, List.filter_eq_nil_iff]
    rintro ⟨c, sub⟩ h own
    obtain rfl : c = client := of_decide_eq_true own
    have reached := (Index.mem_reached (consistent_run config operations) plain).mp
      (KindMask.mem_admitted.mp h).1
    exact ownOf_ne_nil_of_holds reached.1 absent
  rw [getElem?_foldl_push, if_pos nothing, Std.ExtTreeMap.getElem?_empty]

/-- Registries with the same records answer a query with a text alike. -/
theorem sameAnswer_grouped (alike : ∀ client, Alike client registry other) (mask : KindMask)
    (text : String) (comparison : Comparison) :
    SameAnswer (registry.grouped { mask, topic := text, comparison })
      (other.grouped { mask, topic := text, comparison }) := by
  rw [grouped_text, grouped_text]
  cases read : Subject.ofText text comparison with
  | error e => rfl
  | ok subject =>
    intro client
    exact rel_foldl_push (ownIn_selected_perm (alike client) mask (Subject.plain_of_ofText read))

end Grouping

section Sharing

variable {config : Config} {clients : List String} {script : String → List Operation}
  {operations others : List Operation}

/-- The answers to a query with a text unite if the clients share a registry. -/
theorem grouped_unites (config : Config) (interleaving : Interleaving clients script operations)
    (mask : KindMask) (text : String) (comparison : Comparison) :
    Unites clients
      (fun client => (({ config } : Registry).run (script client)).2.grouped
        { mask, topic := text, comparison })
      ((({ config } : Registry).run operations).2.grouped { mask, topic := text, comparison }) := by
  simp only [grouped_text]
  cases read : Subject.ofText text comparison with
  | error e =>
    intro client _
    rfl
  | ok subject =>
    have plain := Subject.plain_of_ofText read
    constructor
    · intro client member
      have alike := (alike_run config operations client).2
      rw [interleaving.ordered client member] at alike
      refine ⟨_, rfl, rel_foldl_push (ownIn_selected_perm alike mask plain), ?_⟩
      intro other apart
      have absent := ownOf_ownOf_of_ne apart operations
      rw [interleaving.ordered client member] at absent
      exact grouped_eq_none absent mask plain
    · intro client foreign
      have absent := ownOf_eq_nil_of_not_mem interleaving.staffed foreign
      exact grouped_eq_none absent mask plain

/-- Histories in which each client does the same leave the same records. -/
theorem alike_of_ownOf_eq (config : Config)
    (same : ∀ client, ownOf client operations = ownOf client others) (client : String) :
    Alike client (({ config } : Registry).run operations).2
      (({ config } : Registry).run others).2 := by
  have first := (alike_run config operations client).2
  have second := (alike_run config others client).2
  rw [same client] at first
  exact
    { configured := first.configured.trans second.configured.symm
      consistent := first.consistent
      mirrored := second.consistent
      recorded := first.recorded.trans second.recorded.symm }

end Sharing

/-- Whatever the order of the operations of some clients is, none of the clients notices the
others, and what is asked about all of them is answered by what each holds. -/
theorem run_isolates (config : Config) {clients : List String}
    {script : String → List Operation} {operations : List Operation}
    (interleaving : Interleaving clients script operations) :
    Isolated config clients script operations (({ config } : Registry).run operations)
      fun client => ({ config } : Registry).run (script client) := by
  have alone : ∀ client ∈ clients, script client = ownOf client operations :=
    fun client member => (interleaving.ordered client member).symm
  refine
    { answers := ?answers
      told := ?told
      tallied := ?tallied
      total := ?total
      current := ?current
      covering := fun topic mask => grouped_unites config interleaving mask topic .covering
      named := fun name mask => grouped_unites config interleaving mask name .exactName
      settled := ?settled }
  case answers =>
    intro client member
    rw [alone client member]
    exact (alike_run config operations client).1
  case told =>
    intro client member mask
    have recorded := (alike_run config operations client).2.recorded
    rw [alone client member, ofClient_eq, ofClient_eq, Index.holdingsOf_congr recorded]
  case tallied =>
    intro client member
    have recorded := (alike_run config operations client).2.recorded
    rw [alone client member, clientTally, clientTally, Index.clientTally?_congr recorded]
  case total =>
    rw [total_by_client config interleaving.distinct interleaving.staffed]
    congr 2
    apply List.map_congr_left
    intro client member
    rw [alone client member]
  case current =>
    intro fits
    rw [current_by_client fits interleaving.distinct interleaving.staffed]
    congr 1
    apply List.map_congr_left
    intro client member
    rw [alone client member]
  case settled =>
    intro others another text mask
    have alike := alike_of_ownOf_eq config (interleaving.ownOf_eq another)
    exact ⟨sameAnswer_grouped alike mask text .covering,
      sameAnswer_grouped alike mask text .exactName⟩

/-- One client fills its quota, gives a filter up that the other one keeps, and has room again. -/
def annsScript : List Operation :=
  [.subscribe "ann" [{ share := "", filter := "a/+" }, { share := "g", filter := "a/+" },
      { share := "", filter := "b" }],
    .unsubscribe "ann" ["a/+"],
    .subscribe "ann" [{ share := "", filter := "b" }]]

/-- Another client holds the same filter, and leaves and comes back. -/
def bobsScript : List Operation :=
  [.subscribe "bob" [{ share := "", filter := "a/+" }],
    .unsubscribeAll "bob",
    .subscribe "bob" [{ share := "", filter := "#" }]]

def twoScripts (client : String) : List Operation :=
  if client = "ann" then annsScript else bobsScript

def takingTurns : List Operation :=
  ((annsScript.zip bobsScript).map fun turn => [turn.1, turn.2]).flatten

theorem run_isolates_takingTurns :
    Interleaving ["ann", "bob"] twoScripts takingTurns ∧
      Fits { maxSubscriptions := 2 } takingTurns ∧
      Isolated { maxSubscriptions := 2 } ["ann", "bob"] twoScripts takingTurns
        (({ config := { maxSubscriptions := 2 } } : Registry).run takingTurns)
        fun client => ({ config := { maxSubscriptions := 2 } } : Registry).run (twoScripts client) := by
  have interleaving : Interleaving ["ann", "bob"] twoScripts takingTurns :=
    ⟨by decide, by decide, by decide⟩
  exact ⟨interleaving, fits_of_few (by decide), run_isolates _ interleaving⟩

end Registry

end TopicRegistry
