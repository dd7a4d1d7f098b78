import Pain.Base.Types
import Pain.Lib.Run

/-!
# Calls to the leader of a group

`call_rpc` sends a request to the leader of a raft group. The leader is looked
up in the route table of the process, and refreshed there if it is unknown. A
response with the status `EREMCHG` redirects the call to another node, or to an
unknown one; any other response ends the call, as does a failure.

The loop names the group in every access to the route table but three: where it
writes down a failure or a redirection it names the group `deva`. `Follows`
says what the writes are for, and the last section when they do it.
-/

namespace Pain.Sdk

/-- The status of a response that redirects the call. -/
def EREMCHG : UInt32 := 78

/-- The code of a refused connection. -/
abbrev ECONNREFUSED : Errno := .other 111

/-- The text of a `braft::PeerId`. -/
abbrev PeerId := String

/-- The leaders in the route table, by group; a group without one has an empty or no entry. -/
abbrev RouteTable := String → Option PeerId

/-- `braft::rtb::update_leader`. -/
def RouteTable.updateLeader (table : RouteTable) (group : String) (leader : Option PeerId) :
    RouteTable :=
  Function.update table group leader

/-- What becomes of a request that is sent to a node. -/
inductive Delivery (Response : Type) where
  /-- `channel->Init` fails. -/
  | unreachable
  /-- `cntl.Failed()`, with the code and the text of the controller. -/
  | failed (failure : Failure)
  | answered (response : Response)

/-- What happens outside during one turn of the loop: the answer to `refresh_leader`, if it is
asked, and the fate of the request, if it is sent. -/
structure Turn (Response : Type) where
  refreshed : Except Failure PeerId
  delivery : Delivery Response

/-- A `call_rpc` between two turns of its loop, or after its return. -/
inductive Call (Response : Type) where
  | trying (table : RouteTable)
  | returned (table : RouteTable) (result : Except Failure Response)

namespace Call

variable {Response : Type}

/-- The route table of the client. -/
def table : Call Response → RouteTable
  | .trying table => table
  | .returned table _ => table

/-- The node that the next attempt goes to, unless the leader has to be refreshed first. -/
def target (group : String) : Call Response → Option PeerId
  | .trying table => table group
  | .returned _ _ => none

end Call

section Loop

variable {Response : Type} (header : Response → Header) (group : String)

/-- The end of the loop body, after `std::invoke`. -/
def handleDelivery (leader : PeerId) (table : RouteTable) : Delivery Response → Call Response
  | .unreachable =>
      .returned (table.updateLeader group none)
        (.error ⟨ECONNREFUSED, "Fail to init channel to " ++ leader⟩)
  | .failed failure => .returned (table.updateLeader "deva" none) (.error failure)
  | .answered response =>
      if (header response).status ≠ EREMCHG then .returned table (.ok response)
      else if (header response).message = "" then .trying (table.updateLeader "deva" none)
      else .trying (table.updateLeader "deva" (some (header response).message))

/-- One turn of the loop of `call_rpc`. -/
def loopStep (call : Call Response) (turn : Turn Response) : Option (Call Response) :=
  match call with
  | .returned table result => some (.returned table result)
  | .trying table =>
      match table group with
      | none =>
          match turn.refreshed with
          | .error failure => some (.returned table (.error failure))
          | .ok leader => some (.trying (table.updateLeader group (some leader)))
      | some leader => some (handleDelivery header group leader table turn.delivery)

/-- `call_rpc`: the state of the call after the turns. -/
def callRpc (table : RouteTable) (turns : List (Turn Response)) : Option (Call Response) :=
  Lib.exec (loopStep header group) (.trying table) turns

end Loop

section Returns

variable {Response : Type} {header : Response → Header} {group : String}

/-- If the call has returned a response, the response is one that `accepts` it. -/
def ReturnsOnly (accepts : Response → Prop) (call : Call Response) : Prop :=
  ∀ table response, call = .returned table (.ok response) → accepts response

/-- If the request is sent and answered, the answer is accepted or redirects the call. -/
def AnswersOnly (header : Response → Header) (group : String) (accepts : Response → Prop)
    (call : Call Response) (turn : Turn Response) : Prop :=
  call.target group ≠ none → ∀ response, turn.delivery = .answered response →
    accepts response ∨ (header response).status = EREMCHG

theorem returnsOnly_handleDelivery_iff (accepts : Response → Prop) {table : RouteTable}
    {leader : PeerId} (known : table group = some leader) (turn : Turn Response) :
    ReturnsOnly accepts (handleDelivery header group leader table turn.delivery) ↔
      AnswersOnly header group accepts (.trying table) turn := by
  have sends : (Call.trying table : Call Response).target group ≠ none := by
    simp [Call.target, known]
  simp only [ReturnsOnly, AnswersOnly, sends, ne_eq, not_false_eq_true, true_imp_iff]
  cases turn.delivery with
  | unreachable => simp [handleDelivery]
  | failed failure => simp [handleDelivery]
  | answered response =>
      simp only [handleDelivery, Delivery.answered.injEq, forall_eq']
      by_cases redirects : (header response).status = EREMCHG
      · by_cases unnamed : (header response).message = ""
        · simp [redirects, unnamed]
        · simp [redirects, unnamed]
      · simp [redirects]

/-- Only accepted responses are returned, in every call, exactly if each attempt is answered with an
accepted response or with a redirection. -/
theorem throughout_returnsOnly_iff (accepts : Response → Prop) (table : RouteTable)
    (turns : List (Turn Response)) :
    Lib.Throughout (loopStep header group) (ReturnsOnly accepts) (.trying table) turns ↔
      Lib.Guarded (loopStep header group) (AnswersOnly header group accepts)
        (.trying table) turns := by
  apply Lib.throughout_iff_guarded (fun _ => True) (ReturnsOnly accepts) _ trivial
    (by simp [ReturnsOnly]) (fun _ _ => trivial)
  intro call turn _ _ returnsOnly
  cases call with
  | returned table result =>
      refine ⟨.returned table result, rfl, trivial, ?_⟩
      exact ⟨fun _ sends => absurd rfl sends, fun _ => returnsOnly⟩
  | trying table =>
      cases known : table group with
      | none =>
          have unsent : AnswersOnly header group accepts (.trying table) turn :=
            fun sends => absurd known sends
          simp only [loopStep, known]
          cases turn.refreshed with
          | error failure =>
              exact ⟨_, rfl, trivial, fun _ => unsent, fun _ => by simp [ReturnsOnly]⟩
          | ok leader => exact ⟨_, rfl, trivial, fun _ => unsent, fun _ => by simp [ReturnsOnly]⟩
      | some leader =>
          simp only [loopStep, known]
          exact ⟨_, rfl, trivial, returnsOnly_handleDelivery_iff accepts known turn⟩

end Returns

section Leadership

variable {Response : Type} {header : Response → Header} {group : String}

/-- The response redirects the call to an unknown leader. -/
def IsUnknownLeader (header : Header) : Prop :=
  header.status = EREMCHG ∧ header.message = ""

/-- The response redirects the call to the leader that it names. -/
def IsRedirect (header : Header) : Prop :=
  header.status = EREMCHG ∧ header.message ≠ ""

/-- A turn of a call follows the leadership of its group: a redirection is followed, a leader that
fails or does not know the new one is forgotten, and the other groups are left alone. -/
structure Follows (header : Response → Header) (group : String) (call : Call Response)
    (turn : Turn Response) (next : Call Response) : Prop where
  redirected : ∀ response, call.target group ≠ none → turn.delivery = .answered response →
    IsRedirect (header response) → next.target group = some (header response).message
  cleared : call.target group ≠ none →
    (turn.delivery = .unreachable ∨ (∃ failure, turn.delivery = .failed failure) ∨
      ∃ response, turn.delivery = .answered response ∧ IsUnknownLeader (header response)) →
    next.table group = none
  others : ∀ other, other ≠ group → next.table other = call.table other

/-- The writes of a turn reach the group: it is the group that they name, or there is no write, or
the write changes nothing. -/
def Reaches (header : Response → Header) (group : String) (call : Call Response)
    (turn : Turn Response) : Prop :=
  group = "deva" ∨ call.target group = none ∨
    match turn.delivery with
    | .unreachable => True
    | .failed _ => False
    | .answered response =>
        (header response).status ≠ EREMCHG ∨
          (header response).message ≠ "" ∧
            call.target group = some (header response).message ∧
            call.table "deva" = some (header response).message

theorem updateLeader_of_ne (table : RouteTable) {group other : String} (leader : Option PeerId)
    (different : other ≠ group) : table.updateLeader group leader other = table other :=
  Function.update_of_ne different _ _

@[simp]
theorem updateLeader_self (table : RouteTable) (group : String) (leader : Option PeerId) :
    table.updateLeader group leader group = leader :=
  Function.update_self _ _ _

theorem follows_of_target_none {call next : Call Response} {turn : Turn Response}
    (unknown : call.target group = none) (stepped : loopStep header group call turn = some next) :
    Follows header group call turn next := by
  refine ⟨fun _ known => absurd unknown known, fun known => absurd unknown known, ?_⟩
  intro other different
  cases call with
  | returned table result =>
      simp only [loopStep, Option.some.injEq] at stepped
      exact stepped ▸ rfl
  | trying table =>
      simp only [Call.target] at unknown
      simp only [loopStep, unknown] at stepped
      cases refreshed : turn.refreshed with
      | error failure =>
          simp only [refreshed, Option.some.injEq] at stepped
          exact stepped ▸ rfl
      | ok leader =>
          simp only [refreshed, Option.some.injEq] at stepped
          subst stepped
          exact updateLeader_of_ne table _ different

/-- What a write to the entry of `deva` does for another group. -/
theorem updateLeader_deva_iff (table : RouteTable) (leader : Option PeerId) :
    (table.updateLeader "deva" leader group = leader ∧
        ∀ other, other ≠ group → table.updateLeader "deva" leader other = table other) ↔
      group = "deva" ∨ table group = leader ∧ table "deva" = leader := by
  by_cases same : group = "deva"
  · subst same
    simp only [updateLeader_self, true_and, true_or, iff_true]
    exact fun other different => updateLeader_of_ne table leader different
  · simp only [same, false_or, updateLeader_of_ne table leader same]
    constructor
    · rintro ⟨own, others⟩
      have unchanged := others "deva" (Ne.symm same)
      simp only [updateLeader_self] at unchanged
      exact ⟨own, unchanged.symm⟩
    · rintro ⟨own, deva⟩
      refine ⟨own, fun other _ => ?_⟩
      by_cases isDeva : other = "deva"
      · simp only [isDeva, updateLeader_self, deva]
      · exact updateLeader_of_ne table leader isDeva

theorem follows_failed_iff {table : RouteTable} {leader : PeerId} {turn : Turn Response}
    {failure : Failure} (known : table group = some leader)
    (failed : turn.delivery = .failed failure) (result : Except Failure Response) :
    Follows header group (.trying table) turn (.returned (table.updateLeader "deva" none) result) ↔
      group = "deva" := by
  have written := @updateLeader_deva_iff group table none
  simp only [known, reduceCtorEq, false_and, or_false] at written
  constructor
  · intro follows
    have cleared := follows.cleared (by simp [Call.target, known]) (.inr (.inl ⟨failure, failed⟩))
    exact written.mp ⟨cleared, follows.others⟩
  · intro isDeva
    rcases written.mpr isDeva with ⟨cleared, others⟩
    exact ⟨fun response _ answered => by simp [failed] at answered, fun _ _ => cleared, others⟩

theorem follows_unknownLeader_iff {table : RouteTable} {leader : PeerId} {turn : Turn Response}
    {response : Response} (known : table group = some leader)
    (answered : turn.delivery = .answered response)
    (unknownLeader : IsUnknownLeader (header response)) :
    Follows header group (.trying table) turn (.trying (table.updateLeader "deva" none)) ↔
      group = "deva" := by
  have written := @updateLeader_deva_iff group table none
  simp only [known, reduceCtorEq, false_and, or_false] at written
  constructor
  · intro follows
    have cleared := follows.cleared (by simp [Call.target, known])
      (.inr (.inr ⟨response, answered, unknownLeader⟩))
    exact written.mp ⟨cleared, follows.others⟩
  · intro isDeva
    rcases written.mpr isDeva with ⟨cleared, others⟩
    refine ⟨?_, fun _ _ => cleared, others⟩
    intro other _ otherAnswered redirect
    simp only [answered, Delivery.answered.injEq] at otherAnswered
    exact absurd unknownLeader.2 (otherAnswered ▸ redirect.2)

theorem follows_redirect_iff {table : RouteTable} {leader : PeerId} {turn : Turn Response}
    {response : Response} (known : table group = some leader)
    (answered : turn.delivery = .answered response) (redirect : IsRedirect (header response)) :
    Follows header group (.trying table) turn
        (.trying (table.updateLeader "deva" (some (header response).message))) ↔
      group = "deva" ∨ table group = some (header response).message ∧
        table "deva" = some (header response).message := by
  have written := @updateLeader_deva_iff group table (some (header response).message)
  simp only [← written]
  constructor
  · intro follows
    exact ⟨follows.redirected response (by simp [Call.target, known]) answered redirect,
      follows.others⟩
  · rintro ⟨own, others⟩
    refine ⟨?_, ?_, others⟩
    · intro other _ otherAnswered _
      simp only [answered, Delivery.answered.injEq] at otherAnswered
      exact otherAnswered ▸ own
    · rintro - (unreachable | ⟨failure, failed⟩ | ⟨other, otherAnswered, unknownLeader⟩)
      · simp [answered] at unreachable
      · simp [answered] at failed
      · simp only [answered, Delivery.answered.injEq] at otherAnswered
        exact absurd (otherAnswered ▸ unknownLeader).2 redirect.2

/-- A turn that sends the request follows the leadership exactly if its writes reach the group. -/
theorem follows_iff_reaches {table : RouteTable} {leader : PeerId} {turn : Turn Response}
    (known : table group = some leader) :
    Follows header group (.trying table) turn
        (handleDelivery header group leader table turn.delivery) ↔
      Reaches header group (.trying table) turn := by
  have sends : (Call.trying table : Call Response).target group = some leader := known
  simp only [Reaches, sends, reduceCtorEq, false_or]
  cases delivered : turn.delivery with
  | unreachable =>
      simp only [handleDelivery, or_true, iff_true]
      refine ⟨fun response _ answered => by simp [delivered] at answered, ?_, ?_⟩
      · exact fun _ _ => updateLeader_self table group none
      · exact fun other different => updateLeader_of_ne table none different
  | failed failure =>
      simp only [handleDelivery, follows_failed_iff known delivered, or_false]
  | answered response =>
      simp only [handleDelivery]
      by_cases redirects : (header response).status = EREMCHG
      · by_cases unnamed : (header response).message = ""
        · simp only [redirects, unnamed, ne_eq, not_true_eq_false, if_false, if_true, false_and,
            or_false]
          exact follows_unknownLeader_iff known delivered ⟨redirects, unnamed⟩
        · simp only [redirects, unnamed, ne_eq, not_true_eq_false, if_false, not_false_eq_true,
            true_and, false_or, follows_redirect_iff known delivered ⟨redirects, unnamed⟩, known,
            Call.table]
      · simp only [redirects, ne_eq, not_false_eq_true, if_true, true_or, or_true, iff_true]
        refine ⟨?_, ?_, fun _ _ => rfl⟩
        · intro other _ otherAnswered redirect
          simp only [delivered, Delivery.answered.injEq] at otherAnswered
          exact absurd (otherAnswered ▸ redirect).1 redirects
        · rintro - (unreachable | ⟨failure, failed⟩ | ⟨other, otherAnswered, unknownLeader⟩)
          · simp [delivered] at unreachable
          · simp [delivered] at failed
          · simp only [delivered, Delivery.answered.injEq] at otherAnswered
            exact absurd (otherAnswered ▸ unknownLeader).1 redirects

theorem follows_step_iff (call : Call Response) (turn : Turn Response) :
    (∀ next, loopStep header group call turn = some next → Follows header group call turn next) ↔
      Reaches header group call turn := by
  cases known : call.target group with
  | none =>
      constructor
      · exact fun _ => .inr (.inl known)
      · exact fun _ next stepped => follows_of_target_none known stepped
  | some leader =>
      cases call with
      | returned table result => cases known
      | trying table =>
          simp only [Call.target] at known
          simp only [loopStep, known, Option.some.injEq, forall_eq']
          exact follows_iff_reaches known

/-- In every call, whatever the route table holds and whatever happens outside, all turns follow the
leadership of the group exactly if the writes of all turns reach it. -/
theorem follows_iff (header : Response → Header) (group : String) (table : RouteTable)
    (turns : List (Turn Response)) :
    Lib.Guarded (loopStep header group)
        (fun call turn => ∀ next, loopStep header group call turn = some next →
          Follows header group call turn next) (.trying table) turns ↔
      Lib.Guarded (loopStep header group) (Reaches header group) (.trying table) turns :=
  Lib.guarded_congr follows_step_iff (.trying table) turns

/-- A call to the group `default` whose leader redirects it: the next attempt goes to the old leader
again. -/
theorem not_follows_default :
    ¬∀ (group : String) (table : RouteTable) (turns : List (Turn Header)),
      Lib.Guarded (loopStep id group)
        (fun call turn => ∀ next, loopStep id group call turn = some next →
          Follows id group call turn next) (.trying table) turns := by
  intro all
  have follows := (all "default" (fun _ => some "127.0.0.1:8001:0")
    [⟨.ok "127.0.0.1:8001:0", .answered ⟨EREMCHG, "127.0.0.1:8002:0"⟩⟩]).1 _ rfl
  have target := follows.redirected ⟨EREMCHG, "127.0.0.1:8002:0"⟩ (by simp [Call.target]) rfl
    ⟨rfl, by decide⟩
  simp [handleDelivery, Call.target, RouteTable.updateLeader, Function.update] at target

end Leadership

end Pain.Sdk
