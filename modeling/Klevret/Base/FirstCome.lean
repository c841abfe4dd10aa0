import Mathlib.Data.List.Basic
import Mathlib.Logic.Function.Basic
import Klevret.Base.Machine

/-! # First come, first served

A desk hands out the resources of a list.  A client that has a claim gets what it claims, again
and again; any other gets the first resource of the list, and claims it from then on.  Nothing is
ever given back, so the answers to a whole list of clients have a closed form
(`outputs_machine`): the clients without a claim are numbered in the order in which they come
for the first time, and each gets the resource with its number. -/

namespace Klevret.Base

structure FirstCome (Client Resource : Type*) where
  claim : Client → Option Resource
  free : List Resource

namespace FirstCome

variable {Client Resource : Type*} [DecidableEq Client]

/-- What a client gets, and the desk after it. -/
def serve (desk : FirstCome Client Resource) (client : Client) :
    Option Resource × FirstCome Client Resource :=
  match desk.claim client with
  | some resource => (some resource, desk)
  | none =>
    match desk.free with
    | [] => (none, desk)
    | resource :: free => (some resource, ⟨Function.update desk.claim client (some resource), free⟩)

def machine : Machine (FirstCome Client Resource) Client (Option Resource) := ⟨serve⟩

/-- The clients without a claim, in the order in which they come first. -/
def newcomers (desk : FirstCome Client Resource) (clients : List Client) : List Client :=
  (clients.filter fun client => (desk.claim client).isNone).eraseDups

/-- What a client gets among `clients`. -/
def share (desk : FirstCome Client Resource) (clients : List Client) (client : Client) :
    Option Resource :=
  (desk.claim client).or desk.free[(desk.newcomers clients).idxOf client]?

variable {desk : FirstCome Client Resource} {client : Client} {resource : Resource}

/-! ## One client -/

theorem serve_of_claim (claimed : desk.claim client = some resource) :
    desk.serve client = (some resource, desk) := by
  simp only [serve, claimed]

theorem serve_of_free {free : List Resource} (unclaimed : desk.claim client = none)
    (isFree : desk.free = resource :: free) :
    desk.serve client =
      (some resource, ⟨Function.update desk.claim client (some resource), free⟩) := by
  simp only [serve, unclaimed, isFree]

theorem serve_of_exhausted (unclaimed : desk.claim client = none) (exhausted : desk.free = []) :
    desk.serve client = (none, desk) := by
  simp only [serve, unclaimed, exhausted]

theorem newcomers_cons_of_claim (claimed : desk.claim client = some resource)
    (clients : List Client) : desk.newcomers (client :: clients) = desk.newcomers clients := by
  simp only [newcomers, List.filter_cons, claimed, Option.isNone_some, Bool.false_eq_true,
    if_false]

/-- The client that is given something is no newcomer any more. -/
theorem newcomers_cons_of_unclaimed (unclaimed : desk.claim client = none) (resource : Resource)
    (free : List Resource) (clients : List Client) :
    desk.newcomers (client :: clients) =
      client :: newcomers ⟨Function.update desk.claim client (some resource), free⟩ clients := by
  -- `eraseDups` drops the later visits of the client, and its new claim drops them too
  have stillNew : ∀ other : Client,
      (!(other == client) && (desk.claim other).isNone) =
        (Function.update desk.claim client (some resource) other).isNone := by
    intro other
    by_cases same : other = client
    · subst same
      simp
    · simp [same]
  simp only [newcomers, List.filter_cons, unclaimed, Option.isNone_none, if_true,
    List.eraseDups_cons, List.filter_filter, stillNew]

/-- Nobody claims anything, so everybody is new. -/
theorem newcomers_eq_eraseDups (unclaimed : ∀ client, desk.claim client = none)
    (clients : List Client) : desk.newcomers clients = clients.eraseDups := by
  simp [newcomers, unclaimed]

theorem idxOf_newcomers_self (unclaimed : desk.claim client = none) (clients : List Client) :
    (desk.newcomers (client :: clients)).idxOf client = 0 := by
  simp [newcomers, unclaimed, List.eraseDups_cons]

/-- What a client gets now it also gets among those that come after it. -/
theorem output_eq_share (desk : FirstCome Client Resource) (client : Client)
    (clients : List Client) :
    machine.output desk client = desk.share (client :: clients) client := by
  unfold Machine.output machine share
  cases claimed : desk.claim client with
  | some resource => simp [serve_of_claim claimed]
  | none =>
    rw [idxOf_newcomers_self claimed]
    cases isFree : desk.free with
    | nil => simp [serve_of_exhausted claimed isFree]
    | cons resource free => simp [serve_of_free claimed isFree]

/-- Serving a client changes nothing about what the others get among those that have come. -/
theorem share_next (desk : FirstCome Client Resource) (client : Client) (clients : List Client) :
    (machine.next desk client).share clients = desk.share (client :: clients) := by
  funext other
  unfold Machine.next machine share
  dsimp only
  cases claimed : desk.claim client with
  | some resource => rw [serve_of_claim claimed, newcomers_cons_of_claim claimed]
  | none =>
    cases isFree : desk.free with
    | nil =>
      rw [serve_of_exhausted claimed isFree]
      simp [isFree]
    | cons resource free =>
      rw [serve_of_free claimed isFree, newcomers_cons_of_unclaimed claimed resource free]
      dsimp only
      by_cases same : other = client
      · subst same
        simp [claimed]
      -- one newcomer and one resource fewer: the number and the list move up together
      · rw [Function.update_of_ne same, List.idxOf_cons,
          beq_eq_false_iff_ne.mpr (Ne.symm same)]
        rfl

/-- There is enough for the newcomers if there is something for the first client and then
    enough for the others. -/
theorem enough_cons_iff (desk : FirstCome Client Resource) (client : Client)
    (clients : List Client) :
    (desk.newcomers (client :: clients)).length ≤ desk.free.length ↔
      (desk.serve client).1.isSome ∧
        ((desk.serve client).2.newcomers clients).length ≤ (desk.serve client).2.free.length := by
  cases claimed : desk.claim client with
  | some resource => simp [serve_of_claim claimed, newcomers_cons_of_claim claimed]
  | none =>
    cases isFree : desk.free with
    | nil =>
      simp [serve_of_exhausted claimed isFree, newcomers, claimed, List.eraseDups_cons]
    | cons resource free =>
      simp [serve_of_free claimed isFree, newcomers_cons_of_unclaimed claimed resource free]

/-! ## Many clients -/

/-- Everybody gets the share that the order of arrival gives. -/
theorem outputs_machine (desk : FirstCome Client Resource) (clients : List Client) :
    machine.outputs desk clients = clients.map (desk.share clients) := by
  induction clients generalizing desk with
  | nil => rfl
  | cons client clients inductionHypothesis =>
    rw [Machine.outputs_cons, inductionHypothesis, share_next, List.map_cons,
      output_eq_share desk client clients]

theorem share_run (desk : FirstCome Client Resource) (before after : List Client) :
    (machine.run desk before).share after = desk.share (before ++ after) := by
  induction before generalizing desk with
  | nil => rfl
  | cons client before inductionHypothesis =>
    rw [Machine.run_cons, inductionHypothesis, share_next, List.cons_append]

/-- What a client gets after others have come. -/
theorem output_run (desk : FirstCome Client Resource) (before : List Client) (client : Client) :
    machine.output (machine.run desk before) client = desk.share (before ++ [client]) client := by
  rw [output_eq_share _ client [], share_run]

/-- Those that come later take nothing from those that have come. -/
theorem share_append_of_mem (desk : FirstCome Client Resource) {before : List Client}
    (member : client ∈ before) (after : List Client) :
    desk.share (before ++ after) client = desk.share before client := by
  unfold share
  cases claimed : desk.claim client with
  | some resource => rfl
  | none =>
    -- the number of a newcomer is given by those that come before it
    have isNew : client ∈ desk.newcomers before := by
      simp [newcomers, member, claimed]
    have splits : desk.newcomers (before ++ after) = desk.newcomers before ++
        ((after.filter fun client => (desk.claim client).isNone).removeAll
          (before.filter fun client => (desk.claim client).isNone)).eraseDups := by
      rw [newcomers, newcomers, List.filter_append, List.eraseDups_append]
    rw [splits, List.idxOf_append, if_pos isNew]

end FirstCome

end Klevret.Base
