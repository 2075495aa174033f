import LanguageClient.Proofs.Session.Turns

/-!
# What calls are licensed to do

A call that neither starts nor stops a server works under a licence. It asks only
connections that are ready, or that were when it turned to them; it gives up only its own
request; and it says and waits for nothing that its operation does not call for. A licence
says what a call may do in a step, and every such step abides by the licence of its task.
-/

namespace LanguageClient

def Task.claim? : Task -> Option Nat
  | .requesting k .. | .reading k .. | .handing k .. => some k
  | _ => none

def Command.isSilent : Command -> Bool
  | .isOpen .. | .diagnostics .. | .status _ | .terminate .. => true
  | _ => false

/-- What a step of a call may do. -/
structure Licence where
  /-- The connections that it may use. -/
  reaches : Nat -> Prop
  /-- The request that it may give up. -/
  own : Option (Nat × Nat)
  /-- The number that a request of its gets. -/
  number : Nat
  now : Nat
  /-- The notifications that it may send. -/
  utters : Message -> Prop
  /-- The methods that it may ask for, with the time it waits for the answer. -/
  waits : String -> Nat -> Prop
  /-- The contents that it may have read for a connection. -/
  reads : Nat -> SyncInput -> Prop
  /-- The contents that it may hand to a connection. -/
  hands : Nat -> SyncInput -> Prop

structure Licence.Fits {D : Type} (l : Licence) (s : Session D) : Prop where
  ready : forall k, s.ready? = some k -> l.reaches k
  number : l.number = s.nextNumber
  now : l.now = s.now

structure Licence.Admits (l : Licence) (task : Task) : Prop where
  user : task.isLifecycle = false
  idle : task.request? = none
  claim : forall k, task.claim? = some k -> l.reaches k
  read : forall k input next, task = .handing k input next -> l.reads k input

theorem Licence.Admits.of_unclaimed {l : Licence} {task : Task}
    (user : task.isLifecycle = false)
    (idle : task.request? = none) (unclaimed : task.claim? = none) : l.Admits task where
  user
  idle
  claim _ hk := nomatch unclaimed.symm.trans hk
  read _ _ _ htask := nomatch unclaimed.symm.trans (congrArg Task.claim? htask)

/-- Which effects a licence allows. -/
inductive Effect.Abides {D : Type} (l : Licence) : Effect D -> Prop where
  | rest (task : Task) (admits : l.Admits task) : Abides l (.rest task)
  | finish (outcome : Outcome) : Abides l (.finish outcome)
  | ask (k : Nat) (question : Question) (task : Task) (admits : l.Admits task)
      (unclaimed : task.claim? = none) (plain : forall t, (question.command t).request? = none)
      (reaches : (forall t, (question.command t).isSilent = true) ∨ l.reaches k)
      (utters : forall message t t', question.command t = .notify message t' ->
        l.utters message)
      (hands : forall input t t', question.command t = .sync input t' -> l.hands k input) :
      Abides l (.ask k question task)
  | inquire (k : Nat) (method : String) (params : Json) (timeout : Nat) (reaches : l.reaches k)
      (waits : l.waits method timeout) :
      Abides l (.ask k (.request l.number method params)
        (.requesting k l.number method timeout (l.now + timeout)))
  | draw : Abides l .draw
  | abandon (k number : Nat) (own : l.own = some (k, number)) : Abides l (.abandon k number)
  | store (workspace : Workspace D) : Abides l (.store workspace)

section

variable {D : Type} {l : Licence}

theorem Effect.Abides.of_silent (k : Nat) {question : Question} {task : Task}
    (user : task.isLifecycle = false) (idle : task.request? = none)
    (unclaimed : task.claim? = none)
    (silent : forall t, (question.command t).isSilent = true) :
    Abides l (.ask k question task : Effect D) := by
  refine .ask k question task (.of_unclaimed user idle unclaimed) unclaimed (fun t => ?_)
    (Or.inl silent) (fun message t t' hnotify => ?_) (fun input t t' hsync => ?_)
  · have hsilent := silent t
    cases hcommand : question.command t with
    | request number method params t' =>
        rw [hcommand] at hsilent
        contradiction
    | _ => rfl
  · have hsilent := silent t
    rw [hnotify] at hsilent
    contradiction
  · have hsilent := silent t
    rw [hsync] at hsilent
    contradiction

theorem Effect.Abides.of_notify {k : Nat} (method : String) (params : Json) {task : Task}
    (user : task.isLifecycle = false) (idle : task.request? = none)
    (unclaimed : task.claim? = none) (reaches : l.reaches k)
    (utters : l.utters (.notification method params)) :
    Abides l (.ask k (.notify (.notification method params)) task : Effect D) := by
  refine .ask k _ task (.of_unclaimed user idle unclaimed) unclaimed (fun _ => rfl)
    (Or.inr reaches) (fun message t t' hnotify => ?_) (fun input t t' hsync => by cases hsync)
  injection hnotify with hmessage
  exact hmessage ▸ utters

theorem Licence.Fits.inquire {s : Session D} (h : l.Fits s) {k : Nat}
    (ready : s.ready? = some k)
    (method : String) (params : Json) {timeout : Nat} (waits : l.waits method timeout) :
    Effect.Abides l (.ask k (.request s.nextNumber method params)
      (.requesting k s.nextNumber method timeout (s.now + timeout)) : Effect D) := by
  rw [← h.number, ← h.now]
  exact .inquire k method params timeout (h.ready k ready) waits

end

namespace Session

variable {D : Type}

def Abiding (l : Licence) (id : Nat) (s u : Session D) : Prop :=
  exists effects : List (Effect D), (forall e, e ∈ effects -> e.Abides l) ∧
    u = s.undergo id effects

section

variable {l : Licence} {s : Session D} {e : Effect D}

/-!
## Parts of steps
-/

theorem Continues.abides {job : EditJob} {result : FileEditResult}
    (h : Continues job result e) : e.Abides l := by
  cases h with
  | next => exact .rest _ (.of_unclaimed rfl rfl rfl)
  | last => exact .finish _

theorem ChecksOpen.abides {job : EditJob} {result : FileEditResult}
    (h : ChecksOpen s job result e) : e.Abides l := by
  cases h with
  | asks k => exact .of_silent k rfl rfl rfl fun _ => rfl
  | continues _ _ continues => exact continues.abides

theorem FailsSync.abides {failure : Failure} {next : AfterSync}
    (h : FailsSync failure next e) : e.Abides l := by
  cases h with
  | answer | ask => exact .finish _
  | save _ _ _ continues => exact continues.abides

theorem StartsSync.abides {name : Text} {next : AfterSync} (h : StartsSync s name next e)
    (hfits : l.Fits s) : e.Abides l := by
  cases h with
  | reads k ready =>
      refine .rest _ ⟨rfl, rfl, fun j hj => ?_, nofun⟩
      exact Option.some.inj hj ▸ hfits.ready k ready
  | fails _ _ fails => exact fails.abides

theorem EndsSync.abides {synced : SyncedDocument} {next : AfterSync}
    {effects : List (Effect D)} (h : EndsSync s synced next effects) (hfits : l.Fits s)
    (hutters : forall params, l.utters (.notification "textDocument/didSave" params))
    (hwaits : forall q : Query, l.waits q.method s.settings.defaultTimeoutMs) :
    forall e, e ∈ effects -> e.Abides l := by
  cases h with
  | answer | asksNobody => exact List.forall_mem_singleton.mpr (.finish _)
  | asks q k ready =>
      exact List.forall_mem_cons.mpr
        ⟨.draw, List.forall_mem_singleton.mpr (hfits.inquire ready _ _ (hwaits q))⟩
  | saves job result k ready =>
      exact List.forall_mem_singleton.mpr
        (.of_notify _ _ rfl rfl rfl (hfits.ready k ready) (hutters _))
  | continues _ _ _ _ continues => exact List.forall_mem_singleton.mpr continues.abides

theorem LooksUp.abides {view : View} (h : LooksUp s view e) : e.Abides l := by
  cases h with
  | asks k => exact .of_silent k rfl rfl rfl fun _ => rfl
  | fails => exact .finish _

end

/-!
## Beginnings
-/

/-- How long a call waits for the answer to its request: as long as the operation says, but
at least 100 ms and at most five minutes, or else as long as the session says. -/
def effectiveTimeout (settings : Settings) : Operation -> Nat
  | .request _ _ timeout => (timeout.map Limit.requestTimeout).getD settings.defaultTimeoutMs
  | _ => settings.defaultTimeoutMs

def openingLicence (s : Session D) (op : Operation) : Licence where
  reaches k := s.ready? = some k
  own := none
  number := s.nextNumber
  now := s.now
  utters message := exists method params, op = .notify method params ∧
    message = .notification method params
  waits method timeout := (exists params limit, op = .request method params limit) ∧
    timeout = effectiveTimeout s.settings op
  reads _ _ := False
  hands _ _ := False

theorem openingLicence_fits (s : Session D) (op : Operation) : (s.openingLicence op).Fits s :=
  ⟨fun _ h => h, rfl, rfl⟩

theorem OpeningStep.abides {s : Session D} {op : Operation} {effects : List (Effect D)}
    (h : OpeningStep s op effects) :
    forall e, e ∈ effects -> e.Abides (s.openingLicence op) := by
  have hfits := s.openingLicence_fits op
  cases h with
  | asks method params limit k ready =>
      exact List.forall_mem_cons.mpr ⟨.draw, List.forall_mem_singleton.mpr
        (hfits.inquire ready method params ⟨⟨params, limit, rfl⟩, rfl⟩)⟩
  | notifies method params k ready =>
      exact List.forall_mem_singleton.mpr
        (.of_notify method params rfl rfl rfl ready ⟨method, params, rfl, rfl⟩)
  | syncs _ _ starts | queries _ _ _ starts =>
      exact List.forall_mem_singleton.mpr (starts.abides hfits)
  | closes name k uri ready =>
      exact List.forall_mem_singleton.mpr
        (.ask k (.close uri) .closing (.of_unclaimed rfl rfl rfl)
        rfl (fun _ => rfl) (Or.inr ready) nofun nofun)
  | looksUp _ _ _ _ looks => exact List.forall_mem_singleton.mpr looks.abides
  | counts k =>
      exact List.forall_mem_singleton.mpr (.of_silent k rfl rfl rfl fun _ => rfl)
  | waits | edits | editsFirst =>
      exact List.forall_mem_singleton.mpr (.rest _ (.of_unclaimed rfl rfl rfl))
  | _ => exact List.forall_mem_singleton.mpr (.finish _)

theorem begin_abiding (s : Session D) (id : Nat) (op : Operation)
    (hstart : forall launch, op ≠ .start launch) (hstop : forall force, op ≠ .stop force) :
    Abiding (s.openingLicence op) id s (s.begin id op) := by
  rcases s.begin_openingStep id hstart hstop with ⟨effects, step, hu⟩
  exact ⟨effects, step.abides, hu⟩

/-!
## Going on
-/

variable [FileSystem D]

def goingLicence (s : Session D) (task : Task) : Licence where
  reaches k := s.ready? = some k ∨ task.claim? = some k
  own := task.request?
  number := s.nextNumber
  now := s.now
  utters message := exists params, message = .notification "textDocument/didSave" params
  waits method timeout := (exists q : Query, method = q.method) ∧
    timeout = s.settings.defaultTimeoutMs ∧ task.request? = none
  reads k input := exists name next, task = .reading k name next ∧ s.readFile name = .ok input
  hands k input := exists next, task = .handing k input next

theorem goingLicence_fits (s : Session D) (task : Task) : (s.goingLicence task).Fits s :=
  ⟨fun _ h => Or.inl h, rfl, rfl⟩

theorem UserStep.abides {s : Session D} {call : Call} {task : Task} {effects : List (Effect D)}
    (h : UserStep s call task effects) :
    forall e, e ∈ effects -> e.Abides (s.goingLicence task) := by
  have hfits := s.goingLicence_fits task
  cases h with
  | withdraws k number | gaveUp k number =>
      exact List.forall_mem_cons.mpr
        ⟨.abandon k number rfl, List.forall_mem_singleton.mpr (.finish _)⟩
  | reads k name next input read =>
      refine List.forall_mem_singleton.mpr (.rest _ ⟨rfl, rfl, fun j hj => Or.inr hj, ?_⟩)
      rintro k' input' next' ⟨⟩
      exact ⟨name, next, rfl, read⟩
  | cannotRead _ _ _ _ _ _ fails | syncRefused _ _ _ _ fails | notSynced _ _ _ _ _ fails =>
      exact List.forall_mem_singleton.mpr fails.abides
  | hands k input next =>
      refine List.forall_mem_singleton.mpr
        (.ask k (.sync input) _ (.of_unclaimed rfl rfl rfl) rfl
        (fun _ => rfl) (Or.inr (Or.inr rfl)) nofun fun input' t t' hsync => ?_)
      injection hsync with hinput
      exact ⟨next, hinput ▸ rfl⟩
  | synced _ _ _ _ ends =>
      exact ends.abides hfits (fun params => ⟨params, rfl⟩) fun q => ⟨⟨q, rfl⟩, rfl, rfl⟩
  | overhears | missed =>
      exact List.forall_mem_singleton.mpr (.rest _ (.of_unclaimed rfl rfl rfl))
  | announced _ _ _ _ _ _ _ looks | expired _ _ _ _ _ _ looks =>
      exact List.forall_mem_singleton.mpr looks.abides
  | edits _ _ _ workspace =>
      exact List.forall_mem_cons.mpr ⟨.store workspace,
        List.forall_mem_singleton.mpr (.rest _ (.of_unclaimed rfl rfl rfl))⟩
  | edited _ _ workspace _ _ _ _ checks =>
      exact List.forall_mem_cons.mpr
        ⟨.store workspace, List.forall_mem_singleton.mpr checks.abides⟩
  | leftAlone _ _ workspace _ _ _ _ continues =>
      exact List.forall_mem_cons.mpr
        ⟨.store workspace, List.forall_mem_singleton.mpr continues.abides⟩
  | isOpen _ _ _ _ starts => exact List.forall_mem_singleton.mpr (starts.abides hfits)
  | notOpen _ _ _ _ _ _ continues | saved _ _ _ _ _ continues =>
      exact List.forall_mem_singleton.mpr continues.abides
  | _ => exact List.forall_mem_singleton.mpr (.finish _)

theorem stepTask_abiding {s u : Session D} {id : Nat} {call : Call} {task : Task}
    (htask : task.isLifecycle = false) (h : s.stepTask id call task = some u) :
    Abiding (s.goingLicence task) id s u := by
  rcases stepTask_userStep htask h with ⟨effects, step, hu⟩
  exact ⟨effects, step.abides, hu⟩

/-!
## Leaving a request
-/

/-- Why a call does not wait any longer for the answer to its request, and how it ends.
Withdrawal by the user counts before an answer, and an answer before the deadline. -/
inductive Departs (now : Nat) (call : Call) (method : String) (timeout deadline : Nat) :
    Outcome -> Prop where
  | withdrawn (cancelled : call.cancelled = true) :
      Departs now call method timeout deadline (.error (.requestCancelled method))
  | answered (r : Except Failure Json) (kept : call.cancelled = false)
      (heard : call.mailbox = some (.response r)) :
      Departs now call method timeout deadline (r.map .json)
  | refused (a : Answer) (kept : call.cancelled = false) (heard : call.mailbox = some a)
      (other : forall r, a ≠ .response r) :
      Departs now call method timeout deadline (.error .notRunning)
  | expired (kept : call.cancelled = false) (unheard : call.mailbox = none)
      (due : deadline ≤ now) :
      Departs now call method timeout deadline (.error (.requestTimeout method timeout))

/-- A call gives up its request only if it is withdrawn or no answer has come. -/
theorem requesting_departs {s u : Session D} {id : Nat} {call : Call} {k number : Nat}
    {method : String} {timeout deadline : Nat}
    (h : s.stepTask id call (.requesting k number method timeout deadline) = some u) :
    exists before outcome, Departs s.now call method timeout deadline outcome ∧
      u = s.undergo id (before ++ [.finish outcome]) ∧
      (before = [] ∨ before = [.abandon k number] ∧
        (call.cancelled = true ∨ call.mailbox = none)) := by
  rcases stepTask_userStep rfl h with ⟨effects, step, hu⟩
  cases step with
  | withdraws _ _ _ _ _ cancelled =>
      exact ⟨[.abandon k number], _, .withdrawn cancelled, hu, Or.inr ⟨rfl, Or.inl cancelled⟩⟩
  | responded _ _ _ _ _ r kept heard => exact ⟨[], _, .answered r kept heard, hu, Or.inl rfl⟩
  | notResponded _ _ _ _ _ a kept heard other =>
      exact ⟨[], _, .refused a kept heard other, hu, Or.inl rfl⟩
  | gaveUp _ _ _ _ _ kept unheard due =>
      exact ⟨[.abandon k number], _, .expired kept unheard due, hu,
        Or.inr ⟨rfl, Or.inr unheard⟩⟩

/-- A call that is withdrawn, answered or late goes on. -/
theorem requesting_goesOn (s : Session D) (id : Nat) {call : Call} {k number : Nat}
    {method : String} {timeout deadline : Nat}
    (h : call.cancelled = true ∨ call.mailbox ≠ none ∨ deadline ≤ s.now) :
    s.stepTask id call (.requesting k number method timeout deadline) ≠ none := by
  simp only [stepTask]
  split
  case isTrue => exact Option.some_ne_none _
  case isFalse hkept =>
    split
    case h_1 => exact Option.some_ne_none _
    case h_2 => exact Option.some_ne_none _
    case h_3 hmail =>
      rw [if_pos]
      · exact Option.some_ne_none _
      · exact (h.resolve_left hkept).resolve_left fun hne => hne hmail

end Session
end LanguageClient
